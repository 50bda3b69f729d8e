import Mathlib.Tactic

/-!
# Circular queues

A queue in an array of `n` slots, between a head and a tail index that go round. One slot stays
free, so that the indices are equal only if the queue is empty.
-/

namespace NetPipe

/-- The slots from `head` to `tail` hold `items`. -/
structure Ring {α : Type*} (n : ℕ) (slots : ℕ → α) (head tail : ℕ) (items : List α) : Prop where
  head_lt : head < n
  tail_eq : tail = (head + items.length) % n
  room : items.length < n
  slot : ∀ i (hi : i < items.length), slots ((head + i) % n) = items[i]

namespace Ring

variable {α : Type*} {n head tail : ℕ} {slots : ℕ → α} {items : List α} {x : α}

lemma empty (hn : 0 < n) (slots : ℕ → α) : Ring n slots 0 0 [] :=
  ⟨hn, by simp, hn, fun i hi => absurd hi (Nat.not_lt_zero i)⟩

lemma add_mod_inj {i j : ℕ} (hi : i < n) (hj : j < n) (h : (head + i) % n = (head + j) % n) :
    i = j := by
  have hmod : i ≡ j [MOD n] := Nat.ModEq.add_left_cancel' head h
  rwa [Nat.ModEq, Nat.mod_eq_of_lt hi, Nat.mod_eq_of_lt hj] at hmod

/-- The indices would become equal exactly if one slot is left. -/
lemma succ_tail_eq_head (h : Ring n slots head tail items) :
    (tail + 1) % n = head ↔ items.length + 1 = n := by
  rw [h.tail_eq, Nat.mod_add_mod]
  constructor
  · intro heq
    by_contra hne
    have hlt : items.length + 1 < n := lt_of_le_of_ne h.room hne
    have hmod : (head + (items.length + 1)) % n = (head + 0) % n := by
      rw [← Nat.add_assoc, heq, Nat.add_zero, Nat.mod_eq_of_lt h.head_lt]
    exact Nat.succ_ne_zero _ (add_mod_inj hlt (Nat.zero_lt_of_lt hlt) hmod)
  · intro heq
    rw [Nat.add_assoc, heq, Nat.add_mod_right, Nat.mod_eq_of_lt h.head_lt]

/-- As long as there is room, the slot at the tail is free. -/
lemma slot_ne_tail (h : Ring n slots head tail items) {i : ℕ} (hi : i < items.length) :
    (head + i) % n ≠ tail := by
  rw [h.tail_eq]
  intro heq
  exact Nat.ne_of_lt hi (add_mod_inj (hi.trans h.room) h.room heq)

/-- An item is written to the slot at the tail, which does not belong to the queue yet. -/
lemma store (h : Ring n slots head tail items) (x : α) :
    Ring n (Function.update slots tail x) head tail items where
  head_lt := h.head_lt
  tail_eq := h.tail_eq
  room := h.room
  slot i hi := by rw [Function.update_of_ne (h.slot_ne_tail hi), h.slot i hi]

/-- The tail moves behind the item in its slot. -/
lemma advance (h : Ring n slots head tail items) (hroom : items.length + 1 < n)
    (hx : slots tail = x) : Ring n slots head ((tail + 1) % n) (items ++ [x]) := by
  refine ⟨h.head_lt, ?_, by simpa using hroom, fun i hi => ?_⟩
  · rw [h.tail_eq, Nat.mod_add_mod, List.length_append, List.length_singleton, Nat.add_assoc]
  · rw [List.length_append, List.length_singleton] at hi
    rcases Nat.lt_succ_iff_lt_or_eq.mp hi with hi | rfl
    · rw [h.slot i hi, List.getElem_append_left hi]
    · rw [← h.tail_eq, hx]
      simp

lemma room_of_succ_tail_ne (h : Ring n slots head tail items) (hroom : (tail + 1) % n ≠ head) :
    items.length + 1 < n :=
  lt_of_le_of_ne h.room (mt h.succ_tail_eq_head.mpr hroom)

/-- An item is stored at the tail. -/
lemma push (h : Ring n slots head tail items) (hroom : (tail + 1) % n ≠ head) (x : α) :
    Ring n (Function.update slots tail x) head ((tail + 1) % n) (items ++ [x]) :=
  (h.store x).advance (h.room_of_succ_tail_ne hroom) (Function.update_self ..)

lemma tail_lt (h : Ring n slots head tail items) : tail < n :=
  h.tail_eq ▸ Nat.mod_lt _ (Nat.zero_lt_of_lt h.head_lt)

/-- The indices are equal exactly if nothing is in the queue. -/
lemma head_eq_tail (h : Ring n slots head tail items) : head = tail ↔ items = [] := by
  constructor
  · intro heq
    by_contra hne
    have hslot := h.slot_ne_tail (List.length_pos_iff.mpr hne)
    rw [Nat.add_zero, Nat.mod_eq_of_lt h.head_lt] at hslot
    exact hslot heq
  · rintro rfl
    rw [h.tail_eq, List.length_nil, Nat.add_zero, Nat.mod_eq_of_lt h.head_lt]

/-- The first item is read at the head. -/
lemma head_eq (h : Ring n slots head tail (x :: items)) : slots head = x := by
  have hslot := h.slot 0 (by simp)
  rwa [Nat.add_zero, Nat.mod_eq_of_lt h.head_lt] at hslot

/-- The first item is taken out. -/
lemma pop (h : Ring n slots head tail (x :: items)) :
    Ring n slots ((head + 1) % n) tail items := by
  refine ⟨Nat.mod_lt _ (Nat.zero_lt_of_lt h.head_lt), ?_, Nat.lt_of_succ_lt h.room, ?_⟩
  · rw [h.tail_eq, Nat.mod_add_mod, List.length_cons, Nat.add_right_comm, Nat.add_assoc]
  · intro i hi
    have hslot := h.slot (i + 1) (Nat.succ_lt_succ hi)
    rw [Nat.mod_add_mod, Nat.add_assoc, Nat.add_comm 1 i, hslot]
    simp

end Ring

end NetPipe
