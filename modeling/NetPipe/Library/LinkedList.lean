import Mathlib.Tactic

/-!
# Linked lists in memory

Nodes that are allocated at addresses and point to the next node, the lists that they form, and
what a write to one node does to a list.
-/

namespace NetPipe

/-- A node of a linked list; `next` is `none` for a null pointer. -/
structure Node (α : Type*) where
  val : α
  next : Option ℕ
  deriving DecidableEq, Repr

/-- The allocated nodes by their address. -/
abbrev Heap (α : Type*) := ℕ → Option (Node α)

namespace Heap

variable {α : Type*} {mem mem' : Heap α} {p q r : Option ℕ} {l l₁ l₂ : List (ℕ × α)}
  {a b c : ℕ} {x y : α} {f : α → Bool}

/-- Sets the pointer of the node at `a`, if there is a node. -/
def setNext (mem : Heap α) (a : ℕ) (q : Option ℕ) : Option (Heap α) :=
  (mem a).map fun node => Function.update mem a (some { node with next := q })

/-- The loop that goes from `p` to the first node with a value that `f` accepts, with the node
before it. It has no result if it comes to an address without a node, or to more than `n` nodes. -/
def find (mem : Heap α) (f : α → Bool) : ℕ → Option ℕ → Option ℕ → Option (Option ℕ × Option ℕ)
  | _, prev, none => some (prev, none)
  | 0, _, some _ => none
  | n + 1, prev, some a =>
    (mem a).bind fun node =>
      if f node.val then some (prev, some a) else find mem f n (some a) node.next

/-- The loop that goes from node `a` to the last node. It has no result if it comes to an address
without a node, or to more than `n` nodes. -/
def last (mem : Heap α) : ℕ → ℕ → Option ℕ
  | 0, _ => none
  | n + 1, a => (mem a).bind fun node => node.next.elim (some a) (last mem n)

/-- The nodes of `l` are linked in this order from `p` on, and the last one points to `q`. -/
def Segment (mem : Heap α) : Option ℕ → List (ℕ × α) → Option ℕ → Prop
  | p, [], q => p = q
  | p, (a, x) :: l, q => p = some a ∧ ∃ r, mem a = some ⟨x, r⟩ ∧ Segment mem r l q

@[simp]
lemma segment_nil : mem.Segment p [] q ↔ p = q := Iff.rfl

@[simp]
lemma segment_cons : mem.Segment p ((a, x) :: l) q ↔
    p = some a ∧ ∃ r, mem a = some ⟨x, r⟩ ∧ mem.Segment r l q := Iff.rfl

lemma segment_append : mem.Segment p (l₁ ++ l₂) q ↔
    ∃ r, mem.Segment p l₁ r ∧ mem.Segment r l₂ q := by
  induction l₁ generalizing p with
  | nil => simp
  | cons ax l₁ ih =>
    obtain ⟨a, x⟩ := ax
    simp only [List.cons_append, segment_cons, ih]
    constructor
    · rintro ⟨hp, r, ha, s, hl₁, hl₂⟩
      exact ⟨s, ⟨hp, r, ha, hl₁⟩, hl₂⟩
    · rintro ⟨s, ⟨hp, r, ha, hl₁⟩, hl₂⟩
      exact ⟨hp, r, ha, s, hl₁, hl₂⟩

/-- A segment depends on its own nodes only. -/
lemma Segment.congr (h : mem.Segment p l q) (hmem : ∀ a ∈ l.map Prod.fst, mem' a = mem a) :
    mem'.Segment p l q := by
  induction l generalizing p with
  | nil => exact h
  | cons ax l ih =>
    obtain ⟨hp, r, ha, hl⟩ := h
    refine ⟨hp, r, ?_, ih hl fun b hb => hmem b ?_⟩
    · rw [hmem ax.1 (by simp), ha]
    · simp only [List.map_cons, List.mem_cons]
      exact Or.inr hb

lemma Segment.update (h : mem.Segment p l q) (ha : a ∉ l.map Prod.fst) (v : Option (Node α)) :
    Segment (Function.update mem a v) p l q := by
  apply h.congr
  intro b hb
  rw [Function.update_of_ne]
  rintro rfl
  exact ha hb

/-- A list is given by its first node. -/
lemma Segment.unique (h₁ : mem.Segment p l₁ none) (h₂ : mem.Segment p l₂ none) : l₁ = l₂ := by
  induction l₁ generalizing p l₂ with
  | nil =>
    rw [segment_nil] at h₁
    subst h₁
    cases l₂ with
    | nil => rfl
    | cons bx l₂ => cases h₂.1
  | cons ax l₁ ih =>
    obtain ⟨rfl, r, ha, hl₁⟩ := h₁
    cases l₂ with
    | nil => cases h₂
    | cons bx l₂ =>
      obtain ⟨hab, s, hb, hl₂⟩ := h₂
      have hfst : ax.1 = bx.1 := Option.some.inj hab
      rw [← hfst, ha] at hb
      have hnode := Option.some.inj hb
      injection hnode with hval hnext
      subst hnext
      rw [ih hl₁ hl₂, Prod.ext hfst hval]

/-- Every node of a segment is allocated. -/
lemma Segment.isSome (h : mem.Segment p l q) (ha : a ∈ l.map Prod.fst) : (mem a).isSome := by
  induction l generalizing p with
  | nil => simp at ha
  | cons ax l ih =>
    obtain ⟨-, r, hnode, hl⟩ := h
    rcases List.mem_cons.mp ha with rfl | ha
    · simp [hnode]
    · exact ih hl ha

lemma Segment.not_mem (h : mem.Segment p l q) (hc : mem c = none) : c ∉ l.map Prod.fst := by
  intro hmem
  have := h.isSome hmem
  simp [hc] at this

/-- A new node is linked behind the last one. -/
lemma Segment.append_last (h : mem.Segment p (l ++ [(b, y)]) none)
    (hnodup : (l.map Prod.fst ++ [b]).Nodup) (hc : mem c = none) :
    Segment (Function.update (Function.update mem b (some ⟨y, some c⟩)) c (some ⟨x, none⟩)) p
      (l ++ [(b, y), (c, x)]) none := by
  have hcnot := h.not_mem hc
  simp only [List.map_append, List.map_cons, List.map_nil, List.mem_append, List.mem_singleton,
    not_or] at hcnot
  obtain ⟨r, hl, hb⟩ := segment_append.mp h
  rw [segment_append]
  refine ⟨r, (hl.update ?_ _).update hcnot.1 _, hb.1, some c, ?_, rfl, none, ?_, rfl⟩
  · exact fun hmem => (List.nodup_append.mp hnodup).2.2 b hmem b (by simp) rfl
  · rw [Function.update_of_ne (Ne.symm hcnot.2), Function.update_self]
  · rw [Function.update_self]

/-- A node behind another one is taken out. -/
lemma Segment.bypass (h : mem.Segment p (l₁ ++ (b, y) :: (a, x) :: l₂) none)
    (hnodup : ((l₁ ++ (b, y) :: (a, x) :: l₂).map Prod.fst).Nodup) :
    ∃ q, mem a = some ⟨x, q⟩ ∧ mem b = some ⟨y, some a⟩ ∧
      Segment (Function.update mem b (some ⟨y, q⟩)) p (l₁ ++ (b, y) :: l₂) none := by
  simp only [List.map_append, List.map_cons, List.nodup_append, List.nodup_cons, List.mem_cons,
    not_or] at hnodup
  obtain ⟨-, ⟨⟨-, hbl₂⟩, -⟩, hdisj⟩ := hnodup
  obtain ⟨r, hl₁, hr, s, hb, hs, q, ha, hl₂⟩ := segment_append.mp h
  subst hs
  refine ⟨q, ha, hb, segment_append.mpr ⟨r, hl₁.update ?_ _, hr, q, ?_, hl₂.update hbl₂ _⟩⟩
  · exact fun hmem => hdisj b hmem b (Or.inl rfl) rfl
  · rw [Function.update_self]

/-- A node behind another one is taken out and freed. -/
lemma Segment.unlink (h : mem.Segment p (l₁ ++ (b, y) :: (a, x) :: l₂) none)
    (hnodup : ((l₁ ++ (b, y) :: (a, x) :: l₂).map Prod.fst).Nodup) :
    ∃ q, mem a = some ⟨x, q⟩ ∧ mem b = some ⟨y, some a⟩ ∧
      Segment (Function.update (Function.update mem b (some ⟨y, q⟩)) a none) p
        (l₁ ++ (b, y) :: l₂) none := by
  obtain ⟨q, ha, hb, hbypass⟩ := h.bypass hnodup
  refine ⟨q, ha, hb, hbypass.update ?_ none⟩
  simp only [List.map_append, List.map_cons, List.nodup_append, List.nodup_cons, List.mem_cons,
    not_or] at hnodup
  obtain ⟨-, ⟨⟨hba, -⟩, hal₂, -⟩, hdisj⟩ := hnodup
  simp only [List.map_append, List.map_cons, List.mem_append, List.mem_cons, not_or]
  exact ⟨fun hmem => hdisj a hmem a (Or.inr (Or.inl rfl)) rfl, Ne.symm hba, hal₂⟩

/-- The value of a node is changed. -/
lemma Segment.set_val (h : mem.Segment p (l₁ ++ (a, x) :: l₂) q)
    (hnodup : ((l₁ ++ (a, x) :: l₂).map Prod.fst).Nodup) (y : α) :
    ∃ r, mem a = some ⟨x, r⟩ ∧
      Segment (Function.update mem a (some ⟨y, r⟩)) p (l₁ ++ (a, y) :: l₂) q := by
  simp only [List.map_append, List.map_cons, List.nodup_append, List.nodup_cons] at hnodup
  obtain ⟨-, ⟨hal₂, -⟩, hdisj⟩ := hnodup
  obtain ⟨s, hl₁, hs, r, ha, hl₂⟩ := segment_append.mp h
  refine ⟨r, ha, segment_append.mpr ⟨s, hl₁.update ?_ _, hs, r, ?_, hl₂.update hal₂ _⟩⟩
  · exact fun hmem => hdisj a hmem a List.mem_cons_self rfl
  · rw [Function.update_self]

/-- With enough steps the loop comes to the last node. -/
lemma Segment.last {n : ℕ} (h : mem.Segment (some a) (l ++ [(b, y)]) none) (hn : l.length < n) :
    mem.last n a = some b := by
  induction l generalizing a n with
  | nil =>
    obtain ⟨hab, r, hb, rfl⟩ := h
    obtain rfl := Option.some.inj hab
    obtain ⟨n, rfl⟩ := Nat.exists_eq_succ_of_ne_zero (Nat.ne_of_gt hn)
    simp [Heap.last, hb]
  | cons cz l ih =>
    obtain ⟨hac, r, hc, hl⟩ := h
    obtain rfl := Option.some.inj hac
    obtain ⟨n, rfl⟩ := Nat.exists_eq_succ_of_ne_zero (Nat.ne_of_gt (Nat.zero_lt_of_lt hn))
    have hr : ∃ d, r = some d := by
      cases l with
      | nil => exact ⟨_, hl.1⟩
      | cons dz l => exact ⟨_, hl.1⟩
    obtain ⟨d, rfl⟩ := hr
    simp only [Heap.last, hc, Option.bind_some, Option.elim_some]
    exact ih hl (Nat.lt_of_succ_lt_succ hn)

/-- The loop stops at the first node that `f` accepts. -/
lemma Segment.find {prev : Option ℕ} {n : ℕ} (h : mem.Segment p (l₁ ++ (a, x) :: l₂) q)
    (hl₁ : ∀ y ∈ l₁.map Prod.snd, f y = false) (hx : f x = true) (hn : l₁.length < n) :
    mem.find f n prev p = some (((l₁.map Prod.fst).getLast?).or prev, some a) := by
  induction l₁ generalizing p prev n with
  | nil =>
    obtain ⟨rfl, r, ha, -⟩ := h
    obtain ⟨n, rfl⟩ := Nat.exists_eq_succ_of_ne_zero (Nat.ne_of_gt hn)
    simp [Heap.find, ha, hx]
  | cons by' l₁ ih =>
    obtain ⟨rfl, r, hb, hl⟩ := h
    obtain ⟨n, rfl⟩ := Nat.exists_eq_succ_of_ne_zero (Nat.ne_of_gt (Nat.zero_lt_of_lt hn))
    have hy : f by'.2 = false := hl₁ _ (by simp)
    have hrest : mem.find f n (some by'.1) r =
        some (((l₁.map Prod.fst).getLast?).or (some by'.1), some a) := by
      apply ih hl _ (Nat.lt_of_succ_lt_succ hn)
      intro y hmem
      exact hl₁ y (by rw [List.map_cons]; exact List.mem_cons_of_mem _ hmem)
    simp only [Heap.find, hb, Option.bind_some, hy, Bool.false_eq_true, if_false, hrest]
    cases hlast : (l₁.map Prod.fst).getLast? with
    | none =>
      rw [List.getLast?_eq_none_iff] at hlast
      simp [hlast]
    | some b =>
      rw [List.map_cons, List.getLast?_cons, hlast]
      simp

/-- With enough steps the loop comes to the end if `f` accepts no node. -/
lemma Segment.find_none {prev : Option ℕ} {n : ℕ} (h : mem.Segment p l none)
    (hl : ∀ y ∈ l.map Prod.snd, f y = false) (hn : l.length ≤ n) :
    ∃ last, mem.find f n prev p = some (last, none) := by
  induction l generalizing p prev n with
  | nil =>
    cases h
    exact ⟨prev, by cases n <;> rfl⟩
  | cons bx l ih =>
    obtain ⟨rfl, r, hb, hl'⟩ := h
    obtain ⟨n, rfl⟩ := Nat.exists_eq_succ_of_ne_zero (Nat.ne_of_gt (Nat.lt_of_lt_of_le
      (Nat.zero_lt_succ _) hn))
    rw [List.map_cons, List.forall_mem_cons] at hl
    obtain ⟨last, hlast⟩ := @ih r (some bx.1) n hl' hl.2 (Nat.le_of_succ_le_succ hn)
    refine ⟨last, ?_⟩
    simp only [Heap.find, hb, Option.bind_some, hl.1, Bool.false_eq_true, if_false]
    exact hlast

/-- Where the loop stops. -/
lemma find_cases {prev last : Option ℕ} {n : ℕ} (h : mem.find f n prev p = some (last, q)) :
    ∃ l, mem.Segment p l q ∧ (∀ y ∈ l.map Prod.snd, f y = false) ∧
      ∀ a, q = some a → ∃ x r, mem a = some ⟨x, r⟩ ∧ f x = true := by
  induction n generalizing p prev with
  | zero =>
    cases p with
    | none =>
      cases h
      exact ⟨[], rfl, by simp, by simp⟩
    | some a => cases h
  | succ n ih =>
    cases p with
    | none =>
      cases h
      exact ⟨[], rfl, by simp, by simp⟩
    | some a =>
      obtain ⟨⟨x, r⟩, ha, h⟩ := Option.bind_eq_some_iff.mp h
      by_cases hx : f x = true
      · rw [if_pos hx] at h
        cases h
        refine ⟨[], rfl, by simp, fun b hb => ?_⟩
        cases hb
        exact ⟨x, r, ha, hx⟩
      · rw [if_neg hx] at h
        obtain ⟨l, hl, hfalse, hq⟩ := ih h
        refine ⟨(a, x) :: l, ⟨rfl, r, ha, hl⟩, ?_, hq⟩
        rw [List.map_cons, List.forall_mem_cons]
        exact ⟨Bool.eq_false_iff.mpr hx, hfalse⟩

end Heap

/-! ### Nodes without contents -/

/-- The pointers `next` lead from node `i` through the nodes of `l` to node `j`. -/
def Path (next : ℕ → ℕ) : ℕ → List ℕ → ℕ → Prop
  | i, [], j => next i = j
  | i, k :: l, j => next i = k ∧ Path next k l j

namespace Path

variable {next next' : ℕ → ℕ} {i i' j k : ℕ} {l l₁ l₂ : List ℕ}

@[simp]
lemma path_nil : Path next i [] j ↔ next i = j := Iff.rfl

@[simp]
lemma path_cons : Path next i (k :: l) j ↔ next i = k ∧ Path next k l j := Iff.rfl

lemma path_append : Path next i (l₁ ++ k :: l₂) j ↔ Path next i l₁ k ∧ Path next k l₂ j := by
  induction l₁ generalizing i with
  | nil => simp
  | cons m l₁ ih => rw [List.cons_append, path_cons, path_cons, ih, and_assoc]

/-- The way depends on the pointers of its own nodes only. -/
lemma congr (h : Path next i l j) (hfirst : next' i' = next i)
    (hrest : ∀ k ∈ l, next' k = next k) : Path next' i' l j := by
  induction l generalizing i i' with
  | nil => exact hfirst.trans h
  | cons k l ih =>
    obtain ⟨hk, hl⟩ := h
    refine ⟨hfirst.trans hk, ih hl (hrest k List.mem_cons_self) fun m hm => ?_⟩
    exact hrest m (List.mem_cons_of_mem k hm)

/-- The last node points past the node behind it. -/
lemma bypass (h₁ : Path next i l₁ k) (h₂ : Path next k l₂ j)
    (hnodup : (i :: l₁).Nodup) (hlast : next' (l₁.getLastD i) = next k)
    (hrest : ∀ m ∈ i :: l₁, m ≠ l₁.getLastD i → next' m = next m)
    (htail : ∀ m ∈ l₂, next' m = next m) : Path next' i (l₁ ++ l₂) j := by
  induction l₁ generalizing i with
  | nil => exact h₂.congr hlast htail
  | cons m l₁ ih =>
    obtain ⟨hm, hl₁⟩ := h₁
    rw [List.getLastD_cons] at hlast hrest
    have hne : i ≠ l₁.getLastD m := by
      intro heq
      have hmem := List.getLastD_mem_cons (l := l₁) (a := m)
      rw [← heq] at hmem
      exact (List.nodup_cons.mp hnodup).1 hmem
    refine ⟨(hrest i List.mem_cons_self hne).trans hm, ?_⟩
    exact ih hl₁ (List.nodup_cons.mp hnodup).2 hlast fun m' hm' =>
      hrest m' (List.mem_cons_of_mem i hm')

/-- The last node of a way, and what it points to. -/
lemma next_last (h : Path next i l j) : next (l.getLastD i) = j := by
  induction l generalizing i with
  | nil => exact h
  | cons k l ih =>
    rw [List.getLastD_cons]
    exact ih h.2

end Path

end NetPipe
