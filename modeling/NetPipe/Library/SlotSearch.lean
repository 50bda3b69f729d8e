import Mathlib.Tactic

/-!
# The next free slot

A table with `n` slots is searched like a ring, from behind the slot that was taken last, until a
slot is free or the search is back where it started.
-/

namespace NetPipe

/-- The loop of the search at `pos`. It gives up, with `none`, when `start` is in use too, and it
has no result if `fuel` passes are not enough. -/
def slotLoop (used : ℕ → Prop) [DecidablePred used] (n start : ℕ) : ℕ → ℕ → Option (Option ℕ)
  | 0, _ => none
  | fuel + 1, pos =>
    if used (pos % n) then
      if pos % n = start then some none else slotLoop used n start fuel (pos + 1)
    else some (some pos)

/-- The first free slot behind `start`, counted on from there. The last one is `start` itself. -/
def nextFree (used : ℕ → Prop) [DecidablePred used] (n start : ℕ) : Option ℕ :=
  (List.range' (start + 1) n).find? fun pos => ¬ used (pos % n)

section

variable {used : ℕ → Prop} [DecidablePred used] {n start fuel pos : ℕ}

/-- The search does not meet `start` again before it has been through all slots. -/
lemma mod_ne_start (hlow : start < pos) (hhigh : pos < start + n) (hstart : start < n) :
    pos % n ≠ start := by
  rcases Nat.lt_or_ge pos n with hpos | hpos
  · rw [Nat.mod_eq_of_lt hpos]
    exact hlow.ne'
  · rw [Nat.mod_eq_sub_mod hpos, Nat.mod_eq_of_lt (by omega)]
    omega

/-- With `m` slots before `start` left, the loop finds the first free one of them. -/
lemma slotLoop_eq_find? {m : ℕ} (hpos : pos + m = start + n) (hm : m < n) (hstart : start < n)
    (hfuel : m < fuel) : slotLoop used n start fuel pos =
      some ((List.range' pos (m + 1)).find? fun i => ¬ used (i % n)) := by
  induction m generalizing pos fuel with
  | zero =>
    obtain ⟨fuel, rfl⟩ := Nat.exists_eq_succ_of_ne_zero (Nat.ne_of_gt hfuel)
    have hlast : pos % n = start := by
      rw [show pos = start + n from hpos, Nat.add_mod_right, Nat.mod_eq_of_lt hstart]
    by_cases hused : used (pos % n)
    · simp [slotLoop, hlast, hlast ▸ hused]
    · simp [slotLoop, hused]
  | succ m ih =>
    obtain ⟨fuel, rfl⟩ := Nat.exists_eq_succ_of_ne_zero (Nat.ne_of_gt (Nat.zero_lt_of_lt hfuel))
    have hne : pos % n ≠ start := mod_ne_start (by omega) (by omega) hstart
    rw [List.range'_succ, slotLoop, if_neg hne]
    by_cases hused : used (pos % n)
    · rw [if_pos hused, List.find?_cons_of_neg (by simpa using hused)]
      exact ih (by omega) (Nat.lt_of_succ_lt hm) (Nat.lt_of_succ_lt_succ hfuel)
    · rw [if_neg hused, List.find?_cons_of_pos (by simpa using hused)]

/-- The search goes through all slots, and ends with `start`. -/
theorem slotLoop_eq_nextFree (hstart : start < n) (hfuel : n ≤ fuel) :
    slotLoop used n start fuel (start + 1) = some (nextFree used n start) := by
  have hn : n - 1 + 1 = n := Nat.sub_add_cancel (Nat.zero_lt_of_lt hstart)
  have hloop : slotLoop used n start fuel (start + 1) =
      some ((List.range' (start + 1) (n - 1 + 1)).find? fun pos => ¬ used (pos % n)) :=
    slotLoop_eq_find? (by omega) (by omega) hstart (by omega)
  rwa [hn] at hloop

/-- A pass more does not change a result. -/
lemma slotLoop_mono {fuel' : ℕ} {r : Option ℕ} (hfuel : fuel ≤ fuel')
    (h : slotLoop used n start fuel pos = some r) : slotLoop used n start fuel' pos = some r := by
  induction fuel generalizing pos fuel' with
  | zero => cases h
  | succ fuel ih =>
    obtain ⟨fuel', rfl⟩ := Nat.exists_eq_add_of_lt hfuel
    rw [slotLoop] at h ⊢
    split_ifs at h ⊢ with hused hstart
    · exact h
    · exact ih (Nat.le_add_right _ _) h
    · exact h

/-- Whenever the search ends, this is what it ends with. -/
lemma eq_nextFree_of_slotLoop {r : Option ℕ} (hstart : start < n)
    (h : slotLoop used n start fuel (start + 1) = some r) : r = nextFree used n start := by
  have hmore := slotLoop_mono (le_max_left fuel n) h
  rw [slotLoop_eq_nextFree hstart (le_max_right fuel n)] at hmore
  exact (Option.some.inj hmore).symm

/-- If nothing is found, all slots are in use. -/
lemma used_of_nextFree (h : nextFree used n start = none) {i : ℕ} (hi : i < n) : used i := by
  have hmem : i ∈ (Finset.Ico (start + 1) (start + 1 + n)).image (· % n) := by
    rw [Nat.image_Ico_mod]
    exact Finset.mem_range.mpr hi
  obtain ⟨pos, hpos, rfl⟩ := Finset.mem_image.mp hmem
  rw [Finset.mem_Ico] at hpos
  have hused := List.find?_eq_none.mp h pos (List.mem_range'_1.mpr hpos)
  simpa using hused

/-- What is found is free. -/
lemma not_used_of_nextFree (h : nextFree used n start = some pos) : ¬ used (pos % n) := by
  simpa using List.find?_some h

/-- The search asks of the slots only if they are in use. -/
lemma nextFree_congr {used' : ℕ → Prop} [DecidablePred used'] (hn : 0 < n)
    (h : ∀ i, i < n → (used i ↔ used' i)) : nextFree used n start = nextFree used' n start := by
  rw [nextFree, nextFree]
  congr 1
  funext pos
  simp [h _ (Nat.mod_lt pos hn)]

end

end NetPipe
