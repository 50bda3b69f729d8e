import Mathlib.Tactic

/-!
# Transfers in parts

A number of items is moved by calls that each move as many as they can: the loop calls again until
nothing is left. A call may move nothing, because nothing can be moved yet or because nothing ever will
be, and it may fail.
-/

namespace NetPipe.Transfers

/-- The answer to a call: the number of items it can move, a request to try again, or a failure. -/
inductive Answer where
  | count (k : ℕ)
  | again
  | failed
  deriving DecidableEq, Repr

/-- The items that can be moved. -/
def Answer.amount : Answer → ℕ
  | .count k => k
  | _ => 0

/-- Moving items changes a state, and items can be moved in parts. -/
structure Mover (σ : Type*) where
  move : ℕ → σ → σ
  move_zero : ∀ s, move 0 s = s
  move_add : ∀ a b s, move (a + b) s = move b (move a s)

attribute [simp] Mover.move_zero

/-- The end of a loop: all is done, with the answers that are left, or a call has failed with `left`
items to move. -/
inductive Result (σ : Type*) where
  | done (ans : ℕ → Answer) (s : σ)
  | failed (left : ℕ) (s : σ)

variable {σ : Type*} (M : Mover σ)

/-- The answers behind the first. -/
def shift (ans : ℕ → Answer) : ℕ → Answer := fun i => ans (i + 1)

/-- The loop that moves `n` items, if `fuel` is enough. -/
def loop : ℕ → (ℕ → Answer) → ℕ → σ → Option (Result σ)
  | 0, _, _, _ => none
  | fuel + 1, ans, n, s =>
    if n = 0 then some (.done ans s)
    else match ans 0 with
      | .count k => loop fuel (shift ans) (n - min k n) (M.move (min k n) s)
      | .again => loop fuel (shift ans) n s
      | .failed => some (.failed n s)

/-- The answers bring the loop to its end: one of them is a failure, or they suffice for `n` items. -/
def Enough (ans : ℕ → Answer) (n : ℕ) : Prop :=
  (∃ j, ans j = .failed) ∨ ∃ j, n ≤ ∑ i ∈ Finset.range j, (ans i).amount

variable {M} {ans ans' : ℕ → Answer} {n left k : ℕ} {s s' : σ} {r : Result σ}

/-! ### What the loop does -/

lemma loop_zero (fuel : ℕ) : loop M (fuel + 1) ans 0 s = some (.done ans s) := by
  rw [loop, if_pos rfl]

lemma loop_count (hn : n ≠ 0) (h : ans 0 = .count k) (fuel : ℕ) : loop M (fuel + 1) ans n s =
    loop M fuel (shift ans) (n - min k n) (M.move (min k n) s) := by
  rw [loop, if_neg hn, h]

lemma loop_again (hn : n ≠ 0) (h : ans 0 = .again) (fuel : ℕ) :
    loop M (fuel + 1) ans n s = loop M fuel (shift ans) n s := by
  rw [loop, if_neg hn, h]

lemma loop_failed (hn : n ≠ 0) (h : ans 0 = .failed) (fuel : ℕ) :
    loop M (fuel + 1) ans n s = some (.failed n s) := by
  rw [loop, if_neg hn, h]

/-- Exactly `n` items were moved, or exactly those that are not left. -/
def Exact (M : Mover σ) (ans : ℕ → Answer) (n : ℕ) (s : σ) : Result σ → Prop
  | .done _ s' => s' = M.move n s
  | .failed left s' => left ≤ n ∧ s' = M.move (n - left) s ∧ ∃ j, ans j = .failed

lemma exact_of_loop {fuel : ℕ} (h : loop M fuel ans n s = some r) : Exact M ans n s r := by
  induction fuel generalizing ans n s with
  | zero => cases h
  | succ fuel ih =>
    rcases Nat.eq_zero_or_pos n with rfl | hpos
    · rw [loop_zero] at h
      cases h
      exact (M.move_zero s).symm
    have hn : n ≠ 0 := hpos.ne'
    cases ha : ans 0 with
    | count k =>
      rw [loop_count hn ha] at h
      have hrest := ih h
      cases r with
      | done ans' s' =>
        have hs' : s' = M.move (n - min k n) (M.move (min k n) s) := hrest
        rw [Exact, hs', ← M.move_add]
        congr 1
        omega
      | failed left s' =>
        obtain ⟨hle, hs', j, hj⟩ := hrest
        refine ⟨by omega, ?_, j + 1, hj⟩
        rw [hs', ← M.move_add]
        congr 1
        omega
    | again =>
      rw [loop_again hn ha] at h
      have hrest := ih h
      cases r with
      | done ans' s' => exact hrest
      | failed left s' =>
        obtain ⟨hle, hs', j, hj⟩ := hrest
        exact ⟨hle, hs', j + 1, hj⟩
    | failed =>
      rw [loop_failed hn ha] at h
      cases h
      exact ⟨le_rfl, by simp, 0, ha⟩

lemma sum_shift (ans : ℕ → Answer) (j : ℕ) : ∑ i ∈ Finset.range (j + 1), (ans i).amount =
    (ans 0).amount + ∑ i ∈ Finset.range j, (shift ans i).amount := by
  rw [Finset.sum_range_succ', add_comm]
  rfl

lemma enough_zero : Enough ans 0 := .inr ⟨0, Nat.zero_le _⟩

/-- The first answer and the others. -/
lemma enough_iff (hn : n ≠ 0) (h : ans 0 ≠ .failed) :
    Enough ans n ↔ Enough (shift ans) (n - min (ans 0).amount n) := by
  constructor
  · rintro (⟨j, hj⟩ | ⟨j, hj⟩)
    · cases j with
      | zero => exact absurd hj h
      | succ j => exact .inl ⟨j, hj⟩
    · cases j with
      | zero =>
        rw [Finset.range_zero, Finset.sum_empty] at hj
        omega
      | succ j =>
        rw [sum_shift] at hj
        exact .inr ⟨j, by omega⟩
  · rintro (⟨j, hj⟩ | ⟨j, hj⟩)
    · exact .inl ⟨j + 1, hj⟩
    · refine .inr ⟨j + 1, ?_⟩
      rw [sum_shift]
      omega

lemma enough_of_loop {fuel : ℕ} (h : loop M fuel ans n s = some r) : Enough ans n := by
  induction fuel generalizing ans n s with
  | zero => cases h
  | succ fuel ih =>
    rcases Nat.eq_zero_or_pos n with rfl | hpos
    · exact enough_zero
    have hn : n ≠ 0 := hpos.ne'
    cases ha : ans 0 with
    | count k =>
      rw [loop_count hn ha] at h
      rw [enough_iff hn (by simp [ha]), ha]
      exact ih h
    | again =>
      rw [loop_again hn ha] at h
      rw [enough_iff hn (by simp [ha]), ha]
      exact ih h
    | failed => exact .inl ⟨0, ha⟩

lemma exists_loop_of_failed {j : ℕ} (h : ans j = .failed) : ∃ fuel r, loop M fuel ans n s = some r := by
  induction j generalizing ans n s with
  | zero =>
    rcases Nat.eq_zero_or_pos n with rfl | hpos
    · exact ⟨1, _, loop_zero 0⟩
    · exact ⟨1, _, loop_failed hpos.ne' h 0⟩
  | succ j ih =>
    rcases Nat.eq_zero_or_pos n with rfl | hpos
    · exact ⟨1, _, loop_zero 0⟩
    have hn : n ≠ 0 := hpos.ne'
    have hshift : shift ans j = .failed := h
    cases ha : ans 0 with
    | count k =>
      obtain ⟨fuel, r, hr⟩ := ih hshift
      exact ⟨fuel + 1, r, (loop_count hn ha fuel).trans hr⟩
    | again =>
      obtain ⟨fuel, r, hr⟩ := ih hshift
      exact ⟨fuel + 1, r, (loop_again hn ha fuel).trans hr⟩
    | failed => exact ⟨1, _, loop_failed hn ha 0⟩

lemma exists_loop_of_sum {j : ℕ} (h : n ≤ ∑ i ∈ Finset.range j, (ans i).amount) :
    ∃ fuel r, loop M fuel ans n s = some r := by
  induction j generalizing ans n s with
  | zero =>
    rw [Finset.range_zero, Finset.sum_empty, Nat.le_zero] at h
    subst h
    exact ⟨1, _, loop_zero 0⟩
  | succ j ih =>
    rcases Nat.eq_zero_or_pos n with rfl | hpos
    · exact ⟨1, _, loop_zero 0⟩
    have hn : n ≠ 0 := hpos.ne'
    rw [sum_shift] at h
    cases ha : ans 0 with
    | count k =>
      have hk : (ans 0).amount = k := by rw [ha]; rfl
      have hrest : n - min k n ≤ ∑ i ∈ Finset.range j, (shift ans i).amount := by omega
      obtain ⟨fuel, r, hr⟩ := ih hrest
      exact ⟨fuel + 1, r, (loop_count hn ha fuel).trans hr⟩
    | again =>
      have hzero : (ans 0).amount = 0 := by rw [ha]; rfl
      rw [hzero, zero_add] at h
      obtain ⟨fuel, r, hr⟩ := ih h
      exact ⟨fuel + 1, r, (loop_again hn ha fuel).trans hr⟩
    | failed => exact ⟨1, _, loop_failed hn ha 0⟩

/-- The loop ends if and only if the answers are enough for it. -/
theorem exists_loop_iff : (∃ fuel r, loop M fuel ans n s = some r) ↔ Enough ans n := by
  constructor
  · rintro ⟨fuel, r, h⟩
    exact enough_of_loop h
  · rintro (⟨j, hj⟩ | ⟨j, hj⟩)
    · exact exists_loop_of_failed hj
    · exact exists_loop_of_sum hj

end NetPipe.Transfers
