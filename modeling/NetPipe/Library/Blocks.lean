import Mathlib.Tactic
import Mathlib.Data.Nat.Bitwise

/-!
# Blocks and partners

The numbers below `N` in blocks of `2 ^ k`, of which the last may be incomplete. The partner of a
number in step `k` differs in bit `k`, so its block and the partner's are the halves of a block of
`2 ^ (k + 1)`.
-/

namespace NetPipe.Blocks

/-- Block `c` of size `2 ^ k` contains a number below `N`. -/
def Occupied (N k c : ℕ) : Prop := c * 2 ^ k < N

instance (N k c : ℕ) : Decidable (Occupied N k c) := inferInstanceAs (Decidable (_ < _))

section

variable {N i k d : ℕ}

lemma partner_div (i k : ℕ) : (i ^^^ 2 ^ k) / 2 ^ k = i / 2 ^ k ^^^ 1 := by
  rw [Nat.xor_div_two_pow, Nat.div_self (by positivity)]

lemma div_succ (i k : ℕ) : i / 2 ^ (k + 1) = i / 2 ^ k / 2 := by
  rw [pow_succ, Nat.div_div_eq_div_mul]

/-- The two halves of a block. -/
lemma partner_cases (i k : ℕ) :
    i / 2 ^ k = 2 * (i / 2 ^ (k + 1)) ∧ (i ^^^ 2 ^ k) / 2 ^ k = 2 * (i / 2 ^ (k + 1)) + 1 ∨
      i / 2 ^ k = 2 * (i / 2 ^ (k + 1)) + 1 ∧ (i ^^^ 2 ^ k) / 2 ^ k = 2 * (i / 2 ^ (k + 1)) := by
  rw [partner_div, div_succ]
  rcases Nat.even_or_odd (i / 2 ^ k) with h | h
  · left
    rw [Nat.xor_one_of_even h]
    obtain ⟨m, hm⟩ := h
    omega
  · right
    rw [Nat.xor_one_of_odd h]
    obtain ⟨m, hm⟩ := h
    omega

lemma partner_partner (i k : ℕ) : i ^^^ 2 ^ k ^^^ 2 ^ k = i := Nat.xor_xor_cancel_right _ _

lemma partner_lt (hi : i < 2 ^ d) (hk : k < d) : i ^^^ 2 ^ k < 2 ^ d :=
  Nat.xor_lt_two_pow hi (Nat.pow_lt_pow_right Nat.one_lt_two hk)

lemma occupied_of_lt (hi : i < N) : Occupied N k (i / 2 ^ k) :=
  lt_of_le_of_lt (Nat.div_mul_le_self i (2 ^ k)) hi

/-- A block is occupied if one of its halves is. -/
lemma occupied_succ : Occupied N (k + 1) (i / 2 ^ (k + 1)) ↔
    Occupied N k (i / 2 ^ k) ∨ Occupied N k ((i ^^^ 2 ^ k) / 2 ^ k) := by
  have hstart : i / 2 ^ (k + 1) * 2 ^ (k + 1) = 2 * (i / 2 ^ (k + 1)) * 2 ^ k := by ring
  have hle : 2 * (i / 2 ^ (k + 1)) * 2 ^ k ≤ (2 * (i / 2 ^ (k + 1)) + 1) * 2 ^ k :=
    Nat.mul_le_mul_right _ (Nat.le_succ _)
  simp only [Occupied]
  rcases partner_cases i k with ⟨h₁, h₂⟩ | ⟨h₁, h₂⟩ <;> rw [h₁, h₂, hstart] <;> omega

/-- An occupied block with a number that is not below `N` contains the last number. -/
lemma last_div (hN : 0 < N) (hi : N ≤ i) (h : Occupied N k (i / 2 ^ k)) :
    (N - 1) / 2 ^ k = i / 2 ^ k := by
  refine le_antisymm (Nat.div_le_div_right (by omega)) ?_
  rw [Nat.le_div_iff_mul_le (by positivity)]
  exact Nat.le_sub_one_of_lt h

/-- The partner of the last number is in an empty block if it is not below `N`. -/
lemma last_partner (hN : 0 < N) (hi : N ≤ (N - 1) ^^^ 2 ^ k) :
    ¬ Occupied N k (((N - 1) ^^^ 2 ^ k) / 2 ^ k) := by
  intro h
  have hdiv := last_div hN hi h
  rcases partner_cases (N - 1) k with ⟨h₁, h₂⟩ | ⟨h₁, h₂⟩ <;> omega

end

/-! ### Combining blocks -/

variable {α : Type*} (op : α → α → α)

/-- Combine the elements of a list. -/
def combine : List α → Option α
  | [] => none
  | x :: xs => some (xs.foldl op x)

variable {op} {N i k c : ℕ} {x : ℕ → α}

/-- The values of the numbers below `N` in a block. -/
def block (N : ℕ) (x : ℕ → α) (k c : ℕ) : List α :=
  (List.range' (c * 2 ^ k) (min (2 ^ k) (N - c * 2 ^ k))).map x

end NetPipe.Blocks
