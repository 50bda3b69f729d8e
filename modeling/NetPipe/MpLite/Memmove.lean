import Mathlib.Tactic

/-!
# Copies in memory

`MP_memmove`, which copies the bytes up to an 8-byte boundary of the source, then the main part, and
then the last few bytes, each with `memmove`.
-/

namespace NetPipe.MpLite

variable {m₀ m : ℕ → UInt8} {dest src n k a b x : ℕ}

/-- The memory `m` after `n` bytes from `src` on of the memory `m₀` are written to `dest`. -/
def blit (m₀ m : ℕ → UInt8) (dest src n : ℕ) : ℕ → UInt8 := fun x =>
  if dest ≤ x ∧ x < dest + n then m₀ (src + (x - dest)) else m x

/-- The number of bytes that `MP_memmove` copies up to a boundary. -/
def nbB4 (src n : ℕ) : ℕ :=
  let nb_b4 := 8 - src % 8
  if nb_b4 ≠ 8 ∧ nb_b4 ≤ n then nb_b4 else 0

/-- `MP_memmove`. -/
def mpMemmove (m : ℕ → UInt8) (dest src n : ℕ) : ℕ → UInt8 :=
  let b4 := nbB4 src n
  let m := blit m m dest src b4
  let after := (n - b4) % 8
  let main := n - b4 - after
  let m := blit m m (dest + b4) (src + b4) main
  blit m m (dest + b4 + main) (src + b4 + main) after

/-- The copy has one part only. -/
def OnePart (src n : ℕ) : Prop := nbB4 src n = n ∨ nbB4 src n = 0 ∧ (n < 8 ∨ n % 8 = 0)

/-- `memmove`: the bytes at `dest` are those that were at `src`, and no other byte has changed. -/
structure IsMove (m m' : ℕ → UInt8) (dest src n : ℕ) : Prop where
  copied : ∀ k < n, m' (dest + k) = m (src + k)
  unchanged : ∀ x, ¬ (dest ≤ x ∧ x < dest + n) → m' x = m x

/-- No part of the copy overwrites the source of a later one. -/
def SafeMove (dest src n : ℕ) : Prop := dest ≤ src ∨ src + n ≤ dest ∨ OnePart src n

instance (src n : ℕ) : Decidable (OnePart src n) := inferInstanceAs (Decidable (_ ∨ _))

instance (dest src n : ℕ) : Decidable (SafeMove dest src n) := inferInstanceAs (Decidable (_ ∨ _))

lemma nbB4_le (src n : ℕ) : nbB4 src n ≤ n := by
  rw [nbB4]
  split_ifs with h
  · exact h.2
  · exact Nat.zero_le n

/-! ### Copies -/

lemma blit_of_mem (hx : k < n) : blit m₀ m dest src n (dest + k) = m₀ (src + k) := by
  rw [blit, if_pos ⟨Nat.le_add_right _ _, Nat.add_lt_add_left hx _⟩, Nat.add_sub_cancel_left]

lemma blit_of_not_mem (hx : ¬ (dest ≤ x ∧ x < dest + n)) : blit m₀ m dest src n x = m x :=
  if_neg hx

lemma isMove_iff {m m' : ℕ → UInt8} : IsMove m m' dest src n ↔ m' = blit m m dest src n := by
  constructor
  · rintro ⟨hcopied, hunchanged⟩
    funext x
    by_cases hx : dest ≤ x ∧ x < dest + n
    · obtain ⟨k, rfl⟩ := Nat.exists_eq_add_of_le hx.1
      have hk : k < n := Nat.lt_of_add_lt_add_left hx.2
      rw [hcopied k hk, blit_of_mem hk]
    · rw [hunchanged x hx, blit_of_not_mem hx]
  · rintro rfl
    exact ⟨fun k hk => blit_of_mem hk, fun x hx => blit_of_not_mem hx⟩

@[simp]
lemma blit_zero (m₀ m : ℕ → UInt8) (dest src : ℕ) : blit m₀ m dest src 0 = m := by
  funext x
  apply blit_of_not_mem
  rw [Nat.add_zero, not_and, Nat.not_lt]
  exact id

@[simp]
lemma blit_self (m : ℕ → UInt8) (dest n : ℕ) : blit m m dest dest n = m := by
  funext x
  rw [blit]
  split_ifs with h
  · rw [Nat.add_sub_cancel' h.1]
  · rfl

@[simp]
lemma blit_const (c : UInt8) (dest src n : ℕ) :
    blit (fun _ => c) (fun _ => c) dest src n = fun _ => c := by
  funext x
  simp [blit]

/-- Two copies after one another, the first of which does not change the source of the second. -/
lemma blit_blit (h : dest ≤ src ∨ src + a + b ≤ dest) :
    blit (blit m m dest src a) (blit m m dest src a) (dest + a) (src + a) b =
      blit m m dest src (a + b) := by
  funext x
  by_cases hfirst : dest ≤ x ∧ x < dest + a
  · obtain ⟨i, rfl⟩ := Nat.exists_eq_add_of_le hfirst.1
    have hi : i < a := Nat.lt_of_add_lt_add_left hfirst.2
    rw [blit_of_not_mem, blit_of_mem hi, blit_of_mem (Nat.lt_add_right b hi)]
    exact fun hx => Nat.not_le.mpr hfirst.2 hx.1
  · by_cases hsecond : dest + a ≤ x ∧ x < dest + a + b
    · obtain ⟨i, rfl⟩ := Nat.exists_eq_add_of_le hsecond.1
      have hi : i < b := Nat.lt_of_add_lt_add_left hsecond.2
      rw [blit_of_mem hi, Nat.add_assoc dest a i, blit_of_mem (Nat.add_lt_add_left hi a),
        blit_of_not_mem, Nat.add_assoc]
      rintro ⟨hle, hlt⟩
      rcases h with h | h
      · exact Nat.not_le.mpr hlt ((Nat.add_le_add_right h a).trans (Nat.le_add_right _ _))
      · exact Nat.not_le.mpr ((Nat.add_lt_add_left hi _).trans_le h) hle
    · rw [blit_of_not_mem hsecond, blit_of_not_mem hfirst, blit_of_not_mem]
      rintro ⟨hle, hlt⟩
      rw [not_and, Nat.not_lt] at hfirst hsecond
      exact Nat.not_le.mpr hlt (by simpa [Nat.add_assoc] using hsecond (hfirst hle))

/-- The first part of a copy overwrites the only byte that is not zero, in the source of a later
part. -/
lemma blit_eq_zero (hb : b ≤ x) (hd : dest ≤ src + x)
    (hx : src + x < dest + b) :
    blit (fun y => if y = src + x then 1 else 0) (fun y => if y = src + x then 1 else 0)
      dest src b = fun _ => 0 := by
  funext y
  by_cases hy : dest ≤ y ∧ y < dest + b
  · obtain ⟨i, rfl⟩ := Nat.exists_eq_add_of_le hy.1
    have hi : i < b := Nat.lt_of_add_lt_add_left hy.2
    rw [blit_of_mem hi, if_neg]
    exact fun heq => Nat.ne_of_lt (hi.trans_le hb) (Nat.add_left_cancel heq)
  · rw [blit_of_not_mem hy, if_neg]
    rintro rfl
    exact hy ⟨hd, hx⟩

/-! ### MP_memmove -/

@[simp]
lemma mpMemmove_const (c : UInt8) (dest src n : ℕ) :
    mpMemmove (fun _ => c) dest src n = fun _ => c := by
  simp [mpMemmove]

/-- A safe copy is a copy of the bytes as they were. -/
lemma mpMemmove_eq_blit (h : SafeMove dest src n) :
    mpMemmove m dest src n = blit m m dest src n := by
  have hle := nbB4_le src n
  have hmod := Nat.mod_le (n - nbB4 src n) 8
  have hcases : (dest ≤ src ∨ src + n ≤ dest) ∨ OnePart src n := by
    rcases h with h | h | h
    · exact Or.inl (Or.inl h)
    · exact Or.inl (Or.inr h)
    · exact Or.inr h
  rcases hcases with h | h | ⟨hb4, h⟩
  · have hmain : nbB4 src n + (n - nbB4 src n - (n - nbB4 src n) % 8) ≤ n := by
      rw [← Nat.add_sub_assoc hmod, Nat.add_sub_cancel' hle]
      exact Nat.sub_le _ _
    have hall : nbB4 src n + (n - nbB4 src n - (n - nbB4 src n) % 8) +
        (n - nbB4 src n) % 8 = n := by
      rw [Nat.add_assoc, Nat.sub_add_cancel hmod, Nat.add_sub_cancel' hle]
    have hfirst : dest ≤ src ∨ src + nbB4 src n +
        (n - nbB4 src n - (n - nbB4 src n) % 8) ≤ dest := by
      refine h.imp_right fun h => le_trans ?_ h
      rw [Nat.add_assoc]
      exact Nat.add_le_add_left hmain src
    have hsecond : dest ≤ src ∨ src + (nbB4 src n +
        (n - nbB4 src n - (n - nbB4 src n) % 8)) + (n - nbB4 src n) % 8 ≤ dest := by
      refine h.imp_right fun h => le_trans ?_ h
      rw [Nat.add_assoc src, hall]
    simp only [mpMemmove]
    rw [blit_blit hfirst, Nat.add_assoc dest, Nat.add_assoc src, blit_blit hsecond, hall]
  · simp [mpMemmove, h]
  · rcases h with h | h
    · simp [mpMemmove, hb4, Nat.mod_eq_of_lt h]
    · simp [mpMemmove, hb4, h]

/-- A copy that is not safe loses a byte: for some contents of the memory with only one byte that
is not zero, among those to copy, no such byte is left. -/
lemma exists_lost_of_not_safeMove (h : ¬ SafeMove dest src n) :
    ∃ x < n, mpMemmove (fun y => if y = src + x then 1 else 0) dest src n = fun _ => 0 := by
  simp only [SafeMove, OnePart, not_or, not_and, Nat.not_le] at h
  obtain ⟨hsrc, hoverlap, hfirst, hrest⟩ := h
  have hle := nbB4_le src n
  -- the first part that is not empty, and a byte behind it that it overwrites
  have hpart : ∃ b x, b ≤ x ∧ x < n ∧ dest ≤ src + x ∧ src + x < dest + b ∧
      (nbB4 src n = b ∨ nbB4 src n = 0 ∧ n - n % 8 = b) := by
    rcases Nat.eq_zero_or_pos (nbB4 src n) with hzero | hpos
    · have := hrest hzero
      refine ⟨n - n % 8, max (n - n % 8) (dest - src), ?_⟩
      omega
    · refine ⟨nbB4 src n, max (nbB4 src n) (dest - src), ?_⟩
      omega
  obtain ⟨b, x, hbx, hxn, hdx, hxb, hcase⟩ := hpart
  have hzero := blit_eq_zero hbx hdx hxb
  refine ⟨x, hxn, ?_⟩
  rcases hcase with hb4 | ⟨hb4, hmain⟩
  · simp [mpMemmove, hb4, hzero]
  · simp [mpMemmove, hb4, hmain, hzero]

/-- A copy that is right for all contents of the memory is safe. -/
lemma safeMove_of_forall (h : ∀ m, mpMemmove m dest src n = blit m m dest src n) :
    SafeMove dest src n := by
  by_contra hsafe
  obtain ⟨x, hx, hlost⟩ := exists_lost_of_not_safeMove hsafe
  have hbyte := congrFun (h fun y => if y = src + x then 1 else 0) (dest + x)
  rw [hlost, blit_of_mem hx, if_pos rfl] at hbyte
  simp at hbyte

/-- `MP_memmove` is `memmove` for all contents of the memory exactly if no part of the copy
overwrites the source of a later one. -/
theorem isMove_mpMemmove_iff :
    (∀ m, IsMove m (mpMemmove m dest src n) dest src n) ↔ SafeMove dest src n := by
  constructor
  · intro h
    exact safeMove_of_forall fun m => isMove_iff.mp (h m)
  · intro h m
    exact isMove_iff.mpr (mpMemmove_eq_blit h)

/-- Eight bytes are to be moved by one place: the first seven are moved onto the eighth. -/
theorem not_isMove_mpMemmove :
    ¬ IsMove (fun x => UInt8.ofNat x) (mpMemmove (fun x => UInt8.ofNat x) 2 1 8) 2 1 8 := by
  intro h
  have hlast := h.copied 7 (by simp)
  revert hlast
  decide

end NetPipe.MpLite
