import NetPipe.MpLite.Copies

/-!
# Copies in the memcpy module

The loop `dcopy` of the `memcpy` module, and the routines of `opt_memcpy.c` that it can be compiled
with, next to those of MP_Lite.
-/

namespace NetPipe

open MpLite

/-- `ntcopy` of `opt_memcpy.c`. A block is 128 kB. -/
def ntcopy (dest src size : ℕ) : List CopyOp :=
  nonTemporal (131072 / 8) (by norm_num) dest src size

/-- A count as an `int`. -/
def toInt (n : ℕ) : ℤ := (n : ℤ).bmod (2 ^ 32)

/-- `for(; i > stop; i--)`, a loop that copies a block of 64 bytes in a pass: what it does, and the
variables `i`, `to` and `from` behind it. -/
def blockLoop (stop i : ℤ) (dest src : ℕ) : List CopyOp × ℤ × ℕ × ℕ :=
  if stop < i then
    let (ops, rest) := blockLoop stop (i - 1) (dest + 64) (src + 64)
    (.block dest src :: ops, rest)
  else ([], i, dest, src)
termination_by (i - stop).toNat

/-- `_mmx_memcpy`. The last five blocks are copied without prefetching. -/
def mmx_memcpy (dest src len : ℕ) : List CopyOp :=
  let i := toInt (len / 64)
  if 63 < len then
    let (ops, i, dest, src) := blockLoop 5 i dest src
    let (ops', _, dest, src) := blockLoop 0 i dest src
    ops ++ ops' ++ [.memcpy dest src (len % 64)]
  else [.memcpy dest src (len % 64)]

/-- The unrolled loop over the doubles: eight of them in each of `ncopy8` passes. -/
def doubleLoop : ℕ → ℕ → ℕ → List CopyOp
  | 0, _, _ => []
  | ncopy8 + 1, rptr, sptr =>
    [.double rptr sptr, .double (rptr + 8) (sptr + 8), .double (rptr + 16) (sptr + 16),
      .double (rptr + 24) (sptr + 24), .double (rptr + 32) (sptr + 32),
      .double (rptr + 40) (sptr + 40), .double (rptr + 48) (sptr + 48),
      .double (rptr + 56) (sptr + 56)] ++ doubleLoop ncopy8 (rptr + 64) (sptr + 64)

/-- The loop over the bytes that are left. -/
def charLoop : ℕ → ℕ → ℕ → List CopyOp
  | 0, _, _ => []
  | nleft + 1, rptr, sptr => .char rptr sptr :: charLoop nleft (rptr + 1) (sptr + 1)

/-- `SendData` of the `memcpy` module for `dcopy`. -/
def dcopy (rptr sptr buflen : ℕ) : List CopyOp :=
  let ncopy8 := buflen / (8 * 8)
  let nleft := buflen - 8 * 8 * ncopy8
  doubleLoop ncopy8 rptr sptr ++ charLoop nleft (rptr + 64 * ncopy8) (sptr + 64 * ncopy8)

variable {dest src n : ℕ} {ops : List CopyOp}

lemma toInt_of_lt (hn : n < 2 ^ 31) : toInt n = n := by
  apply Int.bmod_eq_of_le
  · omega
  · omega

/-- The number of blocks is an `int`. -/
lemma toInt_div (hn : n < 2 ^ 37) : toInt (n / 64) = (n / 64 : ℕ) := by
  apply toInt_of_lt
  exact Nat.div_lt_of_lt_mul (hn.trans_eq (by norm_num))

/-- The loop copies as many blocks as its count says. -/
lemma blockLoop_eq (stop i : ℤ) (dest src : ℕ) : blockLoop stop i dest src =
    (blocks (i - stop).toNat dest src, i - (i - stop).toNat, dest + 64 * (i - stop).toNat,
      src + 64 * (i - stop).toNat) := by
  generalize hk : (i - stop).toNat = k
  induction k generalizing i dest src with
  | zero =>
    rw [blockLoop, if_neg (by omega)]
    simp [blocks]
  | succ k ih =>
    have hnext : ∀ x : ℕ, x + 64 + 64 * k = x + 64 * (k + 1) := fun x => by ring
    have hcount : i - 1 - k = i - (k + 1 : ℕ) := by
      push_cast
      ring
    rw [blockLoop, if_pos (by omega), ih _ _ _ (by omega), hnext, hnext, hcount]
    rfl

/-- Both loops together copy all whole blocks. -/
lemma tiles_mmx_memcpy (hn : n < 2 ^ 37) (dest src : ℕ) :
    Tiles (mmx_memcpy dest src n) dest src n := by
  have hint := toInt_div hn
  rw [mmx_memcpy, hint]
  split_ifs with hlen
  · simp only [blockLoop_eq]
    generalize hk : ((n / 64 : ℕ) - 5 : ℤ).toNat = k
    generalize hk' : ((n / 64 : ℕ) - k - 0 : ℤ).toNat = k'
    have hsum : n = 64 * k + 64 * k' + n % 64 := by omega
    conv_rhs => rw [hsum]
    apply ((Tiles.blocks k dest src).append (Tiles.blocks k' _ _)).append
    rw [← Nat.add_assoc, ← Nat.add_assoc]
    exact Tiles.memcpy _ _ _
  · have hsmall : n % 64 = n := Nat.mod_eq_of_lt (by omega)
    rw [hsmall]
    exact Tiles.memcpy dest src n

lemma tiles_double (h : Tiles ops (dest + 8) (src + 8) n) :
    Tiles (.double dest src :: ops) dest src (8 + n) :=
  Tiles.copy (.double dest src) rfl h

lemma tiles_doubleLoop (k dest src : ℕ) : Tiles (doubleLoop k dest src) dest src (64 * k) := by
  induction k generalizing dest src with
  | zero => exact Tiles.nil
  | succ k ih =>
    have hsum : 64 * (k + 1) = 64 + 64 * k := by ring
    rw [hsum, doubleLoop]
    apply Tiles.append _ (ih _ _)
    exact tiles_double <| tiles_double <| tiles_double <| tiles_double <| tiles_double <|
      tiles_double <| tiles_double <| tiles_double Tiles.nil

lemma tiles_charLoop (k dest src : ℕ) : Tiles (charLoop k dest src) dest src k := by
  induction k generalizing dest src with
  | zero => exact Tiles.nil
  | succ k ih =>
    have hsum : k + 1 = 1 + k := Nat.add_comm k 1
    conv_rhs => rw [hsum]
    exact Tiles.copy (.char dest src) rfl (ih _ _)

lemma tiles_dcopy (dest src n : ℕ) : Tiles (dcopy dest src n) dest src n := by
  have hsum : n = 64 * (n / (8 * 8)) + (n - 8 * 8 * (n / (8 * 8))) := by omega
  rw [dcopy]
  conv_rhs => rw [hsum]
  exact (tiles_doubleLoop _ dest src).append (tiles_charLoop _ _ _)

/-- Every optimised copy is `memcpy`, and the aligned accesses of `ntcopy` are aligned. -/
theorem isMemcpy_of_noOverlap (hn : n < 2 ^ 31) (h : NoOverlap dest src n) :
    IsMemcpy (memcpy_8 dest src n) dest src n ∧ IsMemcpy (memcpy_16 dest src n) dest src n ∧
      (IsMemcpy (MpLite.ntcopy dest src n) dest src n ∧ Aligned (MpLite.ntcopy dest src n)) ∧
      (IsMemcpy (ntcopy dest src n) dest src n ∧ Aligned (ntcopy dest src n)) ∧
      IsMemcpy (mmx_memcpy dest src n) dest src n ∧ IsMemcpy (dcopy dest src n) dest src n := by
  have hlen : n < 2 ^ 37 := hn.trans (by norm_num)
  refine ⟨?_, ?_, ⟨?_, ?_⟩, ⟨?_, ?_⟩, ?_, ?_⟩
  · exact (Tiles.boundaryFirst 8 _ dest src n).isMemcpy h
  · exact (Tiles.boundaryFirst 16 _ dest src n).isMemcpy h
  · exact (Tiles.nonTemporal _ _ (by norm_num) dest src n).isMemcpy h
  · exact aligned_nonTemporal _ _ (by norm_num) dest src n
  · exact (Tiles.nonTemporal _ _ (by norm_num) dest src n).isMemcpy h
  · exact aligned_nonTemporal _ _ (by norm_num) dest src n
  · exact (tiles_mmx_memcpy hlen dest src).isMemcpy h
  · exact (tiles_dcopy dest src n).isMemcpy h

theorem isMemcpy_of_noOverlap_hundred :
    IsMemcpy (memcpy_8 3 1001 100) 3 1001 100 ∧ IsMemcpy (memcpy_16 3 1001 100) 3 1001 100 ∧
      (IsMemcpy (MpLite.ntcopy 3 1001 100) 3 1001 100 ∧ Aligned (MpLite.ntcopy 3 1001 100)) ∧
      (IsMemcpy (ntcopy 3 1001 100) 3 1001 100 ∧ Aligned (ntcopy 3 1001 100)) ∧
      IsMemcpy (mmx_memcpy 3 1001 100) 3 1001 100 ∧ IsMemcpy (dcopy 3 1001 100) 3 1001 100 :=
  isMemcpy_of_noOverlap (by norm_num) (Or.inl (by norm_num))

end NetPipe
