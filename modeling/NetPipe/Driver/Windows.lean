import Mathlib
import NetPipe.Driver.Burst
import NetPipe.Driver.Nocache

/-!
# The windows of a test

Within one test the send window and the receive window never overlap, and the receive windows are
equal or disjoint. In cache mode the two windows change places after a receive; in nocache mode
each walks through its half of the pool.
-/

namespace NetPipe

/-- The offsets are not negative and, in nocache mode, messages of length `b` fit the pool. -/
def Fits (cache : Bool) (l : Layout) (b : ℕ) : Prop :=
  if cache then 0 ≤ l.soffset ∧ 0 ≤ l.roffset else BaseFits l b

instance (l : Layout) (b : ℤ) : Decidable (BaseFits l b) := inferInstanceAs (Decidable (_ ∧ _))

instance (cache : Bool) (l : Layout) (b : ℕ) : Decidable (Fits cache l b) :=
  inferInstanceAs (Decidable (if cache then 0 ≤ l.soffset ∧ 0 ≤ l.roffset else BaseFits l b))

lemma Fits.offsets {cache : Bool} {l : Layout} {b : ℕ} (h : Fits cache l b) :
    0 ≤ l.soffset ∧ 0 ≤ l.roffset := by
  cases cache with
  | true => exact h
  | false => exact ⟨h.1, h.2.1⟩

/-- Where the receive windows of a test may lie. -/
def Slot (cache : Bool) (l : Layout) (b : ℕ) (p : Ptrs) (w : ℤ) : Prop :=
  if cache then w = p.s_buf + l.soffset ∨ w = p.r_buf + l.roffset
  else ∃ j : ℕ, w = p.r_buf + l.roffset + j * blocksize b

/-- The pointers of a cache test. -/
structure Swapping (l : Layout) (b : ℕ) (p : Ptrs) : Prop where
  s_buf_pos : 0 < p.s_buf
  r_buf : p.r_buf = p.s_buf + halfSize l (2 * b)
  places : p.s_ptr = p.s_buf + l.soffset ∧ p.r_ptr = p.r_buf + l.roffset ∨
    p.s_ptr = p.r_buf + l.roffset ∧ p.r_ptr = p.s_buf + l.soffset

/-- The pointers of a nocache test. -/
structure Walking (l : Layout) (b : ℕ) (p : Ptrs) : Prop where
  pool : PoolPtrs l p
  halves : InHalves l b p
  slot : Slot false l b p p.r_ptr

/-- The pointers of a test. -/
def Windows (cache : Bool) (l : Layout) (b : ℕ) (p : Ptrs) : Prop :=
  if cache then Swapping l b p else Walking l b p

section

variable {cache : Bool} {l : Layout} {b : ℕ} {p q : Ptrs} {w w' : ℤ}

/-! ### Geometry -/

/-- In a cache pool there is room for a window behind either offset. -/
lemma Swapping.room (h : Swapping l b p) : p.s_buf + l.soffset + b ≤ p.r_buf ∧
    p.r_buf + l.roffset + b ≤ p.s_buf + 2 * halfSize l (2 * b) := by
  have hhalf := le_halfSize l (2 * b)
  have hdiv : (2 * b : ℤ) / 2 = b := Int.mul_ediv_cancel_left _ two_ne_zero
  have hs : l.soffset ≤ max l.soffset l.roffset := le_max_left _ _
  have hr : l.roffset ≤ max l.soffset l.roffset := le_max_right _ _
  rw [hdiv] at hhalf
  rw [h.r_buf]
  constructor <;> linarith

lemma Windows.slot (h : Windows cache l b p) : Slot cache l b p p.r_ptr := by
  cases cache with
  | true =>
    rcases Swapping.places h with ⟨-, hr⟩ | ⟨-, hr⟩
    · exact Or.inr hr
    · exact Or.inl hr
  | false => exact Walking.slot h

/-- In cache mode the send window is the next receive window. -/
lemma Windows.send_slot (h : Windows cache l b p) (hc : cache = true) :
    Slot cache l b p p.s_ptr := by
  subst hc
  rcases Swapping.places h with ⟨hs, -⟩ | ⟨hs, -⟩
  · exact Or.inl hs
  · exact Or.inr hs

/-- Two receive windows of a test are equal or disjoint. -/
lemma Windows.slots_apart (h : Windows cache l b p) (hfit : Fits cache l b)
    (hw : Slot cache l b p w) (hw' : Slot cache l b p w') :
    w = w' ∨ w + b ≤ w' ∨ w' + b ≤ w := by
  cases cache with
  | true =>
    obtain ⟨hroom, -⟩ := Swapping.room h
    obtain ⟨-, hro⟩ := hfit
    rcases hw with rfl | rfl <;> rcases hw' with rfl | rfl
    · exact Or.inl rfl
    · exact Or.inr (Or.inl (by linarith))
    · exact Or.inr (Or.inr (by linarith))
    · exact Or.inl rfl
  | false =>
    obtain ⟨i, rfl⟩ := hw
    obtain ⟨j, rfl⟩ := hw'
    have hle := le_blocksize b
    rcases lt_trichotomy i j with hij | rfl | hij
    · have hmul : ((i : ℤ) + 1) * blocksize b ≤ j * blocksize b :=
        mul_le_mul_of_nonneg_right (by exact_mod_cast hij) (by linarith)
      exact Or.inr (Or.inl (by linarith))
    · exact Or.inl rfl
    · have hmul : ((j : ℤ) + 1) * blocksize b ≤ i * blocksize b :=
        mul_le_mul_of_nonneg_right (by exact_mod_cast hij) (by linarith)
      exact Or.inr (Or.inr (by linarith))

/-- In nocache mode the send window lies before all receive windows. -/
lemma Walking.send_before (h : Walking l b p) (hfit : BaseFits l b) (hw : Slot false l b p w) :
    p.s_ptr + b ≤ w := by
  obtain ⟨j, rfl⟩ := hw
  have hle := le_blocksize b
  have hmul : 0 ≤ (j : ℤ) * blocksize b := mul_nonneg (Int.natCast_nonneg j) (by linarith)
  obtain ⟨-, hs, -⟩ := h.halves
  obtain ⟨-, hro, -⟩ := hfit
  linarith

/-- The send window and the receive window do not overlap. -/
lemma Windows.apart (h : Windows cache l b p) (hfit : Fits cache l b) :
    p.s_ptr + b ≤ p.r_ptr ∨ p.r_ptr + b ≤ p.s_ptr := by
  cases cache with
  | true =>
    obtain ⟨hroom, -⟩ := Swapping.room h
    obtain ⟨-, hro⟩ := hfit
    rcases Swapping.places h with ⟨hs, hr⟩ | ⟨hs, hr⟩
    · exact Or.inl (by linarith)
    · exact Or.inr (by linarith)
  | false => exact Or.inl (Walking.send_before h hfit (Walking.slot h))

/-- No byte of the send window is a byte of the receive window. -/
lemma Windows.send_ne (h : Windows cache l b p) (hfit : Fits cache l b) {i j : ℕ} (hi : i < b)
    (hj : j < b) : p.s_ptr + i ≠ p.r_ptr + j := by
  rcases h.apart hfit with hle | hle
  · exact ne_of_lt (by linarith [Int.ofNat_lt.mpr hi, Int.natCast_nonneg j])
  · exact ne_of_gt (by linarith [Int.ofNat_lt.mpr hj, Int.natCast_nonneg i])

/-- No byte of a receive window is a byte of another one. -/
lemma Windows.slot_ne (h : Windows cache l b p) (hfit : Fits cache l b)
    (hw : Slot cache l b p w) (hw' : Slot cache l b p w') (hne : w ≠ w') {i j : ℕ} (hi : i < b)
    (hj : j < b) : w + i ≠ w' + j := by
  rcases (h.slots_apart hfit hw hw').resolve_left hne with hle | hle
  · exact ne_of_lt (by linarith [Int.ofNat_lt.mpr hi, Int.natCast_nonneg j])
  · exact ne_of_gt (by linarith [Int.ofNat_lt.mpr hj, Int.natCast_nonneg i])

/-- In a mode in which windows do not change their use, no byte of the send window is a byte of a
receive window. -/
lemma Windows.send_ne_slot (h : Windows false l b p) (hfit : Fits false l b)
    (hw : Slot false l b p w) {i j : ℕ} (hi : i < b) : p.s_ptr + i ≠ w + j := by
  have hle := Walking.send_before h hfit hw
  exact ne_of_lt (by linarith [Int.ofNat_lt.mpr hi, Int.natCast_nonneg j])

/-- The receive windows of a cache test lie in the pool. -/
lemma Swapping.slot_mem (h : Swapping l b p) (hfit : Fits true l b) (hw : Slot true l b p w) {i : ℕ}
    (hi : i < b) : p.s_buf ≤ w + i ∧ w + i < p.s_buf + 2 * halfSize l (2 * b) := by
  obtain ⟨hso, hro⟩ := hfit
  obtain ⟨hroom, hroom'⟩ := h.room
  have hr := h.r_buf
  have hi' : (i : ℤ) < b := Int.ofNat_lt.mpr hi
  have hi'' := Int.natCast_nonneg i
  rcases hw with rfl | rfl
  · exact ⟨by linarith, by linarith⟩
  · exact ⟨by linarith, by linarith⟩

/-- The receive windows of a nocache test lie behind the start of the pool. -/
lemma Walking.slot_mem (h : Walking l b p) (hfit : BaseFits l b) (hw : Slot false l b p w) (i : ℕ) :
    p.s_buf ≤ w + i := by
  have hle := h.send_before hfit hw
  obtain ⟨hs, -⟩ := h.halves
  linarith [Int.natCast_nonneg i, Int.natCast_nonneg b]

/-! ### Allocation and motion -/

/-- Both pointers of a new cache pool are at the start of their halves. -/
lemma swapping_mallocBufs {base : ℤ} (hbase : 0 < base) (dsr : ℤ) (p : Ptrs) :
    Swapping l b (mallocBufs l (2 * b) base dsr p) := by
  unfold mallocBufs
  by_cases hd : dsr = 0 <;> by_cases hm : l.memcpy = true <;> constructor <;> simp [hd, hm, hbase]

lemma walking_initBufferData (h : PoolPtrs l p) (hfit : BaseFits l b) :
    Walking l b (initBufferData l p) := by
  have hspec := initBufferData_spec (b := b) h
  refine ⟨hspec.1, hspec.2.mpr hfit, 0, ?_⟩
  simp [initBufferData]

/-- The addresses that `AdvancePtrs` never changes. -/
def SamePool (p q : Ptrs) : Prop := q.sr_buf = p.sr_buf ∧ q.s_buf = p.s_buf ∧ q.r_buf = p.r_buf

lemma SamePool.slot (h : SamePool p q) : Slot cache l b q w ↔ Slot cache l b p w := by
  rw [Slot, Slot, h.2.1, h.2.2]

/-- `AdvancePtrs` after a send. -/
lemma Windows.sent (h : Windows cache l b p) (hfit : Fits cache l b)
    (hq : advancePtrs cache l b .ds_ptr .dr_ptr (some .s_ptr) .dr_ptr p = some q) :
    Windows cache l b q ∧ SamePool p q ∧ q.r_ptr = p.r_ptr ∧ (cache = true → q.s_ptr = p.s_ptr) := by
  cases cache with
  | true =>
    rw [advancePtrs_cache_remote, Option.some.injEq] at hq
    subst hq
    have hfields : p.swapRemote.sr_buf = p.sr_buf ∧ p.swapRemote.s_buf = p.s_buf ∧
        p.swapRemote.r_buf = p.r_buf ∧ p.swapRemote.s_ptr = p.s_ptr ∧
        p.swapRemote.r_ptr = p.r_ptr := by
      unfold Ptrs.swapRemote
      split_ifs <;> exact ⟨rfl, rfl, rfl, rfl, rfl⟩
    obtain ⟨hsr, hs, hr, hsp, hrp⟩ := hfields
    refine ⟨?_, ⟨hsr, hs, hr⟩, hrp, fun _ => hsp⟩
    obtain ⟨hpos, hrb, hplaces⟩ := h
    exact ⟨hs ▸ hpos, by rw [hr, hs, hrb], by rw [hsp, hrp, hs, hr]; exact hplaces⟩
  | false =>
    obtain ⟨hpool, hhalves, hslot⟩ := h
    obtain ⟨hpool', hhalves'⟩ := hhalves.sent (Int.natCast_nonneg b) hfit hpool hq
    obtain ⟨x, rfl⟩ := advancePtrs_nocache_sent hq
    exact ⟨⟨hpool', hhalves', hslot⟩, ⟨rfl, rfl, rfl⟩, rfl, fun h => by cases h⟩

/-- A window that walks stays in its row of slots. -/
lemma slot_walk {limit : ℤ} (h : Slot false l b p w) :
    Slot false l b p (walk (blocksize b) limit (p.r_buf + l.roffset) w) := by
  obtain ⟨j, rfl⟩ := h
  unfold walk
  split_ifs
  · refine ⟨j + 1, ?_⟩
    push_cast
    ring
  · refine ⟨0, ?_⟩
    push_cast
    ring

/-- `AdvancePtrs` after a receive. -/
lemma Windows.received (h : Windows cache l b p) (hfit : Fits cache l b)
    (hq : advancePtrs cache l b .s_ptr .r_ptr (some .ds_ptr) .r_ptr p = some q) :
    Windows cache l b q ∧ SamePool p q ∧
      (cache = true → q.s_ptr = p.r_ptr ∧ q.r_ptr = p.s_ptr) := by
  cases cache with
  | true =>
    rw [advancePtrs_cache_local, Option.some.injEq] at hq
    obtain ⟨hso, hro⟩ := hfit
    have hhalf := h.room.1
    obtain ⟨hpos, hrb, hplaces⟩ := h
    have hne : p.s_ptr ≠ 0 := by
      rcases hplaces with ⟨hs, -⟩ | ⟨hs, -⟩
      · exact ne_of_gt (by linarith)
      · exact ne_of_gt (by linarith)
    rw [Ptrs.swapLocal, if_pos hne] at hq
    subst hq
    exact ⟨⟨hpos, hrb, hplaces.symm.imp (fun h => h.symm) fun h => h.symm⟩, ⟨rfl, rfl, rfl⟩,
      fun _ => ⟨rfl, rfl⟩⟩
  | false =>
    obtain ⟨hpool, hhalves, hslot⟩ := h
    obtain ⟨hpool', hhalves'⟩ := hhalves.received (Int.natCast_nonneg b) hfit hpool hq
    obtain ⟨x, rfl⟩ := advancePtrs_nocache_received hq
    exact ⟨⟨hpool', hhalves', slot_walk hslot⟩, ⟨rfl, rfl, rfl⟩, fun h => by cases h⟩

end

end NetPipe
