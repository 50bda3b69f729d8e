import Mathlib.Tactic

/-!
# One-sided operations

How `MP_APut`, `MP_AGet` and `MP_AAccumulate` find their bytes in the window of the target, and
what `win_check` lets through.
-/

namespace NetPipe.MpLite

/-- The values of an `int`. -/
def IsInt (x : ℤ) : Prop := -2 ^ 31 ≤ x ∧ x < 2 ^ 31

instance (x : ℤ) : Decidable (IsInt x) := inferInstanceAs (Decidable (_ ∧ _))

/-- The product of two `int`s, which has no value if it overflows. -/
def intMul (a b : ℤ) : Option ℤ := if IsInt (a * b) then some (a * b) else none

/-- The sum of two `int`s, which has no value if it overflows. -/
def intAdd (a b : ℤ) : Option ℤ := if IsInt (a + b) then some (a + b) else none

/-- `struct MP_Win_elt`. -/
structure WinElt where
  base : ℕ
  size : ℤ
  disp_unit : ℤ
  deriving DecidableEq, Repr

/-- What a one-sided call comes to: it returns early, it stops the program with an error, or it
uses `nbytes` bytes at an address of the target. -/
inductive Access where
  | nothing
  | stop
  | bytes (ptr nbytes : ℤ)
  deriving DecidableEq, Repr

/-- `win_check`: whether the program goes on. -/
def winCheck (offset nbytes win_size : ℤ) : Option Bool :=
  if offset < 0 then some false
  else (intAdd offset nbytes).map fun last => decide ¬ last > win_size

namespace WinElt

/-- `MP_APut` up to the message; `none` is an overflow. -/
def aput (node : WinElt) (nelts dest_off : ℤ) : Option Access := do
  let nbytes ← intMul nelts node.disp_unit
  if nbytes = 0 then return .nothing
  let offset ← intMul dest_off node.disp_unit
  if ← winCheck offset nbytes node.size then
    return .bytes (node.base + offset) nbytes
  else return .stop

/-- `MP_AGet` up to the message, and `MP_AAccumulate`, which does the same. -/
def aget (node : WinElt) (nelts src_off : ℤ) : Option Access := do
  let nbytes ← intMul nelts node.disp_unit
  if nbytes = 0 then return .nothing
  if ← winCheck src_off nbytes node.size then
    let offset ← intMul src_off node.disp_unit
    return .bytes (node.base + offset) nbytes
  else return .stop

/-- `MP_AAccumulate` up to the message. -/
def aaccumulate (node : WinElt) (nelts dest_off : ℤ) : Option Access := node.aget nelts dest_off

/-- The bytes that a call uses begin at the displacement and lie in the window. -/
def InWindow (node : WinElt) (off : ℤ) : Option Access → Prop
  | none => False
  | some (.bytes ptr nbytes) =>
    ptr = node.base + off * node.disp_unit ∧ node.base ≤ ptr ∧ ptr + nbytes ≤ node.base + node.size
  | some _ => True

/-- A call gets past `win_check`. -/
def Accepted : Option Access → Prop
  | some (.bytes _ _) => True
  | _ => False

/-- The three operations use bytes of the window only, and accept the same displacements. -/
structure BoundsHold (node : WinElt) (nelts off : ℤ) : Prop where
  put : node.InWindow off (node.aput nelts off)
  get : node.InWindow off (node.aget nelts off)
  accumulate : node.InWindow off (node.aaccumulate nelts off)
  put_iff_get : Accepted (node.aput nelts off) ↔ Accepted (node.aget nelts off)
  put_iff_accumulate : Accepted (node.aput nelts off) ↔ Accepted (node.aaccumulate nelts off)

/-- No arithmetic of `MP_APut` overflows, and a displacement that lies in the window without the
unit lies in it with the unit. -/
def BoundsCond (node : WinElt) (nelts off : ℤ) : Prop :=
  IsInt (nelts * node.disp_unit) ∧ (nelts = 0 ∨ IsInt (off * node.disp_unit) ∧
    (0 ≤ off → IsInt (off * node.disp_unit + nelts * node.disp_unit) ∧
      (off + nelts * node.disp_unit ≤ node.size →
        off * node.disp_unit + nelts * node.disp_unit ≤ node.size)))

variable {node : WinElt} {nelts off nbytes size a b : ℤ}

lemma intMul_eq (h : IsInt (a * b)) : intMul a b = some (a * b) := if_pos h

lemma intMul_eq_none (h : ¬ IsInt (a * b)) : intMul a b = none := if_neg h

lemma winCheck_of_neg (h : off < 0) : winCheck off nbytes size = some false := if_pos h

lemma winCheck_of_nonneg (h : 0 ≤ off) (hint : IsInt (off + nbytes)) :
    winCheck off nbytes size = some (decide (off + nbytes ≤ size)) := by
  rw [winCheck, if_neg (Int.not_lt.mpr h), intAdd, if_pos hint]
  simp

lemma winCheck_eq_none (h : 0 ≤ off) (hint : ¬ IsInt (off + nbytes)) :
    winCheck off nbytes size = none := by
  rw [winCheck, if_neg (Int.not_lt.mpr h), intAdd, if_neg hint]
  rfl

/-- No bytes are asked for. -/
lemma aput_of_eq_zero (h : nelts * node.disp_unit = 0) : node.aput nelts off = some .nothing := by
  simp [aput, intMul, h, IsInt]

lemma aget_of_eq_zero (h : nelts * node.disp_unit = 0) : node.aget nelts off = some .nothing := by
  simp [aget, intMul, h, IsInt]

lemma aput_of_neg (hbytes : IsInt (nelts * node.disp_unit)) (hne : nelts * node.disp_unit ≠ 0)
    (hint : IsInt (off * node.disp_unit)) (hoff : off * node.disp_unit < 0) :
    node.aput nelts off = some .stop := by
  simp [aput, intMul_eq hbytes, intMul_eq hint, hne, winCheck_of_neg hoff]

lemma aget_of_neg (hbytes : IsInt (nelts * node.disp_unit)) (hne : nelts * node.disp_unit ≠ 0)
    (hoff : off < 0) : node.aget nelts off = some .stop := by
  simp [aget, intMul_eq hbytes, hne, winCheck_of_neg hoff]

/-- `MP_APut` checks the bytes that it uses. -/
lemma aput_of_nonneg (hbytes : IsInt (nelts * node.disp_unit)) (hne : nelts * node.disp_unit ≠ 0)
    (hint : IsInt (off * node.disp_unit)) (hoff : 0 ≤ off * node.disp_unit)
    (hsum : IsInt (off * node.disp_unit + nelts * node.disp_unit)) :
    node.aput nelts off = some
      (if off * node.disp_unit + nelts * node.disp_unit ≤ node.size then
        .bytes (node.base + off * node.disp_unit) (nelts * node.disp_unit) else .stop) := by
  have hcheck : winCheck _ _ node.size = _ := winCheck_of_nonneg hoff hsum
  split_ifs with h <;> simp [aput, intMul_eq hbytes, intMul_eq hint, hne, hcheck, h]

/-- `MP_AGet` checks the displacement without the unit. -/
lemma aget_of_nonneg (hbytes : IsInt (nelts * node.disp_unit)) (hne : nelts * node.disp_unit ≠ 0)
    (hint : IsInt (off * node.disp_unit)) (hoff : 0 ≤ off)
    (hsum : IsInt (off + nelts * node.disp_unit)) :
    node.aget nelts off = some (if off + nelts * node.disp_unit ≤ node.size then
      .bytes (node.base + off * node.disp_unit) (nelts * node.disp_unit) else .stop) := by
  have hcheck : winCheck _ _ node.size = _ := winCheck_of_nonneg hoff hsum
  split_ifs with h <;> simp [aget, intMul_eq hbytes, intMul_eq hint, hne, hcheck, h]

lemma InWindow.aput_bytes (h : node.InWindow off (node.aput nelts off)) :
    IsInt (nelts * node.disp_unit) ∧ (nelts * node.disp_unit = 0 ∨ IsInt (off * node.disp_unit) ∧
      (0 ≤ off * node.disp_unit → IsInt (off * node.disp_unit + nelts * node.disp_unit))) := by
  by_cases hbytes : IsInt (nelts * node.disp_unit)
  · refine ⟨hbytes, ?_⟩
    by_cases hzero : nelts * node.disp_unit = 0
    · exact Or.inl hzero
    · by_cases hint : IsInt (off * node.disp_unit)
      · refine Or.inr ⟨hint, fun hoff => ?_⟩
        by_contra hsum
        simp [aput, intMul_eq hbytes, intMul_eq hint, hzero, winCheck_eq_none hoff hsum,
          InWindow] at h
      · simp [aput, intMul_eq hbytes, intMul_eq_none hint, hzero, InWindow] at h
  · simp [aput, intMul_eq_none hbytes, InWindow] at h

/-- The operations stay in the window and agree exactly if nothing overflows and the check of the
displacement without its unit is as strict as the one with it. -/
theorem boundsHold_iff (hn : 0 ≤ nelts) (hunit : 1 ≤ node.disp_unit) :
    node.BoundsHold nelts off ↔ node.BoundsCond nelts off := by
  have hzero : nelts * node.disp_unit = 0 ↔ nelts = 0 := by
    rw [mul_eq_zero, or_iff_left]
    exact (Int.lt_of_lt_of_le Int.zero_lt_one hunit).ne'
  have hbytes_nonneg : 0 ≤ nelts * node.disp_unit := by positivity
  constructor
  · intro h
    obtain ⟨hbytes, hcase⟩ := h.put.aput_bytes
    refine ⟨hbytes, ?_⟩
    rcases hcase with hnil | ⟨hint, hsum⟩
    · exact Or.inl (hzero.mp hnil)
    · by_cases hne : nelts * node.disp_unit = 0
      · exact Or.inl (hzero.mp hne)
      · refine Or.inr ⟨hint, fun hoff => ⟨hsum (by positivity), fun hfit => ?_⟩⟩
        have hle : off ≤ off * node.disp_unit := le_mul_of_one_le_right hoff hunit
        have hsum' : IsInt (off + nelts * node.disp_unit) := by
          have := hsum (by positivity)
          simp only [IsInt] at this ⊢
          omega
        have hget := h.get
        rw [aget_of_nonneg hbytes hne hint hoff hsum', if_pos hfit] at hget
        have := hget.2.2
        linarith
  · rintro ⟨hbytes, hcase⟩
    by_cases hne : nelts * node.disp_unit = 0
    · constructor <;> simp [aaccumulate, aput_of_eq_zero hne, aget_of_eq_zero hne, InWindow]
    · obtain ⟨hint, hfit⟩ := hcase.resolve_left (mt hzero.mpr hne)
      rcases lt_or_ge off 0 with hoff | hoff
      · have hneg : off * node.disp_unit < 0 := by nlinarith
        constructor <;>
          simp [aaccumulate, aput_of_neg hbytes hne hint hneg, aget_of_neg hbytes hne hoff,
            InWindow]
      · obtain ⟨hsum, hscaled⟩ := hfit hoff
        have hle : off ≤ off * node.disp_unit := le_mul_of_one_le_right hoff hunit
        have hsum' : IsInt (off + nelts * node.disp_unit) := by
          simp only [IsInt] at hsum ⊢
          omega
        have hoff' : 0 ≤ off * node.disp_unit := hoff.trans hle
        have hiff : off * node.disp_unit + nelts * node.disp_unit ≤ node.size ↔
            off + nelts * node.disp_unit ≤ node.size :=
          ⟨fun h => (Int.add_le_add_right hle _).trans h, hscaled⟩
        have hput := aput_of_nonneg hbytes hne hint hoff' hsum
        have hget := aget_of_nonneg hbytes hne hint hoff hsum'
        have hin : node.InWindow off (node.aget nelts off) := by
          rw [hget]
          split_ifs with h
          · have := hscaled h
            refine ⟨rfl, ?_, ?_⟩ <;> linarith
          · trivial
        have hsame : node.aput nelts off = node.aget nelts off := by
          rw [hput, hget]
          simp only [hiff]
        exact ⟨hsame ▸ hin, hin, hin, by rw [hsame], by rw [hsame, aaccumulate]⟩

theorem boundsHold_bytes : (⟨1000, 16, 1⟩ : WinElt).BoundsHold 4 12 :=
  (boundsHold_iff (by simp) (by simp)).mpr (by simp [BoundsCond, IsInt])

/-- The element 12 of a window of four elements: `MP_APut` stops, and `MP_AGet` reads 36 bytes
behind the end of the window. -/
theorem bounds_fail_scaled :
    (⟨1000, 16, 4⟩ : WinElt).aput 1 12 = some .stop ∧
      (⟨1000, 16, 4⟩ : WinElt).aget 1 12 = some (.bytes 1048 4) ∧
      ¬ (⟨1000, 16, 4⟩ : WinElt).BoundsHold 1 12 := by
  have hget : (⟨1000, 16, 4⟩ : WinElt).aget 1 12 = some (.bytes 1048 4) := by decide
  refine ⟨by decide, hget, fun h => ?_⟩
  have := h.get.2.2
  simp at this

/-- For all counts and displacements that do not overflow, the operations stay in the window and
agree exactly if the unit is a byte or the window is not longer than a unit. -/
theorem boundsHold_forall_iff (hunit : 1 ≤ node.disp_unit) (hsize : 2 * node.size < 2 ^ 31) :
    (∀ nelts off, 0 ≤ nelts → IsInt (nelts * node.disp_unit) → IsInt (off * node.disp_unit) →
      (0 ≤ off → IsInt (off * node.disp_unit + nelts * node.disp_unit)) →
      node.BoundsHold nelts off) ↔ node.disp_unit = 1 ∨ node.size ≤ node.disp_unit := by
  generalize hu : node.disp_unit = u at hunit
  constructor
  · intro h
    by_contra hnot
    rw [not_or, not_le] at hnot
    obtain ⟨hone, hlt⟩ := hnot
    have hu2 : 2 ≤ u := by omega
    -- one element at the last unit that begins in the window
    have hdiv := Int.ediv_mul_add_emod node.size u
    have hmod := Int.emod_nonneg node.size (by omega : u ≠ 0)
    have hmod' := Int.emod_lt_of_pos node.size (by omega : 0 < u)
    have hq : 1 ≤ node.size / u := Int.le_ediv_of_mul_le (by omega) (by linarith)
    generalize node.size / u = q at hdiv hq
    have hfit : q + u ≤ node.size := by
      rcases hq.eq_or_lt with rfl | hq
      · omega
      · nlinarith
    have hint : IsInt (q * u) := ⟨by nlinarith, by linarith⟩
    have hint' : IsInt (1 * u) := ⟨by linarith, by linarith⟩
    have hsum : IsInt (q * u + 1 * u) := ⟨by nlinarith, by linarith⟩
    have hcond := (boundsHold_iff zero_le_one (hu ▸ hunit)).mp
      (h 1 q zero_le_one hint' hint fun _ => hsum)
    have hscaled := ((hcond.2.resolve_left one_ne_zero).2 (by linarith)).2
    rw [hu] at hscaled
    linarith [hscaled (by linarith)]
  · intro h nelts off hn hbytes hint hsum
    rw [boundsHold_iff hn (hu ▸ hunit), BoundsCond, hu]
    refine ⟨hbytes, or_iff_not_imp_left.mpr fun hne => ⟨hint, fun hoff => ⟨hsum hoff, ?_⟩⟩⟩
    rcases h with rfl | h
    · rw [mul_one, mul_one]
      exact id
    · intro hfit
      have hn1 : 1 ≤ nelts := by omega
      have hzero : off = 0 := by nlinarith
      simpa [hzero] using hfit

end WinElt

end NetPipe.MpLite
