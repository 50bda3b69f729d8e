import NetPipe.Library.MixedRadix

/-!
# Cartesian topologies

`MP_Cart_Create`, `MP_Cart_Coords`, `MP_Cart_Rank` and `MP_Cart_Shift`. The coordinates of a process
are the digits of its rank, with the dimensions as radices.
-/

namespace NetPipe.MpLite

open MixedRadix (Box digits value turn)

/-- `struct MP_cart_struct`, with `ndims` numbers in `dim`. -/
structure Cart where
  dim : List ℤ
  deriving DecidableEq, Repr

/-- The inner loop of `MP_Cart_Create`, which leaves a factor of `np` in `bf`. -/
def bestFactor (np : ℕ) : ℕ :=
  (List.range' 2 (np - 1)).foldl (fun bf i => if np % i = 0 then i else bf) 1

/-- The loop of `MP_Cart_Create` over the factors, for at most `n` passes. -/
def shareFactors : ℕ → ℕ → ℕ → List ℤ → Option (List ℤ)
  | 0, _, _, _ => none
  | n + 1, np, d, dim =>
    if np = 1 then some dim
    else
      let bf := bestFactor np
      shareFactors n (np / bf) ((d + 1) % dim.length) (dim.modify d (· * bf))

/-- `MP_Cart_Create`, where `ndims` is the length of `dim`. The loop over the factors makes at most
`n` passes. -/
def mpCartCreate (n nprocs : ℕ) (dim : List ℤ) : Option (Except String Cart) :=
  if dim.length < 1 ∨ dim.length > 10 then
    some (.error "MP_Cart_create() - ndims must be 1 or larger")
  else if dim.head? = some 0 then
    (shareFactors n nprocs 0 (dim.map fun _ => 1)).map fun dim => .ok ⟨dim⟩
  else if dim.prod ≠ nprocs then
    some (.error "MP_Cart_Create() - dimensions do not multiply up to nprocs")
  else some (.ok ⟨dim⟩)

/-- The test of `mp_cart` with which each of the other routines starts. -/
def checkCart : Option Cart → Except String Cart
  | none => .error "You must use MP_Cart_create() first"
  | some cart => .ok cart

/-- The loop of `MP_Cart_Coords`. -/
def coordsLoop : List ℤ → ℤ → List ℤ
  | [], _ => []
  | d :: dim, r => r.tmod d :: coordsLoop dim (r.tdiv d)

/-- `MP_Cart_Coords`. -/
def mpCartCoords (mp_cart : Option Cart) (iproc : ℤ) : Except String (List ℤ) :=
  (checkCart mp_cart).map fun cart => coordsLoop cart.dim iproc

/-- The loop of `MP_Cart_Rank`. -/
def rankLoop : List ℤ → List ℤ → ℤ → ℤ → ℤ
  | d :: dim, c :: coord, m, rank => rankLoop dim coord (m * d) (rank + m * c)
  | _, _, _, rank => rank

/-- `MP_Cart_Rank`. -/
def mpCartRank (mp_cart : Option Cart) (coord : List ℤ) : Except String ℤ :=
  (checkCart mp_cart).map fun cart => rankLoop cart.dim coord 1 0

/-- One of the two results of `MP_Cart_Shift`. -/
def shifted (myproc dist d dmod : ℤ) : ℤ :=
  let base := myproc.tdiv dmod * dmod
  base + (myproc - base + dist * d + |dist| * dmod).tmod dmod

/-- `MP_Cart_Shift`, with `*source` and `*dest`. -/
def mpCartShift (mp_cart : Option Cart) (myproc dir dist : ℤ) : Except String (ℤ × ℤ) :=
  (checkCart mp_cart).bind fun cart =>
    if dir < 0 ∨ dir > cart.dim.length - 1 then
      .error "MP_Cart_shift() - the direction is greater than ndims"
    else
      let d := (cart.dim.take dir.toNat).foldl (· * ·) 1
      let dmod := d * cart.dim.getD dir.toNat 0
      .ok (shifted myproc (-dist) d dmod, shifted myproc dist d dmod)

/-- The routines describe a torus with the given dimensions. -/
structure Cart.IsTorus (cart : Cart) (nprocs : ℕ) : Prop where
  coords : ∀ p : ℤ, 0 ≤ p → p < nprocs → ∃ coord, mpCartCoords (some cart) p = .ok coord ∧
    Box cart.dim coord ∧ mpCartRank (some cart) coord = .ok p
  rank : ∀ coord, Box cart.dim coord → ∃ p : ℤ, mpCartRank (some cart) coord = .ok p ∧
    0 ≤ p ∧ p < nprocs ∧ mpCartCoords (some cart) p = .ok coord
  shift : ∀ (myproc dist : ℤ) (dir : ℕ), 0 ≤ myproc → myproc < nprocs → dir < cart.dim.length →
    ∃ source dest coord, mpCartShift (some cart) myproc dir dist = .ok (source, dest) ∧
      (0 ≤ source ∧ source < nprocs) ∧ (0 ≤ dest ∧ dest < nprocs) ∧
      mpCartCoords (some cart) myproc = .ok coord ∧
      mpCartCoords (some cart) source = .ok (turn cart.dim dir (-dist) coord) ∧
      mpCartCoords (some cart) dest = .ok (turn cart.dim dir dist coord) ∧
      ∃ dest', mpCartShift (some cart) dest dir dist = .ok (myproc, dest')

variable {cart : Cart} {nprocs : ℕ} {dim coord : List ℤ} {p w n k myproc dist : ℤ} {dir : ℕ}

/-! ### The loops -/

lemma coordsLoop_eq (hdim : ∀ d ∈ dim, 1 ≤ d) (hp : 0 ≤ p) : coordsLoop dim p = digits dim p := by
  induction dim generalizing p with
  | nil => rfl
  | cons d dim ih =>
    have hd : 0 < d := hdim d List.mem_cons_self
    rw [coordsLoop, digits, Int.tmod_eq_emod_of_nonneg hp, Int.tdiv_eq_ediv_of_nonneg hp,
      ih (fun x hx => hdim x (List.mem_cons_of_mem _ hx)) (Int.ediv_nonneg hp hd.le)]

lemma rankLoop_eq (dim coord : List ℤ) (m rank : ℤ) :
    rankLoop dim coord m rank = rank + m * value dim coord := by
  induction dim generalizing coord m rank with
  | nil => simp [rankLoop, value]
  | cons d dim ih =>
    cases coord with
    | nil => simp [rankLoop, value]
    | cons c coord =>
      rw [rankLoop, value, ih]
      ring

@[simp] lemma mpCartRank_some (cart : Cart) (coord : List ℤ) :
    mpCartRank (some cart) coord = .ok (value cart.dim coord) := by
  simp [mpCartRank, checkCart, Except.map, rankLoop_eq]

lemma mpCartCoords_some (hdim : ∀ d ∈ cart.dim, 1 ≤ d) (hp : 0 ≤ p) :
    mpCartCoords (some cart) p = .ok (digits cart.dim p) := by
  simp [mpCartCoords, checkCart, Except.map, coordsLoop_eq hdim hp]

/-- The multiple of `dmod` that is added keeps the remainder of C from being negative. -/
lemma shifted_eq (hw : 0 < w) (hn : 1 ≤ n) (hp : 0 ≤ myproc) :
    shifted myproc dist w (w * n) =
      myproc + w * ((myproc / w % n + dist) % n - myproc / w % n) := by
  have hbase : myproc - myproc / (w * n) * (w * n) = myproc % (w * n) := by
    rw [mul_comm, Int.emod_def]
  have hr : 0 ≤ myproc % (w * n) := Int.emod_nonneg _ (mul_pos hw hn).ne'
  have hdist : 0 ≤ dist * w + |dist| * (w * n) := by
    have h₁ : -(|dist| * w) ≤ dist * w := by
      rw [← neg_mul]
      exact Int.mul_le_mul_of_nonneg_right (neg_abs_le dist) hw.le
    have h₂ : |dist| * w ≤ |dist| * (w * n) :=
      Int.mul_le_mul_of_nonneg_left (le_mul_of_one_le_right hw.le hn) (abs_nonneg dist)
    linarith
  rw [shifted, Int.tdiv_eq_ediv_of_nonneg hp, hbase, Int.tmod_eq_emod_of_nonneg (by linarith),
    Int.add_mul_emod_self_right, MixedRadix.turn_eq hw hn]

/-! ### The topology -/

/-- A shift turns one coordinate. -/
lemma shifted_eq_value (hdim : ∀ d ∈ dim, 1 ≤ d) (hp : 0 ≤ p) (hlt : p < dim.prod)
    (hdir : dir < dim.length) :
    shifted p k (dim.take dir).prod ((dim.take dir).prod * dim[dir]) =
      value dim (turn dim dir k (digits dim p)) := by
  have hw : 0 < (dim.take dir).prod :=
    MixedRadix.prod_pos fun d hd => hdim d (List.mem_of_mem_take hd)
  have hlen : dim.length = (digits dim p).length := by simp
  have hdigit := MixedRadix.getElem_digits hdim p hdir (by simpa using hdir)
  rw [shifted_eq hw (hdim _ (List.getElem_mem hdir)) hp, turn,
    MixedRadix.value_set hlen (by simpa using hdir), MixedRadix.value_digits hdim hp hlt, hdigit]
  simp [hdir, hdigit]

lemma mpCartShift_some (hdim : ∀ d ∈ cart.dim, 1 ≤ d) (hp : 0 ≤ p) (hlt : p < cart.dim.prod)
    (hdir : dir < cart.dim.length) :
    mpCartShift (some cart) p dir dist =
      .ok (value cart.dim (turn cart.dim dir (-dist) (digits cart.dim p)),
        value cart.dim (turn cart.dim dir dist (digits cart.dim p))) := by
  have hcheck : ¬ ((dir : ℤ) < 0 ∨ (dir : ℤ) > cart.dim.length - 1) := by omega
  have hfold : (cart.dim.take dir).foldl (· * ·) 1 = (cart.dim.take dir).prod :=
    List.prod_eq_foldl.symm
  have hget : cart.dim.getD dir 0 = cart.dim[dir] := by simp [hdir]
  simp only [mpCartShift, checkCart, Except.bind, if_neg hcheck, Int.toNat_natCast, hfold, hget,
    shifted_eq_value hdim hp hlt hdir]

/-- A turned coordinate belongs to a process. -/
lemma turn_mem (hdim : ∀ d ∈ dim, 1 ≤ d) (hdir : dir < dim.length) (k : ℤ) (hbox : Box dim coord) :
    Box dim (turn dim dir k coord) :=
  hbox.turn hdir (hdim _ (List.getElem_mem hdir)) k

lemma isTorus_of_pos (hdim : ∀ d ∈ cart.dim, 1 ≤ d) (hprod : cart.dim.prod = nprocs) :
    cart.IsTorus nprocs where
  coords p hp hlt := by
    rw [← hprod] at hlt
    refine ⟨_, mpCartCoords_some hdim hp, MixedRadix.box_digits hdim p, ?_⟩
    rw [mpCartRank_some, MixedRadix.value_digits hdim hp hlt]
  rank coord hbox := by
    obtain ⟨h0, hlt⟩ := hbox.value_mem
    refine ⟨_, mpCartRank_some cart coord, h0, hprod ▸ hlt, ?_⟩
    rw [mpCartCoords_some hdim h0, hbox.digits_value]
  shift myproc dist dir hp hlt hdir := by
    rw [← hprod] at hlt ⊢
    have hbox := MixedRadix.box_digits hdim myproc
    have hsource := turn_mem hdim hdir (-dist) hbox
    have hdest := turn_mem hdim hdir dist hbox
    refine ⟨_, _, _, mpCartShift_some hdim hp hlt hdir, hsource.value_mem, hdest.value_mem,
      mpCartCoords_some hdim hp, ?_, ?_, ?_⟩
    · rw [mpCartCoords_some hdim hsource.value_mem.1, hsource.digits_value]
    · rw [mpCartCoords_some hdim hdest.value_mem.1, hdest.digits_value]
    · have hback := hbox.turn_turn hdir (add_neg_cancel dist)
      have hshift : mpCartShift (some cart) _ dir dist = _ :=
        mpCartShift_some hdim hdest.value_mem.1 hdest.value_mem.2 hdir
      rw [hdest.digits_value, hback, MixedRadix.value_digits hdim hp hlt] at hshift
      exact ⟨_, hshift⟩

/-- Dimensions that multiply up to the number of processes give a torus. -/
theorem mpCartCreate_isTorus (nprocs : ℕ) (dim : List ℤ) (hlen : dim.length ∈ Finset.Icc 1 10)
    (hdim : ∀ d ∈ dim, 1 ≤ d) (hprod : dim.prod = nprocs) :
    ∃ cart : Cart, cart.dim = dim ∧ (∀ n, mpCartCreate n nprocs dim = some (.ok cart)) ∧
      cart.IsTorus nprocs := by
  refine ⟨⟨dim⟩, rfl, fun n => ?_, isTorus_of_pos hdim hprod⟩
  obtain ⟨h1, h10⟩ := Finset.mem_Icc.mp hlen
  have hndims : ¬ (dim.length < 1 ∨ dim.length > 10) := by omega
  have hhead : dim.head? ≠ some 0 := fun h => absurd (hdim 0 (List.mem_of_head? h)) (by decide)
  rw [mpCartCreate, if_neg hndims, if_neg hhead, if_neg (not_not.mpr hprod)]

/-- The grid of the test program, for 8 processes. -/
theorem mpCartCreate_isTorus_grid : ∃ cart : Cart, cart.dim = [4, 2] ∧
    (∀ n, mpCartCreate n 8 [4, 2] = some (.ok cart)) ∧ cart.IsTorus 8 :=
  mpCartCreate_isTorus 8 [4, 2] (by decide) (by decide) (by decide)

end NetPipe.MpLite
