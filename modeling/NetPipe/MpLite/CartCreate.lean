import NetPipe.MpLite.Cartesian

/-!
# Dimensions chosen by MP_Cart_Create

With `dim[0] = 0` the routine looks for factors of the number of processes. The first factor that it
finds is the number itself, so that all processes are in the first dimension.
-/

namespace NetPipe.MpLite

/-- The largest dimension minus the smallest. -/
def spread (dim : List ℤ) : ℤ := dim.max?.getD 0 - dim.min?.getD 0

/-- `n` is divided among `ndims` dimensions. -/
structure Factorises (n ndims : ℕ) (dim : List ℤ) : Prop where
  length : dim.length = ndims
  pos : ∀ d ∈ dim, 1 ≤ d
  prod : dim.prod = n

/-- The routine ends, with dimensions whose spread is as small as possible. -/
def Minimises (nprocs : ℕ) (dim : List ℤ) : Prop :=
  ∃ n cart, mpCartCreate n nprocs dim = some (.ok cart) ∧
    Factorises nprocs dim.length cart.dim ∧
    ∀ f, Factorises nprocs dim.length f → spread cart.dim ≤ spread f

variable {n m ndims nprocs : ℕ} {dim : List ℤ} {l u x y : ℤ}

/-! ### The factors that are found -/

/-- The last number that the inner loop tries divides `np`. -/
lemma bestFactor_eq (hn : 2 ≤ n) : bestFactor n = n := by
  obtain ⟨m, rfl⟩ := Nat.exists_eq_add_of_le hn
  have hrange : List.range' 2 (2 + m - 1) = List.range' 2 m ++ [2 + m] := by
    rw [show 2 + m - 1 = m + 1 from by omega, List.range'_concat, Nat.one_mul]
  rw [bestFactor, hrange, List.foldl_append]
  simp

/-- The dimensions that the loop ends with. -/
def allInFirst (nprocs ndims : ℕ) : List ℤ := nprocs :: List.replicate (ndims - 1) 1

lemma shareFactors_one (n d : ℕ) (dim : List ℤ) : shareFactors (n + 1) 1 d dim = some dim :=
  if_pos rfl

/-- All processes are put in one dimension. -/
lemma shareFactors_eq (hn : 1 ≤ n) (hndims : 1 ≤ ndims) (dim : List ℤ) (hdim : dim.length = ndims) :
    shareFactors 2 n 0 (dim.map fun _ => 1) = some (allInFirst n ndims) := by
  obtain ⟨d, dim, rfl⟩ := List.exists_cons_of_length_pos (hdim ▸ hndims)
  have hrest : dim.map (fun _ => (1 : ℤ)) = List.replicate (ndims - 1) 1 := by
    rw [List.map_const', ← hdim, List.length_cons, Nat.add_sub_cancel]
  rw [List.map_cons, hrest]
  rcases Nat.eq_or_lt_of_le hn with rfl | hlt
  · exact shareFactors_one 1 0 _
  · have hself : n / n = 1 := Nat.div_self hn
    rw [shareFactors, if_neg hlt.ne']
    simp only [bestFactor_eq hlt, hself, shareFactors_one]
    simp [allInFirst]

/-- More passes do not change the dimensions. -/
lemma shareFactors_mono {fuel fuel' d : ℕ} {dim dim' : List ℤ} (hle : fuel ≤ fuel')
    (h : shareFactors fuel n d dim = some dim') : shareFactors fuel' n d dim = some dim' := by
  induction fuel generalizing fuel' n d dim with
  | zero => simp [shareFactors] at h
  | succ fuel ih =>
    obtain ⟨k, rfl⟩ := Nat.exists_eq_add_of_le hle
    rw [Nat.add_right_comm, shareFactors]
    rw [shareFactors] at h
    split_ifs at h ⊢ with h1
    · exact h
    · exact ih (Nat.le_add_right _ _) h

/-! ### The spread -/

lemma spread_le (hne : dim ≠ []) (h : ∀ d ∈ dim, l ≤ d ∧ d ≤ u) : spread dim ≤ u - l := by
  obtain ⟨a, ha⟩ := Option.ne_none_iff_exists'.mp (mt List.max?_eq_none_iff.mp hne)
  obtain ⟨b, hb⟩ := Option.ne_none_iff_exists'.mp (mt List.min?_eq_none_iff.mp hne)
  have hmax := h a (List.max?_mem ha)
  have hmin := h b (List.min?_mem hb)
  rw [spread, ha, hb, Option.getD_some, Option.getD_some]
  linarith

lemma le_spread (hx : x ∈ dim) (hy : y ∈ dim) : x - y ≤ spread dim := by
  have hne : dim ≠ [] := List.ne_nil_of_mem hx
  obtain ⟨a, ha⟩ := Option.ne_none_iff_exists'.mp (mt List.max?_eq_none_iff.mp hne)
  obtain ⟨b, hb⟩ := Option.ne_none_iff_exists'.mp (mt List.min?_eq_none_iff.mp hne)
  have hmax : x ≤ a := (List.max?_eq_some_iff.mp ha).2 x hx
  have hmin : b ≤ y := (List.min?_eq_some_iff.mp hb).2 y hy
  rw [spread, ha, hb, Option.getD_some, Option.getD_some]
  linarith

lemma spread_nonneg (hx : x ∈ dim) : 0 ≤ spread dim := by
  simpa using le_spread hx hx

lemma factorises_allInFirst (hn : 1 ≤ n) (hndims : 1 ≤ ndims) :
    Factorises n ndims (allInFirst n ndims) where
  length := by simp [allInFirst, Nat.sub_add_cancel hndims]
  pos d hd := by
    rcases List.mem_cons.mp hd with rfl | hd
    · exact_mod_cast hn
    · rw [List.eq_of_mem_replicate hd]
  prod := by simp [allInFirst]

lemma spread_allInFirst_one (n : ℕ) : spread (allInFirst n 1) = 0 := by
  simp [allInFirst, spread]

lemma spread_allInFirst (hn : 1 ≤ n) (hndims : 2 ≤ ndims) : spread (allInFirst n ndims) = n - 1 := by
  have hone : (1 : ℤ) ∈ allInFirst n ndims := by
    refine List.mem_cons_of_mem _ (List.mem_replicate.mpr ⟨?_, rfl⟩)
    omega
  refine le_antisymm (spread_le (List.cons_ne_nil _ _) fun d hd => ?_)
    (le_spread List.mem_cons_self hone)
  have hcast : (1 : ℤ) ≤ n := by exact_mod_cast hn
  rcases List.mem_cons.mp hd with rfl | hd
  · exact ⟨hcast, le_refl _⟩
  · rw [List.eq_of_mem_replicate hd]
    exact ⟨le_refl _, hcast⟩

/-! ### Factorisations -/

/-- The dimensions of a prime number are the number and ones. -/
lemma Factorises.mem_of_prime {f : List ℤ} (hf : Factorises n ndims f) (hn : n.Prime)
    (hndims : 2 ≤ ndims) : (n : ℤ) ∈ f ∧ 1 ∈ f := by
  have hprime : Prime (n : ℤ) := Nat.prime_iff_prime_int.mp hn
  obtain ⟨x, hx, hdvd⟩ := hprime.dvd_prod_iff.mp (dvd_of_eq hf.prod.symm)
  have hxn : x = n := by
    refine le_antisymm (Int.le_of_dvd (by exact_mod_cast hn.pos) ?_)
      (Int.le_of_dvd (hf.pos x hx) hdvd)
    exact hf.prod ▸ List.dvd_prod hx
  subst hxn
  refine ⟨hx, ?_⟩
  obtain ⟨f₁, f₂, rfl⟩ := List.append_of_mem hx
  -- the product of the other dimensions is one
  have hone : (f₁ ++ f₂).prod = 1 := by
    have hprod := hf.prod
    rw [List.prod_append, List.prod_cons, mul_left_comm] at hprod
    rw [List.prod_append]
    exact mul_left_cancel₀ hprime.ne_zero (hprod.trans (mul_one _).symm)
  have hlen := hf.length
  rw [List.length_append, List.length_cons] at hlen
  obtain ⟨y, hy⟩ := List.exists_mem_of_length_pos (l := f₁ ++ f₂) (by
    rw [List.length_append]
    omega)
  have hymem : y ∈ f₁ ++ (n : ℤ) :: f₂ := by
    rcases List.mem_append.mp hy with hy | hy
    · exact List.mem_append_left _ hy
    · exact List.mem_append_right _ (List.mem_cons_of_mem _ hy)
  have hle : y ≤ 1 := Int.le_of_dvd one_pos (hone ▸ List.dvd_prod hy)
  rwa [le_antisymm hle (hf.pos y hymem)] at hymem

/-- A composite number can be divided more evenly. -/
lemma exists_spread_lt {a b : ℕ} (ha : 2 ≤ a) (hb : 2 ≤ b) (hndims : 2 ≤ ndims) :
    ∃ f, Factorises (a * b) ndims f ∧ spread f < ((a * b : ℕ) : ℤ) - 1 := by
  have hrep : ∀ d ∈ List.replicate (ndims - 2) (1 : ℤ), d = 1 :=
    fun d hd => List.eq_of_mem_replicate hd
  have hab : a < a * b ∧ b < a * b := ⟨by nlinarith, by nlinarith⟩
  refine ⟨a :: b :: List.replicate (ndims - 2) 1, ⟨?_, ?_, ?_⟩, ?_⟩
  · simp [Nat.sub_add_cancel hndims]
  · intro d hd
    simp only [List.mem_cons] at hd
    rcases hd with rfl | rfl | hd
    · exact_mod_cast Nat.le_of_succ_le ha
    · exact_mod_cast Nat.le_of_succ_le hb
    · rw [hrep d hd]
  · simp
  · refine lt_of_le_of_lt (spread_le (l := 1) (u := (a * b : ℕ) - 1) (List.cons_ne_nil _ _) ?_) ?_
    · intro d hd
      simp only [List.mem_cons] at hd
      rcases hd with rfl | rfl | hd
      · constructor <;> omega
      · constructor <;> omega
      · rw [hrep d hd]
        constructor <;> omega
    · omega

/-! ### The result -/

/-- Whatever the number of passes, all processes are in the first dimension. -/
lemma mpCartCreate_auto (hlen : dim.length ∈ Finset.Icc 1 10) (hauto : dim.head? = some 0)
    (hn : 1 ≤ nprocs) :
    mpCartCreate 2 nprocs dim = some (.ok ⟨allInFirst nprocs dim.length⟩) ∧
      ∀ n cart, mpCartCreate n nprocs dim = some (.ok cart) →
        cart.dim = allInFirst nprocs dim.length := by
  obtain ⟨h1, h10⟩ := Finset.mem_Icc.mp hlen
  have hndims : ¬ (dim.length < 1 ∨ dim.length > 10) := by omega
  have htwo := shareFactors_eq hn h1 dim rfl
  constructor
  · rw [mpCartCreate, if_neg hndims, if_pos hauto, htwo, Option.map_some]
  · intro n cart h
    rw [mpCartCreate, if_neg hndims, if_pos hauto, Option.map_eq_some_iff] at h
    obtain ⟨dim', hshare, hcart⟩ := h
    rw [← Except.ok.inj hcart]
    have hboth := (shareFactors_mono (Nat.le_max_left n 2) hshare).symm.trans
      (shareFactors_mono (Nat.le_max_right n 2) htwo)
    exact Option.some.inj hboth

lemma minimises_iff (hlen : dim.length ∈ Finset.Icc 1 10) (hauto : dim.head? = some 0)
    (hn : 1 ≤ nprocs) :
    Minimises nprocs dim ↔ ∀ f, Factorises nprocs dim.length f →
      spread (allInFirst nprocs dim.length) ≤ spread f := by
  obtain ⟨htwo, hany⟩ := mpCartCreate_auto hlen hauto hn
  constructor
  · rintro ⟨n, cart, hcreate, -, hmin⟩
    rwa [hany n cart hcreate] at hmin
  · intro hmin
    exact ⟨2, _, htwo, factorises_allInFirst hn (Finset.mem_Icc.mp hlen).1, hmin⟩

/-- The dimensions that the routine chooses have the smallest spread exactly if there is one
dimension, or a number of processes that cannot be divided. -/
theorem mpCartCreate_minimises_iff (nprocs : ℕ) (dim : List ℤ)
    (hlen : dim.length ∈ Finset.Icc 1 10) (hauto : dim.head? = some 0) (hn : 1 ≤ nprocs) :
    Minimises nprocs dim ↔ dim.length = 1 ∨ nprocs = 1 ∨ nprocs.Prime := by
  obtain ⟨h1, -⟩ := Finset.mem_Icc.mp hlen
  rw [minimises_iff hlen hauto hn]
  rcases Nat.eq_or_lt_of_le h1 with hone | hndims
  · rw [← hone, spread_allInFirst_one]
    simp only [true_or, iff_true]
    intro f hf
    obtain ⟨x, hx⟩ := List.exists_mem_of_length_pos (hf.length ▸ Nat.one_pos)
    exact spread_nonneg hx
  · rw [spread_allInFirst hn hndims]
    have hne : dim.length ≠ 1 := Nat.ne_of_gt hndims
    constructor
    · intro hmin
      by_contra hcon
      rw [not_or, not_or] at hcon
      obtain ⟨-, hn1, hprime⟩ := hcon
      obtain ⟨a, b, ha, hb, rfl⟩ := (Nat.not_prime_iff_exists_mul_eq (by omega)).mp hprime
      have ha2 : 2 ≤ a := by
        by_contra hlt
        interval_cases a <;> omega
      have hb2 : 2 ≤ b := by
        by_contra hlt
        interval_cases b <;> omega
      obtain ⟨f, hf, hlt⟩ := exists_spread_lt ha2 hb2 hndims
      exact absurd (hmin f hf) (not_le.mpr hlt)
    · rintro (hone | rfl | hprime) f hf
      · exact absurd hone hne
      · obtain ⟨x, hx⟩ := List.exists_mem_of_length_pos (hf.length ▸ h1)
        simpa using spread_nonneg hx
      · obtain ⟨hx, hy⟩ := hf.mem_of_prime hprime hndims
        exact le_spread hx hy

/-- Five processes cannot be divided. -/
theorem mpCartCreate_minimises_five : Minimises 5 [0, 0] :=
  (mpCartCreate_minimises_iff 5 [0, 0] (by decide) rfl (by decide)).mpr
    (Or.inr (Or.inr (by norm_num)))

/-- Four processes are not divided among two dimensions. -/
theorem not_mpCartCreate_minimises : ¬ Minimises 4 [0, 0] := by
  rw [minimises_iff (by decide) rfl (by decide)]
  intro hmin
  have hle := hmin [2, 2] ⟨rfl, by decide, by decide⟩
  revert hle
  decide

end NetPipe.MpLite
