import NetPipe.Driver.IntRange
import NetPipe.Mpi.Options

/-!
# Messages of doubles

With `--doubles` NPmpi sends `buflen / 8` elements of 8 bytes, while the buffers are set up and checked
for `buflen` bytes. The option rounds `start` and `end` to multiples of 8, but the increment is half of
`start`, and later options set `start` and the perturbation again.
-/

namespace NetPipe.Args

/-- The bytes that `SendData` of `mpi.c` transmits. -/
def sentBytes (v : Vars MpiVars) (buflen : ℤ) : ℤ :=
  let nelements := buflen.tdiv v.own.bytes_per
  nelements * if v.own.datasize = 1 then 1 else 8

/-- Every tested size is a number of doubles, all of it is sent, and so is the last byte, which
`SetupBufferData` stamps and `CheckBufferData` tests. -/
def WholeBuffers (v : Vars MpiVars) (h : 1 ≤ v.glob.start) : Prop :=
  ∀ late, ∀ d ∈ schedule (v.glob.sizeArgs h) v.glob.factors_of_2 late, ∀ buflen ∈ d.buflens,
    8 ∣ buflen ∧ sentBytes v buflen = buflen ∧ buflen - 1 < sentBytes v buflen

/-- The run starts with a multiple of 16, of 8 if it has factors of 2 only or no second centre, and where
it perturbs, the perturbation is a multiple of 8. -/
def Aligned (a : SizeArgs) (factors_of_2 : Bool) : Prop :=
  0 ≤ a.perturbation → 8 ∣ a.start ∧
    (factors_of_2 = true ∨ 16 ∣ a.start ∨ a.end < a.start + a.start / 2) ∧
    ∀ k, sizeAt a factors_of_2 k ≤ a.end → 0 < a.perturbation →
      a.perturbation + 1 < gapAt a factors_of_2 k → 8 ∣ a.perturbation

/-! ### The options -/

/-- `start` is positive, and the number of bytes and the type of an element belong together. -/
structure MpiInv (v : Vars MpiVars) : Prop where
  start_pos : 1 ≤ v.glob.start
  element : v.own.datasize = 1 ∧ v.own.bytes_per = 1 ∨ v.own.datasize = 8 ∧ v.own.bytes_per = 8

variable {c : Strcmp} {w : MpiWorld} {v v' : Vars MpiVars} {o : Opt}

lemma MainStep.start_pos {g g' : Globals} {arg : String} (h : MainStep g g' arg)
    (hstart : 1 ≤ g.start) : 1 ≤ g'.start := by
  rcases h.sizes with ⟨-, heq, -⟩ | ⟨-, heq, -⟩ | ⟨-, hpos, -⟩ | ⟨-, heq, -⟩
  · rwa [heq]
  · rw [heq]
    norm_num
  · exact hpos
  · rwa [heq]

/-- What the options of NPmpi do. -/
lemma mpiArgOpt_cases {arg : String} {opt : Option String} (h : mpiArgOpt c w v arg opt = .ok v') :
    (v'.glob = { v.glob with async := v'.glob.async } ∧ v'.own.datasize = v.own.datasize ∧
      v'.own.bytes_per = v.own.bytes_per ∧
      arg ∈ ["async", "asynchronous", "syncSend", "sync", "anysource"]) ∨
    (v' = v.doubles ∧ arg ∉ ["async", "asynchronous", "syncSend", "sync", "anysource"]) := by
  rw [mpiArgOpt] at h
  rcases ite_cases h with ⟨harg, h⟩ | ⟨hasync, h⟩
  · cases h
    refine .inl ⟨rfl, rfl, rfl, ?_⟩
    rcases harg with harg | harg <;> rw [c.eq_zero_iff] at harg <;> simp [harg]
  rcases ite_cases h with ⟨harg, h⟩ | ⟨hsync, h⟩
  · cases h
    refine .inl ⟨rfl, rfl, rfl, ?_⟩
    rcases harg with harg | harg <;> rw [c.eq_zero_iff] at harg <;> simp [harg]
  rcases ite_cases h with ⟨harg, h⟩ | ⟨hany, h⟩
  · cases h
    rw [c.eq_zero_iff] at harg
    exact .inl ⟨rfl, rfl, rfl, by simp [harg]⟩
  rcases ite_cases h with ⟨-, h⟩ | ⟨-, h⟩
  · cases h
    simp only [Strcmp.eq_zero_iff, not_or] at hasync hsync hany
    exact .inr ⟨rfl, by simp [hasync, hsync, hany]⟩
  · cases h

lemma MpiInv.step (h : MpiInv v) (hstep : mainOption (mpiModule c w) v o = .ok v') :
    MpiInv v' := by
  rcases mainOption_cases hstep with ⟨-, hown, hmain⟩ | ⟨-, hmpi⟩
  · exact ⟨hmain.start_pos h.start_pos, by rw [hown]; exact h.element⟩
  · have hmpi : mpiArgOpt c w v o.arg o.opt = .ok v' := hmpi
    rcases mpiArgOpt_cases hmpi with ⟨hglob, hsize, hper, -⟩ | ⟨rfl, -⟩
    · constructor
      · rw [hglob]
        exact h.start_pos
      · rw [hsize, hper]
        exact h.element
    · exact ⟨le_trans (by norm_num) (le_max_left 16 _), .inr ⟨rfl, rfl⟩⟩

lemma mpiInv_of_enter {argv : List String} (h : enter (mpiModule c w) argv = .ok v) : MpiInv v := by
  obtain ⟨u, hparse, hsetup⟩ := enter_eq_ok h
  have hu : MpiInv u := by
    apply parseArgs_induction (fun v o v' hv ho => MpiInv.step hv ho) _ hparse
    exact ⟨le_rfl, .inl ⟨rfl, rfl⟩⟩
  cases hsetup
  exact ⟨hu.start_pos, hu.element⟩

/-! ### The sizes -/

variable {a : SizeArgs} {b : Bool} {k : ℕ}

lemma sentBytes_eq (hper : v.own.bytes_per = 8) (hsize : v.own.datasize = 8) {n : ℤ} :
    sentBytes v n = n.tdiv 8 * 8 := by
  simp [sentBytes, hper, hsize]

lemma wholeBuffers_iff (hper : v.own.bytes_per = 8) (hsize : v.own.datasize = 8)
    (h : 1 ≤ v.glob.start) : WholeBuffers v h ↔
      ∀ k, sizeAt (v.glob.sizeArgs h) v.glob.factors_of_2 k ≤ (v.glob.sizeArgs h).end →
        ∀ q ∈ perts (v.glob.sizeArgs h).perturbation
            (gapAt (v.glob.sizeArgs h) v.glob.factors_of_2 k),
          8 ∣ sizeAt (v.glob.sizeArgs h) v.glob.factors_of_2 k + q := by
  rw [← forall_tested_iff (v.glob.sizeArgs h) v.glob.factors_of_2 (8 ∣ ·), WholeBuffers]
  refine forall₅_congr fun _ _ _ n _ => ?_
  rw [sentBytes_eq hper hsize]
  constructor
  · exact And.left
  · intro hdvd
    have := Int.tdiv_mul_cancel hdvd
    exact ⟨hdvd, this, by omega⟩

lemma dvd_sizeAt (ha : 8 ∣ a.start) (h : b = true ∨ 16 ∣ a.start) (hp : 0 ≤ a.perturbation)
    (k : ℕ) : 8 ∣ sizeAt a b k := by
  have hs := a.start_pos
  cases b with
  | true =>
    simp only [sizeAt, if_true]
    exact ha.mul_right _
  | false =>
    have h16 : 16 ∣ a.start := by simpa using h
    induction k with
    | zero =>
      have hzero : sizeAt a false 0 = a.start := (atSize_init a false).len_eq.symm
      rwa [hzero]
    | succ k ih =>
      rw [sizeAt_succ]
      refine dvd_add ih ?_
      have hhalf : 8 ∣ a.start / 2 := by omega
      have hne : a.start ≠ 1 := by omega
      simp only [gapAt, hp, if_true, Bool.false_eq_true, if_false, centreGap, hne]
      exact hhalf.mul_right _

lemma aligned_iff : (∀ k, sizeAt a b k ≤ a.end → ∀ q ∈ perts a.perturbation (gapAt a b k),
    8 ∣ sizeAt a b k + q) ↔ Aligned a b := by
  have hs := a.start_pos
  have hzero : sizeAt a b 0 = a.start := (atSize_init a b).len_eq.symm
  by_cases hp : 0 ≤ a.perturbation
  swap
  · simp [Aligned, hp, perts_of_neg]
  have hcentre : ∀ k, (0 : ℤ) ∈ perts a.perturbation (gapAt a b k) := by
    intro k
    rw [perts_eq hp]
    split_ifs <;> simp
  constructor
  · intro h _
    have hsize : ∀ k, sizeAt a b k ≤ a.end → 8 ∣ sizeAt a b k := fun k hle => by
      simpa using h k hle 0 (hcentre k)
    have hstart : 8 ∣ a.start := hzero ▸ hsize 0 (hzero ▸ a.start_le)
    refine ⟨hstart, ?_, fun k hle hpos hgap => ?_⟩
    · cases b with
      | true => exact .inl rfl
      | false =>
        right
        by_contra hcon
        rw [not_or, not_lt] at hcon
        have hne : a.start ≠ 1 := by omega
        have hone : sizeAt a false 1 = a.start + a.start / 2 := by
          rw [sizeAt_succ, hzero]
          simp [gapAt, hp, centreGap, hne]
        have := hsize 1 (by rw [hone]; exact hcon.2)
        omega
    · have htop := topPert_mem hp (gapAt a b k)
      rw [topPert, if_pos ⟨hpos, hgap⟩] at htop
      exact (dvd_add_right (hsize k hle)).mp (h k hle _ htop)
  · intro h k hle q hq
    obtain ⟨hstart, hcentres, hpert⟩ := h hp
    have hsize : 8 ∣ sizeAt a b k := by
      rcases hcentres with hfac | h16 | hend
      · exact dvd_sizeAt hstart (.inl hfac) hp k
      · exact dvd_sizeAt hstart (.inr h16) hp k
      · cases b with
        | true => exact dvd_sizeAt hstart (.inl rfl) hp k
        | false =>
          have hne : a.start ≠ 1 := by omega
          have hone : sizeAt a false 1 = a.start + a.start / 2 := by
            rw [sizeAt_succ, hzero]
            simp [gapAt, hp, centreGap, hne]
          have hk : k = 0 := by
            by_contra hk
            have := (sizeAt_strictMono a false).monotone (Nat.one_le_iff_ne_zero.mpr hk)
            omega
          rwa [hk, hzero]
    refine dvd_add hsize ?_
    rw [perts_eq hp] at hq
    split_ifs at hq with hif
    · have := hpert k hle hif.1 hif.2
      simp only [List.mem_cons, List.not_mem_nil, or_false] at hq
      rcases hq with rfl | rfl | rfl
      · exact this.neg_right
      · exact dvd_zero 8
      · exact this
    · rw [List.mem_singleton.mp hq]
      exact dvd_zero 8

/-- Whatever the options and their order, a run with doubles sends whole buffers if and only if its sizes
are aligned. -/
theorem wholeBuffers_iff_aligned (c : Strcmp) (w : MpiWorld) (argv : List String) (v : Vars MpiVars)
    (henter : enter (mpiModule c w) argv = .ok v) (hdouble : v.own.datasize = 8) :
    ∃ h : 1 ≤ v.glob.start, WholeBuffers v h ↔ Aligned (v.glob.sizeArgs h) v.glob.factors_of_2 := by
  have hinv := mpiInv_of_enter henter
  have hper : v.own.bytes_per = 8 := by
    rcases hinv.element with ⟨hone, -⟩ | ⟨-, height⟩
    · omega
    · exact height
  exact ⟨hinv.start_pos, (wholeBuffers_iff hper hdouble hinv.start_pos).trans aligned_iff⟩

/-- The variables behind `--start 17 --doubles`. -/
def startDoubles : Vars MpiVars where
  glob := { Globals.init with
    nprocs := 2
    start := 24
    perturbation := 0
    async := true
    transmitter := true }
  own := ⟨false, 8, 8, 1⟩

/-- `--start 17 --doubles` tests 24 bytes and then 36. -/
theorem not_wholeBuffers :
    enter (mpiModule Strcmp.difference ⟨⟨2, 0, by decide⟩, -1⟩)
        ["--start", "17", "--doubles"] = .ok startDoubles ∧
      startDoubles.own.datasize = 8 ∧
      ¬ WholeBuffers startDoubles (show 1 ≤ startDoubles.glob.start by decide) := by
  refine ⟨rfl, rfl, ?_⟩
  rw [wholeBuffers_iff rfl rfl]
  intro h
  have := h 1 (by decide) 0 (by rw [perts_eq (by decide)]; decide)
  exact absurd this (by decide)

/-- The variables behind `--doubles`. -/
def defaultDoubles : Vars MpiVars where
  glob := { Globals.init with
    nprocs := 2
    start := 16
    perturbation := 0
    async := true
    transmitter := true }
  own := ⟨false, 8, 8, 1⟩

/-- `--doubles` without other sizes. -/
theorem wholeBuffers_default :
    ∃ h : 1 ≤ defaultDoubles.glob.start, WholeBuffers defaultDoubles h := by
  obtain ⟨h, hiff⟩ := wholeBuffers_iff_aligned Strcmp.difference ⟨⟨2, 0, by decide⟩, -1⟩
    ["--doubles"] defaultDoubles rfl rfl
  have hstart : (16 : ℤ) ∣ (defaultDoubles.glob.sizeArgs h).start := dvd_refl 16
  have hpert : (defaultDoubles.glob.sizeArgs h).perturbation = 0 := rfl
  refine ⟨h, hiff.mpr fun _ => ⟨Dvd.dvd.trans (by norm_num) hstart, .inr (.inl hstart), ?_⟩⟩
  intro k _ hpos
  omega

end NetPipe.Args
