import Mathlib
import NetPipe.Driver.Aggregate
import NetPipe.Driver.IntRange
import NetPipe.Disk.Options
import NetPipe.Mpi.Doubles

/-!
# Accepted command lines

`--start` and `--end` check the sizes against each other, but `--workload`, the doubles of NPmpi and
some options of NPdisk set a size without looking at the other. As long as every option that does so finds
room for its size, the main loop starts with `1 <= start <= end`, and neither its divisions nor the
loops over the records of a file go wrong.
-/

namespace NetPipe.Args

/-! ### What the sizes have to be -/

/-- The variables of `main` are in order. -/
structure WellFormed (g : Globals) : Prop where
  start_pos : 1 ≤ g.start
  start_le : g.start ≤ g.end
  end_lt : g.end < 2 ^ 31
  ntrials_pos : 1 ≤ g.ntrials
  est_latency_pos : 0 < g.est_latency
  myproc_lt : g.myproc < g.nprocs

/-- What has to be in order. -/
def Globals.order (g : Globals) : ℤ × ℤ × ℤ × ℚ × ℕ × ℕ :=
  (g.start, g.end, g.ntrials, g.est_latency, g.nprocs, g.myproc)

/-- The condition under which the options of a module keep the variables in order, which may include
variables of the module. -/
structure Admissibility {μ : Type*} (m : NetModule μ) where
  Own : μ → Prop
  Admits : Vars μ → String → Option String → Prop
  init : WellFormed (m.init Globals.init).glob ∧ Own (m.init Globals.init).own
  step_iff : ∀ {v v' arg opt}, WellFormed v.glob → Own v.own → m.argOpt v arg opt = .ok v' →
    (WellFormed v'.glob ∧ Own v'.own ↔ Admits v arg opt)
  setup : ∀ {v v'}, WellFormed v.glob → Own v.own → m.setup v = .ok v' →
    WellFormed v'.glob ∧ Own v'.own

variable {μ : Type*} {m : NetModule μ} {v v' : Vars μ} {o : Opt} {g g' : Globals} {arg : String}
  {opt : Option String}

/-- All variables of a process are in order. -/
def Admissibility.Good (A : Admissibility m) (v : Vars μ) : Prop := WellFormed v.glob ∧ A.Own v.own

/-- The option leaves room: the workload starts at 1 MiB, and a module has its own conditions. -/
def Admissibility.Meets (A : Admissibility m) (v : Vars μ) (o : Opt) : Prop :=
  (o.arg = "workload" → 1048576 ≤ v.glob.end) ∧
    (o.arg ∉ mainArgs → A.Admits v o.arg o.opt)

/-- All options of a command line leave room. -/
def Admissibility.AllMeet (A : Admissibility m) : Vars μ → List Opt → Prop
  | _, [] => True
  | v, o :: os => A.Meets v o ∧ ∀ v', mainOption m v o = .ok v' → A.AllMeet v' os

/-- The variables before the first option and behind each. -/
def visited (m : NetModule μ) : Vars μ → List Opt → List (Vars μ)
  | v, [] => [v]
  | v, o :: os =>
    v :: match mainOption m v o with
      | .ok v' => visited m v' os
      | .error _ => []

lemma wellFormed_iff_of_mainStep (hg : WellFormed g) (h : MainStep g g' arg) :
    WellFormed g' ↔ (arg = "workload" → 1048576 ≤ g.end) := by
  have hrest := h.rest
  simp only [Prod.mk.injEq] at hrest
  obtain ⟨hlatency, -, hnprocs, hmyproc⟩ := hrest
  have hstart := hg.start_pos
  have hle := hg.start_le
  have hlt := hg.end_lt
  have hntrials : 1 ≤ g'.ntrials := by
    have := hg.ntrials_pos
    rcases h.ntrials with heq | heq | heq <;> omega
  have hothers : 0 < g'.est_latency ∧ g'.myproc < g'.nprocs := by
    rw [hlatency, hnprocs, hmyproc]
    exact ⟨hg.est_latency_pos, hg.myproc_lt⟩
  have hiff : WellFormed g' ↔ 1 ≤ g'.start ∧ g'.start ≤ g'.end ∧ g'.end < 2 ^ 31 :=
    ⟨fun h => ⟨h.start_pos, h.start_le, h.end_lt⟩,
      fun h => ⟨h.1, h.2.1, h.2.2, hntrials, hothers.1, hothers.2⟩⟩
  rw [hiff]
  rcases h.sizes with ⟨harg, hs, he⟩ | ⟨harg, hs, he⟩ | ⟨harg, hs, hse, he⟩ | ⟨harg, hs, hse, he⟩
  all_goals
    simp only [harg, true_imp_iff, false_imp_iff, iff_true]
    omega

/-- An option keeps the variables in order if and only if it leaves room. -/
lemma Admissibility.good_iff (A : Admissibility m) (hv : A.Good v)
    (h : mainOption m v o = .ok v') : A.Good v' ↔ A.Meets v o := by
  rcases mainOption_cases h with ⟨hmem, hown, hmain⟩ | ⟨hmem, hmod⟩
  · rw [Good, Meets, hown, wellFormed_iff_of_mainStep hv.1 hmain]
    simp [hv.2, hmem]
  · have hne : o.arg ≠ "workload" := by
      rintro heq
      rw [heq] at hmem
      exact hmem (by decide)
    rw [Good, Meets, A.step_iff hv.1 hv.2 hmod]
    simp [hne, hmem]

/-- The variables are in order all the time if and only if every option leaves room. -/
lemma Admissibility.visited_iff (A : Admissibility m) {os : List Opt} (hv : A.Good v)
    (h : parseArgs m v os = .ok v') :
    ((∀ u ∈ visited m v os, A.Good u) ↔ A.AllMeet v os) ∧ (A.AllMeet v os → A.Good v') := by
  induction os generalizing v with
  | nil =>
    cases h
    simp [visited, AllMeet, hv]
  | cons o os ih =>
    rw [parseArgs, List.foldlM_cons] at h
    cases ho : mainOption m v o with
    | error e =>
      rw [ho] at h
      cases h
    | ok u =>
      rw [ho] at h
      have hiff := A.good_iff hv ho
      simp only [visited, ho, AllMeet, List.forall_mem_cons, hv, true_and, Except.ok.injEq,
        forall_eq']
      by_cases hmeets : A.Meets v o
      · have := ih (hiff.mpr hmeets) h
        simpa [hmeets] using this
      · have hu : ¬ A.Good u := fun hu => hmeets (hiff.mp hu)
        have hfirst : u ∈ visited m u os := by cases os <;> simp [visited]
        simp only [hmeets, false_and, iff_false, false_imp_iff, and_true]
        exact fun hall => hu (hall u hfirst)

/-! ### The number of repeats -/

/-- The clock, whose resolution is positive. -/
structure Clock where
  res : ℚ
  res_pos : 0 < res

/-- The choice of `nrepeat`; there is none if it divides by zero. -/
def nrepeatOf (g : Globals) (tlast : ℚ) (buflen : ℤ) : Option ℤ :=
  if g.disk > 1 then some g.disk
  else if g.nrepeat_const ≠ 0 then some g.nrepeat_const
  else if g.disk ≠ 0 then
    if buflen = 0 then none else some (max ((100000000 : ℤ).tdiv buflen) 3)
  else if tlast = 0 then none else some ⌊max (g.runtime / tlast) 3⌋

/-- The `ERRCHECK` behind the broadcast of `nrepeat` lets the process go on. -/
def inRange (nrepeat : ℤ) : Prop := ¬ (nrepeat ≤ 0 ∨ nrepeat > 1000000000)

/-- The time of a trial that took `elapsed`, for one message. -/
def trialTime (g : Globals) (clk : Clock) (nrepeat : ℤ) (elapsed : ℚ) : ℚ :=
  max elapsed clk.res / nrepeat / if g.stream ∨ g.bidir then 1 else 2

/-- The average over the trials. -/
def avgTime (g : Globals) (clk : Clock) (nrepeat : ℤ) (elapsed : List ℚ) : ℚ :=
  elapsed.foldl (fun x e => x + trialTime g clk nrepeat e / g.ntrials) 0

/-- The array `times` behind `Gather`: process 0 has the times of all processes, and all others have
their own time between `rest`, which is what `malloc` returned. -/
def timesOf (g : Globals) (avg rest : ℕ → ℚ) (i : ℕ) : ℚ :=
  if g.myproc = 0 ∨ i = g.myproc then avg i else rest i

/-- `tlast` behind a test. -/
def tlastOf (g : Globals) (npairs : ℕ) (avg rest : ℕ → ℚ) : ℚ :=
  if g.stream then
    if g.rwstream then
      forTimes 0 g.nprocs (fun x y => x + y / g.nprocs) 0 (timesOf g avg rest)
    else forTimes (g.nprocs / 2) g.nprocs (fun x y => x + y / npairs) 0 (timesOf g avg rest)
  else avg g.myproc

/-- The pairs of processes; in `memcpy` and `disk` every process works for itself. -/
def npairsOf (g : Globals) (each : Bool) : ℕ :=
  if each then g.nprocs else if g.nprocs = 1 then 1 else g.nprocs / 2

/-- The values of `tlast` in a run: first the estimated latency, then the result of a test. -/
inductive TLast (g : Globals) (clk : Clock) (each : Bool) : ℚ → Prop where
  | first : TLast g clk each g.est_latency
  | next (nrepeat : ℕ → ℤ) (elapsed : ℕ → List ℚ) (rest : ℕ → ℚ) (hn : ∀ i, inRange (nrepeat i))
      (hlen : ∀ i, ((elapsed i).length : ℤ) = g.ntrials) :
      TLast g clk each
        (tlastOf g (npairsOf g each) (fun i => avgTime g clk (nrepeat i) (elapsed i)) rest)

/-- Whether `tlast` only has times that were measured, where it is used. -/
def Measured (g : Globals) : Prop :=
  (g.myproc = 0 ∨ g.stream = false ∨ g.nprocs ≤ 2 ∧ g.rwstream = false) ∨
    g.nrepeat_const ≠ 0 ∨ g.disk ≠ 0

/-! ### The loops over the records of a file -/

/-- `for( n = 0; n < nbytes; n += step )`, from `n`: the number of records, if `fuel` is enough. -/
def recordLoop (step nbytes : ℤ) : ℕ → ℤ → Option ℕ
  | 0, _ => none
  | fuel + 1, n => if n < nbytes then (recordLoop step nbytes fuel (n + step)).map (· + 1) else some 0

/-- The step of the loop in `SendData`. -/
def DiskVars.step (d : DiskVars) : ℤ :=
  match d.iotype with
  | .s => d.nchar
  | .d => 8
  | .u => 8
  | _ => 1

/-- What the main loop relies on: sizes in order, at least one trial, no division by zero, and loops
over records that end. -/
structure Sound (g : Globals) (clk : Clock) (each : Bool) (step : ℤ) : Prop where
  start_pos : 1 ≤ g.start
  start_le : g.start ≤ g.end
  ntrials_pos : 1 ≤ g.ntrials
  divisors : ∀ late, ∀ d ∈ schedule (g.sizeArgs start_pos) g.factors_of_2 late, ∀ buflen ∈ d.buflens,
    ∀ tlast, TLast g clk each tlast → ∃ nrepeat, nrepeatOf g tlast buflen = some nrepeat ∧
      (inRange nrepeat → nrepeat ≠ 0)
  records : ∀ late, ∀ d ∈ schedule (g.sizeArgs start_pos) g.factors_of_2 late, ∀ buflen ∈ d.buflens,
    ∃ fuel, (recordLoop step buflen fuel 0).isSome

/-! ### Well-formed variables are sound -/

variable {clk : Clock} {each : Bool} {tlast : ℚ} {buflen nrepeat step : ℤ} {avg rest : ℕ → ℚ}

lemma trialTime_pos (hn : inRange nrepeat) (elapsed : ℚ) : 0 < trialTime g clk nrepeat elapsed := by
  have hmax : 0 < max elapsed clk.res := clk.res_pos.trans_le (le_max_right _ _)
  have hpos : (0 : ℚ) < nrepeat := by
    rw [inRange, not_or, not_le] at hn
    exact_mod_cast hn.1
  rw [trialTime]
  split_ifs <;> positivity

lemma avgTime_pos (hg : WellFormed g) (hn : inRange nrepeat) {elapsed : List ℚ}
    (hlen : (elapsed.length : ℤ) = g.ntrials) : 0 < avgTime g clk nrepeat elapsed := by
  have hpos := hg.ntrials_pos
  have hne : elapsed ≠ [] := by
    rintro rfl
    rw [List.length_nil] at hlen
    omega
  have hntrials : (0 : ℚ) < g.ntrials := by exact_mod_cast hpos
  rw [avgTime, foldl_div_eq, zero_add]
  apply div_pos _ hntrials
  apply List.sum_pos
  · intro x hx
    obtain ⟨e, -, rfl⟩ := List.mem_map.mp hx
    exact trialTime_pos hn e
  · simpa using hne

lemma forTimes_pos {a b n : ℕ} {f : ℕ → ℚ} (hab : a < b) (hn : 0 < n)
    (hf : ∀ i, a ≤ i → i < b → 0 < f i) : 0 < forTimes a b (fun x y => x + y / n) 0 f := by
  rw [forTimes, foldl_div_eq, zero_add]
  apply div_pos _ (Nat.cast_pos.mpr hn)
  apply List.sum_pos
  · intro x hx
    obtain ⟨i, hi, rfl⟩ := List.mem_map.mp hx
    rw [List.mem_range'_1] at hi
    exact hf i hi.1 (by omega)
  · simp only [ne_eq, List.map_eq_nil_iff, List.range'_eq_nil_iff]
    omega

lemma tlastOf_pos (hg : WellFormed g)
    (hm : g.myproc = 0 ∨ g.stream = false ∨ g.nprocs ≤ 2 ∧ g.rwstream = false)
    (havg : ∀ i, 0 < avg i) : 0 < tlastOf g (npairsOf g each) avg rest := by
  have hlt := hg.myproc_lt
  rw [tlastOf]
  split_ifs with hstream hrw
  · apply forTimes_pos (Nat.zero_lt_of_lt hlt) (Nat.zero_lt_of_lt hlt)
    intro i _ hi
    rw [timesOf, if_pos]
    · exact havg i
    · simp only [hstream, hrw, Bool.true_eq_false, and_false, or_false] at hm
      exact .inl hm
  · have hpairs : 0 < npairsOf g each := by
      rw [npairsOf]
      split_ifs <;> omega
    apply forTimes_pos (by omega) hpairs
    intro i hi hib
    rw [timesOf, if_pos]
    · exact havg i
    · simp only [hstream, Bool.true_eq_false, false_or] at hm
      rcases hm with hzero | htwo
      · exact .inl hzero
      · omega
  · exact havg _

lemma TLast.pos (hg : WellFormed g)
    (hm : g.myproc = 0 ∨ g.stream = false ∨ g.nprocs ≤ 2 ∧ g.rwstream = false)
    (h : TLast g clk each tlast) : 0 < tlast := by
  cases h with
  | first => exact hg.est_latency_pos
  | next nrepeat elapsed rest hn hlen =>
    exact tlastOf_pos hg hm fun i => avgTime_pos hg (hn i) (hlen i)

lemma exists_nrepeatOf (hm : g.nrepeat_const ≠ 0 ∨ g.disk ≠ 0 ∨ tlast ≠ 0) (hbuflen : buflen ≠ 0) :
    ∃ n, nrepeatOf g tlast buflen = some n := by
  rw [nrepeatOf]
  split_ifs with _ hconst hdisk hzero
  · exact ⟨_, rfl⟩
  · exact ⟨_, rfl⟩
  · exact ⟨_, rfl⟩
  · rw [not_not] at hconst hdisk
    simp [hconst, hdisk, hzero] at hm
  · exact ⟨_, rfl⟩

/-- A positive step comes to the end. -/
lemma exists_recordLoop (hstep : 1 ≤ step) (nbytes : ℤ) :
    ∃ fuel, (recordLoop step nbytes fuel 0).isSome := by
  have hgen : ∀ (fuel : ℕ) (n : ℤ), nbytes - n < fuel →
      (recordLoop step nbytes (fuel + 1) n).isSome := by
    intro fuel
    induction fuel with
    | zero =>
      intro n hn
      rw [recordLoop, if_neg (by push_cast at hn; omega)]
      rfl
    | succ fuel ih =>
      intro n hn
      rw [recordLoop]
      split_ifs with hlt
      · rw [Option.isSome_map]
        exact ih _ (by push_cast at hn; omega)
      · rfl
  exact ⟨_, hgen (nbytes.toNat + 1) 0 (by push_cast; omega)⟩

lemma WellFormed.sound (hg : WellFormed g) (hm : Measured g) (hstep : 1 ≤ step) :
    Sound g clk each step := by
  refine ⟨hg.start_pos, hg.start_le, hg.ntrials_pos, ?_, fun _ _ _ b _ => exists_recordLoop hstep b⟩
  intro late d hd b hb tlast htlast
  have hone := one_le_of_mem_schedule hd hb
  have hused : g.nrepeat_const ≠ 0 ∨ g.disk ≠ 0 ∨ tlast ≠ 0 := by
    rcases hm with hm | hconst | hdisk
    · exact .inr (.inr (htlast.pos hg hm).ne')
    · exact .inl hconst
    · exact .inr (.inl hdisk)
  obtain ⟨n, hn⟩ := exists_nrepeatOf hused (by omega : b ≠ 0)
  refine ⟨n, hn, fun hrange => ?_⟩
  rw [inRange, not_or, not_le] at hrange
  exact hrange.1.ne'

/-! ### The modules -/

/-- A module whose options and setup leave these variables alone, as those of `tcp.c`, `ibverbs.c` and
`memcpy.c` do. -/
structure Plain (m : NetModule μ) : Prop where
  init : WellFormed (m.init Globals.init).glob
  argOpt : ∀ {v v' arg opt}, m.argOpt v arg opt = .ok v' → v'.glob.order = v.glob.order
  setup : ∀ {v v'}, m.setup v = .ok v' → v'.glob.order = v.glob.order

/-- The options that a command line passes all leave room. -/
def Admissibility.Fits (A : Admissibility m) (argv : List String) : Prop :=
  A.AllMeet (m.init Globals.init) (splitArgs argv)

/-- The variables are in order from the first option to the last. -/
def Admissibility.InOrder (A : Admissibility m) (argv : List String) : Prop :=
  ∀ u ∈ visited m (m.init Globals.init) (splitArgs argv), A.Good u

lemma Admissibility.entered (A : Admissibility m) {argv : List String} (h : enter m argv = .ok v) :
    (A.InOrder argv ↔ A.Fits argv) ∧ (A.Fits argv → A.Good v) := by
  obtain ⟨u, hparse, hsetup⟩ := enter_eq_ok h
  obtain ⟨hiff, hgood⟩ := A.visited_iff A.init hparse
  exact ⟨hiff, fun hfits => A.setup (hgood hfits).1 (hgood hfits).2 hsetup⟩

end NetPipe.Args
