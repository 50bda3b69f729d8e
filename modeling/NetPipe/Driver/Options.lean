import NetPipe.Driver.Schedule

/-!
# The command line

`main` of `netpipe.c` walks over the arguments, takes up to two values behind each option, handles its
own options and passes all others to `Module_ArgOpt` of the module it is linked with. An option
changes the global variables, or the process stops.
-/

namespace NetPipe.Args

/-! ### The C library -/

/-- A value stored in an `int`. -/
def toInt (x : ℤ) : ℤ := Int.bmod x (2 ^ 32)

lemma toInt_lt (x : ℤ) : toInt x < 2 ^ 31 := by
  have := Int.bmod_lt (x := x) (show 0 < 2 ^ 32 by norm_num)
  simp only [toInt]
  omega

/-- `isspace` -/
def isSpace (c : Char) : Bool := c = ' ' ∨ (9 ≤ c.toNat ∧ c.toNat ≤ 13)

/-- The number that the leading digits are, behind `n`. -/
def digits : ℕ → List Char → ℕ
  | n, [] => n
  | n, c :: cs => if c.isDigit then digits (n * 10 + (c.toNat - 48)) cs else n

/-- `atoi`, which is `strtol` with its result stored in an `int`. -/
def atoi (s : String) : ℤ :=
  match s.toList.dropWhile isSpace with
  | '-' :: cs => toInt (max (-2 ^ 63) (-(digits 0 cs : ℤ)))
  | '+' :: cs => toInt (min (2 ^ 63 - 1) (digits 0 cs : ℤ))
  | cs => toInt (min (2 ^ 63 - 1) (digits 0 cs : ℤ))

lemma atoi_lt (s : String) : atoi s < 2 ^ 31 := by
  rw [atoi]
  split <;> exact toInt_lt _

/-! ### The arguments -/

/-- An option without its dashes and the values behind it. -/
structure Opt where
  arg : String
  opt : Option String
  opt2 : Option String
  deriving DecidableEq, Repr

/-- The argument starts with `-`. -/
def dash (s : String) : Bool := s.toList.head? = some '-'

/-- `while( arg[0] == '-' ) arg++` -/
def strip (s : String) : String := String.ofList (s.toList.dropWhile (· = '-'))

/-- The options of a command line: what does not start with `-` is a value of the option before, if
that has less than two. -/
def splitArgs : List String → List Opt
  | [] => []
  | [a] => [⟨strip a, none, none⟩]
  | a :: b :: rest =>
    if dash b then ⟨strip a, none, none⟩ :: splitArgs (b :: rest)
    else match rest with
      | [] => [⟨strip a, some b, none⟩]
      | c :: rest' =>
        if dash c then ⟨strip a, some b, none⟩ :: splitArgs (c :: rest')
        else ⟨strip a, some b, some c⟩ :: splitArgs rest'

/-! ### The variables -/

/-- The variables of `main` and the globals that its options write. -/
structure Globals where
  nprocs : ℕ
  myproc : ℕ
  start : ℤ
  «end» : ℤ
  perturbation : ℤ
  factors_of_2 : Bool
  ntrials : ℤ
  nrepeat_const : ℤ
  runtime : ℚ
  est_latency : ℚ
  stoptime : ℚ
  disk : ℤ
  worktype : Option String
  worksize : ℤ
  soffset : ℤ
  roffset : ℤ
  outfile : String
  transmitter : Bool
  bidir : Bool
  stream : Bool
  rwstream : Bool
  workload : Bool
  burst : Bool
  async : Bool
  cache : Bool
  integrityCheck : Bool
  deriving DecidableEq

/-- The values before `Module_Init`. -/
def Globals.init : Globals where
  nprocs := 0
  myproc := 0
  start := 1
  «end» := 10000000
  perturbation := 3
  factors_of_2 := false
  ntrials := 7
  nrepeat_const := 0
  runtime := 1 / 4
  est_latency := 10 / 10 ^ 6
  stoptime := 10
  disk := 0
  worktype := none
  worksize := 0
  soffset := 0
  roffset := 0
  outfile := "np.out"
  transmitter := false
  bidir := false
  stream := false
  rwstream := false
  workload := false
  burst := false
  async := false
  cache := true
  integrityCheck := false

/-- The variables of a process, with those of its module. -/
structure Vars (μ : Type*) where
  glob : Globals
  own : μ

/-- Why a process stops: `PrintUsage`, a failed `ERRCHECK` with the numbers of its message, the end of
its work, or the use of a null pointer. -/
inductive Exit where
  | usage (arg : Option String)
  | errcheck (text : String) (args : List ℤ)
  | done
  | crash
  deriving DecidableEq, Repr

/-- The process goes on, or it has stopped with the variables as they were. -/
abbrev Outcome (μ : Type*) := Except (Exit × Vars μ)

/-- What `MPI_Comm_rank` and `MPI_Comm_size` return. -/
structure World where
  nprocs : ℕ
  myproc : ℕ
  myproc_lt : myproc < nprocs

/-- The module that `main` is linked with. -/
structure NetModule (μ : Type*) where
  init : Globals → Vars μ
  argOpt : Vars μ → String → Option String → Outcome μ (Vars μ)
  setup : Vars μ → Outcome μ (Vars μ)

namespace Vars

variable {μ : Type*}

/-- Go on with other globals. -/
def set (v : Vars μ) (g : Globals) : Outcome μ (Vars μ) := .ok { v with glob := g }

/-- Go on with the globals after an `ERRCHECK`. -/
def check (v : Vars μ) (g : Globals) (failed : Bool) (text : String) (args : List ℤ) : Outcome μ (Vars μ) :=
  if failed then .error (.errcheck text args, { v with glob := g }) else v.set g

/-- The value of an option, which a missing one is not looked for. -/
def value (v : Vars μ) (opt : Option String) (k : String → Outcome μ (Vars μ)) : Outcome μ (Vars μ) :=
  match opt with
  | some s => k s
  | none => .error (.crash, v)

/-- The value of an option behind `ERRCHECK( !opt, text )`. -/
def checkedValue (v : Vars μ) (opt : Option String) (text : String) (k : String → Outcome μ (Vars μ)) :
    Outcome μ (Vars μ) :=
  match opt with
  | some s => k s
  | none => .error (.errcheck text [], v)

end Vars

/-! ### The options of `main` -/

/-- The size of the work between two probes, with the default of its type. -/
def workSize (worktype : String) (opt2 : Option String) : ℤ :=
  match opt2 with
  | some s => atoi s
  | none => if worktype = "daxpy" ∨ worktype = "memcpy" then 1000 else 100

/-- The body of the loop over the arguments. -/
def mainOption {μ : Type*} (m : NetModule μ) (v : Vars μ) (o : Opt) : Outcome μ (Vars μ) :=
  if o.arg = "help" ∨ o.arg = "h" then .error (.usage none, v)
  else if o.arg = "repeats" ∨ o.arg = "repeat" then
    v.value o.opt fun s => v.set { v.glob with nrepeat_const := atoi s }
  else if o.arg = "workload" then
    v.set { v.glob with
      workload := true
      worktype := some (o.opt.getD "matrix")
      worksize := workSize (o.opt.getD "matrix") o.opt2
      async := true
      start := 1048576 }
  else if o.arg = "nocache" ∨ o.arg = "inval" then v.set { v.glob with cache := false }
  else if o.arg = "cache" then v.set { v.glob with cache := true }
  else if o.arg = "burst" then v.set { v.glob with burst := true, async := true }
  else if o.arg = "soffset" ∨ o.arg = "send_offset" then
    v.checkedValue o.opt "No send offset value given" fun s => v.set { v.glob with soffset := atoi s }
  else if o.arg = "roffset" ∨ o.arg = "recv_offset" then
    v.checkedValue o.opt "No recv offset value given" fun s => v.set { v.glob with roffset := atoi s }
  else if o.arg = "perturbation" ∨ o.arg = "pert" then
    v.checkedValue o.opt "No perturbation value given" fun s =>
      v.set { v.glob with perturbation := atoi s }
  else if o.arg = "factorsof2" ∨ o.arg = "fac2" then
    v.set { v.glob with factors_of_2 := true, perturbation := 0 }
  else if o.arg = "quick" then
    v.set { v.glob with ntrials := 3, runtime := 1 / 10, perturbation := 0 }
  else if o.arg = "quicker" then
    v.set { v.glob with ntrials := 1, runtime := 1 / 10, perturbation := 0 }
  else if o.arg = "quickest" then
    v.set { v.glob with
      ntrials := 1
      runtime := 1 / 10
      perturbation := 0
      nrepeat_const := if v.glob.nrepeat_const = 0 then 1 else v.glob.nrepeat_const }
  else if o.arg = "outfile" ∨ o.arg = "o" then
    v.checkedValue o.opt "No output file name given" fun s => v.set { v.glob with outfile := s }
  else if o.arg = "stream" then
    v.check { v.glob with stream := true } v.glob.bidir "You cannot use stream and bidirection together" []
  else if o.arg = "start" then
    v.checkedValue o.opt "No lower bound given" fun s =>
      v.check { v.glob with start := atoi s } (atoi s < 1 ∨ atoi s > v.glob.end)
        "Lower bound %d must be positive and less than upper %d" [atoi s, v.glob.end]
  else if o.arg = "end" then
    v.checkedValue o.opt "No upper bound given" fun s =>
      v.check { v.glob with «end» := atoi s } (atoi s < v.glob.start)
        "end %d must greater than start %d" [atoi s, v.glob.start]
  else if o.arg = "bidirectional" ∨ o.arg = "bidir" then
    v.check { v.glob with bidir := true, transmitter := true } v.glob.stream
      "You cannot use stream and bidirection together" []
  else if o.arg = "integrity" then v.set { v.glob with integrityCheck := true, ntrials := 1 }
  else if o.arg = "printhostnames" then .ok v
  else m.argOpt v o.arg o.opt

/-- The options that are not passed to the module. -/
def mainArgs : List String :=
  ["help", "h", "repeats", "repeat", "workload", "nocache", "inval", "cache", "burst", "soffset",
    "send_offset", "roffset", "recv_offset", "perturbation", "pert", "factorsof2", "fac2", "quick",
    "quicker", "quickest", "outfile", "o", "stream", "start", "end", "bidirectional", "bidir",
    "integrity", "printhostnames"]

/-- The loop over the arguments. -/
def parseArgs {μ : Type*} (m : NetModule μ) (v : Vars μ) (os : List Opt) : Outcome μ (Vars μ) :=
  os.foldlM (mainOption m) v

/-- From the start of `main` to its own loop: the arguments, `Module_Setup` and the check behind it. -/
def enter {μ : Type*} (m : NetModule μ) (argv : List String) : Outcome μ (Vars μ) := do
  let v ← parseArgs m (m.init Globals.init) (splitArgs argv)
  let w ← m.setup v
  w.check w.glob (w.glob.integrityCheck && w.glob.burst)
    "Integrity check is not supported with burst mode" []

/-- The sizes of the main loop. It tests the first centre before it looks at `end`, so an `end` below
`start` is no other than `start`. -/
def Globals.sizeArgs (g : Globals) (h : 1 ≤ g.start) : SizeArgs where
  start := g.start
  «end» := max g.start g.end
  perturbation := g.perturbation
  start_pos := h
  start_le := le_max_left _ _

/-! ### What an option does -/

variable {μ : Type*} {m : NetModule μ} {v v' : Vars μ} {o : Opt} {g : Globals}

lemma Vars.set_eq_ok : v.set g = .ok v' ↔ v' = { v with glob := g } := by
  rw [Vars.set, Except.ok.injEq]
  exact eq_comm

lemma Vars.check_eq_ok {failed : Bool} {text : String} {args : List ℤ} :
    v.check g failed text args = .ok v' ↔ failed = false ∧ v' = { v with glob := g } := by
  rw [Vars.check]
  cases failed with
  | true => simp
  | false => simpa using Vars.set_eq_ok

lemma Vars.value_eq_ok {opt : Option String} {k : String → Outcome μ (Vars μ)} :
    v.value opt k = .ok v' ↔ ∃ s, opt = some s ∧ k s = .ok v' := by
  cases opt <;> simp [Vars.value]

lemma Vars.checkedValue_eq_ok {opt : Option String} {text : String} {k : String → Outcome μ (Vars μ)} :
    v.checkedValue opt text k = .ok v' ↔ ∃ s, opt = some s ∧ k s = .ok v' := by
  cases opt <;> simp [Vars.checkedValue]

lemma mainOption_of_notMem (h : o.arg ∉ mainArgs) : mainOption m v o = m.argOpt v o.arg o.opt := by
  simp only [mainArgs, List.mem_cons, List.not_mem_nil, or_false, not_or] at h
  simp [mainOption, h]

/-- What the options of `main` do to the sizes, the clock and the number of trials. -/
structure MainStep (g g' : Globals) (arg : String) : Prop where
  sizes : arg ≠ "workload" ∧ g'.start = g.start ∧ g'.end = g.end ∨
    arg = "workload" ∧ g'.start = 1048576 ∧ g'.end = g.end ∨
    arg ≠ "workload" ∧ 1 ≤ g'.start ∧ g'.start ≤ g.end ∧ g'.end = g.end ∨
    arg ≠ "workload" ∧ g'.start = g.start ∧ g.start ≤ g'.end ∧ g'.end < 2 ^ 31
  ntrials : g'.ntrials = g.ntrials ∨ g'.ntrials = 1 ∨ g'.ntrials = 3
  runtime : g'.runtime = g.runtime ∨ g'.runtime = 1 / 10
  rest : (g'.est_latency, g'.disk, g'.nprocs, g'.myproc) =
    (g.est_latency, g.disk, g.nprocs, g.myproc)

lemma ite_cases {α : Type*} {P : Prop} [Decidable P] {x y z : α} (h : (if P then x else y) = z) :
    P ∧ x = z ∨ ¬ P ∧ y = z := by
  split_ifs at h with hP
  · exact .inl ⟨hP, h⟩
  · exact .inr ⟨hP, h⟩

/-- An option that changes neither of the sizes. -/
lemma MainStep.of_eq {arg : String} {g g' : Globals} (harg : arg ≠ "workload")
    (hstart : g'.start = g.start) (hend : g'.end = g.end)
    (hntrials : g'.ntrials = g.ntrials ∨ g'.ntrials = 1 ∨ g'.ntrials = 3)
    (hruntime : g'.runtime = g.runtime ∨ g'.runtime = 1 / 10)
    (hrest : (g'.est_latency, g'.disk, g'.nprocs, g'.myproc) =
      (g.est_latency, g.disk, g.nprocs, g.myproc)) : MainStep g g' arg :=
  ⟨.inl ⟨harg, hstart, hend⟩, hntrials, hruntime, hrest⟩

lemma MainStep.same {arg : String} {g g' : Globals} (harg : arg ≠ "workload")
    (h : (g'.start, g'.end, g'.ntrials, g'.runtime, g'.est_latency, g'.disk, g'.nprocs, g'.myproc) =
      (g.start, g.end, g.ntrials, g.runtime, g.est_latency, g.disk, g.nprocs, g.myproc)) :
    MainStep g g' arg := by
  obtain ⟨hstart, hend, hntrials, hruntime, hrest⟩ := by simpa only [Prod.mk.injEq] using h
  exact .of_eq harg hstart hend (.inl hntrials) (.inl hruntime) (by simpa using hrest)

namespace Vars

variable {arg : String}

lemma of_set (h : v.set g = .ok v') (hstep : MainStep v.glob g arg) :
    v'.own = v.own ∧ MainStep v.glob v'.glob arg := by
  obtain rfl := set_eq_ok.mp h
  exact ⟨rfl, hstep⟩

lemma of_check {failed : Bool} {text : String} {args : List ℤ}
    (h : v.check g failed text args = .ok v') (hstep : failed = false → MainStep v.glob g arg) :
    v'.own = v.own ∧ MainStep v.glob v'.glob arg := by
  obtain ⟨hcheck, rfl⟩ := check_eq_ok.mp h
  exact ⟨rfl, hstep hcheck⟩

lemma of_value {opt : Option String} {k : String → Globals}
    (h : v.value opt (fun s => v.set (k s)) = .ok v') (hstep : ∀ s, MainStep v.glob (k s) arg) :
    v'.own = v.own ∧ MainStep v.glob v'.glob arg := by
  obtain ⟨s, -, h⟩ := value_eq_ok.mp h
  exact of_set h (hstep s)

lemma of_checkedValue {opt : Option String} {text : String}
    {k : String → Outcome μ (Vars μ)} (h : v.checkedValue opt text k = .ok v')
    (hk : ∀ s, k s = .ok v' → v'.own = v.own ∧ MainStep v.glob v'.glob arg) :
    v'.own = v.own ∧ MainStep v.glob v'.glob arg := by
  obtain ⟨s, -, h⟩ := checkedValue_eq_ok.mp h
  exact hk s h

end Vars

lemma mainOption_of_mem (hmem : o.arg ∈ mainArgs) (hw : o.arg ≠ "workload")
    (h : mainOption m v o = .ok v') : v'.own = v.own ∧ MainStep v.glob v'.glob o.arg := by
  rw [mainOption] at h
  rcases ite_cases h with ⟨-, h⟩ | ⟨not_help, h⟩
  · cases h
  rcases ite_cases h with ⟨-, h⟩ | ⟨not_repeats, h⟩
  · exact Vars.of_value h fun _ => .same hw rfl
  rcases ite_cases h with ⟨harg, h⟩ | ⟨not_workload, h⟩
  · exact absurd harg hw
  rcases ite_cases h with ⟨-, h⟩ | ⟨not_nocache, h⟩
  · exact Vars.of_set h (.same hw rfl)
  rcases ite_cases h with ⟨-, h⟩ | ⟨not_cache, h⟩
  · exact Vars.of_set h (.same hw rfl)
  rcases ite_cases h with ⟨-, h⟩ | ⟨not_burst, h⟩
  · exact Vars.of_set h (.same hw rfl)
  rcases ite_cases h with ⟨-, h⟩ | ⟨not_soffset, h⟩
  · exact Vars.of_checkedValue h fun _ h => Vars.of_set h (.same hw rfl)
  rcases ite_cases h with ⟨-, h⟩ | ⟨not_roffset, h⟩
  · exact Vars.of_checkedValue h fun _ h => Vars.of_set h (.same hw rfl)
  rcases ite_cases h with ⟨-, h⟩ | ⟨not_pert, h⟩
  · exact Vars.of_checkedValue h fun _ h => Vars.of_set h (.same hw rfl)
  rcases ite_cases h with ⟨-, h⟩ | ⟨not_fac2, h⟩
  · exact Vars.of_set h (.same hw rfl)
  rcases ite_cases h with ⟨-, h⟩ | ⟨not_quick, h⟩
  · exact Vars.of_set h (.of_eq hw rfl rfl (.inr (.inr rfl)) (.inr rfl) rfl)
  rcases ite_cases h with ⟨-, h⟩ | ⟨not_quicker, h⟩
  · exact Vars.of_set h (.of_eq hw rfl rfl (.inr (.inl rfl)) (.inr rfl) rfl)
  rcases ite_cases h with ⟨-, h⟩ | ⟨not_quickest, h⟩
  · exact Vars.of_set h (.of_eq hw rfl rfl (.inr (.inl rfl)) (.inr rfl) rfl)
  rcases ite_cases h with ⟨-, h⟩ | ⟨not_outfile, h⟩
  · exact Vars.of_checkedValue h fun _ h => Vars.of_set h (.same hw rfl)
  rcases ite_cases h with ⟨-, h⟩ | ⟨not_stream, h⟩
  · exact Vars.of_check h fun _ => .same hw rfl
  rcases ite_cases h with ⟨-, h⟩ | ⟨not_start, h⟩
  · refine Vars.of_checkedValue h fun s h => Vars.of_check h fun hcheck => ?_
    simp only [gt_iff_lt, decide_eq_false_iff_not, not_or, not_lt] at hcheck
    exact ⟨.inr (.inr (.inl ⟨hw, hcheck.1, hcheck.2, rfl⟩)), .inl rfl, .inl rfl, rfl⟩
  rcases ite_cases h with ⟨-, h⟩ | ⟨not_end, h⟩
  · refine Vars.of_checkedValue h fun s h => Vars.of_check h fun hcheck => ?_
    simp only [decide_eq_false_iff_not, not_lt] at hcheck
    exact ⟨.inr (.inr (.inr ⟨hw, rfl, hcheck, atoi_lt s⟩)), .inl rfl, .inl rfl, rfl⟩
  rcases ite_cases h with ⟨-, h⟩ | ⟨not_bidir, h⟩
  · exact Vars.of_check h fun _ => .same hw rfl
  rcases ite_cases h with ⟨-, h⟩ | ⟨not_integrity, h⟩
  · exact Vars.of_set h (.of_eq hw rfl rfl (.inr (.inl rfl)) (.inl rfl) rfl)
  rcases ite_cases h with ⟨-, h⟩ | ⟨not_hostnames, -⟩
  · cases h
    exact ⟨rfl, .same hw rfl⟩
  simp only [not_or] at *
  simp [mainArgs, not_help, not_repeats, not_workload, not_nocache, not_cache, not_burst,
    not_soffset, not_roffset, not_pert, not_fac2, not_quick, not_quicker, not_quickest, not_outfile,
    not_stream, not_start, not_end, not_bidir, not_integrity, not_hostnames] at hmem

lemma mainOption_workload (hw : o.arg = "workload") (h : mainOption m v o = .ok v') :
    v'.own = v.own ∧ MainStep v.glob v'.glob o.arg := by
  rw [mainOption, if_neg (by simp [hw]), if_neg (by simp [hw]), if_pos hw] at h
  obtain rfl := Vars.set_eq_ok.mp h
  exact ⟨rfl, .inr (.inl ⟨hw, rfl, rfl⟩), .inl rfl, .inl rfl, rfl⟩

/-- An option is one of `main` or one of the module. -/
lemma mainOption_cases (h : mainOption m v o = .ok v') :
    o.arg ∈ mainArgs ∧ v'.own = v.own ∧ MainStep v.glob v'.glob o.arg ∨
      o.arg ∉ mainArgs ∧ m.argOpt v o.arg o.opt = .ok v' := by
  by_cases hmem : o.arg ∈ mainArgs
  · left
    by_cases hw : o.arg = "workload"
    · exact ⟨hmem, mainOption_workload hw h⟩
    · exact ⟨hmem, mainOption_of_mem hmem hw h⟩
  · exact .inr ⟨hmem, by rwa [mainOption_of_notMem hmem] at h⟩

/-- What every option keeps, the loop over the arguments keeps. -/
lemma parseArgs_induction {P : Vars μ → Prop}
    (hstep : ∀ v o v', P v → mainOption m v o = .ok v' → P v') {os : List Opt} (hv : P v)
    (h : parseArgs m v os = .ok v') : P v' := by
  induction os generalizing v with
  | nil =>
    cases h
    exact hv
  | cons o os ih =>
    rw [parseArgs, List.foldlM_cons] at h
    cases ho : mainOption m v o with
    | error e =>
      rw [ho] at h
      cases h
    | ok u =>
      rw [ho] at h
      exact ih (hstep v o u hv ho) h

/-- The stages of a start that ends in the main loop. -/
lemma enter_eq_ok {argv : List String} (h : enter m argv = .ok v') : ∃ v,
    parseArgs m (m.init Globals.init) (splitArgs argv) = .ok v ∧ m.setup v = .ok v' := by
  rw [enter] at h
  cases hv : parseArgs m (m.init Globals.init) (splitArgs argv) with
  | error e =>
    rw [hv] at h
    cases h
  | ok v =>
    rw [hv] at h
    cases hw : m.setup v with
    | error e =>
      simp only [bind, Except.bind, hw] at h
      cases h
    | ok u =>
      simp only [bind, Except.bind, hw] at h
      obtain ⟨-, rfl⟩ := Vars.check_eq_ok.mp h
      exact ⟨v, rfl, hw⟩

end NetPipe.Args
