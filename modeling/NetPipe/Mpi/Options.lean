import NetPipe.Driver.Options

/-!
# The options of NPmpi

`Module_ArgOpt` of `mpi.c` compares an argument with one option after the other. The last comparison is
written `~strcmp( arg, "double")`, which is false for one result of `strcmp` only, and this result does
not say that the strings are equal. So nearly every argument that is no option selects doubles.
-/

namespace NetPipe.Args

/-- `strcmp`: which nonzero number says that two strings differ is left to the library. -/
structure Strcmp where
  cmp : String → String → ℤ
  eq_zero_iff : ∀ s t, cmp s t = 0 ↔ s = t

attribute [simp] Strcmp.eq_zero_iff

/-- The difference of the first two characters that differ. The end of a string counts as 0, and a
zero inside a string, which C does not have, as 1. -/
def firstDifference : List Char → List Char → ℤ
  | [], [] => 0
  | [], d :: _ => -(max 1 d.toNat)
  | c :: _, [] => max 1 c.toNat
  | c :: cs, d :: ds => if c = d then firstDifference cs ds else c.toNat - d.toNat

lemma firstDifference_eq_zero : ∀ cs ds, firstDifference cs ds = 0 ↔ cs = ds
  | [], [] => by simp [firstDifference]
  | [], d :: _ => by
    simp only [firstDifference, reduceCtorEq, iff_false]
    omega
  | c :: _, [] => by
    simp only [firstDifference, reduceCtorEq, iff_false]
    omega
  | c :: cs, d :: ds => by
    rw [firstDifference, List.cons.injEq]
    split_ifs with h
    · simpa [h] using firstDifference_eq_zero cs ds
    · simp only [h, false_and, iff_false, sub_eq_zero, Nat.cast_inj]
      exact fun heq => h (Char.toNat_inj.mp heq)

/-- The `strcmp` that most libraries have. -/
def Strcmp.difference : Strcmp where
  cmp s t := firstDifference s.toList t.toList
  eq_zero_iff _ _ := (firstDifference_eq_zero _ _).trans String.toList_inj

/-- The variables of `mpi.c` that its options write. -/
structure MpiVars where
  syncSend : Bool
  bytes_per : ℤ
  datasize : ℤ
  source : ℤ
  deriving DecidableEq

/-- The processes, and the number `MPI_ANY_SOURCE`. -/
structure MpiWorld extends World where
  MPI_ANY_SOURCE : ℤ

/-- `if( x % 8 > 0 ) x += (8 - x % 8)` -/
def roundUp8 (x : ℤ) : ℤ := if x.tmod 8 > 0 then toInt (x + (8 - x.tmod 8)) else x

/-- The variables behind `--doubles`. -/
def Vars.doubles (v : Vars MpiVars) : Vars MpiVars where
  glob := { v.glob with
    perturbation := 0
    start := max 16 (roundUp8 v.glob.start)
    «end» := roundUp8 v.glob.end }
  own := { v.own with datasize := 8, bytes_per := 8 }

/-- `Module_ArgOpt` of `mpi.c` -/
def mpiArgOpt (c : Strcmp) (w : MpiWorld) (v : Vars MpiVars) (arg : String) (_opt : Option String) :
    Outcome MpiVars (Vars MpiVars) :=
  if c.cmp arg "async" = 0 ∨ c.cmp arg "asynchronous" = 0 then
    .ok { v with glob := { v.glob with async := true } }
  else if c.cmp arg "syncSend" = 0 ∨ c.cmp arg "sync" = 0 then
    .ok { v with own := { v.own with syncSend := true } }
  else if c.cmp arg "anysource" = 0 then
    .ok { v with own := { v.own with source := w.MPI_ANY_SOURCE } }
  -- the second comparison is complemented instead of negated
  else if c.cmp arg "doubles" = 0 ∨ ~~~ c.cmp arg "double" ≠ 0 then .ok v.doubles
  else .error (.usage (some arg), v)

/-- NPmpi. `Module_Init` is followed by the choice of the transmitters and of the other process of the
pair. -/
def mpiModule (c : Strcmp) (w : MpiWorld) : NetModule MpiVars where
  init g :=
    { glob := { g with
        nprocs := w.nprocs
        myproc := w.myproc
        async := false
        transmitter := w.myproc < w.nprocs / 2 ∨ w.nprocs = 1 }
      own := ⟨false, 1, 1, w.nprocs - 1 - w.myproc⟩ }
  argOpt := mpiArgOpt c w
  setup v := .ok { v with glob := { v.glob with async := true } }

/-- The options that the usage of NPmpi and the source name. -/
def mpiArgs : List String :=
  ["async", "asynchronous", "syncSend", "sync", "anysource", "doubles", "double"]

/-- What the documented options are for. -/
def mpiEffect (w : MpiWorld) (v : Vars MpiVars) (arg : String) : Vars MpiVars :=
  if arg ∈ ["async", "asynchronous"] then { v with glob := { v.glob with async := true } }
  else if arg ∈ ["syncSend", "sync"] then { v with own := { v.own with syncSend := true } }
  else if arg = "anysource" then { v with own := { v.own with source := w.MPI_ANY_SOURCE } }
  else v.doubles

/-- A documented option has its effect and no other, and an unknown one ends the program with the
usage and the variables as they were. -/
def Handled (c : Strcmp) (w : MpiWorld) (v : Vars MpiVars) (o : Opt) : Prop :=
  o.arg ∉ mainArgs →
    if o.arg ∈ mpiArgs then mainOption (mpiModule c w) v o = .ok (mpiEffect w v o.arg)
    else ∀ os, parseArgs (mpiModule c w) v (o :: os) = .error (.usage (some o.arg), v)

variable {c : Strcmp} {w : MpiWorld} {v v' : Vars MpiVars} {o : Opt} {arg : String}
  {opt : Option String}

lemma complement_ne_zero {x : ℤ} : ~~~x ≠ 0 ↔ x ≠ -1 := by
  cases x with
  | ofNat n => exact iff_of_true (by rintro h; cases h) (by rintro h; cases h)
  | negSucc n =>
    have h : ~~~(Int.negSucc n) = (n : ℤ) := rfl
    rw [h]
    omega

lemma mpiArgOpt_of_mem (h : arg ∈ mpiArgs) : mpiArgOpt c w v arg opt = .ok (mpiEffect w v arg) := by
  simp only [mpiArgs, List.mem_cons, List.not_mem_nil, or_false] at h
  rcases h with rfl | rfl | rfl | rfl | rfl | rfl | rfl
  all_goals simp [mpiArgOpt, mpiEffect]
  -- `~0` is not zero, so that `--double` is accepted as well
  have hzero : c.cmp "double" "double" = 0 := (c.eq_zero_iff _ _).mpr rfl
  rw [hzero]
  decide

lemma mpiArgOpt_of_notMem (h : arg ∉ mpiArgs) : mpiArgOpt c w v arg opt =
    if c.cmp arg "double" = -1 then .error (.usage (some arg), v) else .ok v.doubles := by
  simp only [mpiArgs, List.mem_cons, List.not_mem_nil, or_false, not_or] at h
  simp only [mpiArgOpt, Strcmp.eq_zero_iff, h, or_false, false_or, if_false, complement_ne_zero,
    ite_not]

/-- An argument is handled as the usage says if and only if it is an option, or `strcmp` happens to
return the one number whose complement is zero. -/
theorem handled_iff (c : Strcmp) (w : MpiWorld) (v : Vars MpiVars) (o : Opt) :
    Handled c w v o ↔ o.arg ∈ mainArgs ∨ o.arg ∈ mpiArgs ∨ c.cmp o.arg "double" = -1 := by
  rw [Handled]
  by_cases hmain : o.arg ∈ mainArgs
  · simp [hmain]
  have hopt : mainOption (mpiModule c w) v o = mpiArgOpt c w v o.arg o.opt :=
    mainOption_of_notMem hmain
  by_cases hmpi : o.arg ∈ mpiArgs
  · simp [hmain, hmpi, hopt, mpiArgOpt_of_mem]
  simp only [hmain, hmpi, not_false_eq_true, true_imp_iff, if_false, false_or, parseArgs,
    List.foldlM_cons, hopt, mpiArgOpt_of_notMem hmpi]
  split_ifs with hcmp
  · exact iff_of_true (fun _ => rfl) hcmp
  · refine iff_of_false (fun h => ?_) hcmp
    cases h []

/-- `NPmpi --foo` measures doubles. -/
theorem not_handled : ¬ Handled Strcmp.difference ⟨⟨2, 0, by decide⟩, -1⟩
    ((mpiModule Strcmp.difference ⟨⟨2, 0, by decide⟩, -1⟩).init Globals.init) ⟨"foo", none, none⟩ := by
  intro h
  have hparse := h (by decide)
  rw [if_neg (by decide)] at hparse
  have hnone := hparse []
  rw [parseArgs, List.foldlM_cons, mainOption_of_notMem (by decide)] at hnone
  cases hnone

end NetPipe.Args
