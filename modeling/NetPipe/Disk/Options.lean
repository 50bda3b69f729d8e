import NetPipe.Driver.Options

/-!
# The options of NPdisk

`Module_ArgOpt` of `disk.c` chooses what is read or written. Some of its options set `start` or `end`
without the check that `--start` and `--end` make.
-/

namespace NetPipe.Args

/-- `iofunc` -/
inductive IoFunc where
  | r
  | w
  deriving DecidableEq, Repr

/-- `iotype`: characters, strings, formatted doubles, unformatted doubles, binary data, and `'0'` for
copies of files. -/
inductive IoType where
  | c
  | s
  | d
  | u
  | b
  | zero
  deriving DecidableEq, Repr

/-- The variables of `disk.c` that its options write. -/
structure DiskVars where
  iofunc : IoFunc
  iotype : IoType
  datafile : String
  datadir : String
  nchar : ℤ
  flush : Bool
  cpflag : ℤ
  scpflag : Bool
  overwrite : Bool
  num_GB : ℤ
  deriving DecidableEq

variable {v v' : Vars DiskVars} {arg : String} {opt : Option String}

/-- What the options of NPdisk do to the sizes and to the length of the strings. -/
structure DiskStep (v v' : Vars DiskVars) (arg : String) (opt : Option String) : Prop where
  sizes :
    v'.glob.start = v.glob.start ∧ v'.glob.end = v.glob.end ∧ v'.own.nchar = v.own.nchar ∧
      (v'.own.iotype = .s → v.own.iotype = .s) ∧
      arg ∉ ["string", "double", "unformatted", "cp", "cpto"] ∨
    (∃ s, opt = some s ∧ 0 ≤ atoi s ∧ v'.glob.start = atoi s ∧ v'.glob.end = v.glob.end ∧
      v'.own.nchar = atoi s ∧ v'.own.iotype = .s ∧ arg = "string") ∨
    v'.glob.start = 8 ∧ v'.glob.end = v.glob.end ∧ v'.own.iotype ≠ .s ∧
      arg ∈ ["double", "unformatted"] ∨
    v'.glob.start = v.glob.start ∧ v'.glob.end = 1000000000 ∧ v'.own.iotype ≠ .s ∧
      arg ∈ ["cp", "cpto"]
  ntrials : v'.glob.ntrials = v.glob.ntrials
  est_latency : v'.glob.est_latency = v.glob.est_latency ∨ v'.glob.est_latency = 3 / 10 ^ 3
  world : (v'.glob.nprocs, v'.glob.myproc) = (v.glob.nprocs, v.glob.myproc)

/-- An option that changes neither the sizes nor the length of the strings. -/
lemma DiskStep.quiet (hglob : v'.glob = v.glob) (hnchar : v'.own.nchar = v.own.nchar)
    (hiotype : v'.own.iotype = .s → v.own.iotype = .s)
    (harg : arg ∉ ["string", "double", "unformatted", "cp", "cpto"]) : DiskStep v v' arg opt := by
  constructor
  · exact .inl ⟨by rw [hglob], by rw [hglob], hnchar, hiotype, harg⟩
  · rw [hglob]
  · exact .inl (by rw [hglob])
  · rw [hglob]

end NetPipe.Args
