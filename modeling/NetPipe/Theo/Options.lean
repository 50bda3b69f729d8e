import NetPipe.Driver.Options

/-!
# The options of NPtheo

`theo.c` calculates the times of a network from its options. `Module_Setup` checks that a rate, a latency
and a network were given, but not the size of a packet.
-/

namespace NetPipe.Args

/-- The variables of `theo.c`. -/
structure TheoVars where
  maxrate : ℚ
  latency : ℚ
  mtu : ℤ
  nheader : ℤ
  rendezvous : ℤ
  max_inline : ℤ
  alliance : Bool
  mellanox : Bool
  deriving DecidableEq

/-- `alliance || mellanox` -/
def TheoVars.padded (c : TheoVars) : Bool := c.alliance || c.mellanox

/-- `mtu/2` -/
def TheoVars.half (c : TheoVars) : ℤ := c.mtu.tdiv 2

/-- The network that an option names: its header, and the size of a packet if none was given. -/
def TheoVars.network (c : TheoVars) (nheader mtu : ℤ) : TheoVars :=
  { c with nheader := nheader, mtu := if c.mtu = 0 then mtu else c.mtu }

/-- Change the variables of `theo.c`. -/
def Vars.theo (v : Vars TheoVars) (c : TheoVars) : Outcome TheoVars (Vars TheoVars) :=
  .ok { v with own := c }

/-- `Module_ArgOpt` of `theo.c`. The value of `atof` is exact, as all numbers here. -/
def theoArgOpt (atof : String → ℚ) (v : Vars TheoVars) (arg : String) (opt : Option String) :
    Outcome TheoVars (Vars TheoVars) :=
  if arg = "maxrate" then
    v.checkedValue opt "No max theoretical rate was given!" fun s =>
      v.theo { v.own with maxrate := atof s }
  else if arg = "latency" then
    v.checkedValue opt "No latency was given!" fun s => v.theo { v.own with latency := atof s }
  else if arg = "ethernet" ∨ arg = "E" then v.theo (v.own.network 42 1500)
  else if arg = "infiniband" ∨ arg = "IB" then v.theo (v.own.network 34 4096)
  else if arg = "alliance" then v.theo { v.own with alliance := true }
  else if arg = "mellanox" then v.theo { v.own with mellanox := true }
  else if arg = "roce" then v.theo (v.own.network 74 4096)
  else if arg = "mtu" ∨ arg = "MTU" then
    v.checkedValue opt "No MTU size was given!" fun s => v.theo { v.own with mtu := atoi s }
  else if arg = "inline" then
    v.checkedValue opt "No max inline value was given!" fun s =>
      v.theo { v.own with max_inline := atoi s }
  else if arg = "rendezvous" ∨ arg = "MTU" then
    v.checkedValue opt "No rendezvous threshold was given!" fun s =>
      v.theo { v.own with rendezvous := atoi s }
  else .error (.usage (some arg), v)

/-- `Module_Setup` of `theo.c`: bytes and nanoseconds. -/
def theoSetup (v : Vars TheoVars) : Outcome TheoVars (Vars TheoVars) :=
  if v.own.maxrate ≤ 0 ∨ v.own.latency ≤ 0 then
    .error (.errcheck "You must set the maxrate and latency" [], v)
  else if v.own.nheader ≤ 0 then
    .error (.errcheck "You must specify --ethernet or --infiniband" [], v)
  else
    let maxrate := v.own.maxrate / 8
    let latency := v.own.latency * 1000
    v.theo { v.own with
      maxrate := maxrate
      latency := if v.own.padded then latency - v.own.half / maxrate else latency }

/-- NPtheo -/
def theoModule (atof : String → ℚ) : NetModule TheoVars where
  init g :=
    { glob := { g with
        nprocs := 1
        myproc := 0
        transmitter := true
        stream := true
        nrepeat_const := 1
        ntrials := 1 }
      own := ⟨0, 0, 0, 0, 1000000000, 1000000000, false, false⟩ }
  argOpt := theoArgOpt atof
  setup := theoSetup

/-- What `Module_Setup` leaves: a positive rate, a header of one of the networks, and a latency that was
positive before half a packet was taken from it. -/
structure Configured (c : TheoVars) : Prop where
  maxrate_pos : 0 < c.maxrate
  le_nheader : 34 ≤ c.nheader
  latency_pos : 0 < c.latency + if c.padded then c.half / c.maxrate else 0

variable {atof : String → ℚ} {v v' : Vars TheoVars} {o : Opt} {arg : String} {opt : Option String}

/-- The header is that of one of the networks. -/
def HeaderKnown (c : TheoVars) : Prop := c.nheader = 0 ∨ 34 ≤ c.nheader

namespace HeaderKnown

lemma of_theo {c : TheoVars} (h : v.theo c = .ok v') (hc : HeaderKnown c) : HeaderKnown v'.own := by
  cases h
  exact hc

lemma of_value {text : String} {k : String → TheoVars}
    (h : v.checkedValue opt text (fun s => v.theo (k s)) = .ok v') (hk : ∀ s, HeaderKnown (k s)) :
    HeaderKnown v'.own := by
  obtain ⟨s, -, h⟩ := Vars.checkedValue_eq_ok.mp h
  exact of_theo h (hk s)

end HeaderKnown

lemma theoArgOpt_header (hv : HeaderKnown v.own) (h : theoArgOpt atof v arg opt = .ok v') :
    HeaderKnown v'.own := by
  rw [theoArgOpt] at h
  rcases ite_cases h with ⟨-, h⟩ | ⟨-, h⟩
  · exact .of_value h fun _ => hv
  rcases ite_cases h with ⟨-, h⟩ | ⟨-, h⟩
  · exact .of_value h fun _ => hv
  rcases ite_cases h with ⟨-, h⟩ | ⟨-, h⟩
  · exact .of_theo h (.inr (show (34 : ℤ) ≤ 42 by norm_num))
  rcases ite_cases h with ⟨-, h⟩ | ⟨-, h⟩
  · exact .of_theo h (.inr le_rfl)
  rcases ite_cases h with ⟨-, h⟩ | ⟨-, h⟩
  · exact .of_theo h hv
  rcases ite_cases h with ⟨-, h⟩ | ⟨-, h⟩
  · exact .of_theo h hv
  rcases ite_cases h with ⟨-, h⟩ | ⟨-, h⟩
  · exact .of_theo h (.inr (show (34 : ℤ) ≤ 74 by norm_num))
  rcases ite_cases h with ⟨-, h⟩ | ⟨-, h⟩
  · exact .of_value h fun _ => hv
  rcases ite_cases h with ⟨-, h⟩ | ⟨-, h⟩
  · exact .of_value h fun _ => hv
  rcases ite_cases h with ⟨-, h⟩ | ⟨-, h⟩
  · exact .of_value h fun _ => hv
  · cases h

lemma theoSetup_configured (hv : HeaderKnown v.own) (h : theoSetup v = .ok v') :
    Configured v'.own := by
  rw [theoSetup] at h
  rcases ite_cases h with ⟨-, h⟩ | ⟨hrate, h⟩
  · cases h
  rcases ite_cases h with ⟨-, h⟩ | ⟨hheader, h⟩
  · cases h
  cases h
  rw [not_or, not_le, not_le] at hrate
  constructor
  · exact div_pos hrate.1 (by norm_num)
  · rcases hv with hzero | hle
    · exact absurd hzero.le hheader
    · exact hle
  · have hlatency : 0 < v.own.latency * 1000 := mul_pos hrate.2 (by norm_num)
    change 0 < (if v.own.padded then v.own.latency * 1000 - v.own.half / (v.own.maxrate / 8)
      else v.own.latency * 1000) + if v.own.padded then v.own.half / (v.own.maxrate / 8) else 0
    split_ifs
    · rwa [sub_add_cancel]
    · rwa [add_zero]

/-- Every accepted command line has a configured network. -/
lemma configured_of_enter {argv : List String} (h : enter (theoModule atof) argv = .ok v) :
    Configured v.own := by
  obtain ⟨u, hparse, hsetup⟩ := enter_eq_ok h
  have hknown : HeaderKnown u.own := by
    refine parseArgs_induction (P := fun v => HeaderKnown v.own) ?_ (.inl rfl) hparse
    intro v o v' hv ho
    rcases mainOption_cases ho with ⟨-, hown, -⟩ | ⟨-, hopt⟩
    · rw [hown]
      exact hv
    · exact theoArgOpt_header hv hopt
  exact theoSetup_configured hknown hsetup

end NetPipe.Args
