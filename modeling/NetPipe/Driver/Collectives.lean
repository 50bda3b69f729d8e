import Mathlib
import NetPipe.Driver.Calls
import NetPipe.Driver.Schedule
import NetPipe.Library.Phases

/-!
# The collective calls of a run

All processes run the main loop on their own and meet in `Sync`, `Gather` and `Broadcast`. What
process `0` broadcasts depends on its clock; the clocks of the others do not matter.
-/

namespace NetPipe

open Phases

/-- The collective calls. -/
inductive Collective where
  | sync
  | gather
  | broadcast
  deriving DecidableEq, Repr

/-- What the driver is run with on `n` processes. `solo` is set for the modules `memcpy` and
`disk`, whose `SendData` and `RecvData` are local; `clamp` is what the `Broadcast` of the module
leaves of a value in each process. -/
structure DriverArgs (n : ℕ) where
  flags : Flags
  solo : Bool
  ntrials : ℕ
  sizes : SizeArgs
  factors_of_2 : Bool
  clamp : Fin n → ℤ → ℤ

/-- The state of the main loop: the loop variables and the sizes left to test around the centre. -/
inductive Control where
  | centre (c : Loop) (buflens : List ℤ)
  | ended

/-- A process: the main loop, the calls left of the current test, and the history of its
collective calls and of its tests. -/
structure Proc where
  control : Control
  todo : List Call
  calls : List Collective
  tests : List (ℤ × ℤ)

/-- All processes, and the messages under way from each to its partner. A message carries the
number of collective calls its sender had made. -/
structure DriverState (n : ℕ) where
  procs : Fin n → Proc
  chan : Fin n → List ℕ

/-- What may happen next: a process makes its next call, or all make a collective call; in a
broadcast process `0` sends `v`. -/
inductive Action (n : ℕ) where
  | proc (p : Fin n)
  | collective (k : Collective) (v : ℤ)

/-- The processes after `p` has made the first of its calls. -/
def DriverState.advance {n : ℕ} (g : DriverState n) (p : Fin n) (cs : List Call) : Fin n → Proc :=
  Function.update g.procs p { g.procs p with todo := cs }

namespace DriverArgs

variable {n : ℕ} (a : DriverArgs n)

/-- `npairs`, for at least two processes. -/
def npairs : ℕ := if a.solo then n else n / 2

/-- `transmitter || bidir`. -/
def transmits (p : Fin n) : Bool := p < n / 2 || a.solo || a.flags.bidir

/-- The trial loop of a process. -/
def side (p : Fin n) : Side := if a.transmits p then .transmitter else .receiver

/-- How a call concerns the other processes. `DoWork` runs until the next message is there. -/
def callKind : Call → Kind Collective
  | .sync => .collective .sync
  | .gather => .collective .gather
  | .sendData => if a.solo then .quiet else .send
  | .recvData => if a.solo then .quiet else .recv
  | .doWork => if a.solo then .quiet else .wait
  | _ => .quiet

/-- The loop at a centre, before its tests. -/
def atCentre (c : Loop) : Control := .centre c (c.centre a.sizes a.factors_of_2).buflens

/-- The start of the main loop. -/
def init : DriverState n where
  procs _ := ⟨a.atCentre (Loop.init a.sizes), [], [], []⟩
  chan _ := []

/-- The collective call a process is at: between two tests it broadcasts the repeat count, after a
centre it broadcasts `finished`. -/
def collectiveOf (x : Proc) : Option Collective :=
  match x.todo with
  | c :: _ => match a.callKind c with
    | .collective k => some k
    | _ => none
  | [] => match x.control with
    | .centre _ _ => some .broadcast
    | .ended => none

/-- The values process `0` may broadcast. The repeat count depends on its clock; `finished` is set
if the time is up, which depends on its clock, or `len > end`. -/
def MaySend (x : Proc) (v : ℤ) : Prop :=
  match x.todo, x.control with
  | [], .centre c [] =>
    (v = 0 ∨ v = 1) ∧ ((c.next a.sizes a.factors_of_2).len > a.sizes.end → v = 1)
  | _, _ => True

instance (x : Proc) (v : ℤ) : Decidable (a.MaySend x v) := by
  unfold MaySend
  split <;> infer_instance

/-- A process after the collective call `k`; a broadcast left it the value `v`. -/
def afterCollective (p : Fin n) (k : Collective) (v : ℤ) (x : Proc) : Proc :=
  match x.todo, x.control with
  | _ :: cs, _ => { x with todo := cs, calls := x.calls ++ [k] }
  | [], .centre c (buflen :: rest) =>
    -- `ERRCHECK` ends the process when the repeat count is out of range
    if v ≤ 0 ∨ v > 1000000000 then { x with control := .ended, calls := x.calls ++ [k] }
    else
      { control := .centre c rest
        todo := testCalls a.flags a.npairs a.ntrials (a.side p) buflen.toNat v.toNat
        calls := x.calls ++ [k]
        tests := x.tests ++ [(buflen, v)] }
  | [], .centre c [] =>
    { x with
      control := if v = 0 then a.atCentre (c.next a.sizes a.factors_of_2) else .ended
      calls := x.calls ++ [k] }
  | [], .ended => x

/-- One step of a run. -/
def step (g : DriverState n) : Action n → Option (DriverState n)
  | .proc p => match (g.procs p).todo with
    | [] => none
    | c :: cs => match a.callKind c with
      | .quiet => some ⟨g.advance p cs, g.chan⟩
      | .send =>
        some ⟨g.advance p cs, Function.update g.chan p (g.chan p ++ [(g.procs p).calls.length])⟩
      | .recv => match g.chan p.rev with
        | [] => none
        | _ :: ms => some ⟨g.advance p cs, Function.update g.chan p.rev ms⟩
      | .wait => match g.chan p.rev with
        | [] => none
        | _ :: _ => some ⟨g.advance p cs, g.chan⟩
      | .collective _ => none
  | .collective k v =>
    if (∀ p, a.collectiveOf (g.procs p) = some k) ∧
        ∀ p : Fin n, p.val = 0 → a.MaySend (g.procs p) v then
      some ⟨fun p => a.afterCollective p k (a.clamp p v) (g.procs p), g.chan⟩
    else none

/-- The states of a run. -/
inductive Reach : DriverState n → Prop where
  | init : Reach a.init
  | step {g g' : DriverState n} {act : Action n} (h : Reach g) (hstep : a.step g act = some g') :
      Reach g'

/-- The process has left the main loop. -/
def Ended (x : Proc) : Prop := x.todo = [] ∧ x.control = .ended

/-- Some process has not ended, and nothing can happen. -/
def Deadlock (g : DriverState n) : Prop :=
  (∃ p, ¬ Ended (g.procs p)) ∧ ∀ act, a.step g act = none

/-- The processes are in lockstep: the same collective calls and the same tests so far, every
message under way is for the phase its receiver is in, and the run goes on. -/
structure Lockstep (g : DriverState n) : Prop where
  calls : ∀ p q, (g.procs p).calls = (g.procs q).calls
  tests : ∀ p q, (g.procs p).tests = (g.procs q).tests
  phase : ∀ p, ∀ m ∈ g.chan p, m = (g.procs p.rev).calls.length
  live : ¬ a.Deadlock g

/-! ### The calls of a test -/

section

variable {a}

/-- What precedes the first `Sync` of a trial is local. -/
lemma quiet_burstPrepost (n : ℕ) : ∀ c ∈ burstPrepost n, a.callKind c = .quiet := by
  intro c hc
  rcases List.mem_append.mp hc with hc | hc
  · rcases List.mem_cons.mp hc with rfl | hc
    · rfl
    · obtain ⟨_, _, hc⟩ := List.mem_flatMap.mp hc
      rcases List.mem_pair.mp hc with rfl | rfl <;> rfl
  · rw [List.mem_singleton.mp hc]
    rfl

lemma quiet_transmitterPre (f : Flags) (n : ℕ) :
    ∀ c ∈ (if f.burst && !f.stream then burstPrepost n else []) ++
      (if !f.cache then [Call.flushcache] else []), a.callKind c = .quiet := by
  intro c hc
  rcases List.mem_append.mp hc with hc | hc
  · split_ifs at hc
    · exact quiet_burstPrepost n c hc
    · cases hc
  · split_ifs at hc
    · rw [List.mem_singleton.mp hc]
      rfl
    · cases hc

lemma quiet_receiverPre (f : Flags) (n : ℕ) :
    ∀ c ∈ receiverPrepost f n ++ (if !f.cache then [Call.flushcache] else []),
      a.callKind c = .quiet := by
  intro c hc
  rcases List.mem_append.mp hc with hc | hc
  · unfold receiverPrepost at hc
    split_ifs at hc
    · exact quiet_burstPrepost n c hc
    · rw [List.mem_singleton.mp hc]
      rfl
    · cases hc
  · split_ifs at hc
    · rw [List.mem_singleton.mp hc]
      rfl
    · cases hc

/-- The parts of a pass: preposting, sending and receiving. -/
lemma phases_posting (b : Bool) (cs : List Call) :
    phases a.callKind ((if b then [Call.prepostRecv] else []) ++ cs) = phases a.callKind cs := by
  split_ifs <;> rfl

lemma phases_sending (hsolo : a.solo = false) (cs : List Call) :
    phases a.callKind ([Call.setupBufferData, .sendData, advanceSent] ++ cs) =
      bump 1 0 (phases a.callKind cs) := by
  have hsend : a.callKind .sendData = .send := by rw [callKind, hsolo]; rfl
  exact phases_send hsend

lemma phases_receiving (hsolo : a.solo = false) (f : Flags) (cs : List Call) :
    phases a.callKind ((if f.workload then [Call.doWork] else []) ++
      ([.recvData, .checkBufferData, advanceReceived] ++ cs)) = bump 0 1 (phases a.callKind cs) := by
  have hrecv : a.callKind .recvData = .recv := by rw [callKind, hsolo]; rfl
  have hwait : a.callKind .doWork = .wait := by rw [callKind, hsolo]; rfl
  have hrest : phases a.callKind ([Call.recvData, .checkBufferData, advanceReceived] ++ cs) =
      bump 0 1 (phases a.callKind cs) := phases_recv hrecv
  split_ifs
  · exact (phases_wait hwait).trans hrest
  · exact hrest

/-- Messages of a transmitter's pass. -/
lemma phases_transmitterRepeat (hsolo : a.solo = false) (f : Flags) (cs : List Call) :
    phases a.callKind (transmitterRepeat f ++ cs) =
      bump 1 (if f.stream then 0 else 1) (phases a.callKind cs) := by
  rw [transmitterRepeat, List.append_assoc, List.append_assoc, phases_posting,
    phases_sending hsolo]
  cases f.stream with
  | true => rfl
  | false =>
    rw [Bool.not_false, if_pos rfl, List.append_assoc, phases_receiving hsolo, bump_bump]
    rfl

/-- Messages of a receiver's pass. -/
lemma phases_receiverRepeat (hsolo : a.solo = false) (f : Flags) (n j : ℕ) (cs : List Call) :
    phases a.callKind (receiverRepeat f n j ++ cs) =
      bump (if f.stream then 0 else 1) 1 (phases a.callKind cs) := by
  rw [receiverRepeat, List.append_assoc, List.append_assoc, List.append_assoc,
    phases_receiving hsolo, phases_posting]
  cases f.stream with
  | true => rfl
  | false =>
    rw [Bool.not_false, if_pos rfl, phases_sending hsolo, bump_bump]
    rfl

/-- The calls of a pass. -/
def passedCalls : List Call :=
  [.prepostRecv, .setupBufferData, .sendData, advanceSent, .doWork, .recvData, .checkBufferData,
    advanceReceived]

lemma transmitterRepeat_subset (f : Flags) : transmitterRepeat f ⊆ passedCalls := by
  unfold transmitterRepeat
  refine List.append_subset.mpr ⟨List.append_subset.mpr ⟨?_, by decide⟩, ?_⟩
  · split_ifs <;> decide
  · split_ifs <;> decide

lemma receiverRepeat_subset (f : Flags) (n j : ℕ) : receiverRepeat f n j ⊆ passedCalls := by
  unfold receiverRepeat
  refine List.append_subset.mpr ⟨List.append_subset.mpr ⟨List.append_subset.mpr ⟨?_, by decide⟩,
    ?_⟩, ?_⟩ <;> split_ifs <;> decide

/-- No call of a pass is a collective one. -/
lemma collectives_pass {cs : List Call} (h : cs ⊆ passedCalls) :
    collectives a.callKind cs = [] := by
  refine collectives_eq_nil fun c hc k => ?_
  have hmem := h hc
  simp only [passedCalls, List.mem_cons, List.not_mem_nil, or_false] at hmem
  cases hsolo : a.solo <;>
    rcases hmem with rfl | rfl | rfl | rfl | rfl | rfl | rfl | rfl <;>
    simp [callKind, hsolo, advanceSent, advanceReceived]

/-- The receiving part of a pass. -/
lemma ordered_receiving (hsolo : a.solo = false) (f : Flags) {strict : Bool} {cs : List Call}
    (h : Ordered a.callKind strict cs)
    (hle : (first a.callKind cs).sends + strict.toNat ≤ (first a.callKind cs).recvs + 1) :
    Ordered a.callKind strict ((if f.workload then [Call.doWork] else []) ++
      ([.recvData, .checkBufferData, advanceReceived] ++ cs)) := by
  have hrecv : a.callKind .recvData = .recv := by rw [callKind, hsolo]; rfl
  have hwait : a.callKind .doWork = .wait := by rw [callKind, hsolo]; rfl
  have hquiet : ∀ c ∈ [Call.checkBufferData, advanceReceived], a.callKind c = .quiet := by
    intro c hc
    rcases List.mem_pair.mp hc with rfl | rfl <;> rfl
  have hrest : Ordered a.callKind strict
      (Call.recvData :: ([Call.checkBufferData, advanceReceived] ++ cs)) := by
    refine .cons_recv hrecv ?_ (ordered_append_quiet hquiet h)
    rw [first_append_quiet hquiet]
    exact hle
  split_ifs
  · exact .cons_wait hwait hrecv hrest
  · exact hrest

/-- The sending part of a pass. -/
lemma ordered_sending {strict : Bool} {cs : List Call} (h : Ordered a.callKind strict cs) :
    Ordered a.callKind strict ([Call.setupBufferData, .sendData, advanceSent] ++ cs) := by
  have hsend : a.callKind .sendData ≠ .recv ∧ a.callKind .sendData ≠ .wait := by
    unfold callKind
    split_ifs <;> exact ⟨nofun, nofun⟩
  exact .cons nofun nofun (.cons hsend.1 hsend.2 (.cons nofun nofun h))

/-- Preposting within a pass. -/
lemma ordered_posting (b : Bool) {strict : Bool} {cs : List Call}
    (h : Ordered a.callKind strict cs) :
    Ordered a.callKind strict ((if b then [Call.prepostRecv] else []) ++ cs) := by
  split_ifs
  · exact .cons nofun nofun h
  · exact h

/-- A transmitter's pass is in order: it sends before it receives. -/
lemma ordered_transmitterRepeat (hsolo : a.solo = false) (f : Flags) (cs : List Call)
    (h : Ordered a.callKind true cs) (hb : f.stream = false → Covered a.callKind cs) :
    Ordered a.callKind true (transmitterRepeat f ++ cs) := by
  unfold transmitterRepeat
  rw [List.append_assoc, List.append_assoc]
  refine ordered_posting _ (ordered_sending ?_)
  cases hs : f.stream with
  | true => exact h
  | false =>
    rw [Bool.not_false, if_pos rfl, List.append_assoc]
    exact ordered_receiving hsolo f h (Nat.add_le_add_right (hb hs) 1)

/-- A receiver's pass is in order: it sends no more than it receives. -/
lemma ordered_receiverRepeat (hsolo : a.solo = false) (f : Flags) (n j : ℕ) (cs : List Call)
    (h : Ordered a.callKind false cs) (hb : Covered a.callKind cs) :
    Ordered a.callKind false (receiverRepeat f n j ++ cs) := by
  unfold receiverRepeat
  rw [List.append_assoc, List.append_assoc, List.append_assoc]
  have hsend : Ordered a.callKind false
      ((if !f.stream then [Call.setupBufferData, .sendData, advanceSent] else []) ++ cs) := by
    split_ifs
    · exact ordered_sending h
    · exact h
  refine ordered_receiving hsolo f (ordered_posting _ hsend) ?_
  have hfirst : first a.callKind ((if (!f.burst && f.async && decide (j < n - 1)) = true then
      [Call.prepostRecv] else []) ++ ((if !f.stream then [Call.setupBufferData, .sendData,
        advanceSent] else []) ++ cs)) =
      ⟨(if f.stream then 0 else 1) + (first a.callKind cs).sends,
        0 + (first a.callKind cs).recvs⟩ := by
    obtain ⟨l, hl⟩ := phases_eq_cons a.callKind cs
    refine first_eq_of_phases (l := l) ?_
    rw [phases_posting]
    cases f.stream with
    | true =>
      rw [Bool.not_true, if_neg Bool.false_ne_true, List.nil_append, hl, if_pos rfl, Nat.zero_add,
        Nat.zero_add]
    | false =>
      rw [Bool.not_false, if_pos rfl, phases_sending hsolo, hl]
      rfl
  rw [hfirst, Bool.toNat_false]
  simp only
  unfold Covered at hb
  split_ifs <;> omega

/-! ### Trials and tests -/

lemma transmitterTrial_append (f : Flags) (npairs n : ℕ) (cs : List Call) :
    transmitterTrial f npairs n ++ cs =
      ((if f.burst && !f.stream then burstPrepost n else []) ++
        (if !f.cache then [Call.flushcache] else [])) ++
      .sync :: ((List.range n).flatMap (fun _ => transmitterRepeat f) ++
        ((if npairs > 1 then [Call.sync] else []) ++ .reset :: cs)) := by
  simp [transmitterTrial]

lemma receiverTrial_append (f : Flags) (n : ℕ) (cs : List Call) :
    receiverTrial f n ++ cs =
      (receiverPrepost f n ++ (if !f.cache then [Call.flushcache] else [])) ++
      .sync :: ((List.range n).flatMap (receiverRepeat f n) ++ .reset :: cs) := by
  simp [receiverTrial]

lemma phases_transmitterTrial (hsolo : a.solo = false) (f : Flags) (npairs n : ℕ)
    (cs : List Call) :
    phases a.callKind (transmitterTrial f npairs n ++ cs) =
      ⟨0, 0⟩ :: bump n (if f.stream then 0 else n)
        (if npairs > 1 then ⟨0, 0⟩ :: phases a.callKind cs else phases a.callKind cs) := by
  have hsync : a.callKind .sync = .collective .sync := rfl
  have hend : phases a.callKind ((if npairs > 1 then [Call.sync] else []) ++ .reset :: cs) =
      if npairs > 1 then ⟨0, 0⟩ :: phases a.callKind cs else phases a.callKind cs := by
    split_ifs <;> rfl
  rw [transmitterTrial_append, phases_append_quiet (quiet_transmitterPre f n),
    phases_collective hsync,
    phases_loop fun _ cs => phases_transmitterRepeat hsolo f cs, hend, List.length_range,
    mul_ite, Nat.mul_zero, Nat.mul_one]

lemma phases_receiverTrial (hsolo : a.solo = false) (f : Flags) (n : ℕ) (cs : List Call) :
    phases a.callKind (receiverTrial f n ++ cs) =
      ⟨0, 0⟩ :: bump (if f.stream then 0 else n) n (phases a.callKind cs) := by
  have hsync : a.callKind .sync = .collective .sync := rfl
  have hend : phases a.callKind (.reset :: cs) = phases a.callKind cs := rfl
  rw [receiverTrial_append, phases_append_quiet (quiet_receiverPre f n),
    phases_collective hsync,
    phases_loop fun j cs => phases_receiverRepeat hsolo f n j cs, hend, List.length_range,
    mul_ite, Nat.mul_zero, Nat.mul_one]

/-- A program that is in order and neither sends nor receives before its first collective call. -/
def Ready (a : DriverArgs n) (strict : Bool) (cs : List Call) : Prop :=
  Ordered a.callKind strict cs ∧ first a.callKind cs = ⟨0, 0⟩

lemma Ready.covered {strict : Bool} {cs : List Call} (h : a.Ready strict cs) :
    Covered a.callKind cs := by
  rw [Covered, h.2]

lemma ready_transmitterTrial (hsolo : a.solo = false) (f : Flags) (npairs n : ℕ) {cs : List Call}
    (h : a.Ready true cs) : a.Ready true (transmitterTrial f npairs n ++ cs) := by
  refine ⟨?_, first_eq_of_phases (phases_transmitterTrial hsolo f npairs n cs)⟩
  rw [transmitterTrial_append]
  refine ordered_append_quiet (quiet_transmitterPre f n) (.cons nofun nofun ?_)
  have hend : a.Ready true ((if npairs > 1 then [Call.sync] else []) ++ .reset :: cs) := by
    split_ifs
    · exact ⟨.cons nofun nofun (.cons nofun nofun h.1), rfl⟩
    · exact ⟨.cons nofun nofun h.1, h.2⟩
  cases hs : f.stream with
  | true =>
    -- a streaming transmitter never blocks
    have hloop : ∀ js : List ℕ, Ordered a.callKind true (js.flatMap (fun _ => transmitterRepeat f) ++
        ((if npairs > 1 then [Call.sync] else []) ++ .reset :: cs)) := by
      intro js
      induction js with
      | nil => exact hend.1
      | cons j js ih =>
        rw [List.flatMap_cons, List.append_assoc]
        exact ordered_transmitterRepeat hsolo f _ ih fun hf => absurd hs (by rw [hf]; nofun)
    exact hloop _
  | false =>
    refine (ordered_loop (fun _ cs hcs hb => ⟨ordered_transmitterRepeat hsolo f cs hcs fun _ => hb,
      ?_⟩) hend.1 hend.covered _).1
    obtain ⟨l, hl⟩ := phases_eq_cons a.callKind cs
    have hphases := phases_transmitterRepeat hsolo f cs
    rw [hl, hs] at hphases
    rw [Covered, first_eq_of_phases hphases]
    exact Nat.add_le_add_left hb 1

lemma ready_receiverTrial (hsolo : a.solo = false) (f : Flags) (n : ℕ) {cs : List Call}
    (h : a.Ready false cs) : a.Ready false (receiverTrial f n ++ cs) := by
  refine ⟨?_, first_eq_of_phases (phases_receiverTrial hsolo f n cs)⟩
  rw [receiverTrial_append]
  refine ordered_append_quiet (quiet_receiverPre f n) (.cons nofun nofun ?_)
  have hend : a.Ready false (.reset :: cs) := ⟨.cons nofun nofun h.1, h.2⟩
  refine (ordered_loop (fun j cs hcs hb => ⟨ordered_receiverRepeat hsolo f n j cs hcs hb, ?_⟩)
    hend.1 hend.covered _).1
  obtain ⟨l, hl⟩ := phases_eq_cons a.callKind cs
  have hphases := phases_receiverRepeat hsolo f n j cs
  rw [hl] at hphases
  rw [Covered, first_eq_of_phases hphases]
  unfold Covered at hb
  simp only
  split_ifs <;> omega

/-- Two loops that answer each other: both transmit in bidirectional mode, or one of them transmits
and there is a single pair. -/
def Partners (f : Flags) (npairs : ℕ) (s t : Side) : Prop :=
  s = .transmitter ∧ t = .transmitter ∧ f.stream = false ∨ s ≠ t ∧ npairs ≤ 1

lemma dual_bump {s r : ℕ} {l m : List Phase} (h : List.Forall₂ Phase.Dual l m) :
    List.Forall₂ Phase.Dual (bump s r l) (bump r s m) := by
  cases h with
  | nil => exact .nil
  | cons hab htail => exact .cons ⟨congrArg (s + ·) hab.1, congrArg (r + ·) hab.2⟩ htail

/-- In every phase of a trial each partner sends what the other receives. -/
lemma dual_trial (hsolo : a.solo = false) {f : Flags} {npairs : ℕ} {s t : Side}
    (hst : Partners f npairs s t) (n : ℕ) {cs ds : List Call}
    (h : List.Forall₂ Phase.Dual (phases a.callKind cs) (phases a.callKind ds)) :
    List.Forall₂ Phase.Dual (phases a.callKind (trial f npairs s n ++ cs))
      (phases a.callKind (trial f npairs t n ++ ds)) := by
  rcases hst with ⟨rfl, rfl, hs⟩ | ⟨hne, hnp⟩
  · rw [trial, phases_transmitterTrial hsolo, phases_transmitterTrial hsolo, hs]
    refine .cons ⟨rfl, rfl⟩ (dual_bump ?_)
    split_ifs
    · exact .cons ⟨rfl, rfl⟩ h
    · exact h
  · have hnp' : ¬ npairs > 1 := Nat.not_lt.mpr hnp
    cases s <;> cases t
    case transmitter.receiver =>
      rw [trial, trial, phases_transmitterTrial hsolo, phases_receiverTrial hsolo, if_neg hnp']
      exact .cons ⟨rfl, rfl⟩ (dual_bump h)
    case receiver.transmitter =>
      rw [trial, trial, phases_transmitterTrial hsolo, phases_receiverTrial hsolo, if_neg hnp']
      exact .cons ⟨rfl, rfl⟩ (dual_bump h)
    all_goals exact absurd rfl hne

/-- The calls of a test around its trials. -/
def testStart (f : Flags) (buflen : ℕ) : List Call :=
  [.test buflen, if f.cache then .mallocBufs else .initBufferData]

def testEnd (f : Flags) : List Call := gathers f ++ if f.cache then [.freeBufs] else []

lemma testCalls_eq (f : Flags) (npairs ntrials : ℕ) (side : Side) (buflen nrepeat : ℕ) :
    testCalls f npairs ntrials side buflen nrepeat = testStart f buflen ++
      ((List.range ntrials).flatMap (fun _ => trial f npairs side nrepeat) ++ testEnd f) := by
  simp [testCalls, testStart, testEnd]

lemma quiet_testStart (f : Flags) (buflen : ℕ) :
    ∀ c ∈ testStart f buflen, a.callKind c = .quiet := by
  intro c hc
  rcases List.mem_pair.mp hc with rfl | rfl
  · rfl
  · split_ifs <;> rfl

lemma ready_testEnd (f : Flags) (strict : Bool) : a.Ready strict (testEnd f) := by
  unfold testEnd gathers
  split_ifs
  · exact ⟨⟨nofun, nofun, nofun, nofun, nofun, trivial⟩, rfl⟩
  · exact ⟨⟨nofun, nofun, nofun, nofun, trivial⟩, rfl⟩
  · exact ⟨⟨nofun, nofun, trivial⟩, rfl⟩
  · exact ⟨⟨nofun, trivial⟩, rfl⟩

lemma dual_testEnd (f : Flags) :
    List.Forall₂ Phase.Dual (phases a.callKind (testEnd f)) (phases a.callKind (testEnd f)) := by
  have hdual : Phase.Dual ⟨0, 0⟩ ⟨0, 0⟩ := ⟨rfl, rfl⟩
  unfold testEnd gathers
  split_ifs
  · exact .cons hdual (.cons hdual (.cons hdual (.cons hdual (.cons hdual .nil))))
  · exact .cons hdual (.cons hdual (.cons hdual (.cons hdual (.cons hdual .nil))))
  · exact .cons hdual (.cons hdual .nil)
  · exact .cons hdual (.cons hdual .nil)

/-- Partners are paired throughout a test. -/
lemma paired_testCalls (hsolo : a.solo = false) {f : Flags} {npairs : ℕ} {s t : Side}
    (hst : Partners f npairs s t) (ntrials buflen nrepeat : ℕ) :
    Paired a.callKind 0 0 (testCalls f npairs ntrials s buflen nrepeat)
      (testCalls f npairs ntrials t buflen nrepeat) := by
  have htrials : ∀ js : List ℕ, List.Forall₂ Phase.Dual
      (phases a.callKind (js.flatMap (fun _ => trial f npairs s nrepeat) ++ testEnd f))
      (phases a.callKind (js.flatMap (fun _ => trial f npairs t nrepeat) ++ testEnd f)) := by
    intro js
    induction js with
    | nil => exact dual_testEnd f
    | cons j js ih =>
      rw [List.flatMap_cons, List.flatMap_cons, List.append_assoc, List.append_assoc]
      exact dual_trial hsolo hst nrepeat ih
  rw [Paired, bump_zero, bump_zero, testCalls_eq, testCalls_eq,
    phases_append_quiet (quiet_testStart f buflen), phases_append_quiet (quiet_testStart f buflen)]
  exact htrials _

/-- The calls of a test are in order on either side. -/
lemma ordered_testCalls (hsolo : a.solo = false) (f : Flags) (npairs ntrials : ℕ) (s : Side)
    (buflen nrepeat : ℕ) :
    Ordered a.callKind (s == .transmitter) (testCalls f npairs ntrials s buflen nrepeat) := by
  have htrials : ∀ js : List ℕ, a.Ready (s == .transmitter)
      (js.flatMap (fun _ => trial f npairs s nrepeat) ++ testEnd f) := by
    intro js
    induction js with
    | nil => exact ready_testEnd f _
    | cons j js ih =>
      rw [List.flatMap_cons, List.append_assoc]
      cases s with
      | transmitter => exact ready_transmitterTrial hsolo f npairs nrepeat ih
      | receiver => exact ready_receiverTrial hsolo f nrepeat ih
  rw [testCalls_eq]
  exact ordered_append_quiet (quiet_testStart f buflen) (htrials _).1

/-! ### The collective calls of a test -/

lemma collectives_loop {body : ℕ → List Call} (h : ∀ j, collectives a.callKind (body j) = [])
    (js : List ℕ) : collectives a.callKind (js.flatMap body) = [] := by
  induction js with
  | nil => rfl
  | cons j js ih => rw [List.flatMap_cons, collectives_append, h, ih, List.append_nil]

lemma collectives_transmitterTrial (f : Flags) (npairs n : ℕ) :
    collectives a.callKind (transmitterTrial f npairs n) =
      .sync :: if npairs > 1 then [.sync] else [] := by
  have hpass := collectives_pass (a := a) (transmitterRepeat_subset f)
  have hend : collectives a.callKind ((if npairs > 1 then [Call.sync] else []) ++ [.reset]) =
      if npairs > 1 then [.sync] else [] := by
    split_ifs <;> rfl
  have hsync : a.callKind .sync = .collective .sync := rfl
  rw [← List.append_nil (transmitterTrial f npairs n), transmitterTrial_append, collectives_append,
    collectives_quiet (quiet_transmitterPre f n), List.nil_append,
    collectives_cons_collective hsync, collectives_append, collectives_loop fun _ => hpass,
    List.nil_append, hend]

lemma collectives_receiverTrial (f : Flags) (n : ℕ) :
    collectives a.callKind (receiverTrial f n) = [.sync] := by
  have hpass := fun j => collectives_pass (a := a) (receiverRepeat_subset f n j)
  have hsync : a.callKind .sync = .collective .sync := rfl
  rw [← List.append_nil (receiverTrial f n), receiverTrial_append, collectives_append,
    collectives_quiet (quiet_receiverPre f n), List.nil_append,
    collectives_cons_collective hsync, collectives_append, collectives_loop hpass]
  rfl

/-- With a single pair both loops make the same collective calls. -/
lemma collectives_testCalls (f : Flags) {npairs : ℕ} (hnp : npairs ≤ 1) (ntrials : ℕ)
    (s t : Side) (buflen nrepeat : ℕ) :
    collectives a.callKind (testCalls f npairs ntrials s buflen nrepeat) =
      collectives a.callKind (testCalls f npairs ntrials t buflen nrepeat) := by
  have htrial : ∀ u, collectives a.callKind (trial f npairs u nrepeat) = [.sync] := by
    intro u
    cases u with
    | transmitter => rw [trial, collectives_transmitterTrial, if_neg (Nat.not_lt.mpr hnp)]
    | receiver => rw [trial, collectives_receiverTrial]
  have htrials : ∀ js : List ℕ, ∀ u, collectives a.callKind
      (js.flatMap (fun _ => trial f npairs u nrepeat)) = js.map fun _ => .sync := by
    intro js u
    induction js with
    | nil => rfl
    | cons j js ih =>
      rw [List.flatMap_cons, collectives_append, htrial, ih]
      rfl
  rw [testCalls_eq, testCalls_eq, collectives_append, collectives_append, collectives_append,
    collectives_append, htrials, htrials]

end

/-! ### Lockstep -/

/-- The runs that stay in lockstep: the module is local, or both processes of each pair transmit,
or there is only one pair; and all processes get the same value from a broadcast. -/
def Uniform (a : DriverArgs n) : Prop :=
  (a.solo = true ∨ a.flags.bidir = true ∨ n = 2) ∧ ∀ p q v, a.clamp p v = a.clamp q v

section

variable {a}

lemma Uniform.side_or (h : a.Uniform) :
    (∀ p, a.side p = .transmitter) ∨ a.solo = false ∧ a.flags.bidir = false ∧ n = 2 := by
  cases hsolo : a.solo with
  | true => exact Or.inl fun p => by simp [side, transmits, hsolo]
  | false =>
    cases hbidir : a.flags.bidir with
    | true => exact Or.inl fun p => by simp [side, transmits, hbidir]
    | false =>
      rcases h.1 with h | h | h
      · exact absurd h (by rw [hsolo]; nofun)
      · exact absurd h (by rw [hbidir]; nofun)
      · exact Or.inr ⟨rfl, rfl, h⟩

/-- The calls of a test in process `p`. -/
def procCalls (a : DriverArgs n) (p : Fin n) (buflen nrepeat : ℕ) : List Call :=
  testCalls a.flags a.npairs a.ntrials (a.side p) buflen nrepeat

lemma Uniform.collectives_eq (h : a.Uniform) (p q : Fin n) (buflen nrepeat : ℕ) :
    collectives a.callKind (a.procCalls p buflen nrepeat) =
      collectives a.callKind (a.procCalls q buflen nrepeat) := by
  unfold procCalls
  rcases h.side_or with hside | ⟨hsolo, -, rfl⟩
  · rw [hside p, hside q]
  · refine collectives_testCalls a.flags ?_ a.ntrials _ _ buflen nrepeat
    rw [npairs, hsolo, if_neg Bool.false_ne_true]

lemma two_rev (p : Fin 2) : (p = 0 ∧ p.rev = 1) ∨ (p = 1 ∧ p.rev = 0) := by
  revert p
  decide

/-- In a local module every call other than a collective one is quiet. -/
lemma callKind_solo (hsolo : a.solo = true) (c : Call) :
    a.callKind c = .quiet ∨ ∃ k, a.callKind c = .collective k := by
  cases c <;> simp [callKind, hsolo]

lemma dual_solo (hsolo : a.solo = true) (cs : List Call) :
    List.Forall₂ Phase.Dual (phases a.callKind cs) (phases a.callKind cs) := by
  induction cs with
  | nil => exact .cons ⟨rfl, rfl⟩ .nil
  | cons c cs ih =>
    rcases callKind_solo hsolo c with hc | ⟨k, hc⟩
    · rw [phases_quiet hc]
      exact ih
    · rw [phases_collective hc]
      exact .cons ⟨rfl, rfl⟩ ih

lemma ordered_solo (hsolo : a.solo = true) (strict : Bool) (cs : List Call) :
    Ordered a.callKind strict cs := by
  induction cs with
  | nil => exact trivial
  | cons c cs ih =>
    rcases callKind_solo hsolo c with hc | ⟨k, hc⟩
    · exact .cons (by rw [hc]; nofun) (by rw [hc]; nofun) ih
    · exact .cons (by rw [hc]; nofun) (by rw [hc]; nofun) ih

lemma Uniform.paired (h : a.Uniform) (hmode : a.flags.bidir = true → a.flags.stream = false)
    (p : Fin n) (buflen nrepeat : ℕ) :
    Paired a.callKind 0 0 (a.procCalls p buflen nrepeat) (a.procCalls p.rev buflen nrepeat) := by
  unfold procCalls
  cases hsolo : a.solo with
  | true =>
    rw [h.side_or.resolve_right (by simp [hsolo]) p,
      h.side_or.resolve_right (by simp [hsolo]) p.rev, Paired, bump_zero]
    exact dual_solo hsolo _
  | false =>
    refine paired_testCalls hsolo ?_ _ _ _
    cases hbidir : a.flags.bidir with
    | true => exact Or.inl ⟨by simp [side, transmits, hbidir], by simp [side, transmits, hbidir],
        hmode hbidir⟩
    | false =>
      obtain rfl : n = 2 := by
        rcases h.1 with h | h | h
        · exact absurd h (by simp [hsolo])
        · exact absurd h (by simp [hbidir])
        · exact h
      refine Or.inr ⟨?_, by rw [npairs, hsolo, if_neg Bool.false_ne_true]⟩
      rcases two_rev p with ⟨hp, hrev⟩ | ⟨hp, hrev⟩ <;>
        simp [side, transmits, hbidir, hsolo, hp]

lemma ordered_procCalls (p : Fin n) (buflen nrepeat : ℕ) :
    Ordered a.callKind (a.side p == .transmitter) (a.procCalls p buflen nrepeat) := by
  cases hsolo : a.solo with
  | true => exact ordered_solo hsolo _ _
  | false => exact ordered_testCalls hsolo _ _ _ _ _ _

lemma Uniform.transmits_or (h : a.Uniform) (p : Fin n) :
    (a.side p == .transmitter) = true ∨ (a.side p.rev == .transmitter) = true := by
  rcases h.side_or with hside | ⟨-, -, rfl⟩
  · exact Or.inl (by rw [hside p]; rfl)
  · rcases two_rev p with ⟨hp, -⟩ | ⟨-, hrev⟩
    · exact Or.inl (by simp [side, transmits, hp])
    · exact Or.inr (by simp [side, transmits, hrev])

end

/-- The invariant of runs in lockstep. -/
structure Inv (g : DriverState n) : Prop where
  control : ∀ p q, (g.procs p).control = (g.procs q).control
  calls : ∀ p q, (g.procs p).calls = (g.procs q).calls
  tests : ∀ p q, (g.procs p).tests = (g.procs q).tests
  same : ∀ p q, collectives a.callKind (g.procs p).todo = collectives a.callKind (g.procs q).todo
  paired : ∀ p, Paired a.callKind (g.chan p).length (g.chan p.rev).length (g.procs p).todo
    (g.procs p.rev).todo
  ordered : ∀ p, Ordered a.callKind (a.side p == .transmitter) (g.procs p).todo
  phase : ∀ p, ∀ m ∈ g.chan p, m = (g.procs p.rev).calls.length

section

variable {a} {g g' : DriverState n} {p q : Fin n} {c : Call} {cs : List Call}

@[simp] lemma advance_control : (g.advance p cs q).control = (g.procs q).control := by
  by_cases h : q = p
  · subst h
    rw [DriverState.advance, Function.update_self]
  · rw [DriverState.advance, Function.update_of_ne h]

@[simp] lemma advance_calls : (g.advance p cs q).calls = (g.procs q).calls := by
  by_cases h : q = p
  · subst h
    rw [DriverState.advance, Function.update_self]
  · rw [DriverState.advance, Function.update_of_ne h]

@[simp] lemma advance_tests : (g.advance p cs q).tests = (g.procs q).tests := by
  by_cases h : q = p
  · subst h
    rw [DriverState.advance, Function.update_self]
  · rw [DriverState.advance, Function.update_of_ne h]

lemma advance_todo :
    (g.advance p cs q).todo = Function.update (fun q => (g.procs q).todo) p cs q :=
  Function.apply_update (fun _ => Proc.todo) g.procs p _ q

/-- The inductive step for a call of one process, given what happens to the messages. -/
lemma Inv.advance (h : a.Inv g) (htodo : (g.procs p).todo = c :: cs)
    (hc : ∀ k, a.callKind c ≠ .collective k) {chan : Fin n → List ℕ}
    (hpaired : ∀ q, Paired a.callKind (chan q).length (chan q.rev).length
      (Function.update (fun q => (g.procs q).todo) p cs q)
      (Function.update (fun q => (g.procs q).todo) p cs q.rev))
    (hphase : ∀ q, ∀ m ∈ chan q, m = (g.procs q.rev).calls.length) :
    a.Inv ⟨g.advance p cs, chan⟩ := by
  have hsame : ∀ q, collectives a.callKind (g.advance p cs q).todo =
      collectives a.callKind (g.procs q).todo := by
    intro q
    rw [advance_todo]
    by_cases hq : q = p
    · subst hq
      rw [Function.update_self, htodo, collectives_cons hc]
    · rw [Function.update_of_ne hq]
  refine ⟨fun q r => ?_, fun q r => ?_, fun q r => ?_, fun q r => ?_, fun q => ?_, fun q => ?_,
    fun q m hm => ?_⟩
  · simpa using h.control q r
  · simpa using h.calls q r
  · simpa using h.tests q r
  · rw [hsame, hsame]
    exact h.same q r
  · rw [advance_todo, advance_todo]
    exact hpaired q
  · rw [advance_todo]
    by_cases hq : q = p
    · subst hq
      rw [Function.update_self]
      have hord := h.ordered q
      rw [htodo] at hord
      exact hord.tail
    · rw [Function.update_of_ne hq]
      exact h.ordered q
  · rw [advance_calls]
    exact hphase q m hm

/-- A call of one process keeps the invariant. -/
lemma Inv.proc (h : a.Inv g) (hstep : a.step g (.proc p) = some g') : a.Inv g' := by
  rw [step] at hstep
  cases htodo : (g.procs p).todo with
  | nil =>
    rw [htodo] at hstep
    cases hstep
  | cons c cs =>
    rw [htodo] at hstep
    simp only at hstep
    cases hc : a.callKind c with
    | quiet =>
      rw [hc] at hstep
      injection hstep with hstep
      subst hstep
      exact h.advance htodo (by rw [hc]; nofun) (paired_quiet h.paired htodo (Or.inl hc)) h.phase
    | send =>
      rw [hc] at hstep
      injection hstep with hstep
      subst hstep
      refine h.advance htodo (by rw [hc]; nofun) (fun q => ?_) ?_
      · have hlen : ∀ q, (Function.update g.chan p
            (g.chan p ++ [(g.procs p).calls.length]) q).length =
            Function.update (fun q => (g.chan q).length) p ((g.chan p).length + 1) q := by
          intro q
          rw [Function.apply_update (fun _ => List.length), List.length_append,
            List.length_singleton]
        rw [hlen, hlen]
        exact paired_send h.paired htodo hc q
      · refine (Function.forall_update_iff _ fun q (l : List ℕ) => ∀ m ∈ l,
          m = (g.procs q.rev).calls.length).mpr ⟨fun m hm => ?_, fun q _ => h.phase q⟩
        rcases List.mem_append.mp hm with hm | hm
        · exact h.phase p m hm
        · rw [List.mem_singleton.mp hm, h.calls p p.rev]
    | recv =>
      rw [hc] at hstep
      simp only at hstep
      cases hchan : g.chan p.rev with
      | nil =>
        rw [hchan] at hstep
        cases hstep
      | cons m ms =>
        rw [hchan] at hstep
        injection hstep with hstep
        subst hstep
        refine h.advance htodo (by rw [hc]; nofun) (fun q => ?_) ?_
        · have hlen : ∀ q, (Function.update g.chan p.rev ms q).length =
              Function.update (fun q => (g.chan q).length) p.rev ms.length q :=
            fun q => Function.apply_update (fun _ => List.length) g.chan p.rev ms q
          rw [hlen, hlen]
          exact paired_recv Fin.rev_rev h.paired htodo hc (by rw [hchan, List.length_cons]) q
        · refine (Function.forall_update_iff _ fun q (l : List ℕ) => ∀ m ∈ l,
            m = (g.procs q.rev).calls.length).mpr ⟨fun m' hm => ?_, fun q _ => h.phase q⟩
          exact h.phase p.rev m' (by rw [hchan]; exact List.mem_cons_of_mem m hm)
    | wait =>
      rw [hc] at hstep
      simp only at hstep
      cases hchan : g.chan p.rev with
      | nil =>
        rw [hchan] at hstep
        cases hstep
      | cons m ms =>
        rw [hchan] at hstep
        injection hstep with hstep
        subst hstep
        exact h.advance htodo (by rw [hc]; nofun) (paired_quiet h.paired htodo (Or.inr hc)) h.phase
    | collective k =>
      rw [hc] at hstep
      cases hstep

/-- A process at a collective call within a test, or between two tests. -/
lemma collectiveOf_cases {x : Proc} {k : Collective} (h : a.collectiveOf x = some k) :
    (∃ c cs, x.todo = c :: cs ∧ a.callKind c = .collective k) ∨
      x.todo = [] ∧ ∃ c bs, x.control = .centre c bs := by
  rw [collectiveOf] at h
  cases htodo : x.todo with
  | nil =>
    rw [htodo] at h
    cases hctl : x.control with
    | centre c bs => exact Or.inr ⟨rfl, c, bs, rfl⟩
    | ended =>
      rw [hctl] at h
      cases h
  | cons c cs =>
    rw [htodo] at h
    cases hc : a.callKind c with
    | collective k' =>
      simp only [hc] at h
      injection h with h
      exact Or.inl ⟨c, cs, rfl, by rw [hc, h]⟩
    | quiet | send | recv | wait =>
      simp only [hc] at h
      cases h

/-- A collective call within a test keeps the invariant. -/
lemma Inv.within (h : a.Inv g) {k : Collective}
    (hall : ∀ p, ∃ c cs, (g.procs p).todo = c :: cs ∧ a.callKind c = .collective k) (w : Fin n → ℤ) :
    a.Inv ⟨fun p => a.afterCollective p k (w p) (g.procs p), g.chan⟩ := by
  choose c cs htodo hc using hall
  have hafter : ∀ p, a.afterCollective p k (w p) (g.procs p) =
      { g.procs p with todo := cs p, calls := (g.procs p).calls ++ [k] } := by
    intro p
    unfold afterCollective
    rw [htodo p]
  have hpaired : ∀ p, (g.chan p).length = 0 ∧ (g.chan p.rev).length = 0 ∧
      Paired a.callKind 0 0 (cs p) (cs p.rev) := by
    intro p
    have hp := h.paired p
    rw [htodo p, htodo p.rev] at hp
    exact hp.collective (hc p) (hc p.rev)
  simp only [hafter]
  refine ⟨h.control, fun p q => ?_, h.tests, fun p q => ?_, fun p => ?_, fun p => ?_,
    fun p m hm => ?_⟩
  · exact congrArg (· ++ [k]) (h.calls p q)
  · have hpq := h.same p q
    rw [htodo p, htodo q, collectives_cons_collective (hc p),
      collectives_cons_collective (hc q)] at hpq
    exact (List.cons.inj hpq).2
  · obtain ⟨hp, hrev, hpair⟩ := hpaired p
    rw [hp, hrev]
    exact hpair
  · have hord := h.ordered p
    rw [htodo p] at hord
    exact hord.tail
  · rw [List.eq_nil_of_length_eq_zero (hpaired p).1] at hm
    cases hm

/-- Between two tests all processes are in the same state, and nothing is under way. -/
lemma Inv.between (h : a.Inv g) (hnil : ∀ p, (g.procs p).todo = []) (p₀ : Fin n) :
    (∀ p, g.procs p = g.procs p₀) ∧ ∀ p, g.chan p = [] := by
  refine ⟨fun p => ?_, fun p => ?_⟩
  · have hcontrol := h.control p p₀
    have hcalls := h.calls p p₀
    have htests := h.tests p p₀
    have hp := hnil p
    rw [← hnil p₀] at hp
    cases hx : g.procs p
    cases hy : g.procs p₀
    rw [hx, hy] at hcontrol hcalls htests hp
    simp only at hcontrol hcalls htests hp
    rw [hcontrol, hcalls, htests, hp]
  · have hp := h.paired p
    rw [hnil p, hnil p.rev] at hp
    exact List.eq_nil_of_length_eq_zero (paired_nil hp).1

/-- Processes in the same state, with nothing left to do and nothing under way. -/
lemma inv_of_idle {x : Proc} (hx : x.todo = []) : a.Inv ⟨fun _ => x, fun _ => []⟩ where
  control _ _ := rfl
  calls _ _ := rfl
  tests _ _ := rfl
  same _ _ := rfl
  paired p := by
    rw [hx]
    exact .cons ⟨rfl, rfl⟩ .nil
  ordered p := by
    rw [hx]
    exact trivial
  phase _ _ hm := by cases hm

/-- A collective call keeps the invariant: all processes start the same test, or go on together to
the next centre, or end together. -/
lemma Inv.collective (huniform : a.Uniform)
    (hmode : a.flags.bidir = true → a.flags.stream = false) (h : a.Inv g) {k : Collective} {v : ℤ}
    (hstep : a.step g (.collective k v) = some g') : a.Inv g' := by
  rw [step] at hstep
  split_ifs at hstep with hguard
  injection hstep with hstep
  subst hstep
  obtain ⟨hall, -⟩ := hguard
  by_cases hsome : ∃ p₀, (g.procs p₀).todo = []
  · obtain ⟨p₀, hp₀⟩ := hsome
    have hnil : ∀ p, (g.procs p).todo = [] := by
      intro p
      rcases collectiveOf_cases (hall p) with ⟨c, cs, htodo, hc⟩ | ⟨htodo, -⟩
      · have hsame := h.same p p₀
        rw [htodo, hp₀, collectives_cons_collective hc] at hsame
        cases hsame
      · exact htodo
    obtain ⟨hprocs, hchan⟩ := h.between hnil p₀
    obtain ⟨c, bs, hctl⟩ : ∃ c bs, (g.procs p₀).control = .centre c bs := by
      rcases collectiveOf_cases (hall p₀) with ⟨c, cs, htodo, -⟩ | ⟨-, hctl⟩
      · rw [htodo] at hp₀
        cases hp₀
      · exact hctl
    have hclamp : ∀ p, a.clamp p v = a.clamp p₀ v := fun p => huniform.2 p p₀ v
    have hchan' : g.chan = fun _ => [] := funext hchan
    simp only [hprocs, hclamp, hchan', afterCollective, hp₀, hctl]
    cases bs with
    | nil => exact inv_of_idle rfl
    | cons buflen rest =>
      simp only
      split_ifs
      · exact inv_of_idle rfl
      · exact ⟨fun _ _ => rfl, fun _ _ => rfl, fun _ _ => rfl,
          fun p q => huniform.collectives_eq p q _ _, fun p => huniform.paired hmode p _ _,
          fun p => ordered_procCalls p _ _, fun _ _ hm => by cases hm⟩
  · push Not at hsome
    refine h.within (fun p => ?_) _
    rcases collectiveOf_cases (hall p) with hc | ⟨htodo, -⟩
    · exact hc
    · exact absurd htodo (hsome p)

/-- Every state of a uniform run satisfies the invariant. -/
lemma Reach.inv (huniform : a.Uniform) (hmode : a.flags.bidir = true → a.flags.stream = false)
    (h : a.Reach g) : a.Inv g := by
  induction h with
  | init => exact inv_of_idle rfl
  | @step g g' act _ hstep ih =>
    cases act with
    | proc p => exact ih.proc hstep
    | collective k v => exact ih.collective huniform hmode hstep

/-- A process that can move makes a step. -/
lemma step_of_canMove
    (h : CanMove a.callKind (fun p => (g.procs p).todo) Fin.rev (fun p => (g.chan p).length) p) :
    a.step g (.proc p) ≠ none := by
  obtain ⟨c, cs, htodo, hmove⟩ := h
  simp only at htodo
  rw [step, htodo]
  rcases hmove with hc | hc | ⟨hc | hc, hpos⟩
  · simp only [hc]
    exact Option.some_ne_none _
  · simp only [hc]
    exact Option.some_ne_none _
  · obtain ⟨m, ms, hchan⟩ := List.exists_cons_of_length_pos hpos
    simp only [hc, hchan]
    exact Option.some_ne_none _
  · obtain ⟨m, ms, hchan⟩ := List.exists_cons_of_length_pos hpos
    simp only [hc, hchan]
    exact Option.some_ne_none _

/-- The processes of a uniform run never all block. -/
lemma Inv.live (huniform : a.Uniform) (h : a.Inv g) : ¬ a.Deadlock g := by
  rintro ⟨⟨p₀, hp₀⟩, hnone⟩
  have hcollective : ∀ k v, (∀ p, a.collectiveOf (g.procs p) = some k) →
      (∀ p : Fin n, p.val = 0 → a.MaySend (g.procs p) v) → False := by
    intro k v hall hsend
    have hstep := hnone (.collective k v)
    rw [step, if_pos ⟨hall, hsend⟩] at hstep
    cases hstep
  rcases progress Fin.rev_rev h.paired h.ordered huniform.transmits_or h.same
    (fun p hmove => step_of_canMove hmove (hnone (.proc p))) with ⟨k, hall⟩ | hnil
  · refine hcollective k 0 (fun p => ?_) (fun p _ => ?_)
    · obtain ⟨c, cs, htodo, hc⟩ := hall p
      rw [collectiveOf, htodo]
      simp only [hc]
    · obtain ⟨c, cs, htodo, -⟩ := hall p
      unfold MaySend
      rw [htodo]
      exact trivial
  · obtain ⟨hprocs, -⟩ := h.between hnil p₀
    cases hctl : (g.procs p₀).control with
    | ended => exact hp₀ ⟨hnil p₀, hctl⟩
    | centre c bs =>
      refine hcollective .broadcast 1 (fun p => ?_) (fun p _ => ?_)
      · rw [hprocs p, collectiveOf, hnil p₀, hctl]
      · rw [hprocs p]
        unfold MaySend
        rw [hnil p₀, hctl]
        cases bs with
        | nil => exact ⟨Or.inr rfl, fun _ => rfl⟩
        | cons b bs => exact trivial

/-- Every run with a local module, with both processes of each pair transmitting, or with a single
pair, is in lockstep throughout, for every number of trials and whatever the clocks say, as long as
all processes get the same values from the broadcasts. -/
theorem lockstep_of_uniform (huniform : a.Uniform)
    (hmode : a.flags.bidir = true → a.flags.stream = false) (h : a.Reach g) : a.Lockstep g := by
  have hinv := h.inv huniform hmode
  exact ⟨hinv.calls, hinv.tests, hinv.phase, hinv.live huniform⟩

end

/-! ### Four processes -/

/-- Make a list of steps. -/
def run (a : DriverArgs n) : List (Action n) → DriverState n → Option (DriverState n)
  | [], g => some g
  | act :: acts, g => (a.step g act).bind (run a acts)

lemma Reach.run {a : DriverArgs n} {g g' : DriverState n} (h : a.Reach g) {acts : List (Action n)}
    (hrun : a.run acts g = some g') : a.Reach g' := by
  induction acts generalizing g with
  | nil =>
    injection hrun with hrun
    exact hrun ▸ h
  | cons act acts ih =>
    obtain ⟨g₁, hstep, hrest⟩ := Option.bind_eq_some_iff.mp hrun
    exact ih (h.step hstep) hrest

/-- `--start 1 --end 1 --pert 0 --quicker` with `n` processes, without preposting. -/
def quickArgs (n : ℕ) (bidir : Bool) : DriverArgs n where
  flags := ⟨true, bidir, false, false, false, false⟩
  solo := false
  ntrials := 1
  sizes := ⟨1, 1, 0, by decide, by decide⟩
  factors_of_2 := false
  clamp _ v := v

/-- The start of such a run: one message of one byte. -/
def quickStart (n : ℕ) : DriverState n where
  procs _ := ⟨.centre (Loop.init ⟨1, 1, 0, by decide, by decide⟩) [1], [], [], []⟩
  chan _ := []

lemma quickArgs_init (n : ℕ) (bidir : Bool) : (quickArgs n bidir).init = quickStart n := by
  have hperts : perts 0 1 = [0] := by rw [perts_eq (le_refl 0)]; rfl
  have hcentre : (quickArgs n bidir).atCentre (Loop.init ⟨1, 1, 0, by decide, by decide⟩) =
      .centre (Loop.init ⟨1, 1, 0, by decide, by decide⟩) [1] := by
    unfold atCentre Loop.centre
    exact congrArg (Control.centre _) (congrArg (List.map _) hperts)
  unfold init
  exact congrArg (DriverState.mk · _) (funext fun _ => congrArg (Proc.mk · _ _ _) hcentre)

/-- The steps of four processes that play ping-pong once: the transmitters `0` and `1` then wait
in a second `Sync`, the receivers `2` and `3` in a `Gather`. -/
def fourSteps : List (Action 4) :=
  [.collective .broadcast 1] ++ (List.finRange 4).flatMap (fun p => [.proc p, .proc p]) ++
  [.collective .sync 0] ++ ([0, 1] : List (Fin 4)).flatMap (fun p => List.replicate 3 (.proc p)) ++
  ([2, 3] : List (Fin 4)).flatMap (fun p => List.replicate 7 (.proc p)) ++
  ([0, 1] : List (Fin 4)).flatMap (fun p => List.replicate 3 (.proc p))

/-- A run of four processes deadlocks. -/
theorem four_deadlock : ∃ g, (quickArgs 4 false).Reach g ∧ (quickArgs 4 false).Deadlock g := by
  have hinit : (quickArgs 4 false).Reach (quickStart 4) := quickArgs_init 4 false ▸ Reach.init
  have hsome : ((quickArgs 4 false).run fourSteps (quickStart 4)).isSome = true := rfl
  refine ⟨_, hinit.run (Option.some_get hsome).symm, ⟨0, ?_⟩, ?_⟩
  · rintro ⟨htodo, -⟩
    cases htodo
  · intro act
    cases act with
    | proc p => fin_cases p <;> rfl
    | collective k v => cases k <;> rfl

/-- Four processes that all transmit, after the first broadcast. -/
theorem lockstep_of_uniform_four : ∃ g, (quickArgs 4 true).Reach g ∧
    (g.procs 3).tests = [(1, 1)] ∧ (quickArgs 4 true).Lockstep g := by
  have hinit : (quickArgs 4 true).Reach (quickStart 4) := quickArgs_init 4 true ▸ Reach.init
  obtain ⟨g, hrun, htests⟩ : ∃ g, (quickArgs 4 true).run [.collective .broadcast 1]
      (quickStart 4) = some g ∧ (g.procs 3).tests = [(1, 1)] := ⟨_, rfl, rfl⟩
  exact ⟨g, hinit.run hrun, htests,
    lockstep_of_uniform ⟨Or.inr (Or.inl rfl), fun _ _ _ => rfl⟩ (fun _ => rfl) (hinit.run hrun)⟩

end DriverArgs

end NetPipe
