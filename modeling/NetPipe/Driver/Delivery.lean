import Mathlib
import NetPipe.Driver.Check

/-!
# The integrity check in whole runs

Two processes run their calls in any interleaving. `SendData` puts a copy of the send window among
the messages of the peer, and the bytes of a message are stored when a receive is posted for it or
when it is received.
-/

namespace NetPipe

open StraightLine Relation

/-- The calls of a run without its broadcasts. -/
def runCalls (f : Flags) (npairs ntrials : ℕ) (side : Side) (tests : List Test) : List Call :=
  tests.flatMap fun t => testCalls f npairs ntrials side t.buflen t.nrepeat

/-- The sizes of the messages of a run, in either direction. -/
def runSizes (ntrials : ℕ) (tests : List Test) : List ℕ :=
  tests.flatMap fun t => List.replicate (ntrials * t.nrepeat) t.buflen

/-- Within a trial that begins after `k` messages in each direction that is used; its test began
after `start` messages. -/
def InTrial (x : BufArgs) (side : Side) (lost : Loss) (sizes : List ℕ) (b start k a p c : ℕ) :
    BufState → Prop :=
  Waiting x side lost sizes b (if side.receives x.flags then start else 0)
    ((if side.sends x.flags then k else 0) + a) ((if side.receives x.flags then k else 0) + p)
    ((if side.receives x.flags then k else 0) + c)

/-- Between two tests, after `k` messages in each direction that is used. -/
structure BetweenTests (x : BufArgs) (side : Side) (sizes : List ℕ) (k : ℕ)
    (s : BufState) : Prop where
  inbox : ∀ i (m : Message), s.inbox[i]? = some m → m.Good x.integrity sizes i
  sent : s.sent = if side.sends x.flags then k else 0
  received : s.received = if side.receives x.flags then k else 0
  stag : s.stag = s.sent % 100
  rtag : s.rtag = s.received % 100
  posted : s.posted = none
  landed : ∀ i, s.landed i = false
  pool : x.flags.cache = false → PoolPtrs x.layout s.ptrs.ptrs

section

variable {x : BufArgs} {side : Side} {lost : Loss} {sizes : List ℕ} {b start k n : ℕ}
  {s s' : BufState}

/-! ### Trials -/

/-- The calls of the trial loops keep to the rules of a trial. -/
lemma buf_rules (hburst : x.flags.burst = false) (hfit : Fits x.flags.cache x.layout b)
    (hpos : 0 < b) (hsizes : ∀ i < n, sizes[k + i]? = some b) :
    TrialRules (bufMachine x side lost sizes) id x.flags side n
      (InTrial x side lost sizes b start k) where
  stable _ _ _ := waiting_stable hfit
  flush _ _ _ := idle_triple rfl (waiting_stable hfit)
  sync _ _ _ := idle_triple rfl (waiting_stable hfit)
  burst hb := absurd (hburst.symm.trans hb) Bool.false_ne_true
  post _ _ hr a c hc := by
    have hsize : sizes[(if side.receives x.flags then k else 0) + c]? = some b := by
      rw [if_pos hr]
      exact hsizes c hc
    exact prepostRecv_buffers hfit hsize
  send hs a p c ha hpace := by
    have hpace' : x.flags.stream = false → (if side.sends x.flags then k else 0) + a + side.lag =
        (if side.receives x.flags then k else 0) + c + 1 := by
      intro hst
      have hr : side.receives x.flags = true := by
        rw [Side.receives, hst, Bool.not_false, Bool.or_true]
      rw [if_pos hs, if_pos hr, Nat.add_assoc, hpace hst, Nat.add_assoc]
    have hsize : sizes[(if side.sends x.flags then k else 0) + a]? = some b := by
      rw [if_pos hs]
      exact hsizes a ha
    exact (setupBufferData_buffers hfit hpos hs).cons
      ((sendData_buffers hfit hsize).cons (advanceSent_buffers hfit hpace'))
  work _ _ _ _ := idle_triple rfl (waiting_stable hfit)
  receive hr a c hc hpace := by
    have hpace' : x.flags.stream = false → (if side.sends x.flags then k else 0) + a + side.lag =
        (if side.receives x.flags then k else 0) + c + 2 := by
      intro hst
      have hs : side.sends x.flags = true := by
        rw [Side.sends, hst, Bool.not_false, Bool.or_true]
      rw [if_pos hs, if_pos hr, Nat.add_assoc, hpace hst, Nat.add_assoc]
    have hsize : sizes[(if side.receives x.flags then k else 0) + c]? = some b := by
      rw [if_pos hr]
      exact hsizes c hc
    have hposted : (if side.receives x.flags then k else 0) + postedAt x.flags n c =
          (if side.receives x.flags then k else 0) + c ∨
        (if side.receives x.flags then k else 0) + postedAt x.flags n c =
          (if side.receives x.flags then k else 0) + c + 1 := by
      rw [postedAt, hburst, if_neg Bool.false_ne_true]
      split_ifs
      · exact Or.inr rfl
      · exact Or.inl rfl
    have hidle : postedIdle x.flags n (c + 1) = c + 1 := by
      rw [postedIdle, hburst, if_neg Bool.false_ne_true]
    rw [hidle]
    exact (recvData_buffers hfit hposted hsize).cons
      ((checkBufferData_buffers hfit hpos hr hpace').cons (advanceReceived_buffers hfit hpace'))

/-- A trial of `n` repeats. -/
lemma trial_buffers (hburst : x.flags.burst = false) (hfit : Fits x.flags.cache x.layout b)
    (hpos : 0 < b) (hn : 0 < n) (hsizes : ∀ i < n, sizes[k + i]? = some b) (npairs : ℕ) :
    Triple (bufMachine x side lost sizes) (InTrial x side lost sizes b start k 0 0 0)
      (trial x.flags npairs side n) (InTrial x side lost sizes b start (k + n) 0 0 0) := by
  have hreset : Triple (bufMachine x side lost sizes)
      (InTrial x side lost sizes b start k (if side.sends x.flags then n else 0)
        (if side.receives x.flags then n else 0) (if side.receives x.flags then n else 0))
      ([.reset].map id) (InTrial x side lost sizes b start (k + n) 0 0 0) := by
    have hsum : ∀ c : Bool, (if c then k else 0) + (if c then n else 0) =
        (if c then k + n else 0) + 0 := by
      intro c
      cases c <;> rfl
    unfold InTrial
    rw [hsum, hsum]
    exact idle_triple rfl (waiting_stable hfit)
  have htrial := (buf_rules hburst hfit hpos hsizes).trial hn npairs hreset
  rwa [List.map_id] at htrial

/-! ### Tests -/

lemma betweenTests_stable :
    (bufMachine x side lost sizes).Stable (BetweenTests x side sizes k) := by
  intro s s' h henv
  cases henv with
  | arrive m hm =>
    exact { h with inbox := forall_getElem?_concat h.inbox hm }
  | land w m i hw =>
    rw [h.posted] at hw
    cases hw

/-- A test starts with cleared windows. -/
lemma BetweenTests.inTrial (h : BetweenTests x side sizes k s) (hb : s.buflen = b)
    (hwin : Windows x.flags.cache x.layout b s.ptrs.ptrs) (hlog : s.log = [])
    (hmem : ∀ w, Slot x.flags.cache x.layout b s.ptrs.ptrs w → ∀ i < b,
      Cleared x s (w + i) → s.mem (w + i) = -1) :
    InTrial x side lost sizes b k k 0 0 0 s := by
  have hclr : x.flags.cache = true → ∀ w, Slot x.flags.cache x.layout b s.ptrs.ptrs w →
      ∀ i < b, s.mem (w + i) = -1 := fun hc w hw i hi => hmem w hw i hi (Or.inl hc)
  refine ⟨⟨⟨hwin, hb, h.inbox, h.sent, fun hst => ?_, h.received, ?_, ?_, ?_, fun hlt => ?_,
    fun i hi => ?_⟩, fun _ => ⟨fun hc _ i hi _ => ?_, fun _ _ w hw i hi hcl _ => ?_⟩⟩, ?_,
    fun _ hc hst hpace i hi => ?_⟩
  · have hs : side.sends x.flags = true := by rw [Side.sends, hst, Bool.not_false, Bool.or_true]
    have hr : side.receives x.flags = true := by
      rw [Side.receives, hst, Bool.not_false, Bool.or_true]
    rw [if_pos hs, if_pos hr]
    exact le_refl k
  · rw [h.rtag, h.received]
    rfl
  · rw [hlog]
    exact Nat.zero_add _
  · exact h.posted.trans (if_neg (Nat.lt_irrefl _)).symm
  · exact absurd hlt (Nat.lt_irrefl _)
  · exact absurd ((h.landed i).symm.trans hi) Bool.false_ne_true
  · have hlag : 0 < side.lag := by cases side <;> decide
    rw [hlog, staleByte, List.length_nil, if_pos hlag]
    exact hclr hc _ hwin.slot i hi
  · rw [hmem w hw i hi hcl, hlog, leftover]
    exact (ite_self (-1)).symm
  · rw [h.stag, h.sent]
    rfl
  · -- only in the receiver's loop is this window about to be used again
    have hs : side.sends x.flags = true := by rw [Side.sends, hst, Bool.not_false, Bool.or_true]
    have hr : side.receives x.flags = true := by
      rw [Side.receives, hst, Bool.not_false, Bool.or_true]
    rw [if_pos hs, if_pos hr] at hpace
    have hlag : 0 + 1 < side.lag := by omega
    rw [hlog, staleByte, List.length_nil, if_pos hlag]
    exact hclr hc _ (hwin.send_slot hc) i hi

lemma sized_stable : (bufMachine x side lost sizes).Stable
    fun s => BetweenTests x side sizes k s ∧ s.buflen = b := by
  rintro s s' ⟨h, hb⟩ henv
  refine ⟨@betweenTests_stable x side lost sizes k s s' h henv, ?_⟩
  cases henv <;> exact hb

/-- The size of the next test is set. -/
lemma test_buffers : Triple (bufMachine x side lost sizes) (BetweenTests x side sizes k) [.test b]
    fun s => BetweenTests x side sizes k s ∧ s.buflen = b := by
  refine .call betweenTests_stable sized_stable (fun _ _ => trivial) fun s s' h hstep => ?_
  obtain ⟨-, a, -, hrun⟩ := hstep
  obtain rfl := Option.some.inj hrun
  exact ⟨⟨h.inbox, h.sent, h.received, h.stag, h.rtag, h.posted, h.landed, h.pool⟩, rfl⟩

/-- The buffers of the next test are allocated or cleared. -/
lemma start_buffers (hfit : Fits x.flags.cache x.layout b) :
    Triple (bufMachine x side lost sizes)
      (fun s => BetweenTests x side sizes k s ∧ s.buflen = b)
      [if x.flags.cache then .mallocBufs else .initBufferData]
      (InTrial x side lost sizes b k k 0 0 0) := by
  refine .call sized_stable (waiting_stable hfit) (fun s _ => ?_) fun s s' ⟨h, hb⟩ hstep => ?_
  · split_ifs <;> exact trivial
  obtain ⟨-, a, hbase, hrun⟩ := hstep
  subst hb
  cases hc : x.flags.cache with
  | true =>
    rw [hc, if_pos rfl] at hrun
    rw [hc] at hfit
    obtain rfl := Option.some.inj hrun
    have hwin := swapping_mallocBufs (l := x.layout) (b := s.buflen) hbase a.dsr s.ptrs.ptrs
    refine BetweenTests.inTrial ⟨h.inbox, h.sent, h.received, h.stag, h.rtag, h.posted, h.landed,
      fun hf => absurd (hc.symm.trans hf) nofun⟩ rfl (by rw [hc]; exact hwin) rfl
      fun w hw i hi _ => ?_
    rw [hc] at hw
    exact if_pos (hwin.slot_mem hfit hw hi)
  | false =>
    rw [hc, if_neg Bool.false_ne_true] at hrun
    rw [hc] at hfit
    obtain rfl := Option.some.inj hrun
    have hwin := walking_initBufferData (h.pool hc) hfit
    refine BetweenTests.inTrial ⟨h.inbox, h.sent, h.received, h.stag, h.rtag, h.posted, h.landed,
      fun _ => hwin.pool⟩ rfl (by rw [hc]; exact hwin) rfl fun w hw i _ hcl => ?_
    rw [hc] at hw
    exact if_pos ⟨hwin.slot_mem hfit hw i, hcl.resolve_left fun ht => nomatch hc.symm.trans ht⟩

/-- After its trials a test has sent and received all of its messages. -/
lemma InTrial.betweenTests (h : InTrial x side lost sizes b start k 0 0 0 s) :
    BetweenTests x side sizes k s := by
  have hidle : ∀ i, s.landed i = false := fun i =>
    Bool.eq_false_of_not_eq_true fun hi => Nat.lt_irrefl _ (h.landed i hi).1
  refine ⟨h.inbox, h.sent, h.received, ?_, ?_, h.posted.trans (if_neg (Nat.lt_irrefl _)), hidle,
    fun hc => ?_⟩
  · rw [h.stag, h.sent]
  · rw [h.rtag, h.received]
  · have hwin := h.windows
    rw [hc] at hwin
    exact Walking.pool hwin

/-- One test. -/
lemma test_calls_buffers (hburst : x.flags.burst = false) (t : Test)
    (hfit : Fits x.flags.cache x.layout t.buflen) (npairs ntrials : ℕ)
    (hsizes : ∀ i < ntrials * t.nrepeat, sizes[k + i]? = some t.buflen) :
    Triple (bufMachine x side lost sizes) (BetweenTests x side sizes k)
      (testCalls x.flags npairs ntrials side t.buflen t.nrepeat)
      (BetweenTests x side sizes (k + ntrials * t.nrepeat)) := by
  have htrials : Triple (bufMachine x side lost sizes)
      (InTrial x side lost sizes t.buflen k k 0 0 0)
      ((List.range ntrials).flatMap fun _ => trial x.flags npairs side t.nrepeat)
      (InTrial x side lost sizes t.buflen k (k + ntrials * t.nrepeat) 0 0 0) := by
    have hloop := Triple.range (m := bufMachine x side lost sizes)
      (I := fun j => InTrial x side lost sizes t.buflen k (k + j * t.nrepeat) 0 0 0) (n := ntrials)
      (waiting_stable hfit) fun j hj => by
        rw [Nat.succ_mul, ← Nat.add_assoc]
        refine trial_buffers hburst hfit t.buflen_pos t.nrepeat_pos (fun i hi => ?_) npairs
        rw [Nat.add_assoc]
        refine hsizes _ (lt_of_lt_of_le (Nat.add_lt_add_left hi _) ?_)
        rw [← Nat.succ_mul]
        exact Nat.mul_le_mul_right _ hj
    rwa [Nat.zero_mul, Nat.add_zero] at hloop
  have hidle : ∀ cs : List Call, (∀ c ∈ cs, c.idle = true) →
      Triple (bufMachine x side lost sizes)
        (InTrial x side lost sizes t.buflen k (k + ntrials * t.nrepeat) 0 0 0) cs
        (InTrial x side lost sizes t.buflen k (k + ntrials * t.nrepeat) 0 0 0) := by
    intro cs hcs
    induction cs with
    | nil => exact .nil (waiting_stable hfit)
    | cons c cs ih =>
      exact .cons (idle_triple (hcs c List.mem_cons_self) (waiting_stable hfit))
        (ih fun d hd => hcs d (List.mem_cons_of_mem c hd))
  have hend : ∀ c ∈ gathers x.flags ++ (if x.flags.cache then [Call.freeBufs] else []),
      c.idle = true := by
    intro c hc
    rw [gathers] at hc
    split_ifs at hc <;> simp at hc <;> rcases hc with rfl | rfl <;> rfl
  have hall := (test_buffers.cons (start_buffers hfit)).append (htrials.append (hidle _ hend))
  rw [testCalls, List.append_assoc, List.append_assoc]
  exact hall.weaken (fun _ h => h) fun _ h => InTrial.betweenTests h

/-- Every call of a run meets its contract. -/
theorem run_buffers (hburst : x.flags.burst = false) (npairs ntrials : ℕ) (tests : List Test)
    (hfit : ∀ t ∈ tests, Fits x.flags.cache x.layout t.buflen) (pre : List ℕ) :
    Triple (bufMachine x side lost (pre ++ runSizes ntrials tests))
      (BetweenTests x side (pre ++ runSizes ntrials tests) pre.length)
      (runCalls x.flags npairs ntrials side tests) fun _ => True := by
  induction tests generalizing pre with
  | nil => exact (Triple.nil betweenTests_stable).weaken (fun _ h => h) fun _ _ => trivial
  | cons t tests ih =>
    have hsplit : pre ++ runSizes ntrials (t :: tests) =
        (pre ++ List.replicate (ntrials * t.nrepeat) t.buflen) ++ runSizes ntrials tests := by
      rw [runSizes, List.flatMap_cons, List.append_assoc]
      rfl
    have hsizes : ∀ i < ntrials * t.nrepeat,
        (pre ++ runSizes ntrials (t :: tests))[pre.length + i]? = some t.buflen := by
      intro i hi
      rw [List.getElem?_append_right (Nat.le_add_right _ _), Nat.add_sub_cancel_left, runSizes,
        List.flatMap_cons, List.getElem?_append_left (by rwa [List.length_replicate]),
        List.getElem?_replicate_of_lt hi]
    have hrest := ih (fun u hu => hfit u (List.mem_cons_of_mem t hu))
      (pre ++ List.replicate (ntrials * t.nrepeat) t.buflen)
    rw [← hsplit, List.length_append, List.length_replicate] at hrest
    exact (test_calls_buffers hburst t (hfit t List.mem_cons_self) npairs ntrials hsizes).append hrest

end

/-! ### Two processes -/

/-- A process before the first test. In nocache mode the pool is already allocated. -/
def BufState.init (x : BufArgs) (a : Pools) (mem : ℤ → ℤ) : BufState where
  ptrs := ⟨if x.flags.cache then Ptrs.null else
    mallocBufs x.layout memsize a.base a.dsr Ptrs.null, 0, 0, 0⟩
  mem := if x.flags.cache then mem else
    BufState.memset mem a.base (-1) (2 * halfSize x.layout memsize)
  stag := 0
  rtag := 0
  failures := 0
  posted := none
  landed _ := false
  inbox := []
  sent := 0
  received := 0
  window := 0
  log := []

lemma betweenTests_init (x : BufArgs) (side : Side) (sizes : List ℕ) (a : Pools) (mem : ℤ → ℤ) :
    BetweenTests x side sizes 0 (BufState.init x a mem) := by
  refine ⟨fun i m (hi : none = some m) => (nomatch hi), (ite_self 0).symm, (ite_self 0).symm, rfl, rfl, rfl,
    fun _ => rfl, fun hc => ?_⟩
  have hptrs : (BufState.init x a mem).ptrs.ptrs =
      mallocBufs x.layout memsize a.base a.dsr Ptrs.null := by
    rw [BufState.init, hc]
    rfl
  rw [hptrs]
  exact poolPtrs_mallocBufs _ _ _ _

/-- Both processes with the calls they have left. -/
structure BufSystem where
  todo : Side → List Call
  buf : Side → BufState

/-- The messages a call sends. -/
def Call.outgoing (c : Call) (s : BufState) : List Message :=
  if c = .sendData then [s.outgoing] else []

namespace BufSystem

/-- A process has made a call. -/
def called (g : BufSystem) (side : Side) (c : Call) (cs : List Call) (s : BufState) :
    BufSystem where
  todo := Function.update g.todo side cs
  buf t := if t = side then s else
    { g.buf t with inbox := (g.buf t).inbox ++ c.outgoing (g.buf side) }

/-- A step of the system: a process makes its next call, or a byte is stored in the window a
process has posted. -/
inductive Step (x : BufArgs) (lost : Side → Loss) : BufSystem → BufSystem → Prop where
  | call (g : BufSystem) (side : Side) (c : Call) (cs : List Call) (s : BufState)
      (hc : g.todo side = c :: cs) (hs : c.Buffers x (lost side) (g.buf side) s) :
      Step x lost g (g.called side c cs s)
  | land (g : BufSystem) (side : Side) (w : ℤ) (m : Message) (i : ℕ)
      (hw : (g.buf side).posted = some w)
      (hm : (g.buf side).inbox[(g.buf side).received]? = some m) (hi : i < m.length)
      (hlost : lost side (g.buf side).received i = false) :
      Step x lost g { g with buf := Function.update g.buf side ((g.buf side).land w m i) }

/-- The start of a run: what the memory holds is arbitrary. -/
def init (x : BufArgs) (npairs ntrials : ℕ) (tests : List Test) (a : Side → Pools)
    (mem : Side → ℤ → ℤ) : BufSystem where
  todo side := runCalls x.flags npairs ntrials (side.loop x.flags) tests
  buf side := BufState.init x (a side) (mem side)

/-- The states of a run. -/
def Reach (x : BufArgs) (lost : Side → Loss) (npairs ntrials : ℕ) (tests : List Test)
    (g : BufSystem) : Prop :=
  ∃ a mem, ReflTransGen (Step x lost) (init x npairs ntrials tests a mem) g

/-- The invariant of a run. -/
structure Inv (x : BufArgs) (lost : Side → Loss) (sizes : List ℕ) (g : BufSystem) : Prop where
  safe : ∀ side, Safe (bufMachine x (side.loop x.flags) (lost side) sizes) (g.todo side)
    (fun _ => True) (g.buf side)
  inbox : ∀ side, (g.buf side.peer).inbox.length = (g.buf side).sent

section

variable {x : BufArgs} {lost : Side → Loss} {sizes : List ℕ} {g g' : BufSystem} {side : Side}

/-- A call changes neither the messages sent to the process nor, unless it sends, their number. -/
lemma buffers_sent {l : Loss} {c : Call} {s s' : BufState} (h : c.Buffers x l s s') :
    s'.inbox = s.inbox ∧ s'.sent = s.sent + (c.outgoing s).length := by
  obtain ⟨-, a, -, hrun⟩ := h
  simp only [Call.runBuffers, Option.map_eq_some_iff] at hrun
  obtain ⟨r, -, rfl⟩ := hrun
  cases c
  case recvData =>
    simp only [Call.effect, BufState.recvData]
    split <;> exact ⟨rfl, rfl⟩
  all_goals exact ⟨rfl, rfl⟩

lemma Inv.called (h : Inv x lost sizes g) {c : Call} {cs : List Call} {s : BufState}
    (hc : g.todo side = c :: cs) (hs : c.Buffers x (lost side) (g.buf side) s) :
    Inv x lost sizes (g.called side c cs s) := by
  have hrun := h.safe side
  rw [hc] at hrun
  obtain ⟨hinbox, hsent⟩ := buffers_sent hs
  refine ⟨fun t => ?_, fun t => ?_⟩
  · by_cases ht : t = side
    · subst ht
      simp only [BufSystem.called, Function.update_self, if_true]
      exact hrun.step hs
    · simp only [BufSystem.called, Function.update_of_ne ht, if_neg ht]
      obtain rfl : t = side.peer := by cases t <;> cases side <;> first | rfl | exact absurd rfl ht
      by_cases hsend : c = .sendData
      · subst hsend
        rw [Call.outgoing, if_pos rfl]
        refine (h.safe _).env (.arrive _ _ ?_)
        rw [h.inbox side]
        exact hrun.ok
      · rw [Call.outgoing, if_neg hsend, List.append_nil]
        exact h.safe _
  · have hpeer : t = side ∨ t = side.peer := by cases t <;> cases side <;> simp [Side.peer]
    have hne : side.peer ≠ side := by cases side <;> nofun
    rcases hpeer with rfl | rfl
    · simp only [BufSystem.called, if_neg hne, if_true, List.length_append]
      rw [hsent, h.inbox]
    · simp only [BufSystem.called, Side.peer_peer, if_neg hne, if_true]
      rw [hinbox]
      have hin := h.inbox side.peer
      rwa [Side.peer_peer] at hin

lemma Inv.land (h : Inv x lost sizes g) {w : ℤ} {m : Message} {i : ℕ}
    (hw : (g.buf side).posted = some w)
    (hm : (g.buf side).inbox[(g.buf side).received]? = some m) (hi : i < m.length)
    (hlost : lost side (g.buf side).received i = false) :
    Inv x lost sizes
      { g with buf := Function.update g.buf side ((g.buf side).land w m i) } := by
  have hsame : ∀ t, (Function.update g.buf side ((g.buf side).land w m i) t).inbox =
        (g.buf t).inbox ∧
      (Function.update g.buf side ((g.buf side).land w m i) t).sent = (g.buf t).sent :=
    (Function.forall_update_iff _ fun t (s : BufState) =>
      s.inbox = (g.buf t).inbox ∧ s.sent = (g.buf t).sent).mpr ⟨⟨rfl, rfl⟩, fun _ _ => ⟨rfl, rfl⟩⟩
  refine ⟨?_, fun t => ?_⟩
  · exact (Function.forall_update_iff _ fun t s => Safe _ (g.todo t) (fun _ => True) s).mpr
      ⟨(h.safe side).env (.land _ w m i hw hm hi hlost), fun t _ => h.safe t⟩
  · rw [(hsame _).1, (hsame _).2]
    exact h.inbox t

/-- The invariant holds in every run without bursts. -/
lemma Reach.inv (hburst : x.flags.burst = false) {npairs ntrials : ℕ} {tests : List Test}
    (hfit : ∀ t ∈ tests, Fits x.flags.cache x.layout t.buflen)
    (h : Reach x lost npairs ntrials tests g) : Inv x lost (runSizes ntrials tests) g := by
  obtain ⟨a, mem, hrun⟩ := h
  induction hrun with
  | refl =>
    refine ⟨fun side => ?_, fun side => rfl⟩
    exact run_buffers hburst npairs ntrials tests hfit [] _ (betweenTests_init _ _ _ _ _)
  | tail _ hstep ih =>
    cases hstep with
    | call side c cs s hc hs => exact ih.called hc hs
    | land side w m i hw hm hi hlost => exact ih.land hw hm hi hlost

/-- The contract of the check in any state of a run. -/
lemma Reach.checkOk (hburst : x.flags.burst = false) {npairs ntrials : ℕ} {tests : List Test}
    (hfit : ∀ t ∈ tests, Fits x.flags.cache x.layout t.buflen)
    (h : Reach x lost npairs ntrials tests g) {cs : List Call}
    (hc : g.todo side = .checkBufferData :: cs) :
    CheckOk x (side.loop x.flags) (lost side) (g.buf side) := by
  have hrun := (h.inv hburst hfit).safe side
  rw [hc] at hrun
  exact hrun.ok

end

/-! ### Playing a schedule -/

end BufSystem

end NetPipe
