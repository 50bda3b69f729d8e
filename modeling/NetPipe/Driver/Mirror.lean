import NetPipe.Driver.Burst

/-!
# The remote pointer mirror

With remote buffers each process keeps, next to its own windows `s_ptr` and `r_ptr`, the windows
`ds_ptr` and `dr_ptr` it believes its peer to use. In a ping-pong test the two processes move
their pointers alternately, once per message.
-/

namespace NetPipe

/-! ### The motion of one message -/

/-- `AdvancePtrs` as called after `SendData` (`sends`) or after `RecvData`. Neither call passes a
`NULL`, so the default is never used. -/
def Ptrs.afterMessage (cache : Bool) (l : Layout) (size : ℤ) (sends : Bool) (p : Ptrs) : Ptrs :=
  if sends then
    (advancePtrs cache l size .ds_ptr .dr_ptr (some .s_ptr) .dr_ptr p).getD p
  else (advancePtrs cache l size .s_ptr .r_ptr (some .ds_ptr) .r_ptr p).getD p

/-- The calls of the timed loops that deal with one message in ping-pong mode. -/
def sendCalls (f : Flags) (post : Bool) : List Call :=
  (if post && f.async then [.prepostRecv] else []) ++ [.setupBufferData, .sendData, advanceSent]

def recvCalls (f : Flags) : List Call :=
  (if f.workload then [.doWork] else []) ++ [.recvData, .checkBufferData, advanceReceived]

/-- A flag set of ping-pong mode. -/
def Flags.PingPong (f : Flags) : Prop := f.burst = false ∧ f.stream = false ∧ f.bidir = false

lemma transmitterRepeat_pingPong {f : Flags} (h : f.PingPong) :
    transmitterRepeat f = sendCalls f true ++ recvCalls f := by
  simp [transmitterRepeat, sendCalls, recvCalls, h.1, h.2.1]

lemma receiverRepeat_pingPong {f : Flags} (h : f.PingPong) (n j : ℕ) :
    receiverRepeat f n j = recvCalls f ++ sendCalls f (decide (j < n - 1)) := by
  simp [receiverRepeat, sendCalls, recvCalls, h.1, h.2.1, Bool.and_comm]

section

variable {f : Flags} {l : Layout} {a : Pools} (s : PtrState)

lemma runPtrs_sendCalls (post : Bool) :
    runPtrs f.cache l a (sendCalls f post) s =
      some ({ s with ptrs := s.ptrs.afterMessage f.cache l s.buflen true },
        (if post && f.async then [.posted s.ptrs.r_ptr] else []) ++
          [.sent s.ptrs.s_ptr s.ptrs.dr_ptr]) := by
  cases post <;> cases ha : f.async <;> cases hc : f.cache <;>
    simp [sendCalls, ha, runPtrs, Call.runPtrs, advanceSent, Ptrs.afterMessage, advancePtrs]

lemma runPtrs_recvCalls :
    runPtrs f.cache l a (recvCalls f) s =
      some ({ s with ptrs := s.ptrs.afterMessage f.cache l s.buflen false },
        [.received s.ptrs.r_ptr, .checked s.ptrs.r_ptr]) := by
  cases hw : f.workload <;> cases hc : f.cache <;>
    simp [recvCalls, hw, runPtrs, Call.runPtrs, advanceReceived, Ptrs.afterMessage, advancePtrs]

end

/-! ### Boundaries -/

/-- The pointers of both processes between two messages. -/
structure Boundary where
  transmitter : Ptrs
  receiver : Ptrs

namespace Boundary

/-- The pointers of one side. -/
def proc (x : Boundary) : Side → Ptrs
  | .transmitter => x.transmitter
  | .receiver => x.receiver

/-- The boundary after message `m`: the transmitter sends the even messages. -/
def next (cache : Bool) (l : Layout) (size : ℤ) (m : ℕ) (x : Boundary) : Boundary where
  transmitter := x.transmitter.afterMessage cache l size (m % 2 == 0)
  receiver := x.receiver.afterMessage cache l size (m % 2 == 1)

/-- The boundary before message `m` of a test that starts at `x`. -/
def after (cache : Bool) (l : Layout) (size : ℤ) (x : Boundary) : ℕ → Boundary
  | 0 => x
  | m + 1 => (after cache l size x m).next cache l size m

/-- The start of a test. In cache mode both processes allocate new pools, the transmitter at `A`
and the receiver at `B`; in nocache mode they go back to the start of their pools. -/
def start (cache : Bool) (l : Layout) (size A B : ℤ) (x : Boundary) : Boundary :=
  if cache then
    ⟨mallocBufs l (2 * size) A B x.transmitter, mallocBufs l (2 * size) B A x.receiver⟩
  else ⟨initBufferData l x.transmitter, initBufferData l x.receiver⟩

/-- Where message `m` is put, and where its receiver waits for it. -/
def sentTo (m : ℕ) (x : Boundary) : ℤ :=
  if m % 2 = 0 then x.transmitter.dr_ptr else x.receiver.dr_ptr

def awaited (m : ℕ) (x : Boundary) : ℤ :=
  if m % 2 = 0 then x.receiver.r_ptr else x.transmitter.r_ptr

/-- Each side's remote windows have the offsets of the peer's local windows. -/
def Mirrored (x : Boundary) : Prop :=
  (x.transmitter.ds_ptr - x.transmitter.dsr_buf = x.receiver.s_ptr - x.receiver.sr_buf ∧
    x.transmitter.dr_ptr - x.transmitter.dsr_buf = x.receiver.r_ptr - x.receiver.sr_buf) ∧
  x.receiver.ds_ptr - x.receiver.dsr_buf = x.transmitter.s_ptr - x.transmitter.sr_buf ∧
    x.receiver.dr_ptr - x.receiver.dsr_buf = x.transmitter.r_ptr - x.transmitter.sr_buf

instance (x : Boundary) : Decidable x.Mirrored := inferInstanceAs (Decidable (_ ∧ _))

end Boundary

/-! ### The trial loops pass through the boundaries -/

/-- The calls of the `j`-th pass of either loop. -/
def passCalls (f : Flags) (nrepeat : ℕ) : Side → ℕ → List Call
  | .transmitter, _ => transmitterRepeat f
  | .receiver, j => receiverRepeat f nrepeat j

/-- The windows of the `j`-th pass, where `p` and `q` are the pointers of this side before the two
messages of the pass. -/
def passWindows (f : Flags) (nrepeat : ℕ) (side : Side) (j : ℕ) (p q : Ptrs) : List Window :=
  match side with
  | .transmitter => (if f.async then [.posted p.r_ptr] else []) ++
    [.sent p.s_ptr p.dr_ptr, .received q.r_ptr, .checked q.r_ptr]
  | .receiver => [.received p.r_ptr, .checked p.r_ptr] ++
    (if j < nrepeat - 1 && f.async then [.posted q.r_ptr] else []) ++ [.sent q.s_ptr q.dr_ptr]

/-- The windows of a trial that starts before message `2 * k` of a test started at `x`. -/
def trialWindows (f : Flags) (l : Layout) (size : ℤ) (nrepeat : ℕ) (side : Side) (x : Boundary)
    (k : ℕ) : List Window :=
  (match side with
    | .transmitter => []
    | .receiver =>
      if f.async then [.posted ((x.after f.cache l size (2 * k)).proc side).r_ptr] else []) ++
  (List.range nrepeat).flatMap fun j =>
    passWindows f nrepeat side j ((x.after f.cache l size (2 * (k + j))).proc side)
      ((x.after f.cache l size (2 * (k + j) + 1)).proc side)

/-- The pools as either side sees them. -/
def sidePools (side : Side) (A B : ℤ) : Pools :=
  match side with
  | .transmitter => ⟨A, B⟩
  | .receiver => ⟨B, A⟩

section

variable {f : Flags} (h : f.PingPong) (l : Layout) (a : Pools) (nrepeat : ℕ) (side : Side)
include h

/-- One pass moves the pointers by two messages. -/
lemma runPtrs_pass (x : Boundary) (s : PtrState) (k j : ℕ)
    (hs : s.ptrs = (x.after f.cache l s.buflen (2 * k)).proc side) :
    runPtrs f.cache l a (passCalls f nrepeat side j) s =
      some ({ s with ptrs := (x.after f.cache l s.buflen (2 * (k + 1))).proc side },
        passWindows f nrepeat side j ((x.after f.cache l s.buflen (2 * k)).proc side)
          ((x.after f.cache l s.buflen (2 * k + 1)).proc side)) := by
  have heven : 2 * k % 2 = 0 := Nat.mul_mod_right 2 k
  have hodd : (2 * k + 1) % 2 = 1 := by rw [Nat.mul_add_mod]
  cases side with
  | transmitter =>
    have hrun := runPtrs_append (runPtrs_sendCalls (f := f) (l := l) (a := a) s true)
      (runPtrs_recvCalls _)
    rw [← transmitterRepeat_pingPong h] at hrun
    rw [passCalls, hrun, hs]
    simp [passWindows, Boundary.proc, Boundary.after, Boundary.next, Nat.mul_succ, heven, hodd]
  | receiver =>
    have hrun := runPtrs_append (runPtrs_recvCalls (f := f) (l := l) (a := a) s)
      (runPtrs_sendCalls _ (decide (j < nrepeat - 1)))
    rw [← receiverRepeat_pingPong h] at hrun
    rw [passCalls, hrun, hs]
    simp [passWindows, Boundary.proc, Boundary.after, Boundary.next, Nat.mul_succ, heven, hodd]

/-- A whole trial moves the pointers by `2 * nrepeat` messages. -/
lemma runPtrs_trial (npairs : ℕ) (x : Boundary) (s : PtrState) (k : ℕ)
    (hs : s.ptrs = (x.after f.cache l s.buflen (2 * k)).proc side) :
    runPtrs f.cache l a (trial f npairs side nrepeat) s =
      some ({ s with ptrs := (x.after f.cache l s.buflen (2 * (k + nrepeat))).proc side },
        trialWindows f l s.buflen nrepeat side x k) := by
  let fs : ℕ → PtrState := fun j =>
    { s with ptrs := (x.after f.cache l s.buflen (2 * (k + j))).proc side }
  have hfs : fs 0 = s := by
    simp only [fs, Nat.add_zero, ← hs]
  have hloop := runPtrs_range fun j (_ : j < nrepeat) =>
    runPtrs_pass h l a nrepeat side x (fs j) (k + j) j rfl
  rw [hfs] at hloop
  cases side with
  | transmitter =>
    have hpre : runPtrs f.cache l a ((if !f.cache then [Call.flushcache] else []) ++ [.sync]) s =
        some (s, []) := by
      split_ifs <;> rfl
    have hpost : runPtrs f.cache l a ((if npairs > 1 then [Call.sync] else []) ++ [.reset])
        (fs nrepeat) = some (fs nrepeat, []) := by
      split_ifs <;> rfl
    have hall := runPtrs_append hpre (runPtrs_append hloop hpost)
    rw [List.nil_append, List.append_nil] at hall
    simp only [trial, transmitterTrial, h.1, Bool.false_and, Bool.false_eq_true, if_false,
      List.nil_append, List.append_assoc] at hall ⊢
    exact hall
  | receiver =>
    have hpre : runPtrs f.cache l a ((if f.async then [Call.prepostRecv] else []) ++
        ((if !f.cache then [Call.flushcache] else []) ++ [.sync])) s =
        some (s, if f.async then [.posted s.ptrs.r_ptr] else []) := by
      split_ifs <;> rfl
    have hpost : runPtrs f.cache l a [.reset] (fs nrepeat) = some (fs nrepeat, []) := rfl
    have hall := runPtrs_append hpre (runPtrs_append hloop hpost)
    rw [List.append_nil, hs] at hall
    simp only [trial, receiverTrial, receiverPrepost, h.1, Bool.false_eq_true, if_false,
      List.append_assoc] at hall ⊢
    exact hall

/-- A whole test moves the pointers by all its messages, from the start of the test. -/
theorem runPtrs_testCalls (npairs ntrials buflen : ℕ) (A B : ℤ) (x : Boundary) (s : PtrState)
    (hs : s.ptrs = x.proc side) :
    runPtrs f.cache l (sidePools side A B) (testCalls f npairs ntrials side buflen nrepeat) s =
      some ({ s with
          buflen := buflen
          ptrs := ((x.start f.cache l buflen A B).after f.cache l buflen
            (2 * (ntrials * nrepeat))).proc side },
        (List.range ntrials).flatMap fun i => trialWindows f l buflen nrepeat side
          (x.start f.cache l buflen A B) (i * nrepeat)) := by
  set y := x.start f.cache l buflen A B with hy
  let fs : ℕ → PtrState := fun i =>
    { s with
      buflen := buflen
      ptrs := (y.after f.cache l buflen (2 * (i * nrepeat))).proc side }
  have hpre : runPtrs f.cache l (sidePools side A B)
      [.test buflen, if f.cache then .mallocBufs else .initBufferData] s = some (fs 0, []) := by
    have hstart : (fs 0).ptrs = y.proc side := by
      simp only [fs, Nat.zero_mul, Nat.mul_zero, Boundary.after]
    cases side <;> cases hc : f.cache <;>
      simp [runPtrs, Call.runPtrs, fs, hc, hs, hy, Boundary.after, Boundary.start, Boundary.proc,
        sidePools]
  have hloop := runPtrs_range fun i (_ : i < ntrials) => show
      runPtrs f.cache l (sidePools side A B) (trial f npairs side nrepeat) (fs i) =
        some (fs (i + 1), trialWindows f l buflen nrepeat side y (i * nrepeat)) by
    rw [runPtrs_trial h l _ nrepeat side npairs y (fs i) (i * nrepeat) rfl]
    simp only [fs, Nat.succ_mul]
  have hpost : runPtrs f.cache l (sidePools side A B)
      (gathers f ++ if f.cache then [.freeBufs] else []) (fs ntrials) = some (fs ntrials, []) := by
    unfold gathers
    split_ifs <;> rfl
  have hall := runPtrs_append hpre (runPtrs_append hloop hpost)
  rw [List.nil_append, List.append_nil] at hall
  simpa only [testCalls, List.append_assoc] using hall

end

/-! ### The mirror -/

/-- The motion of `ds_ptr` is that of the peer's `s_ptr`: the pools lie at the same address, or
there is room to walk on (also below the limit used when `ds_ptr` happens to equal `s_ptr`), so
that the reset to the local `s_buf` is not taken. -/
def RemoteSendOk (bs : ℤ) (p : Ptrs) : Prop :=
  (p.ds_ptr = p.s_ptr ∨ p.ds_ptr ≠ 0) ∧
    (p.ds_buf = p.s_buf ∨
      p.ds_ptr + 2 * bs < p.dr_buf ∧ (p.ds_ptr = p.s_ptr → p.ds_ptr + 2 * bs < p.r_buf))

/-- The motion of `dr_ptr` is that of the peer's `r_ptr`: the pools lie at the same address, or
`dr_ptr` is not taken for the local `r_ptr`, or there is room below both limits. -/
def RemoteRecvOk (bs : ℤ) (p : Ptrs) : Prop :=
  (p.dr_ptr = p.r_ptr ∨ p.dr_ptr ≠ 0) ∧
    (p.dsr_buf = p.sr_buf ∨ p.dr_ptr ≠ p.r_ptr ∨
      p.dr_ptr + 2 * bs < p.sr_buf + memsize ∧ p.dr_ptr + 2 * bs < p.dsr_buf + memsize)

/-- Both `AdvancePtrs` calls of message `m` follow the peer's. -/
def Boundary.MessageOk (cache : Bool) (size : ℤ) (m : ℕ) (x : Boundary) : Prop :=
  cache = true ∨
    if m % 2 = 0 then
      RemoteRecvOk (blocksize size) x.transmitter ∧ RemoteSendOk (blocksize size) x.receiver
    else RemoteRecvOk (blocksize size) x.receiver ∧ RemoteSendOk (blocksize size) x.transmitter

/-- The pool of a process is at `base`, that of its peer at `dsr`, with halves of `nbytes`. -/
structure Bufs (nbytes base dsr : ℤ) (p : Ptrs) : Prop where
  sr_buf : p.sr_buf = base
  s_buf : p.s_buf = base
  r_buf : p.r_buf = base + nbytes
  dsr_buf : p.dsr_buf = dsr
  ds_buf : p.ds_buf = dsr
  dr_buf : p.dr_buf = dsr + nbytes

/-- `p` has the windows of `q` as its remote windows. -/
def Knows (p q : Ptrs) : Prop := p.ds_ptr = q.s_ptr ∧ p.dr_ptr = q.r_ptr

section

variable {nbytes A B : ℤ} {p q : Ptrs} {l : Layout} {size : ℤ}

lemma Bufs.set (h : Bufs nbytes A B p) (v : PtrVar) (x : ℤ) : Bufs nbytes A B (p.set v x) := by
  obtain ⟨h₁, h₂, h₃, h₄, h₅, h₆⟩ := h
  constructor <;> simpa

lemma Bufs.mallocBufs (hm : l.memcpy = false) (hB : B ≠ 0) (p : Ptrs) :
    Bufs (halfSize l size) A B (mallocBufs l size A B p) := by
  constructor <;> simp [NetPipe.mallocBufs, hm, hB]

/-- In cache mode each message swaps one of the two pairs of windows. -/
lemma afterMessage_cache (sends : Bool) (p : Ptrs) :
    p.afterMessage true l size sends = if sends then p.swapRemote else p.swapLocal := by
  cases sends with
  | true => simp only [Ptrs.afterMessage, if_true, advancePtrs_cache_remote, Option.getD_some]
  | false =>
    simp only [Ptrs.afterMessage, Bool.false_eq_true, if_false, advancePtrs_cache_local,
      Option.getD_some]

lemma walk_of_room {bs limit base cur : ℤ} (h : cur + 2 * bs < limit) :
    walk bs limit base cur = cur + bs :=
  if_pos h

/-- The receive half of `AdvancePtrs` follows the peer. -/
lemma advanceRecv_dr_ptr {bs : ℤ} (h : Bufs nbytes A B p) (hok : RemoteRecvOk bs p) :
    advanceRecv l bs .dr_ptr p =
      p.set .dr_ptr (walk bs (B + memsize) (B + nbytes + l.roffset) p.dr_ptr) := by
  obtain ⟨hne, hroom⟩ := hok
  rw [h.dsr_buf, h.sr_buf] at hroom
  simp only [advanceRecv, Ptrs.get_dr_ptr, h.sr_buf, h.r_buf, h.dsr_buf, h.dr_buf, true_and]
  split_ifs with heq hnz
  · -- `dr_ptr` is taken for `r_ptr`
    rcases hroom with rfl | hroom | ⟨hlocal, hremote⟩
    · rfl
    · exact absurd heq hroom
    · rw [walk_of_room hlocal, walk_of_room hremote]
  · rfl
  · exact absurd (hne.resolve_left heq) hnz

/-- The send half of `AdvancePtrs` follows the peer. -/
lemma advanceSend_ds_ptr {bs : ℤ} (h : Bufs nbytes A B p) (hok : RemoteSendOk bs p) :
    advanceSend l bs .ds_ptr p =
      p.set .ds_ptr (walk bs (B + nbytes) (B + l.soffset) p.ds_ptr) := by
  obtain ⟨hne, hroom⟩ := hok
  rw [h.ds_buf, h.s_buf, h.dr_buf, h.r_buf] at hroom
  simp only [advanceSend, Ptrs.get_ds_ptr, h.s_buf, h.r_buf, h.dr_buf, true_and]
  split_ifs with heq hnz
  · -- `ds_ptr` is taken for `s_ptr`
    rcases hroom with rfl | ⟨hremote, hlocal⟩
    · rfl
    · rw [walk_of_room (hlocal heq), walk_of_room hremote]
  · rcases hroom with rfl | ⟨hremote, -⟩
    · rfl
    · rw [walk_of_room hremote, walk_of_room hremote]
  · exact absurd (hne.resolve_left heq) hnz

/-- The sender of a message in nocache mode, when it follows its peer. -/
lemma afterMessage_sender (h : Bufs nbytes A B p) (hok : RemoteRecvOk (blocksize size) p) :
    p.afterMessage false l size true =
      (p.set .s_ptr (walk (blocksize size) (A + nbytes) (A + l.soffset) p.s_ptr)).set .dr_ptr
        (walk (blocksize size) (B + memsize) (B + nbytes + l.roffset) p.dr_ptr) := by
  have hrecv := advanceRecv_dr_ptr (l := l)
    (h.set .s_ptr (walk (blocksize size) (A + nbytes) (A + l.soffset) p.s_ptr)) hok
  simp only [Ptrs.afterMessage, advancePtrs, if_true, Bool.false_eq_true, if_false,
    Option.map_some, Option.getD_some, advanceSend_s_ptr, h.r_buf, h.s_buf]
  exact hrecv

/-- The receiver of a message in nocache mode, when it follows its peer. -/
lemma afterMessage_receiver (h : Bufs nbytes A B p) (hok : RemoteSendOk (blocksize size) p) :
    p.afterMessage false l size false =
      (p.set .ds_ptr (walk (blocksize size) (B + nbytes) (B + l.soffset) p.ds_ptr)).set .r_ptr
        (walk (blocksize size) (A + memsize) (A + nbytes + l.roffset) p.r_ptr) := by
  simp only [Ptrs.afterMessage, advancePtrs, Bool.false_eq_true, if_false, Option.map_some,
    Option.getD_some, advanceSend_ds_ptr h hok, advanceRecv_r_ptr, Ptrs.set_sr_buf,
    Ptrs.set_r_buf, h.sr_buf, h.r_buf]
  rfl

lemma Bufs.afterMessage (h : Bufs nbytes A B p) (cache sends : Bool) :
    Bufs nbytes A B (p.afterMessage cache l size sends) := by
  cases cache with
  | true =>
    rw [afterMessage_cache]
    unfold Ptrs.swapRemote Ptrs.swapLocal
    split_ifs
    · exact (h.set .ds_ptr p.dr_ptr).set .dr_ptr p.ds_ptr
    · exact h
    · exact (h.set .s_ptr p.r_ptr).set .r_ptr p.s_ptr
    · exact h
  | false =>
    cases sends with
    | true =>
      obtain ⟨x, hx⟩ := advanceSend_eq_set l (blocksize size) .s_ptr p
      obtain ⟨y, hy⟩ := advanceRecv_eq_set l (blocksize size) .dr_ptr (p.set .s_ptr x)
      have hset : p.afterMessage false l size true = (p.set .s_ptr x).set .dr_ptr y := by
        rw [← hy, ← hx]
        rfl
      rw [hset]
      exact (h.set _ _).set _ _
    | false =>
      obtain ⟨x, hx⟩ := advanceSend_eq_set l (blocksize size) .ds_ptr p
      obtain ⟨y, hy⟩ := advanceRecv_eq_set l (blocksize size) .r_ptr (p.set .ds_ptr x)
      have hset : p.afterMessage false l size false = (p.set .ds_ptr x).set .r_ptr y := by
        rw [← hy, ← hx]
        rfl
      rw [hset]
      exact (h.set _ _).set _ _

/-- One message from `p` to `q` keeps the remote windows of both right. -/
lemma Knows.message {cache : Bool} (hp : Bufs nbytes A B p) (hq : Bufs nbytes B A q)
    (hpq : Knows p q) (hqp : Knows q p)
    (hok : cache = true ∨ RemoteRecvOk (blocksize size) p ∧ RemoteSendOk (blocksize size) q) :
    Knows (p.afterMessage cache l size true) (q.afterMessage cache l size false) ∧
      Knows (q.afterMessage cache l size false) (p.afterMessage cache l size true) := by
  obtain ⟨hds, hdr⟩ := hpq
  obtain ⟨hds', hdr'⟩ := hqp
  cases cache with
  | true =>
    rw [afterMessage_cache, afterMessage_cache, if_pos rfl, if_neg Bool.false_ne_true]
    unfold Ptrs.swapRemote Ptrs.swapLocal Knows
    rw [hds, hdr]
    split_ifs
    · exact ⟨⟨rfl, rfl⟩, hds', hdr'⟩
    · exact ⟨⟨hds, hdr⟩, hds', hdr'⟩
  | false =>
    obtain ⟨hrecv, hsend⟩ := hok.resolve_left Bool.false_ne_true
    rw [afterMessage_sender hp hrecv, afterMessage_receiver hq hsend]
    refine ⟨⟨hds, ?_⟩, ?_, hdr'⟩
    · show walk _ _ _ p.dr_ptr = walk _ _ _ q.r_ptr
      rw [hdr]
    · show walk _ _ _ q.ds_ptr = walk _ _ _ p.s_ptr
      rw [hds']

end

/-! ### Runs -/

/-- What is known at every boundary of a run whose steps follow each other. -/
structure Boundary.Paired (x : Boundary) : Prop where
  bufs : ∃ nbytes A B, Bufs nbytes A B x.transmitter ∧ Bufs nbytes B A x.receiver
  transmitter : Knows x.transmitter x.receiver
  receiver : Knows x.receiver x.transmitter

/-- A run of ping-pong tests: the current size, the number of messages of the test so far and the
pointers. -/
structure MirrorState where
  size : ℤ
  m : ℕ
  procs : Boundary

/-- A step of a run: the next test starts, or the next message passes. -/
inductive MirrorStep (cache : Bool) (l : Layout) : MirrorState → MirrorState → Prop where
  | test (s : MirrorState) (size A B : ℤ) (hA : A ≠ 0) (hB : B ≠ 0) :
      MirrorStep cache l s ⟨size, 0, s.procs.start cache l size A B⟩
  | message (s : MirrorState) :
      MirrorStep cache l s ⟨s.size, s.m + 1, s.procs.next cache l s.size s.m⟩

/-- The state before the first test: in nocache mode the pools are allocated once, here. -/
def MirrorState.init (cache : Bool) (l : Layout) (A B : ℤ) : MirrorState :=
  ⟨0, 0, if cache then ⟨Ptrs.null, Ptrs.null⟩
    else ⟨mallocBufs l memsize A B Ptrs.null, mallocBufs l memsize B A Ptrs.null⟩⟩

/-- A step whose `AdvancePtrs` calls follow each other. -/
def FollowingStep (cache : Bool) (l : Layout) (s s' : MirrorState) : Prop :=
  MirrorStep cache l s s' ∧ (s'.m = s.m + 1 → s.procs.MessageOk cache s.size s.m)

namespace Boundary

variable {l : Layout} {cache : Bool} {x : Boundary}

lemma Paired.mirrored (h : x.Paired) : x.Mirrored := by
  obtain ⟨⟨nbytes, A, B, ht, hr⟩, htr, hrt⟩ := h
  unfold Mirrored
  rw [htr.1, htr.2, hrt.1, hrt.2, ht.sr_buf, ht.dsr_buf, hr.sr_buf, hr.dsr_buf]
  exact ⟨⟨rfl, rfl⟩, rfl, rfl⟩

lemma Paired.sentTo_eq (h : x.Paired) (m : ℕ) : x.sentTo m = x.awaited m := by
  unfold sentTo awaited
  rw [h.transmitter.2, h.receiver.2]

/-- Newly allocated pools are paired. -/
lemma paired_mallocBufs (hm : l.memcpy = false) {size A B : ℤ} (hA : A ≠ 0) (hB : B ≠ 0)
    (p q : Ptrs) : Paired ⟨mallocBufs l size A B p, mallocBufs l size B A q⟩ where
  bufs := ⟨_, A, B, Bufs.mallocBufs hm hB p, Bufs.mallocBufs hm hA q⟩
  transmitter := by simp [Knows, mallocBufs, hm, hA, hB]
  receiver := by simp [Knows, mallocBufs, hm, hA, hB]

/-- The start of a test pairs the windows again. -/
lemma Paired.start (hm : l.memcpy = false) {size A B : ℤ} (hA : A ≠ 0) (hB : B ≠ 0)
    (h : x.Paired) : (x.start cache l size A B).Paired := by
  cases cache with
  | true => exact paired_mallocBufs hm hA hB _ _
  | false =>
    obtain ⟨⟨nbytes, A', B', ht, hr⟩, -, -⟩ := h
    obtain ⟨ht₁, ht₂, ht₃, ht₄, ht₅, ht₆⟩ := ht
    obtain ⟨hr₁, hr₂, hr₃, hr₄, hr₅, hr₆⟩ := hr
    constructor
    · exact ⟨nbytes, A', B', ⟨ht₁, ht₂, ht₃, ht₄, ht₅, ht₆⟩, hr₁, hr₂, hr₃, hr₄, hr₅, hr₆⟩
    · simp [Boundary.start, Knows, initBufferData, ht₅, ht₆, hr₂, hr₃]
    · simp [Boundary.start, Knows, initBufferData, ht₂, ht₃, hr₅, hr₆]

/-- One message keeps the windows paired. -/
lemma Paired.next (h : x.Paired) {size : ℤ} {m : ℕ} (hok : x.MessageOk cache size m) :
    (x.next cache l size m).Paired := by
  obtain ⟨⟨nbytes, A, B, ht, hr⟩, htr, hrt⟩ := h
  have hbufs : ∃ nbytes A B, Bufs nbytes A B (x.next cache l size m).transmitter ∧
      Bufs nbytes B A (x.next cache l size m).receiver :=
    ⟨nbytes, A, B, ht.afterMessage _ _, hr.afterMessage _ _⟩
  rcases Nat.mod_two_eq_zero_or_one m with hpar | hpar
  · have hmsg := htr.message (l := l) ht hr hrt (by simpa [MessageOk, hpar] using hok)
    have hnext : x.next cache l size m = ⟨x.transmitter.afterMessage cache l size true,
        x.receiver.afterMessage cache l size false⟩ := by
      simp [Boundary.next, hpar]
    rw [hnext] at hbufs ⊢
    exact ⟨hbufs, hmsg.1, hmsg.2⟩
  · have hmsg := hrt.message (l := l) hr ht htr (by simpa [MessageOk, hpar] using hok)
    have hnext : x.next cache l size m = ⟨x.transmitter.afterMessage cache l size false,
        x.receiver.afterMessage cache l size true⟩ := by
      simp [Boundary.next, hpar]
    rw [hnext] at hbufs ⊢
    exact ⟨hbufs, hmsg.2, hmsg.1⟩

end Boundary

lemma paired_init {cache : Bool} {l : Layout} (hm : l.memcpy = false) {A B : ℤ} (hA : A ≠ 0)
    (hB : B ≠ 0) : (MirrorState.init cache l A B).procs.Paired := by
  cases cache with
  | true =>
    have hnull : Bufs 0 0 0 Ptrs.null := by constructor <;> rfl
    exact ⟨⟨0, 0, 0, hnull, hnull⟩, ⟨rfl, rfl⟩, rfl, rfl⟩
  | false => exact Boundary.paired_mallocBufs hm hA hB _ _

/-- In every run whose messages all follow each other, at every boundary each side's remote
windows have the offsets of the peer's local windows, and every message is put where the peer
waits for it. -/
theorem mirror_of_run (cache : Bool) {l : Layout} (hm : l.memcpy = false) {A B : ℤ} (hA : A ≠ 0)
    (hB : B ≠ 0) {s : MirrorState}
    (hrun : Relation.ReflTransGen (FollowingStep cache l) (MirrorState.init cache l A B) s) :
    s.procs.Mirrored ∧ s.procs.sentTo s.m = s.procs.awaited s.m := by
  have hpaired : s.procs.Paired := by
    induction hrun with
    | refl => exact paired_init hm hA hB
    | tail _ hstep ih =>
      obtain ⟨hstep, hok⟩ := hstep
      cases hstep with
      | test size A' B' hA' hB' => exact ih.start hm hA' hB'
      | message => exact ih.next (hok rfl)
  exact ⟨hpaired.mirrored, hpaired.sentTo_eq s.m⟩

/-- A module with remote buffers and no offsets. -/
def plainLayout : Layout := ⟨0, 0, 4096, false, by decide⟩

/-- The first boundaries of a nocache run with messages of 8 bytes. -/
theorem mirror_of_run_eight :
    let s : MirrorState := ⟨8, 1, ((MirrorState.init false plainLayout 4096 1000000000).procs.start
      false plainLayout 8 4096 1000000000).next false plainLayout 8 0⟩
    s.procs.Mirrored ∧ s.procs.sentTo s.m = s.procs.awaited s.m := by
  refine mirror_of_run false (l := plainLayout) rfl (A := 4096) (B := 1000000000)
    (by decide) (by decide) ?_
  refine .tail (.single ⟨.test _ 8 4096 1000000000 (by decide) (by decide), ?_⟩) ⟨.message _, ?_⟩
  · intro h
    cases h
  · intro _
    refine Or.inr ?_
    simp only [Nat.zero_mod, if_true, RemoteRecvOk, RemoteSendOk]
    decide

/-- With 60 MB messages the first wrap resets `ds_ptr` to the local pool. -/
theorem mirror_nocache_fails :
    ¬ ∀ s, Relation.ReflTransGen (MirrorStep false plainLayout)
        (MirrorState.init false plainLayout 4096 1000000000) s →
      s.procs.Mirrored ∧ s.procs.sentTo s.m = s.procs.awaited s.m := by
  intro h
  have hrun := Relation.ReflTransGen.tail (.single (.test
    (MirrorState.init false plainLayout 4096 1000000000) 60000000 4096 1000000000 (by decide)
    (by decide))) (@MirrorStep.message false plainLayout _)
  exact absurd (h _ hrun).1 (by decide)

end NetPipe
