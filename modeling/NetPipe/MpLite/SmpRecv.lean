import Mathlib.Tactic

/-!
# Receiving out of order from shared memory

`smp_recv` takes the headers of messages from the FIFO of its source and puts those it does not
accept in a queue, a ring of nodes with a sentinel at its head. Later calls search the queue before
they read the FIFO.
-/

namespace NetPipe.MpLite

/-- The nodes of the queue. -/
def MSG_Q_SIZE : ℕ := 20

/-- The header of a message in the pool, at its offset. -/
structure PoolEntry where
  offset : ℕ
  src : ℕ
  nbytes : ℤ
  tag : ℤ
  deriving DecidableEq, Repr

/-- What `smp_recv` asks for. A negative tag stands for any tag. -/
structure RecvMsg where
  src : ℕ
  nbytes : ℤ
  tag : ℤ
  deriving DecidableEq, Repr

/-- The contents of a node of the queue. -/
structure QHdr where
  src : ℕ
  nbytes : ℤ
  tag : ℤ
  entry : PoolEntry
  deriving DecidableEq, Repr

/-- The FIFOs with all that their senders put into them, the nodes of the queue, of which `head_q` is
number 0, the variables of `smp_recv`, and the entries it has marked as received. -/
structure RecvState where
  fifo : ℕ → List PoolEntry
  node : ℕ → Option QHdr
  next : ℕ → ℕ
  tail_q : ℕ
  n_buffered : ℕ
  received : List PoolEntry
  last_src : ℕ
  last_tag : ℤ
  last_size : ℤ

/-- How a call of `smp_recv` ends: it returns with a message, waits for ever in `FIFOread`, calls
`quitall`, or uses a pointer or a node that is not initialised or outside the ring. -/
inductive RecvOutcome where
  | returns (entry : PoolEntry) (s : RecvState)
  | waits
  | quits
  | invalid

/-- How the loop over the queue ends. -/
inductive SearchOutcome where
  | found (prev_hdr hdr : ℕ) (contents : QHdr)
  | notFound (hdr : ℕ)
  | invalid

/-- A message that a call takes from the FIFO of its source. -/
def RecvMsg.accepts (msg : RecvMsg) (entry : PoolEntry) : Bool :=
  entry.nbytes ≤ msg.nbytes ∧ (msg.tag < 0 ∨ entry.tag = msg.tag)

/-- A message that a call takes from the queue. -/
def RecvMsg.takes (msg : RecvMsg) (hdr : QHdr) : Bool :=
  hdr.nbytes ≤ msg.nbytes ∧ hdr.src = msg.src ∧ (msg.tag < 0 ∨ hdr.tag = msg.tag)

namespace RecvState

/-- After `init_smp`, with what the senders are going to put into the FIFOs. -/
def init (fifo : ℕ → List PoolEntry) : RecvState where
  fifo := fifo
  node := fun _ => none
  next := fun i => if i = MSG_Q_SIZE - 1 then 0 else i + 1
  tail_q := 0
  n_buffered := 0
  received := []
  last_src := 0
  last_tag := 0
  last_size := 0

/-- The loop over the queue, with `k` iterations to go. -/
def search (s : RecvState) (msg : RecvMsg) (prev_hdr hdr : ℕ) : ℕ → SearchOutcome
  | 0 => .notFound hdr
  | k + 1 =>
    if hdr < MSG_Q_SIZE then
      match s.node hdr with
      | none => .invalid
      | some contents =>
        if msg.takes contents then .found prev_hdr hdr contents
        else s.search msg hdr (s.next hdr) k
    else .invalid

/-- A node goes back to the free part of the ring. -/
def unlink (prev_hdr hdr : ℕ) (s : RecvState) : RecvState :=
  if hdr = s.tail_q then { s with tail_q := prev_hdr }
  else
    { s with
      next := Function.update (Function.update (Function.update s.next prev_hdr (s.next hdr)) hdr
        (s.next s.tail_q)) s.tail_q hdr }

/-- The message of a node is received. -/
def takeNode (prev_hdr hdr : ℕ) (contents : QHdr) (msg : RecvMsg) (s : RecvState) : RecvState :=
  { s.unlink prev_hdr hdr with
    n_buffered := s.n_buffered - 1
    received := contents.entry :: s.received
    last_src := msg.src
    last_tag := contents.tag
    last_size := contents.nbytes }

/-- The message of an entry from the FIFO is received. -/
def takeEntry (entry : PoolEntry) (entries : List PoolEntry) (msg : RecvMsg) (s : RecvState) :
    RecvState :=
  { s with
    fifo := Function.update s.fifo msg.src entries
    received := entry :: s.received
    last_src := msg.src
    last_tag := entry.tag
    last_size := entry.nbytes }

/-- The header of an entry is put in node `hdr`. -/
def skipEntry (hdr : ℕ) (entry : PoolEntry) (s : RecvState) : RecvState :=
  { s with
    tail_q := hdr
    node := Function.update s.node hdr (some ⟨entry.src, entry.nbytes, entry.tag, entry⟩)
    n_buffered := s.n_buffered + 1 }

/-- The loop that reads the FIFO. The variable `hdr` is not assigned in it. -/
def readFifo (msg : RecvMsg) (hdr : Option ℕ) : List PoolEntry → RecvState → RecvOutcome
  | [], _ => .waits
  | entry :: entries, s =>
    if msg.accepts entry then .returns entry (s.takeEntry entry entries msg)
    else if s.n_buffered = MSG_Q_SIZE then .quits
    else
      match hdr with
      | none => .invalid
      | some node =>
        if node < MSG_Q_SIZE then readFifo msg hdr entries (s.skipEntry node entry) else .invalid

/-- Receive a message. The first iteration of the search assigns `prev_hdr` and `hdr`. -/
def smp_recv (s : RecvState) (msg : RecvMsg) : RecvOutcome :=
  if s.n_buffered = 0 then readFifo msg none (s.fifo msg.src) s
  else
    match s.search msg 0 (s.next 0) s.n_buffered with
    | .found prev_hdr hdr contents =>
      .returns contents.entry (s.takeNode prev_hdr hdr contents msg)
    | .notFound hdr => readFifo msg (some hdr) (s.fifo msg.src) s
    | .invalid => .invalid

/-! ### What receiving is for -/

/-- The messages of each source that were not yet received, the earliest first. -/
abbrev Pending := ℕ → List PoolEntry

/-- The earliest message of its source that a call accepts. -/
def earliest (pending : Pending) (msg : RecvMsg) : Option PoolEntry :=
  (pending msg.src).find? msg.accepts

/-- It is received, and the others stay. -/
def receive (pending : Pending) (msg : RecvMsg) : Pending :=
  Function.update pending msg.src ((pending msg.src).eraseP msg.accepts)

/-- Call after call returns the earliest message it accepts, once each, until one waits for a message
that is never sent. -/
def Delivers (s : RecvState) (pending : Pending) : List RecvMsg → Prop
  | [] => True
  | msg :: msgs =>
    match s.smp_recv msg, earliest pending msg with
    | .returns entry s', some entry' => entry = entry' ∧ s'.Delivers (receive pending msg) msgs
    | .waits, none => True
    | _, _ => False

/-- Every call accepts the next message of its source. -/
def NoSkip (pending : Pending) : List RecvMsg → Prop
  | [] => True
  | msg :: msgs =>
    match pending msg.src with
    | [] => True
    | entry :: entries =>
      msg.accepts entry ∧ NoSkip (Function.update pending msg.src entries) msgs

variable {s : RecvState} {msg : RecvMsg} {msgs : List RecvMsg} {entry : PoolEntry}
  {entries : List PoolEntry} {pending : Pending}

/-- With an empty queue `hdr` has no value when the FIFO is read. -/
lemma smp_recv_of_empty (hempty : s.n_buffered = 0) :
    s.smp_recv msg = readFifo msg none (s.fifo msg.src) s := if_pos hempty

lemma readFifo_accepts (haccepts : msg.accepts entry) (hdr : Option ℕ) :
    readFifo msg hdr (entry :: entries) s = .returns entry (s.takeEntry entry entries msg) := by
  simp [readFifo, haccepts]

/-- The first message that is skipped goes to a node nobody knows. -/
lemma readFifo_skips (hempty : s.n_buffered = 0) (hskip : ¬ msg.accepts entry) :
    readFifo msg none (entry :: entries) s = .invalid := by
  simp [readFifo, hskip, hempty, MSG_Q_SIZE]

lemma earliest_accepts (hpending : pending msg.src = entry :: entries)
    (haccepts : msg.accepts entry) : earliest pending msg = some entry := by
  simp [earliest, hpending, haccepts]

lemma receive_accepts (hpending : pending msg.src = entry :: entries)
    (haccepts : msg.accepts entry) :
    receive pending msg = Function.update pending msg.src entries := by
  simp [receive, hpending, haccepts]

/-- As long as nothing was skipped, the calls deliver exactly if nothing is going to be skipped. -/
lemma delivers_iff (hempty : s.n_buffered = 0) (hfifo : s.fifo = pending) :
    s.Delivers pending msgs ↔ NoSkip pending msgs := by
  induction msgs generalizing s pending with
  | nil => simp [Delivers, NoSkip]
  | cons msg msgs ih =>
    have hrecv : s.smp_recv msg = readFifo msg none (pending msg.src) s := by
      rw [smp_recv_of_empty hempty, hfifo]
    cases hpending : pending msg.src with
    | nil =>
      rw [hpending] at hrecv
      simp [Delivers, NoSkip, hrecv, readFifo, earliest, hpending]
    | cons entry entries =>
      rw [hpending] at hrecv
      by_cases haccepts : msg.accepts entry
      · rw [readFifo_accepts haccepts] at hrecv
        have htaken : (s.takeEntry entry entries msg).fifo =
            Function.update pending msg.src entries := by rw [takeEntry, hfifo]
        have hrest := ih (s := s.takeEntry entry entries msg) hempty htaken
        simp only [Delivers, hrecv, earliest_accepts hpending haccepts,
          receive_accepts hpending haccepts, NoSkip, hpending, haccepts, true_and, hrest]
      · rw [readFifo_skips hempty haccepts] at hrecv
        simp [Delivers, NoSkip, hrecv, hpending, haccepts]

/-- The messages are received as they should be if and only if each call accepts the next message of
its source. -/
theorem delivers_iff_noSkip (fifo : ℕ → List PoolEntry) (msgs : List RecvMsg) :
    (init fifo).Delivers fifo msgs ↔ NoSkip fifo msgs :=
  delivers_iff rfl rfl

/-- Source 0 sends two messages with the tags 1 and 2, and the one with tag 2 is to be received
first. -/
theorem not_delivers :
    ¬ (init fun _ => [⟨0, 0, 8, 1⟩, ⟨128, 0, 8, 2⟩]).Delivers
      (fun _ => [⟨0, 0, 8, 1⟩, ⟨128, 0, 8, 2⟩]) [⟨0, 8, 2⟩] :=
  id

end RecvState

end NetPipe.MpLite
