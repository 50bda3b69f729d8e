import NetPipe.Library.FirstMatch
import NetPipe.MpLite.Message

/-!
# Eager messages

The eager messages from one node to another. A message is copied to one of the send buffers of its
destination and arrives in one of the receive buffers that the destination has posted. Two counters
hold a sender back: how many of its buffers have been sent, and how many receive buffers the other
node has freed, which that node writes over the network. Completions are handled in a thread of
their own, at any time.
-/

namespace NetPipe.Vapi

open MpLite (hdrSize)

/-- `EAGER_BUFFERS_PER_NODE` -/
def eagerBuffersPerNode : ℕ := 4

/-- `EAGER_BUFFER_SIZE` -/
def eagerBufferSize : ℕ := 32768

/-- `COUNT_MAX` -/
def countMax : ℕ := 2147483647

/-- `INC_WITH_WRAP` -/
def incWithWrap (n : ℕ) : ℕ := if n = countMax then 0 else n + 1

/-- `ADD_WITH_WRAP` -/
def addWithWrap (n m : ℕ) : ℕ := if countMax - n < m then (m - (countMax - n)) - 1 else n + m

/-- The header and the data of a message, as they stand in an eager buffer. -/
structure Packet where
  tag : ℤ
  data : List UInt8
deriving DecidableEq

/-- The length in the header. -/
def Packet.nbytes (p : Packet) : ℕ := p.data.length

/-- What an `MP_ARecv` asks for. -/
structure RecvArgs where
  nbytes : ℕ
  tag : ℤ
deriving DecidableEq

/-- The test for a matching message. -/
def RecvArgs.accepts (q : RecvArgs) (tag : ℤ) (nbytes : ℕ) : Bool :=
  decide (nbytes ≤ q.nbytes) && (decide (q.tag = -1) || decide (tag = q.tag))

/-- The receive accepts the message. -/
def RecvArgs.Accepts (q : RecvArgs) (p : Packet) : Prop := q.accepts p.tag p.nbytes = true

inductive SendFlag where
  | waitingPost
  | waitingCompletion
  | complete
deriving DecidableEq

inductive RecvFlag where
  | waiting
  | complete
  | matched
deriving DecidableEq

/-- A message in `eager_send_q`, with its number among the calls of `MP_ASend`. -/
structure SendEntry where
  id : ℕ
  flag : SendFlag
  msg : Packet

/-- A posted buffer in `eager_ib_recv_q`, with its number among the calls of
`ib_post_eager_recv`. -/
structure IbEntry where
  id : ℕ
  flag : RecvFlag
  ibIndex : ℕ
  tag : ℤ
  nbytes : ℕ

/-- A receive in `eager_user_recv_q`, with its number among the calls of `MP_ARecv`. -/
structure UserEntry where
  id : ℕ
  flag : RecvFlag
  args : RecvArgs
  ibPtr : Option ℕ
  buf : List UInt8

/-- What a node keeps for its eager sends to the other one: the counters, the buffers, and the
buffers `sr` in the requests that the adapter has not carried out. `sent` is the history of the
requests. -/
structure SendSide where
  sends : ℕ
  locSendFreed : ℕ
  remRecvFreed : ℕ
  nextSendBuffer : ℕ
  sendBuffers : ℕ → Packet
  sr : List ℕ
  sent : List Packet

/-- What a node keeps for its eager receives from the other one: the queues, the buffers, the
buffers `rr` in the requests that the adapter has not carried out, and the number of its writes to
the counter of the other node that have not been carried out. `posted`, `asked`, `handled` and
`matched` are histories: how many receives have been posted, the calls of `MP_ARecv`, how many
completions have been handled, which message has gone to which receive. -/
structure RecvSide where
  ibRecvQ : List IbEntry
  userRecvQ : List UserEntry
  inUse : ℕ → Bool
  recvBuffers : ℕ → Packet
  locRecvFreed : ℕ
  rr : List ℕ
  writes : ℕ
  posted : ℕ
  asked : List RecvArgs
  handled : ℕ
  matched : List (ℕ × ℕ)

/-! ### Sending -/

namespace SendSide

/-- One of the two counters holds sends back. -/
def full (p : SendSide) : Bool :=
  decide (p.sends = p.locSendFreed) || decide (p.sends = p.remRecvFreed)

/-- `ib_post_eager_send` -/
def ibPostEagerSend (m : Packet) (p : SendSide) : SendSide :=
  { p with
    nextSendBuffer := (p.nextSendBuffer + 1) % eagerBuffersPerNode
    sendBuffers := Function.update p.sendBuffers p.nextSendBuffer m
    sr := p.sr ++ [p.nextSendBuffer]
    sends := incWithWrap p.sends
    sent := p.sent ++ [m] }

/-- `ib_eager_check_sends`: the loop over `eager_send_q`, and its status. -/
def ibEagerCheckSends (p : SendSide) : List SendEntry → SendSide × List SendEntry × Bool
  | [] => (p, [], true)
  | e :: q =>
    if p.full then (p, e :: q, false)
    else if e.flag = .waitingPost then
      let r := (p.ibPostEagerSend e.msg).ibEagerCheckSends q
      (r.1, { e with flag := .waitingCompletion } :: r.2.1, r.2.2)
    else
      let r := p.ibEagerCheckSends q
      (r.1, e :: r.2.1, r.2.2)

/-- `ib_eager_asend` of message number `id` -/
def ibEagerAsend (id : ℕ) (m : Packet) (p : SendSide) (q : List SendEntry) :
    SendSide × List SendEntry :=
  let r := p.ibEagerCheckSends q
  if r.2.2 && !r.1.full then
    (r.1.ibPostEagerSend m, r.2.1 ++ [⟨id, .waitingCompletion, m⟩])
  else
    (r.1, r.2.1 ++ [⟨id, .waitingPost, m⟩])

end SendSide

/-! ### Receiving -/

namespace RecvSide

/-- Posts a receive for buffer `b`. -/
def postBuffer (r : RecvSide) (b : ℕ) : RecvSide :=
  { r with
    inUse := Function.update r.inUse b true
    ibRecvQ := r.ibRecvQ ++ [⟨r.posted, .waiting, b, 0, eagerBufferSize⟩]
    rr := r.rr ++ [b]
    posted := r.posted + 1 }

/-- `ib_post_eager_recv`; `none` where it finds no free buffer and exits. -/
def ibPostEagerRecv (r : RecvSide) : Option RecvSide :=
  ((List.range eagerBuffersPerNode).find? fun b => !r.inUse b).map r.postBuffer

/-- `ib_inc_eager_recv_freed` -/
def ibIncEagerRecvFreed (r : RecvSide) : RecvSide :=
  { r with locRecvFreed := incWithWrap r.locRecvFreed, writes := r.writes + 1 }

/-- What follows a match: the buffer is marked as free, a new receive is posted and the count of
freed buffers is incremented. -/
def recycle (b : ℕ) (r : RecvSide) : Option RecvSide :=
  ({ r with inUse := Function.update r.inUse b false } : RecvSide).ibPostEagerRecv.map
    ibIncEagerRecvFreed

/-- `ib_eager_arecv` -/
def ibEagerArecv (q : RecvArgs) (r : RecvSide) : Option RecvSide :=
  match splitFirst (fun e => e.flag = .complete && q.accepts e.tag e.nbytes) r.ibRecvQ with
  | some (l₁, e, l₂) =>
    ({ r with
        ibRecvQ := l₁ ++ { e with flag := .matched } :: l₂
        userRecvQ := r.userRecvQ ++ [⟨r.asked.length, .complete, q, some e.id,
          (r.recvBuffers e.ibIndex).data.take e.nbytes⟩]
        asked := r.asked ++ [q]
        matched := r.matched ++ [(e.id, r.asked.length)] } : RecvSide).recycle e.ibIndex
  | none =>
    some { r with
      userRecvQ := r.userRecvQ ++ [⟨r.asked.length, .waiting, q, none, []⟩]
      asked := r.asked ++ [q] }

/-- `ib_eager_handle_recv`; `none` where it finds no receive that waits for a completion and exits. -/
def ibEagerHandleRecv (r : RecvSide) : Option RecvSide :=
  match splitFirst (fun e => e.flag = .waiting) r.ibRecvQ with
  | none => none
  | some (l₁, e, l₂) =>
    let p := r.recvBuffers e.ibIndex
    match splitFirst (fun u => u.flag = .waiting && u.args.accepts p.tag p.nbytes) r.userRecvQ with
    | some (u₁, u, u₂) =>
      ({ r with
          ibRecvQ := l₁ ++ { e with flag := .matched, tag := p.tag, nbytes := p.nbytes } :: l₂
          userRecvQ := u₁ ++ { u with
            flag := .complete, ibPtr := some e.id, buf := p.data.take p.nbytes } :: u₂
          handled := r.handled + 1
          matched := r.matched ++ [(e.id, u.id)] } : RecvSide).recycle e.ibIndex
    | none =>
      some { r with
        ibRecvQ := l₁ ++ { e with flag := .complete, tag := p.tag, nbytes := p.nbytes } :: l₂
        handled := r.handled + 1 }

/-- `ib_eager_finish_recv` of receive number `k` once it is complete: its entry leaves the queues;
`none` where it finds an entry missing and exits. -/
def ibEagerFinishRecv (k : ℕ) (r : RecvSide) : Option (UserEntry × RecvSide) :=
  match splitFirst (fun u => u.id = k) r.userRecvQ with
  | none => none
  | some (u₁, u, u₂) =>
    match splitFirst (fun e => some e.id = u.ibPtr) r.ibRecvQ with
    | none => none
    | some (l₁, _, l₂) => some (u, { r with userRecvQ := u₁ ++ u₂, ibRecvQ := l₁ ++ l₂ })

end RecvSide

/-! ### The two nodes -/

/-- The two nodes, the completions that have not been handled and the values under way to the counter
of the sender. `asends`, `completed`, `sendsWaited` and `received` are histories: the calls of
`MP_ASend`, how many completions of sends have been handled, and what `MP_Wait` has returned from. -/
structure Eager where
  sender : SendSide
  sendQ : List SendEntry
  sendsDone : ℕ
  receiver : RecvSide
  recvsDone : ℕ
  written : List ℕ
  asends : List Packet
  completed : ℕ
  sendsWaited : List ℕ
  received : List (ℕ × List UInt8)

namespace Eager

/-- What can happen next: calls of `ib_eager_asend` and `ib_eager_arecv`, the post of a queued send
and the end of `ib_eager_finish_send`, the end of `ib_eager_finish_recv`, the handlers
`ib_eager_handle_send` and `ib_eager_handle_recv`, and what the adapters do: carry out a send, read
the count that `ib_inc_eager_recv_freed` writes, and write it. -/
inductive Event where
  | asend (m : Packet)
  | finishPost (id : ℕ)
  | finishSend (id : ℕ)
  | handleSend
  | arecv (q : RecvArgs)
  | finishRecv (k : ℕ)
  | handleRecv
  | transfer
  | readCount
  | writeCount

/-- When it can happen. A wait goes on when its loop ends, and there is one wait for each message;
the handlers run for a completion. `MP_ASend` and `MP_ARecv` take this way for small messages. -/
def Enabled (s : Eager) : Event → Prop
  | .asend m => m.nbytes < eagerBufferSize - hdrSize
  | .finishPost id =>
    (∃ e ∈ s.sendQ, e.id = id ∧ e.flag = .waitingPost) ∧ s.sender.full = false
  | .finishSend id => id < s.asends.length ∧ id ∉ s.sendsWaited ∧
    ∀ e ∈ s.sendQ, e.id = id → e.flag = .complete
  | .handleSend => 0 < s.sendsDone
  | .arecv q => q.nbytes < eagerBufferSize - hdrSize
  | .finishRecv k => k < s.receiver.asked.length ∧ k ∉ s.received.map Prod.fst ∧
    ∀ u ∈ s.receiver.userRecvQ, u.id = k → u.flag = .complete
  | .handleRecv => 0 < s.recvsDone
  | .transfer => s.sender.sr ≠ []
  | .readCount => 0 < s.receiver.writes
  | .writeCount => s.written ≠ []

instance (s : Eager) (e : Event) : Decidable (s.Enabled e) := by
  cases e <;> unfold Enabled <;> infer_instance

/-- `ib_eager_handle_send`; `none` where it finds no send that waits for a completion and exits. -/
def ibEagerHandleSend (s : Eager) : Option Eager :=
  match splitFirst (fun e => e.flag = .waitingCompletion) s.sendQ with
  | none => none
  | some (l₁, e, l₂) =>
    some { s with
      sendQ := l₁ ++ { e with flag := .complete } :: l₂
      sender := { s.sender with locSendFreed := incWithWrap s.sender.locSendFreed }
      completed := s.completed + 1 }

/-- `ib_eager_finish_send` of message number `id`: the post of a queued message. -/
def ibEagerFinishPost (id : ℕ) (s : Eager) : Option Eager :=
  match splitFirst (fun e => e.id = id) s.sendQ with
  | none => none
  | some (l₁, e, l₂) =>
    some { s with
      sendQ := l₁ ++ { e with flag := .waitingCompletion } :: l₂
      sender := s.sender.ibPostEagerSend e.msg }

/-- `ib_eager_finish_send` of message number `id` once it is complete: it leaves the queue; `none`
where it is not in the queue and the code exits. -/
def ibEagerFinishSend (id : ℕ) (s : Eager) : Option Eager :=
  match splitFirst (fun e => e.id = id) s.sendQ with
  | none => none
  | some (l₁, _, l₂) => some { s with sendQ := l₁ ++ l₂, sendsWaited := s.sendsWaited ++ [id] }

/-- The adapters carry out a send: the message goes from its send buffer to the receive buffer
posted first, and there are a completion on either side. `none` if no receive is posted. -/
def transfer (s : Eager) : Option Eager :=
  match s.sender.sr, s.receiver.rr with
  | b :: sr, c :: rr =>
    some { s with
      sender := { s.sender with sr := sr }
      receiver := { s.receiver with
        rr := rr, recvBuffers := Function.update s.receiver.recvBuffers c (s.sender.sendBuffers b) }
      sendsDone := s.sendsDone + 1
      recvsDone := s.recvsDone + 1 }
  | _, _ => none

/-- What an event does; `none` if the program exits or the adapters report an error. -/
def step (s : Eager) : Event → Option Eager
  | .asend m =>
    let r := s.sender.ibEagerAsend s.asends.length m s.sendQ
    some { s with sender := r.1, sendQ := r.2, asends := s.asends ++ [m] }
  | .finishPost id => s.ibEagerFinishPost id
  | .finishSend id => s.ibEagerFinishSend id
  | .handleSend => ({ s with sendsDone := s.sendsDone - 1 } : Eager).ibEagerHandleSend
  | .arecv q => (s.receiver.ibEagerArecv q).map fun r => { s with receiver := r }
  | .finishRecv k => (s.receiver.ibEagerFinishRecv k).map fun r =>
    { s with receiver := r.2, received := s.received ++ [(k, r.1.buf)] }
  | .handleRecv => s.receiver.ibEagerHandleRecv.map fun r =>
    { s with receiver := r, recvsDone := s.recvsDone - 1 }
  | .transfer => s.transfer
  | .readCount =>
    some { s with
      receiver := { s.receiver with writes := s.receiver.writes - 1 }
      written := s.written ++ [s.receiver.locRecvFreed] }
  | .writeCount =>
    some { s with
      sender := { s.sender with remRecvFreed := s.written.headD 0 }
      written := s.written.tail }

/-- What `ib_init` sets, before it posts the receives. -/
def cleared : RecvSide where
  ibRecvQ := []
  userRecvQ := []
  inUse _ := false
  recvBuffers _ := ⟨0, []⟩
  locRecvFreed := eagerBuffersPerNode
  rr := []
  writes := 0
  posted := 0
  asked := []
  handled := 0
  matched := []

/-- The state after `ib_init`, which posts a receive for each buffer; `none` if a post fails. -/
def init : Option Eager :=
  ((Option.bind · RecvSide.ibPostEagerRecv)^[eagerBuffersPerNode] (some cleared)).map fun r =>
    { sender :=
        { sends := 0
          locSendFreed := eagerBuffersPerNode
          remRecvFreed := eagerBuffersPerNode
          nextSendBuffer := 0
          sendBuffers := fun _ => ⟨0, []⟩
          sr := []
          sent := [] }
      sendQ := []
      sendsDone := 0
      receiver := r
      recvsDone := 0
      written := []
      asends := []
      completed := 0
      sendsWaited := []
      received := [] }

/-- The states that the two nodes can reach. -/
inductive Reachable : Eager → Prop where
  | init {s} : init = some s → Reachable s
  | step {s s' e} : Reachable s → s.Enabled e → s.step e = some s' → Reachable s'

/-- Runs a list of events, as far as they can happen. -/
def exec (s : Eager) : List Event → Option Eager
  | [] => some s
  | e :: es => if s.Enabled e then (s.step e).bind fun s' => s'.exec es else none

lemma Reachable.exec {s s' : Eager} {es : List Event} (hs : Reachable s)
    (he : s.exec es = some s') : Reachable s' := by
  induction es generalizing s with
  | nil =>
    cases he
    exact hs
  | cons e es ih =>
    simp only [Eager.exec, Option.ite_none_right_eq_some, Option.bind_eq_some_iff] at he
    obtain ⟨hen, t, ht, he⟩ := he
    exact ih (hs.step hen ht) he

end Eager

end NetPipe.Vapi
