import NetPipe.Vapi.Eager

/-!
# Rendezvous messages

The large messages from one node to another. For each receive the destination sends a
Ready-to-Receive message, which stands in one place at the source until it is acknowledged. The
source writes the data of a message that fits into the memory of the receive, together with the
transaction id of the receive. A message that has been posted stays in the queue as incomplete until
its completion is handled.
-/

namespace NetPipe.Vapi.Rndzv

/-- `MP_TRANS_ID_SPACE` -/
def transIdSpace : ℕ := 512

/-- `MP_TRANS_MIN_ID` -/
def transMinId : ℕ := 1

/-- `struct rndzv_msg_entry`. The memory of a receive is given by its number among the calls of
`MP_ARecv`. -/
structure Rtr where
  addr : ℕ
  tag : ℤ
  nbytes : ℕ
  transId : ℕ
deriving DecidableEq

/-- The test for a matching message. -/
def Rtr.accepts (r : Rtr) (m : Packet) : Bool :=
  decide (m.nbytes ≤ r.nbytes) && (decide (m.tag = r.tag) || decide (r.tag = -1))

/-- An entry of `rndzv_send_q`: a message with its number among the calls of `MP_ASend` and its
flag, or what a Ready-to-Receive message says, which has no `buf`, and which has an `ib_index`. -/
inductive Entry where
  | msg (id : ℕ) (complete : Bool) (m : Packet)
  | rtr (r : Rtr)

/-- A message of the queue that fits a receive. -/
def Entry.fits (r : Rtr) : Entry → Bool
  | .msg _ complete m => !complete && r.accepts m
  | .rtr _ => false

/-- A receive of the queue that a message fits. -/
def Entry.takes (m : Packet) : Entry → Bool
  | .msg .. => false
  | .rtr r => r.accepts m

/-- The entry of message number `id`. -/
def Entry.isMsg (id : ℕ) : Entry → Bool
  | .msg i _ _ => i = id
  | .rtr _ => false

/-- What `ib_rndzv_finish` waits for. -/
def Entry.isDone (id : ℕ) : Entry → Bool
  | .msg i complete _ => decide (i ≠ id) || complete
  | .rtr _ => true

/-- Marks message number `id` as complete. -/
def Entry.setComplete (id : ℕ) : Entry → Entry
  | .msg i complete m => .msg i (complete || decide (i = id)) m
  | .rtr r => .rtr r

/-- What the adapter of the source is to write: an acknowledgement, or the data of a message for a
receive. -/
inductive Request where
  | ack
  | data (id : ℕ) (r : Rtr)

/-- The source: its queues, the Ready-to-Receive message that it has been sent, the number of posted
receives, the requests that the adapter has not carried out, and the completions that have not been
handled. `asends`, `waited`, `handled`, `completed` and `matched` are histories: the calls of
`MP_ASend`, the messages that have been waited for, how many Ready-to-Receive messages and
completions of sends have been handled, which message has been posted for which receive. -/
structure Sender where
  sendQ : List Entry
  posted2ib : List ℕ
  msgIn : Rtr
  posted : ℕ
  sr : List Request
  rtrsIn : ℕ
  sendsDone : ℕ
  asends : List Packet
  waited : List ℕ
  handled : ℕ
  completed : ℕ
  matched : List (ℕ × ℕ)

/-- An entry of `rndzv_recv_q`, with its number among the calls of `MP_ARecv`. -/
structure RecvEntry where
  id : ℕ
  complete : Bool
  ibIndex : ℕ

/-- The destination: its queue, the table of transaction ids, the acknowledgement, the
Ready-to-Receive message that it sends, how often that is still to be sent, the one for which
`ib_rndzv_arecv` waits, the memory of the receives, the number of posted receives, and the ids of the
completions that have not been handled. `asked`, `transferred`, `handled` and `received` are
histories: the calls of `MP_ARecv`, how many messages have arrived, how many of these have been
handled, what `MP_Wait` has returned with. -/
structure Receiver where
  recvQ : List RecvEntry
  transIdList : ℕ → Bool
  currentTransId : ℕ
  ack : Bool
  msgOut : Rtr
  rtrs : ℕ
  waiting : Option Rtr
  buffers : ℕ → List UInt8
  posted : ℕ
  datas : List ℕ
  asked : List Rtr
  transferred : ℕ
  handled : ℕ
  received : List (ℕ × List UInt8)

/-! ### The source -/

namespace Sender

/-- A message is posted: `post` to `rndzv_posted2ib_q` and `ib_rndzv_send_data`. `none` if the
message is in that queue already, which makes the queue run in a circle. -/
def sendData (id : ℕ) (r : Rtr) (s : Sender) : Option Sender :=
  if id ∈ s.posted2ib then none
  else some { s with
    posted2ib := s.posted2ib ++ [id]
    sr := s.sr ++ [.data id r]
    matched := s.matched ++ [(id, r.addr)] }

/-- `ib_rndzv_asend` -/
def ibRndzvAsend (m : Packet) (s : Sender) : Option Sender :=
  let id := s.asends.length
  match splitFirst (Entry.takes m) s.sendQ with
  | some (l₁, .rtr r, l₂) =>
    ({ s with
        sendQ := l₁ ++ .msg id false m :: l₂
        asends := s.asends ++ [m] } : Sender).sendData id r
  | _ => some { s with sendQ := s.sendQ ++ [.msg id false m], asends := s.asends ++ [m] }

/-- `ib_post_rndzv_recv` and `ib_rndzv_send_rtr_ack`, which the handler calls once it has copied the
message -/
def acknowledge (s : Sender) : Sender :=
  { s with
    rtrsIn := s.rtrsIn - 1
    posted := s.posted + 1
    sr := s.sr ++ [.ack]
    handled := s.handled + 1 }

/-- `ib_rndzv_handle_recv` for a Ready-to-Receive message -/
def ibRndzvHandleRtr (s : Sender) : Option Sender :=
  let r := s.msgIn
  let s := s.acknowledge
  match splitFirst (Entry.fits r) s.sendQ with
  | some (_, .msg id _ _, _) => s.sendData id r
  | _ => some { s with sendQ := s.sendQ ++ [.rtr r] }

/-- `ib_rndzv_handle_send`; `none` where the queue is empty and the code exits. -/
def ibRndzvHandleSend (s : Sender) : Option Sender :=
  match s.posted2ib with
  | [] => none
  | id :: q => some { s with
    sendQ := s.sendQ.map (Entry.setComplete id)
    posted2ib := q
    sendsDone := s.sendsDone - 1
    completed := s.completed + 1 }

/-- `ib_rndzv_finish` of message number `id` once it is complete; `none` where it is not in the
queue and the code exits. -/
def ibRndzvFinish (id : ℕ) (s : Sender) : Option Sender :=
  match splitFirst (Entry.isMsg id) s.sendQ with
  | none => none
  | some (l₁, _, l₂) => some { s with sendQ := l₁ ++ l₂, waited := s.waited ++ [id] }

end Sender

/-! ### The destination -/

namespace Receiver

/-- `ib_get_trans_id`: the next id that is not in use, other than the current one; `none` where there
is none and the code exits. -/
def ibGetTransId (r : Receiver) : Option ℕ :=
  ((List.range' (r.currentTransId + 1) (transIdSpace - 1)).map (· % transIdSpace)).find?
    fun i => !r.transIdList i

/-- `ib_rndzv_arecv` up to the loop in which it waits for the acknowledgement -/
def ibRndzvArecv (q : RecvArgs) (r : Receiver) : Option Receiver :=
  r.ibGetTransId.map fun i =>
    let m : Rtr := ⟨r.asked.length, q.tag, q.nbytes, transMinId + i⟩
    { r with
      posted := r.posted + 1
      transIdList := Function.update r.transIdList i true
      currentTransId := i
      recvQ := r.recvQ ++ [⟨r.asked.length, false, transMinId + i⟩]
      waiting := some m
      asked := r.asked ++ [m] }

/-- `ib_rndzv_arecv` after that loop: `ib_rndzv_send_rtr_msg` -/
def ibRndzvSendRtrMsg (m : Rtr) (r : Receiver) : Receiver :=
  { r with ack := false, msgOut := m, rtrs := r.rtrs + 1, waiting := none }

/-- `ib_rndzv_handle_recv` for the data of a message; `none` where it finds no receive and exits. -/
def ibRndzvHandleData (i : ℕ) (r : Receiver) : Option Receiver :=
  match splitFirst (fun e => e.ibIndex = i) r.recvQ with
  | none => none
  | some (l₁, e, l₂) => some { r with
    recvQ := l₁ ++ { e with complete := true } :: l₂
    transIdList := Function.update r.transIdList (e.ibIndex - transMinId) false
    handled := r.handled + 1 }

/-- `ib_rndzv_finish` of receive number `k` once it is complete; `none` where it is not in the queue
and the code exits. -/
def ibRndzvFinish (k : ℕ) (r : Receiver) : Option Receiver :=
  match splitFirst (fun e => e.id = k) r.recvQ with
  | none => none
  | some (l₁, _, l₂) => some { r with
    recvQ := l₁ ++ l₂
    received := r.received ++ [(k, r.buffers k)] }

end Receiver

/-! ### The two nodes -/

/-- Source and destination. -/
structure Link where
  sender : Sender
  receiver : Receiver

namespace Link

/-- What can happen next: calls of `ib_rndzv_asend` and `ib_rndzv_arecv`, the end of the loop in the
latter, the end of `ib_rndzv_finish` on either side, the handlers, and what the adapters do: carry
out a request of the source, and write the Ready-to-Receive message. -/
inductive Event where
  | asend (m : Packet)
  | finishSend (id : ℕ)
  | handleSend
  | handleRtr
  | arecv (q : RecvArgs)
  | sendRtr
  | finishRecv (k : ℕ)
  | handleData
  | transfer
  | writeRtr

/-- When it can happen. A wait goes on when its loop ends, and there is one wait for each message;
the destination does nothing else while `ib_rndzv_arecv` waits; the handlers run for a completion. A
receive is waited for before its id comes round again. -/
def Enabled (s : Link) : Event → Prop
  | .asend m => eagerBufferSize - MpLite.hdrSize ≤ m.nbytes
  | .finishSend id => id < s.sender.asends.length ∧ id ∉ s.sender.waited ∧
    s.sender.sendQ.all (Entry.isDone id) = true
  | .handleSend => 0 < s.sender.sendsDone
  | .handleRtr => 0 < s.sender.rtrsIn
  | .arecv q => eagerBufferSize - MpLite.hdrSize ≤ q.nbytes ∧ s.receiver.waiting = none ∧
    ∀ i ∈ s.receiver.ibGetTransId, transMinId + i ∉ s.receiver.recvQ.map (·.ibIndex)
  | .sendRtr => s.receiver.waiting.isSome = true ∧ s.receiver.ack = true
  | .finishRecv k => s.receiver.waiting = none ∧ k < s.receiver.asked.length ∧
    k ∉ s.receiver.received.map Prod.fst ∧ ∀ e ∈ s.receiver.recvQ, e.id = k → e.complete = true
  | .handleData => s.receiver.datas ≠ []
  | .transfer => s.sender.sr ≠ []
  | .writeRtr => 0 < s.receiver.rtrs

instance (s : Link) (e : Event) : Decidable (s.Enabled e) := by
  cases e <;> unfold Enabled <;> infer_instance

/-- The adapter of the source carries out a request. Data goes with a posted receive of the
destination; `none` if there is none. -/
def transfer (s : Link) : Option Link :=
  match s.sender.sr with
  | [] => none
  | .ack :: sr => some
    { sender := { s.sender with sr := sr }
      receiver := { s.receiver with ack := true } }
  | .data id r :: sr =>
    if s.receiver.posted = 0 then none
    else some
      { sender := { s.sender with sr := sr, sendsDone := s.sender.sendsDone + 1 }
        receiver := { s.receiver with
          posted := s.receiver.posted - 1
          buffers := Function.update s.receiver.buffers r.addr
            ((s.sender.asends[id]?.map Packet.data).getD [])
          datas := s.receiver.datas ++ [r.transId]
          transferred := s.receiver.transferred + 1 } }

/-- The adapter of the destination writes the Ready-to-Receive message, with a posted receive of the
source; `none` if there is none. -/
def writeRtr (s : Link) : Option Link :=
  if s.sender.posted = 0 then none
  else some
    { sender := { s.sender with
        posted := s.sender.posted - 1
        msgIn := s.receiver.msgOut
        rtrsIn := s.sender.rtrsIn + 1 }
      receiver := { s.receiver with rtrs := s.receiver.rtrs - 1 } }

/-- What an event does; `none` if the program exits, a queue is made circular or the adapters report
an error. -/
def step (s : Link) : Event → Option Link
  | .asend m => (s.sender.ibRndzvAsend m).map fun p => { s with sender := p }
  | .finishSend id => (s.sender.ibRndzvFinish id).map fun p => { s with sender := p }
  | .handleSend => s.sender.ibRndzvHandleSend.map fun p => { s with sender := p }
  | .handleRtr => s.sender.ibRndzvHandleRtr.map fun p => { s with sender := p }
  | .arecv q => (s.receiver.ibRndzvArecv q).map fun r => { s with receiver := r }
  | .sendRtr => s.receiver.waiting.map fun m =>
    { s with receiver := s.receiver.ibRndzvSendRtrMsg m }
  | .finishRecv k => (s.receiver.ibRndzvFinish k).map fun r => { s with receiver := r }
  | .handleData =>
    match s.receiver.datas with
    | [] => none
    | i :: datas => (({ s.receiver with datas := datas } : Receiver).ibRndzvHandleData i).map fun r =>
      { s with receiver := r }
  | .transfer => s.transfer
  | .writeRtr => s.writeRtr

/-- The state after `ib_init`, which posts one receive. -/
def init : Link where
  sender :=
    { sendQ := []
      posted2ib := []
      msgIn := ⟨0, 0, 0, 0⟩
      posted := 1
      sr := []
      rtrsIn := 0
      sendsDone := 0
      asends := []
      waited := []
      handled := 0
      completed := 0
      matched := [] }
  receiver :=
    { recvQ := []
      transIdList := fun _ => false
      currentTransId := 0
      ack := true
      msgOut := ⟨0, 0, 0, 0⟩
      rtrs := 0
      waiting := none
      buffers := fun _ => []
      posted := 0
      datas := []
      asked := []
      transferred := 0
      handled := 0
      received := [] }

/-- The states that the two nodes can reach. -/
inductive Reachable : Link → Prop where
  | init : Reachable init
  | step {s s' e} : Reachable s → s.Enabled e → s.step e = some s' → Reachable s'

/-- Runs a list of events, as far as they can happen. -/
def exec (s : Link) : List Event → Option Link
  | [] => some s
  | e :: es => if s.Enabled e then (s.step e).bind fun s' => s'.exec es else none

lemma Reachable.exec {s s' : Link} {es : List Event} (hs : Reachable s)
    (he : s.exec es = some s') : Reachable s' := by
  induction es generalizing s with
  | nil =>
    cases he
    exact hs
  | cons e es ih =>
    simp only [Link.exec, Option.ite_none_right_eq_some, Option.bind_eq_some_iff] at he
    obtain ⟨hen, t, ht, he⟩ := he
    exact ih (hs.step hen ht) he

end Link

end NetPipe.Vapi.Rndzv
