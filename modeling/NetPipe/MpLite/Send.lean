import NetPipe.MpLite.Message

/-!
# The send side of MP_Lite

The sends towards one destination: `MP_ASend`, `MP_Wait` with `push_to_buffer`, and `do_send`, which
runs in `MP_ASend` or in the signal handler.
-/

namespace NetPipe.MpLite

/-- Where the user's program is: outside the library, or in `MP_Wait` for an entry, before its
tests, before `push_to_buffer` or before it marks the entry as free. Signals are not blocked at
these points. -/
inductive UserPoint where
  | outside
  | testing (id : ℕ)
  | pushing (id : ℕ)
  | leaving (id : ℕ)
  deriving DecidableEq, Repr

/-- `do_send` at the head of its loop, for the entry `msg`: `m` bytes were written last. -/
structure SendLoop where
  msg : ℕ
  m : ℕ
  cat_nap : Bool
  deriving DecidableEq, Repr

/-- The state of a process that sends to one destination. `loop` is set while `do_send` runs, with
signals blocked. -/
structure SendState where
  msg_list : ℕ → MsgEntry
  mid : ℕ
  send_q : List ℕ
  wactive : Bool
  mem : ℕ → UInt8
  user : UserPoint
  loop : Option SendLoop
  /-- the bytes the socket has taken -/
  written : List UInt8
  /-- the header and the body of each message when it was posted -/
  posted : List (List UInt8)
  /-- the entries the user has not waited for yet -/
  outstanding : List ℕ

namespace SendState

/-- Change an entry. -/
def setEntry (s : SendState) (id : ℕ) (msg : MsgEntry) : SendState :=
  { s with msg_list := Function.update s.msg_list id msg }

/-- A `write` of the next header bytes, of which the socket takes at most `k`. -/
def writeHeader (id k : ℕ) (s : SendState) : SendState × ℕ :=
  let msg := s.msg_list id
  let n := min k msg.nhdr
  ({ s.setEntry id (msg.updateProgress n) with
      written := s.written ++ (msg.header.drop msg.phdr).take n }, n)

/-- A `write` of the next bytes of the body. -/
def writeBody (id k : ℕ) (s : SendState) : SendState × ℕ :=
  let msg := s.msg_list id
  let n := min k (min msg.nbl msg.mtu).toNat
  ({ s.setEntry id (msg.updateProgress n) with
      written := s.written ++ bytesAt s.mem msg.ptr n }, n)

/-- `write_msg`: the socket takes at most `k` header bytes and at most `k'` bytes of the body. The
result is the state and the number of bytes of the last `write`. -/
def writeMsg (id k k' : ℕ) (s : SendState) : SendState × ℕ :=
  let r := if (s.msg_list id).nhdr ≠ 0 then s.writeHeader id k else (s, 0)
  let msg := r.1.msg_list id
  if msg.nhdr = 0 ∧ msg.nbl > 0 then r.1.writeBody id k' else r

/-- The test of the loop of `do_send`. -/
def Continues (s : SendState) (l : SendLoop) : Prop := l.m > 0 ∧ (s.msg_list l.msg).nleft > 0

/-- One pass of the loop of `do_send`. The first time nothing is written it tries once more. -/
def sendPass (l : SendLoop) (k k' : ℕ) (s : SendState) : SendState :=
  let r := s.writeMsg l.msg k k'
  { r.1 with
    loop := some (if r.2 = 0 ∧ l.cat_nap then { l with m := 1, cat_nap := false }
      else { l with m := r.2, cat_nap := true }) }

/-- The start of `do_send`. -/
def startSend (s : SendState) : SendState :=
  { s with loop := s.send_q.head?.map fun id => ⟨id, 1, true⟩ }

/-- The end of `do_send`: a finished entry is detached and, if `MP_Wait` has left it to the engine,
marked as free. Then the next entry is sent. -/
def finishSend (l : SendLoop) (s : SendState) : SendState :=
  let msg := s.msg_list l.msg
  if msg.nleft > 0 then { s with wactive := true, loop := none }
  else
    let s := { s with send_q := s.send_q.tail }
    let s := if msg.send_flag = 3 then s.setEntry l.msg { msg with buffer := 0, buf := 0 }
      else if msg.send_flag = 4 then s.setEntry l.msg { msg with buf := 0 } else s
    if s.send_q = [] then { s with wactive := false, loop := none } else s.startSend

/-- `MP_ASend` up to `do_send`: entry `id` is taken and posted, and the send starts if none is in
progress. -/
def asend (myproc dest : ℤ) (id buf : ℕ) (nbytes : ℕ) (tag : ℤ) (s : SendState) : SendState :=
  let msg := MsgEntry.create myproc buf nbytes myproc dest tag
  let s := { s.setEntry id msg with
    mid := id
    send_q := s.send_q ++ [id]
    posted := s.posted ++ [msg.header ++ bytesAt s.mem buf nbytes]
    outstanding := s.outstanding ++ [id] }
  if s.wactive then s else s.startSend

/-- `push_to_buffer`, where `malloc` returns `a`. -/
def pushToBuffer (id a : ℕ) (s : SendState) : SendState :=
  let msg := s.msg_list id
  let s := if msg.nbl > 0 then
      { s.setEntry id { msg with buffer := a, ptr := a } with
        mem := fun x => if a ≤ x ∧ x < a + msg.nbl.toNat then s.mem (msg.ptr + (x - a))
          else s.mem x }
    else s
  s.setEntry id { s.msg_list id with send_flag := 3 }

/-- The end of `MP_Wait`. -/
def leaveWait (id : ℕ) (s : SendState) : SendState :=
  let msg := s.msg_list id
  { (if msg.send_flag ≠ 3 then s.setEntry id { msg with buf := 0 } else s) with
    user := .outside
    outstanding := s.outstanding.erase id }

/-- An address that neither the user nor `malloc` may hand out for writing: a buffer the user has
not waited for, or the part still unsent of a private copy. -/
def Busy (s : SendState) (x : ℕ) : Prop :=
  (∃ id ∈ s.outstanding, (s.msg_list id).buf ≤ x ∧
    x < (s.msg_list id).buf + (s.msg_list id).nbytes.toNat) ∨
  ∃ id ∈ s.send_q, (s.msg_list id).send_flag = 3 ∧ (s.msg_list id).ptr ≤ x ∧
    x < (s.msg_list id).ptr + (s.msg_list id).nbl.toNat

instance (s : SendState) (x : ℕ) : Decidable (s.Busy x) := inferInstanceAs (Decidable (_ ∨ _))

/-- A step of the process. The calls of the user and the signal handler wait for `do_send` to end. -/
inductive Step (maxMsgs : ℕ) (myproc dest : ℕ) : SendState → SendState → Prop where
  | asend (s : SendState) (id buf nbytes : ℕ) (tag : ℤ) (hloop : s.loop = none)
      (huser : s.user = .outside) (hbuf : buf ≠ 0)
      (hid : findEntry maxMsgs s.mid s.msg_list = some id) :
      Step maxMsgs myproc dest s (s.asend myproc dest id buf nbytes tag)
  | wait (s : SendState) (id : ℕ) (hloop : s.loop = none) (huser : s.user = .outside)
      (hid : id ∈ s.outstanding) : Step maxMsgs myproc dest s { s with user := .testing id }
  | waitDone (s : SendState) (id : ℕ) (hloop : s.loop = none) (huser : s.user = .testing id)
      (hdone : (s.msg_list id).nleft = 0) :
      Step maxMsgs myproc dest s { s with user := .leaving id }
  | waitPush (s : SendState) (id : ℕ) (hloop : s.loop = none) (huser : s.user = .testing id)
      (hleft : (s.msg_list id).nleft ≠ 0) (hflag : (s.msg_list id).send_flag = 1) :
      Step maxMsgs myproc dest s { s with user := .pushing id }
  | push (s : SendState) (id a : ℕ) (hloop : s.loop = none) (huser : s.user = .pushing id)
      (ha : ∀ i < (s.msg_list id).nbl.toNat, ¬ s.Busy (a + i)) :
      Step maxMsgs myproc dest s { s.pushToBuffer id a with user := .leaving id }
  | leave (s : SendState) (id : ℕ) (hloop : s.loop = none) (huser : s.user = .leaving id) :
      Step maxMsgs myproc dest s (s.leaveWait id)
  | store (s : SendState) (x : ℕ) (v : UInt8) (hloop : s.loop = none) (huser : s.user = .outside)
      (hx : ¬ s.Busy x) : Step maxMsgs myproc dest s { s with mem := Function.update s.mem x v }
  | signal (s : SendState) (hloop : s.loop = none) (hactive : s.wactive = true) :
      Step maxMsgs myproc dest s s.startSend
  | pass (s : SendState) (l : SendLoop) (k k' : ℕ) (hloop : s.loop = some l)
      (hgo : s.Continues l) : Step maxMsgs myproc dest s (s.sendPass l k k')
  | finish (s : SendState) (l : SendLoop) (hloop : s.loop = some l) (hstop : ¬ s.Continues l) :
      Step maxMsgs myproc dest s (s.finishSend l)

/-- The state after `MP_Init`. -/
def init (mem : ℕ → UInt8) : SendState where
  msg_list _ := msgNull
  mid := 0
  send_q := []
  wactive := false
  mem := mem
  user := .outside
  loop := none
  written := []
  posted := []
  outstanding := []

end SendState

end NetPipe.MpLite
