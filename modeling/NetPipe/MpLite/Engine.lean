import NetPipe.MpLite.Message

/-!
# The TCP engine of MP_Lite

A process with all its sends and receives: `MP_ASend`, `MP_ARecv`, `MP_Wait` and the signal handler
with `do_send`, `do_recv`, `check_header` and `recv_from_q`, for two-sided messages on one interface.
While a function of the engine runs signals are blocked; bytes may arrive at any time.
-/

namespace NetPipe.MpLite

/-! ### Headers that arrive -/

/-- An `int` from its bytes. -/
def int32 (bytes : List UInt8) : ℤ :=
  let x : ℕ := bytes.foldr (fun b x => b.toNat + 256 * x) 0
  if x < 2 ^ 31 then x else x - 2 ^ 32

/-- The fields of `struct MP_msg_header` that two-sided messages use. -/
structure Header where
  nbytes : ℤ
  src : ℤ
  tag : ℤ
  deriving DecidableEq, Repr

/-- A header from its bytes. -/
def parseHeader (bytes : List UInt8) : Header :=
  ⟨int32 (bytes.take 4), int32 ((bytes.drop 4).take 4), int32 ((bytes.drop 8).take 4)⟩

namespace MsgEntry

/-- The test of `check_header` and `recv_from_q`: a posted receive accepts a message. -/
def Fits (nbytes tag : ℤ) (msg : MsgEntry) : Prop :=
  nbytes ≤ msg.nbytes ∧ (msg.tag < 0 ∨ tag = msg.tag)

instance (nbytes tag : ℤ) (msg : MsgEntry) : Decidable (msg.Fits nbytes tag) :=
  inferInstanceAs (Decidable (_ ∧ _))

/-- The header was read: its bytes are not counted any more. -/
def skipHeader (msg : MsgEntry) : MsgEntry := { msg with nhdr := 0, nleft := msg.nleft - hdrSize }

/-- The header was that of another message: it has still to be read. -/
def resetHeader (msg : MsgEntry) : MsgEntry :=
  { msg with nhdr := hdrSize, nleft := msg.nbytes + hdrSize, phdr := 0 }

/-- `recv_from_q` for a message `p` of `msg_q[tsrc]`, complete or not. -/
def takeOver (tsrc : ℤ) (msg p : MsgEntry) : MsgEntry :=
  let msg := msg.setMessage p.nbytes tsrc p.tag
  if p.nleft = 0 then { msg with nleft := 0, nhdr := 0 }
  else { msg with
    nhdr := 0
    nleft := p.nleft
    mtu := p.mtu
    nbl := p.nbl
    ptr := msg.ptr + (msg.nbl - p.nbl).toNat }

/-- `do_send` marks an entry as free if nobody will wait for it. -/
def detach (msg : MsgEntry) : MsgEntry :=
  if msg.send_flag = 3 then { msg with buffer := 0, buf := 0 }
  else if msg.send_flag = 4 then { msg with buf := 0 }
  else msg

/-- `write_msg`, where the socket takes at most `k` header bytes and `k'` bytes of the body. The
result is the entry and the number of bytes of the last `write`. -/
def write (k k' : ℕ) (msg : MsgEntry) : MsgEntry × ℕ :=
  let r := if msg.nhdr ≠ 0 then (msg.updateProgress (min k msg.nhdr), min k msg.nhdr) else (msg, 0)
  if r.1.nhdr = 0 ∧ r.1.nbl > 0 then
    let n := min k' (min r.1.nbl r.1.mtu).toNat
    (r.1.updateProgress n, n)
  else r

end MsgEntry

/-! ### States -/

/-- The function of the engine that runs next, with its variables. -/
inductive Call where
  /-- `tcp_arecv` -/
  | arecv (id : ℕ)
  /-- `tcp_asend` -/
  | asend (id : ℕ)
  | sendToQ (id : ℕ)
  /-- `recv_from_q` in `MP_Wait`, for a message to the process itself -/
  | recvFromSelf (id : ℕ)
  /-- the loops of the signal handler over the active sends and receives, and over the sockets if a
  receive from any source is posted -/
  | serviceSend (node : ℤ)
  | serviceRecv (node : ℤ)
  | peek (node : ℤ)
  | doSend (dest : ℤ)
  /-- the loop of `do_send` for `msg`, where `m` bytes were written last -/
  | sendLoop (dest : ℤ) (msg m : ℕ) (cat_nap : Bool)
  | doRecv (src : ℤ)
  /-- the loop of `do_recv` for `msg`, where `m` bytes were read last -/
  | recvLoop (src : ℤ) (msg m : ℕ)
  /-- `check_header` in `read_msg`, where the last `read` has returned `n` -/
  | checkHeader (src : ℤ) (msg n : ℕ)
  /-- the body in `read_msg`, which now reads for `cur` -/
  | readBody (src : ℤ) (msg cur n : ℕ)
  deriving DecidableEq, Repr

/-- Where the user's program is: outside the library or in `MP_Wait`. At the end of `MP_Wait`,
`complete` says whether the message was complete or left to the engine. -/
inductive WaitPoint where
  | outside
  | testing (id : ℕ)
  | pushing (id : ℕ)
  | blocking (id : ℕ)
  | receiving (id : ℕ)
  | leaving (id : ℕ) (complete : Bool)
  /-- `MP_Wait` was called for an entry that is free -/
  | aborted
  deriving DecidableEq, Repr

/-- What a byte of the socket was read as, and at which offset of the header or the buffer. -/
inductive Role where
  | header (offset : ℕ) (byte : UInt8)
  | body (offset : ℕ) (byte : UInt8)
  deriving DecidableEq, Repr

/-- What happens to the receives and messages of a source, which are named by their entry and how
often it was set up. -/
inductive MatchEvent where
  /-- a receive finds no message and is posted -/
  | posted (r : ℕ × ℕ) (nbytes tag : ℤ)
  /-- a receive takes the message `x` of `msg_q` -/
  | found (r : ℕ × ℕ) (nbytes tag : ℤ) (x : ℕ × ℕ)
  /-- the header of the next message goes to a posted receive -/
  | taken (r : ℕ × ℕ) (h : Header)
  /-- or the message is put into `msg_q` -/
  | buffered (x : ℕ × ℕ) (h : Header)
  deriving DecidableEq, Repr

/-- The state of a process. The queues are lists of entries. -/
structure Engine where
  msg_list : ℕ → MsgEntry
  mid : ℕ
  send_q : ℤ → List ℕ
  recv_q : ℤ → List ℕ
  msg_q : ℤ → List ℕ
  wactive : ℤ → Bool
  ractive : ℤ → Bool
  /-- the header bytes from each source that were read last -/
  hdr : ℤ → List UInt8
  /-- the bytes that have arrived and are not read yet -/
  sock : ℤ → List UInt8
  mem : ℕ → UInt8
  calls : List Call
  user : WaitPoint
  /-- how often each entry was set up -/
  gen : ℕ → ℕ
  /-- the messages the user has not waited for, by entry and `gen` -/
  handles : List (ℕ × ℕ)
  /-- all bytes that have arrived -/
  arrived : ℤ → List UInt8
  /-- what the bytes were read as -/
  log : ℤ → List Role
  trace : ℤ → List MatchEvent

namespace Engine

/-- Change an entry. -/
def setEntry (s : Engine) (id : ℕ) (msg : MsgEntry) : Engine :=
  { s with msg_list := Function.update s.msg_list id msg }

/-- The name of the message or receive in an entry. -/
def name (s : Engine) (id : ℕ) : ℕ × ℕ := (id, s.gen id)

/-- An entry is in a queue. -/
def Linked (s : Engine) (id : ℕ) : Prop :=
  ∃ i, id ∈ s.send_q i ∨ id ∈ s.recv_q i ∨ id ∈ s.msg_q i

/-- The entries after `id`: what `msg->next` leads to. If `id` has left the queue this may be
anything. -/
def next (id : ℕ) (l stale : List ℕ) : List ℕ :=
  if id ∈ l then (l.dropWhile (· ≠ id)).tail else stale

/-- A queue after an entry of it was set up anew, which clears its `next`. -/
def cut (id : ℕ) (l : List ℕ) : List ℕ := if id ∈ l then l.takeWhile (· ≠ id) ++ [id] else l

/-- `create_msg_entry` for the free entry `id`. -/
def create (myproc : ℤ) (id buf : ℕ) (nbytes src dest tag : ℤ) (s : Engine) : Engine :=
  { s with
    msg_list := Function.update s.msg_list id (.create myproc buf nbytes src dest tag)
    mid := id
    send_q := fun i => cut id (s.send_q i)
    recv_q := fun i => cut id (s.recv_q i)
    msg_q := fun i => cut id (s.msg_q i)
    gen := Function.update s.gen id (s.gen id + 1) }

/-! ### Matching with buffered messages -/

/-- The queues that `recv_from_q` searches. -/
def sources (nprocs : ℕ) (src : ℤ) : List ℤ :=
  if src < 0 then (List.range nprocs).map fun i : ℕ => (i : ℤ) else [src]

/-- The message of `msg_q` that `recv_from_q` finds for a receive, and its source. -/
def findBuffered (nprocs : ℕ) (s : Engine) (msg : MsgEntry) : Option (ℤ × ℕ) :=
  (sources nprocs msg.src).findSome? fun t =>
    ((s.msg_q t).find? fun p => (s.msg_list p).nhdr = 0 ∧
      msg.Fits (s.msg_list p).nbytes (s.msg_list p).tag).map fun p => (t, p)

/-- `recv_from_q`, when it has found `p` in `msg_q[tsrc]`. The message is copied, and if it is not
complete the receive goes to the head of `recv_q` in its place. -/
def takeBuffered (id : ℕ) (tsrc : ℤ) (p : ℕ) (stale : List ℕ) (s : Engine) : Engine :=
  let msg := s.msg_list id
  let p' := s.msg_list p
  let n := if p'.nleft = 0 then p'.nbytes.toNat else (p'.nbytes - p'.nbl).toNat
  { s with
    msg_list := Function.update (Function.update s.msg_list id (msg.takeOver tsrc p')) p
      { p' with buf := 0 }
    recv_q := if p'.nleft = 0 then s.recv_q
      else Function.update s.recv_q tsrc (id :: next p (s.recv_q tsrc) stale)
    msg_q := Function.update s.msg_q tsrc ((s.msg_q tsrc).erase p)
    mem := fun x => if msg.buf ≤ x ∧ x < msg.buf + n then s.mem (p'.buf + (x - msg.buf)) else s.mem x
    trace := Function.update s.trace tsrc
      (s.trace tsrc ++ [.found (s.name id) msg.nbytes msg.tag (s.name p)]) }

/-! ### Sends -/

/-- The test of the loop of `do_send` or `do_recv`. -/
def Continues (s : Engine) (msg m : ℕ) : Prop := m > 0 ∧ (s.msg_list msg).nleft > 0

instance (s : Engine) (msg m : ℕ) : Decidable (s.Continues msg m) :=
  inferInstanceAs (Decidable (_ ∧ _))

/-- `tcp_asend`. -/
def asend (id : ℕ) (cs : List Call) (s : Engine) : Engine :=
  let dest := (s.msg_list id).dest
  { s with
    send_q := Function.update s.send_q dest (s.send_q dest ++ [id])
    calls := if s.wactive dest then cs else .doSend dest :: cs }

/-- `send_to_q`, where `malloc` returns `a`. -/
def sendToQ (id a : ℕ) (cs : List Call) (s : Engine) : Engine :=
  let msg := s.msg_list id
  { s with
    msg_list := Function.update s.msg_list id
      { msg with buf := a, nleft := 0, nhdr := 0, send_flag := 3 }
    mem := fun x => if a ≤ x ∧ x < a + msg.nbytes.toNat then s.mem (msg.buf + (x - a)) else s.mem x
    msg_q := Function.update s.msg_q msg.src (s.msg_q msg.src ++ [id])
    calls := cs }

/-- One pass of the loop of `do_send`. The first time nothing is written it tries once more. -/
def sendPass (dest : ℤ) (id : ℕ) (cat_nap : Bool) (k k' : ℕ) (cs : List Call) (s : Engine) :
    Engine :=
  let r := (s.msg_list id).write k k'
  { s.setEntry id r.1 with
    calls := (if r.2 = 0 ∧ cat_nap then .sendLoop dest id 1 false
      else .sendLoop dest id r.2 true) :: cs }

/-- The end of `do_send`. -/
def finishSend (dest : ℤ) (id : ℕ) (cs : List Call) (s : Engine) : Engine :=
  let msg := s.msg_list id
  if msg.nleft > 0 then { s with wactive := Function.update s.wactive dest true, calls := cs }
  else
    let q := (s.send_q dest).tail
    { s with
      send_q := Function.update s.send_q dest q
      msg_list := Function.update s.msg_list id msg.detach
      wactive := if q = [] then Function.update s.wactive dest false else s.wactive
      calls := if q = [] then cs else .doSend dest :: cs }

/-! ### Receives -/

/-- The calls of the signal handler. -/
def handlerCalls (nprocs : ℕ) (myproc : ℤ) : List Call :=
  let nodes := ((List.range nprocs).map fun i : ℕ => (i : ℤ)).filter (· ≠ myproc)
  nodes.map .serviceSend ++ nodes.map .serviceRecv ++ nodes.map .peek

/-- `tcp_arecv`, when `recv_from_q` has found nothing. -/
def postRecv (nprocs : ℕ) (myproc : ℤ) (id : ℕ) (cs : List Call) (s : Engine) : Engine :=
  let msg := s.msg_list id
  { s with
    recv_q := Function.update s.recv_q msg.src (s.recv_q msg.src ++ [id])
    trace := Function.update s.trace msg.src
      (s.trace msg.src ++ [.posted (s.name id) msg.nbytes msg.tag])
    calls := if msg.src < 0 then handlerCalls nprocs myproc ++ cs
      else if s.ractive msg.src then cs else .doRecv msg.src :: cs }

/-- A `read` of the next header bytes. -/
def readHeader (src : ℤ) (id : ℕ) (cs : List Call) (s : Engine) : Engine :=
  let msg := s.msg_list id
  let bytes := (s.sock src).take msg.nhdr
  let msg' := msg.updateProgress bytes.length
  { s.setEntry id msg' with
    hdr := Function.update s.hdr src ((s.hdr src).take msg.phdr ++ bytes)
    sock := Function.update s.sock src ((s.sock src).drop msg.nhdr)
    log := Function.update s.log src
      (s.log src ++ bytes.mapIdx fun i b => .header (msg.phdr + i) b)
    calls := (if msg'.nhdr = 0 then .checkHeader src id bytes.length
      else .recvLoop src id bytes.length) :: cs }

/-- `check_header`, if the header is that of the current message. -/
def matchHeader (src : ℤ) (id n : ℕ) (cs : List Call) (s : Engine) : Engine :=
  let h := parseHeader (s.hdr src)
  { s.setEntry id ((s.msg_list id).setMessage h.nbytes h.src h.tag).skipHeader with
    trace := Function.update s.trace src (s.trace src ++ [.taken (s.name id) h])
    calls := .readBody src id id n :: cs }

/-- `check_header`, if the header is that of the message `p` of `recv_q`. -/
def redirect (src : ℤ) (id p n : ℕ) (cs : List Call) (s : Engine) : Engine :=
  let h := parseHeader (s.hdr src)
  let s := s.setEntry id (s.msg_list id).resetHeader
  { s.setEntry p (s.msg_list p).skipHeader with
    recv_q := Function.update s.recv_q src (p :: (s.recv_q src).erase p)
    trace := Function.update s.trace src (s.trace src ++ [.taken (s.name p) h])
    calls := .readBody src id p n :: cs }

/-- `check_header`, if nobody waits for the message: it goes to the new entry `new`, for which
`malloc` has returned `a`. -/
def pushUnexpected (myproc src : ℤ) (id new a n : ℕ) (cs : List Call) (s : Engine) : Engine :=
  let h := parseHeader (s.hdr src)
  let s := (s.setEntry id (s.msg_list id).resetHeader).create myproc new a h.nbytes h.src (-1) h.tag
  { s.setEntry new (s.msg_list new).skipHeader with
    recv_q := Function.update s.recv_q src (new :: s.recv_q src)
    msg_q := Function.update s.msg_q h.src (s.msg_q h.src ++ [new])
    trace := Function.update s.trace src (s.trace src ++ [.buffered (s.name new) h])
    calls := .readBody src id new n :: cs }

/-- A `read` of the next bytes of the body of `cur`. -/
def readBody (src : ℤ) (id cur n : ℕ) (cs : List Call) (s : Engine) : Engine :=
  let msg := s.msg_list cur
  if msg.nhdr = 0 ∧ msg.nbl > 0 then
    let bytes := (s.sock src).take msg.nbl.toNat
    { s.setEntry cur (msg.updateProgress bytes.length) with
      sock := Function.update s.sock src ((s.sock src).drop msg.nbl.toNat)
      mem := fun x => if msg.ptr ≤ x ∧ x < msg.ptr + bytes.length then
        bytes.getD (x - msg.ptr) 0 else s.mem x
      log := Function.update s.log src
        (s.log src ++ bytes.mapIdx fun i b => .body (msg.ptr - msg.buf + i) b)
      calls := .recvLoop src id bytes.length :: cs }
  else { s with calls := .recvLoop src id n :: cs }

/-- The end of `do_recv`. -/
def finishRecv (src : ℤ) (id : ℕ) (stale : List ℕ) (cs : List Call) (s : Engine) : Engine :=
  let msg := s.msg_list id
  if msg.nleft > 0 then { s with ractive := Function.update s.ractive src true, calls := cs }
  else
    let q := if msg.nleft = 0 then next id (s.recv_q src) stale else s.recv_q src
    { s with
      recv_q := Function.update s.recv_q src q
      ractive := if q = [] then Function.update s.ractive src false else s.ractive
      calls := if q = [] then cs else .doRecv src :: cs }

/-- The signal handler, if the header `h` that has come from `node` is that of the message `p` of
`recv_q[-1]`. -/
def takeAnySource (node : ℤ) (p : ℕ) (h : Header) (cs : List Call) (s : Engine) : Engine :=
  { s.setEntry p ((s.msg_list p).setMessage h.nbytes node h.tag) with
    recv_q := Function.update (Function.update s.recv_q (-1) ((s.recv_q (-1)).erase p)) node
      (p :: s.recv_q node)
    ractive := Function.update s.ractive node true
    calls := .doRecv node :: .peek node :: cs }

/-- The signal handler, if no receive from any source accepts the message. -/
def bufferAnySource (myproc node : ℤ) (new a : ℕ) (h : Header) (cs : List Call) (s : Engine) :
    Engine :=
  let s := s.create myproc new a h.nbytes node (-1) h.tag
  { s.setEntry new { s.msg_list new with recv_flag := 2 } with
    msg_q := Function.update s.msg_q node (s.msg_q node ++ [new])
    recv_q := Function.update s.recv_q node (s.recv_q node ++ [new])
    calls := .doRecv node :: .peek node :: cs }

/-! ### The user -/

/-- `push_to_buffer`, where `malloc` returns `a`. -/
def pushToBuffer (id a : ℕ) (s : Engine) : Engine :=
  let msg := s.msg_list id
  { s.setEntry id (if msg.nbl > 0 then { msg with buffer := a, ptr := a, send_flag := 3 }
      else { msg with send_flag := 3 }) with
    mem := fun x => if msg.nbl > 0 ∧ a ≤ x ∧ x < a + msg.nbl.toNat then s.mem (msg.ptr + (x - a))
      else s.mem x }

/-- The end of `MP_Wait`. -/
def leaveWait (id : ℕ) (s : Engine) : Engine :=
  let msg := s.msg_list id
  { (if msg.send_flag ≠ 3 then s.setEntry id { msg with buf := 0 } else s) with
    user := .outside
    handles := s.handles.eraseP (·.1 = id) }

/-- The calls that `MP_ASend` and `MP_ARecv` end with. -/
def start (id : ℕ) (cs : List Call) (s : Engine) : Engine :=
  { s with calls := cs, handles := s.handles ++ [s.name id] }

/-! ### Steps -/

/-- A step of the process. The size of a message is not negative, and `malloc` does not fail. -/
inductive Step (nprocs maxMsgs : ℕ) (myproc : ℤ) : Engine → Engine → Prop where
  /-- bytes arrive -/
  | arrive (s : Engine) (src : ℤ) (bytes : List UInt8) :
      Step nprocs maxMsgs myproc s { s with
        sock := Function.update s.sock src (s.sock src ++ bytes)
        arrived := Function.update s.arrived src (s.arrived src ++ bytes) }
  /-- the signal handler starts -/
  | signal (s : Engine) (hcalls : s.calls = []) (huser : s.user ≠ .aborted) :
      Step nprocs maxMsgs myproc s { s with calls := handlerCalls nprocs myproc }
  /-- `MP_ASend` -/
  | userSend (s : Engine) (id buf nbytes : ℕ) (dest tag : ℤ) (hcalls : s.calls = [])
      (huser : s.user = .outside) (hbuf : buf ≠ 0) (hdest : 0 ≤ dest ∧ dest < nprocs)
      (hid : findEntry maxMsgs s.mid s.msg_list = some id) :
      Step nprocs maxMsgs myproc s ((s.create myproc id buf nbytes myproc dest tag).start id
        [if dest = myproc then .sendToQ id else .asend id])
  /-- `MP_ARecv` -/
  | userRecv (s : Engine) (id buf nbytes : ℕ) (src tag : ℤ) (hcalls : s.calls = [])
      (huser : s.user = .outside) (hbuf : buf ≠ 0) (hsrc : -1 ≤ src ∧ src < nprocs)
      (hid : findEntry maxMsgs s.mid s.msg_list = some id) :
      Step nprocs maxMsgs myproc s ((s.create myproc id buf nbytes src (-1) tag).start id
        (if src = myproc then [] else [.arecv id]))
  /-- `MP_Wait` -/
  | wait (s : Engine) (id : ℕ) (hcalls : s.calls = []) (huser : s.user = .outside)
      (hid : id ∈ s.handles.map Prod.fst) (hbuf : (s.msg_list id).buf ≠ 0) :
      Step nprocs maxMsgs myproc s { s with user := .testing id }
  | waitNull (s : Engine) (id : ℕ) (hcalls : s.calls = []) (huser : s.user = .outside)
      (hid : id ∈ s.handles.map Prod.fst) (hbuf : (s.msg_list id).buf = 0) :
      Step nprocs maxMsgs myproc s { s with user := .aborted }
  | waitDone (s : Engine) (id : ℕ) (hcalls : s.calls = []) (huser : s.user = .testing id)
      (hdone : (s.msg_list id).nleft = 0) :
      Step nprocs maxMsgs myproc s { s with user := .leaving id true }
  | waitPush (s : Engine) (id : ℕ) (hcalls : s.calls = []) (huser : s.user = .testing id)
      (hleft : (s.msg_list id).nleft ≠ 0) (hflag : (s.msg_list id).send_flag = 1) :
      Step nprocs maxMsgs myproc s { s with user := .pushing id }
  | waitSelf (s : Engine) (id : ℕ) (hcalls : s.calls = []) (huser : s.user = .testing id)
      (hleft : (s.msg_list id).nleft ≠ 0) (hflag : (s.msg_list id).send_flag ≠ 1)
      (hsrc : (s.msg_list id).src = myproc) :
      Step nprocs maxMsgs myproc s { s with user := .receiving id, calls := [.recvFromSelf id] }
  | waitBlock (s : Engine) (id : ℕ) (hcalls : s.calls = []) (huser : s.user = .testing id)
      (hleft : (s.msg_list id).nleft ≠ 0) (hflag : (s.msg_list id).send_flag ≠ 1)
      (hsrc : (s.msg_list id).src ≠ myproc) :
      Step nprocs maxMsgs myproc s { s with user := .blocking id }
  | blockDone (s : Engine) (id : ℕ) (hcalls : s.calls = []) (huser : s.user = .blocking id)
      (hdone : (s.msg_list id).nleft = 0) :
      Step nprocs maxMsgs myproc s { s with user := .leaving id true }
  | push (s : Engine) (id a : ℕ) (hcalls : s.calls = []) (huser : s.user = .pushing id)
      (ha : a ≠ 0) :
      Step nprocs maxMsgs myproc s { s.pushToBuffer id a with user := .leaving id true }
  | leave (s : Engine) (id : ℕ) (c : Bool) (hcalls : s.calls = []) (huser : s.user = .leaving id c) :
      Step nprocs maxMsgs myproc s (s.leaveWait id)
  -- the functions of the engine
  | asend (s : Engine) (id : ℕ) (cs : List Call) (hcalls : s.calls = .asend id :: cs) :
      Step nprocs maxMsgs myproc s (s.asend id cs)
  | sendToQ (s : Engine) (id a : ℕ) (cs : List Call) (hcalls : s.calls = .sendToQ id :: cs)
      (ha : a ≠ 0) : Step nprocs maxMsgs myproc s (s.sendToQ id a cs)
  | arecvFound (s : Engine) (id : ℕ) (cs : List Call) (t : ℤ) (p : ℕ) (stale : List ℕ)
      (hcalls : s.calls = .arecv id :: cs)
      (hp : findBuffered nprocs s (s.msg_list id) = some (t, p)) :
      Step nprocs maxMsgs myproc s { s.takeBuffered id t p stale with calls := cs }
  | arecvPost (s : Engine) (id : ℕ) (cs : List Call) (hcalls : s.calls = .arecv id :: cs)
      (hp : findBuffered nprocs s (s.msg_list id) = none) :
      Step nprocs maxMsgs myproc s (s.postRecv nprocs myproc id cs)
  | selfFound (s : Engine) (id : ℕ) (cs : List Call) (t : ℤ) (p : ℕ) (stale : List ℕ)
      (hcalls : s.calls = .recvFromSelf id :: cs)
      (hp : findBuffered nprocs s (s.msg_list id) = some (t, p)) :
      Step nprocs maxMsgs myproc s { s.takeBuffered id t p stale with
        calls := cs
        user := .leaving id (decide ((s.msg_list p).nleft = 0)) }
  | selfEmpty (s : Engine) (id : ℕ) (cs : List Call) (hcalls : s.calls = .recvFromSelf id :: cs)
      (hsrc : 0 ≤ (s.msg_list id).src) (hp : s.msg_q (s.msg_list id).src = []) :
      Step nprocs maxMsgs myproc s { s with calls := cs, user := .leaving id false }
  | serviceSend (s : Engine) (node : ℤ) (cs : List Call) (hcalls : s.calls = .serviceSend node :: cs) :
      Step nprocs maxMsgs myproc s
        { s with calls := if s.wactive node then .doSend node :: cs else cs }
  | serviceRecv (s : Engine) (node : ℤ) (cs : List Call) (hcalls : s.calls = .serviceRecv node :: cs) :
      Step nprocs maxMsgs myproc s
        { s with calls := if s.ractive node then .doRecv node :: cs else cs }
  | peekNothing (s : Engine) (node : ℤ) (cs : List Call) (hcalls : s.calls = .peek node :: cs)
      (hp : s.recv_q (-1) = [] ∨ s.ractive node ∨ (s.sock node).length < hdrSize) :
      Step nprocs maxMsgs myproc s { s with calls := cs }
  | peekFound (s : Engine) (node : ℤ) (p : ℕ) (cs : List Call) (hcalls : s.calls = .peek node :: cs)
      (hactive : ¬ s.ractive node) (hsock : hdrSize ≤ (s.sock node).length)
      (hp : (s.recv_q (-1)).find? (fun p => (s.msg_list p).Fits
        (parseHeader (s.sock node)).nbytes (parseHeader (s.sock node)).tag) = some p)
      (hnbytes : 0 ≤ (parseHeader (s.sock node)).nbytes) :
      Step nprocs maxMsgs myproc s (s.takeAnySource node p (parseHeader (s.sock node)) cs)
  | peekBuffer (s : Engine) (node : ℤ) (new a : ℕ) (cs : List Call)
      (hcalls : s.calls = .peek node :: cs) (hrecv : s.recv_q (-1) ≠ [])
      (hactive : ¬ s.ractive node) (hsock : hdrSize ≤ (s.sock node).length)
      (hp : (s.recv_q (-1)).find? (fun p => (s.msg_list p).Fits
        (parseHeader (s.sock node)).nbytes (parseHeader (s.sock node)).tag) = none)
      (hnbytes : 0 ≤ (parseHeader (s.sock node)).nbytes) (ha : a ≠ 0)
      (hnew : findEntry maxMsgs s.mid s.msg_list = some new) :
      Step nprocs maxMsgs myproc s (s.bufferAnySource myproc node new a (parseHeader (s.sock node)) cs)
  | doSend (s : Engine) (dest : ℤ) (id : ℕ) (cs : List Call) (hcalls : s.calls = .doSend dest :: cs)
      (hid : (s.send_q dest).head? = some id) :
      Step nprocs maxMsgs myproc s { s with calls := .sendLoop dest id 1 true :: cs }
  | sendPass (s : Engine) (dest : ℤ) (id m : ℕ) (cat_nap : Bool) (k k' : ℕ) (cs : List Call)
      (hcalls : s.calls = .sendLoop dest id m cat_nap :: cs) (hgo : s.Continues id m) :
      Step nprocs maxMsgs myproc s (s.sendPass dest id cat_nap k k' cs)
  | finishSend (s : Engine) (dest : ℤ) (id m : ℕ) (cat_nap : Bool) (cs : List Call)
      (hcalls : s.calls = .sendLoop dest id m cat_nap :: cs) (hstop : ¬ s.Continues id m) :
      Step nprocs maxMsgs myproc s (s.finishSend dest id cs)
  | doRecvFound (s : Engine) (src : ℤ) (id : ℕ) (cs : List Call) (t : ℤ) (p : ℕ) (stale : List ℕ)
      (hcalls : s.calls = .doRecv src :: cs) (hid : (s.recv_q src).head? = some id)
      (hhdr : (s.msg_list id).nhdr ≠ 0) (hflag : (s.msg_list id).recv_flag ≠ 2)
      (hp : findBuffered nprocs s (s.msg_list id) = some (t, p)) :
      Step nprocs maxMsgs myproc s
        { s.takeBuffered id t p stale with calls := .recvLoop src id 1 :: cs }
  | doRecv (s : Engine) (src : ℤ) (id : ℕ) (cs : List Call) (hcalls : s.calls = .doRecv src :: cs)
      (hid : (s.recv_q src).head? = some id)
      (hp : (s.msg_list id).nhdr ≠ 0 → (s.msg_list id).recv_flag ≠ 2 →
        findBuffered nprocs s (s.msg_list id) = none) :
      Step nprocs maxMsgs myproc s { s with calls := .recvLoop src id 1 :: cs }
  | readHeader (s : Engine) (src : ℤ) (id m : ℕ) (cs : List Call)
      (hcalls : s.calls = .recvLoop src id m :: cs) (hgo : s.Continues id m)
      (hhdr : (s.msg_list id).nhdr ≠ 0) : Step nprocs maxMsgs myproc s (s.readHeader src id cs)
  | gotHeader (s : Engine) (src : ℤ) (id m : ℕ) (cs : List Call)
      (hcalls : s.calls = .recvLoop src id m :: cs) (hgo : s.Continues id m)
      (hhdr : (s.msg_list id).nhdr = 0) :
      Step nprocs maxMsgs myproc s { s with calls := .readBody src id id 0 :: cs }
  | matchHeader (s : Engine) (src : ℤ) (id n : ℕ) (cs : List Call)
      (hcalls : s.calls = .checkHeader src id n :: cs)
      (hfits : (s.msg_list id).Fits (parseHeader (s.hdr src)).nbytes (parseHeader (s.hdr src)).tag) :
      Step nprocs maxMsgs myproc s (s.matchHeader src id n cs)
  | redirect (s : Engine) (src : ℤ) (id p n : ℕ) (cs : List Call)
      (hcalls : s.calls = .checkHeader src id n :: cs)
      (hfits : ¬ (s.msg_list id).Fits (parseHeader (s.hdr src)).nbytes (parseHeader (s.hdr src)).tag)
      (hp : (s.recv_q src).find? (fun p => (s.msg_list p).Fits
        (parseHeader (s.hdr src)).nbytes (parseHeader (s.hdr src)).tag) = some p) :
      Step nprocs maxMsgs myproc s (s.redirect src id p n cs)
  | pushUnexpected (s : Engine) (src : ℤ) (id new a n : ℕ) (cs : List Call)
      (hcalls : s.calls = .checkHeader src id n :: cs)
      (hfits : ¬ (s.msg_list id).Fits (parseHeader (s.hdr src)).nbytes (parseHeader (s.hdr src)).tag)
      (hp : (s.recv_q src).find? (fun p => (s.msg_list p).Fits
        (parseHeader (s.hdr src)).nbytes (parseHeader (s.hdr src)).tag) = none)
      (hnbytes : 0 ≤ (parseHeader (s.hdr src)).nbytes) (ha : a ≠ 0)
      (hnew : findEntry maxMsgs s.mid s.msg_list = some new) :
      Step nprocs maxMsgs myproc s (s.pushUnexpected myproc src id new a n cs)
  | readBody (s : Engine) (src : ℤ) (id cur n : ℕ) (cs : List Call)
      (hcalls : s.calls = .readBody src id cur n :: cs) :
      Step nprocs maxMsgs myproc s (s.readBody src id cur n cs)
  | finishRecv (s : Engine) (src : ℤ) (id m : ℕ) (stale : List ℕ) (cs : List Call)
      (hcalls : s.calls = .recvLoop src id m :: cs) (hstop : ¬ s.Continues id m) :
      Step nprocs maxMsgs myproc s (s.finishRecv src id stale cs)

/-- The state after `MP_Init`. -/
def init (mem : ℕ → UInt8) : Engine where
  msg_list _ := msgNull
  mid := 0
  send_q _ := []
  recv_q _ := []
  msg_q _ := []
  wactive _ := false
  ractive _ := false
  hdr _ := []
  sock _ := []
  mem := mem
  calls := []
  user := .outside
  gen _ := 0
  handles := []
  arrived _ := []
  log _ := []
  trace _ := []

/-- A run in which all states from which a step is made satisfy `cond`. -/
def Run (nprocs maxMsgs : ℕ) (myproc : ℤ) (cond : Engine → Prop) : Engine → Engine → Prop :=
  Relation.ReflTransGen fun s s' => Step nprocs maxMsgs myproc s s' ∧ cond s

end Engine

end NetPipe.MpLite
