import NetPipe.MpLite.OsMessage

/-!
# The handlers of one-sided messages

`service_os_socket` with the functions that receive the messages: `recv_put_data`,
`recv_get_request`, `recv_get_reply_data`, `recv_accum_operation`, `recv_lock_request` and
`recv_active_target_sync`. A call goes on until a `read` has nothing left for it, and the rest of a
message is read by a later call. Sources are numbered by process; their sockets, headers and queues
are those at `nprocs` and above.
-/

namespace NetPipe.MpLite

/-- The state of the one-sided sockets. Bytes may arrive at any time, so `sock` holds all that will
still come and a `read` may return any number of them. -/
structure OsState where
  sock : ℕ → List UInt8
  hdr : ℕ → List UInt8
  recv_q : ℕ → Option OsEntry
  cells : Storage → ℕ → UInt8
  get_buf_addr_q : ℕ → List ℕ
  /-- the calls so far, of which the last one may be running -/
  calls : ℕ
  /-- the source of the call that is running, with its `m` -/
  running : Option (ℕ × ℕ)
  /-- `exit` or `errorx` was called -/
  stopped : Bool
  /-- the requests from each source that were acted on, with the bytes of their structures -/
  acted : ℕ → List (ℕ × List UInt8)
  /-- the bytes of the body read so far, for the message that is being received -/
  got : ℕ → List UInt8
  /-- the messages that were received, and where those with data began in memory -/
  completed : List (OsFrame × ℕ)

namespace OsState

/-- The header of the message from `b`. -/
def header (s : OsState) (b : ℕ) : OsHeader := parseOsHeader (s.hdr b)

/-- Set the entry of the message from `b`. -/
def setEntry (b : ℕ) (msg : Option OsEntry) (s : OsState) : OsState :=
  { s with recv_q := Function.update s.recv_q b msg }

/-- Write to an object. -/
def setCells (st : Storage) (m : ℕ → UInt8) (s : OsState) : OsState :=
  { s with cells := Function.update s.cells st m }

/-- The function acts on the structure of a request. -/
def act (b n : ℕ) (st : Storage) (s : OsState) : OsState :=
  { s with
    acted := Function.update s.acted b
      (s.acted b ++ [((s.header b).tag, bytesAt (s.cells st) 0 n)]) }

end OsState

open OsState

/-- What the six functions do differently: what they check first, the entry they create, what follows
a `read` of the body, and what follows the whole message. -/
structure Receiver where
  accepts : OsHeader → Bool
  entry : ℕ → OsState → OsEntry
  afterRead : FloatOps → ℕ → OsState → OsState
  finish : ℕ → OsState → OsState

/-- `recv_put_data`. -/
def recvPutData : Receiver where
  accepts _ := true
  entry b s :=
    let h := s.header b
    createOsMsgEntry h.dest_ptr (.memory, h.dest_ptr) h.nbytes h.src h.tag
  afterRead _ _ s := s
  finish _ s := s

/-- `recv_get_request`. The reply that it sends takes its address and length from `get_hdr`. -/
def recvGetRequest : Receiver where
  accepts h := h.nbytes = 16
  entry b s :=
    let h := s.header b
    createOsMsgEntry h.dest_ptr (.get_hdr, 0) h.nbytes h.src h.tag
  afterRead _ _ s := s
  finish b s := s.act b 16 .get_hdr

/-- `recv_get_reply_data`. -/
def recvGetReplyData : Receiver where
  accepts _ := true
  entry b s :=
    let h := s.header b
    createOsMsgEntry h.dest_ptr (.memory, (s.get_buf_addr_q h.src).headD 0) h.nbytes h.src h.tag
  afterRead _ _ s := s
  finish b s :=
    let real_src := (s.header b).src
    { s with
      get_buf_addr_q :=
        Function.update s.get_buf_addr_q real_src (s.get_buf_addr_q real_src).tail }

/-- The variable of `recv_accum_operation` for the elements of an operation. -/
def accumStorage (op : ℕ) : Storage :=
  if op % 3 = 1 then .idata else if op % 3 = 2 then .fdata else .ddata

/-- `recv_accum_operation`. -/
def recvAccumOperation : Receiver where
  accepts _ := true
  entry b s :=
    let h := s.header b
    { createOsMsgEntry h.dest_ptr (accumStorage (h.tag - 3), 0) h.nbytes h.src h.tag with
      nbl := accumSize (h.tag - 3) }
  afterRead fl b s :=
    match s.recv_q b with
    | none => s
    | some msg =>
      let op := (s.header b).tag - 3
      let bytes_per := accumSize op
      if msg.nbl = 0 then
        match doAccumOp fl msg.dest_ptr (bytesAt (s.cells msg.buf.1) msg.buf.2 bytes_per) op bytes_per
          (s.cells .memory) with
        | none => { s with stopped := true }
        | some m =>
          let s := s.setCells .memory m
          if msg.nleft > 0 then
            s.setEntry b (some { msg with
              nbl := bytes_per
              ptr := msg.buf
              dest_ptr := msg.dest_ptr + bytes_per })
          else s
      else s
  finish _ s := s

/-- `recv_lock_request`, up to `do_lock`. -/
def recvLockRequest : Receiver where
  accepts _ := true
  entry b s :=
    let h := s.header b
    createOsMsgEntry 0 (.lock_hdr, 0) h.nbytes h.src h.tag
  afterRead _ _ s := s
  finish b s := s.act b 16 .lock_hdr

/-- `recv_active_target_sync`, with the array of the call that is running. -/
def recvActiveTargetSync : Receiver where
  accepts _ := true
  entry b s :=
    let h := s.header b
    createOsMsgEntry 0 (.active_targ_hdr s.calls, 0) h.nbytes h.src h.tag
  afterRead _ _ s := s
  finish b s := s.act b 8 (.active_targ_hdr s.calls)

/-- The function that `service_os_socket` calls. With another tag it stops the program. -/
def receiver (tag : ℕ) : Option Receiver :=
  if tag = 0 then some recvPutData
  else if tag = 1 then some recvGetRequest
  else if tag = 2 then some recvGetReplyData
  else if tag > 2 ∧ tag < 15 then some recvAccumOperation
  else if tag = 15 then some recvLockRequest
  else if tag = 16 then some recvActiveTargetSync
  else none

namespace OsState

/-- `recv` with `MSG_PEEK` found a header. -/
def peek (b : ℕ) (s : OsState) : OsState :=
  { s with hdr := Function.update s.hdr b ((s.sock b).take hdrSize) }

/-- A new call: its array may hold anything. -/
def newCall (junk : ℕ → UInt8) (s : OsState) : OsState :=
  { s.setCells (.active_targ_hdr (s.calls + 1)) junk with calls := s.calls + 1 }

/-- `service_os_socket`, up to the loop of the function that it calls. -/
def service (b : ℕ) (junk : ℕ → UInt8) (s : OsState) : OsState :=
  let s := s.newCall junk
  match receiver (s.header b).tag with
  | none => { s with stopped := true }
  | some r =>
    if r.accepts (s.header b) then
      let s := match s.recv_q b with
        | none => s.setEntry b (some (r.entry b s))
        | some _ => s
      { s with running := some (b, 1) }
    else { s with stopped := true }

/-- `check_os_header`. -/
def checkOsHeader (b : ℕ) (msg : OsEntry) (s : OsState) : OsState :=
  let h := s.header b
  if msg.dest_ptr = h.dest_ptr ∧ msg.nbytes = h.nbytes ∧ msg.tag = h.tag then s
  else { s with stopped := true }

/-- `read` of `k` bytes of the header, which go to `hdr` behind those that were read before. -/
def readHeader (b k : ℕ) (msg : OsEntry) (s : OsState) : OsState :=
  let bytes := (s.sock b).take k
  let s := { s with
    sock := Function.update s.sock b ((s.sock b).drop k)
    hdr := Function.update s.hdr b
      ((s.hdr b).take msg.phdr ++ bytes ++ (s.hdr b).drop (msg.phdr + k))
    recv_q := Function.update s.recv_q b (some (msg.updateProgress k))
    running := some (b, k) }
  if k = msg.nhdr then s.checkOsHeader b (msg.updateProgress k) else s

/-- `read` of `k` bytes of the body. -/
def readBody (b k : ℕ) (msg : OsEntry) (s : OsState) : OsState :=
  let bytes := (s.sock b).take k
  { s with
    sock := Function.update s.sock b ((s.sock b).drop k)
    cells := Function.update s.cells msg.ptr.1 (storeBytes msg.ptr.2 bytes (s.cells msg.ptr.1))
    recv_q := Function.update s.recv_q b (some (msg.updateProgress k))
    running := some (b, k)
    got := Function.update s.got b (s.got b ++ bytes) }

/-- What the function of the message from `b` does after a `read` of the body. -/
def afterRead (fl : FloatOps) (b : ℕ) (s : OsState) : OsState :=
  match receiver (s.header b).tag with
  | none => s
  | some r => r.afterRead fl b s

/-- The function returns with a part of the message left. -/
def leave (s : OsState) : OsState := { s with running := none }

/-- The function has got all of the message. -/
def finish (b : ℕ) (msg : OsEntry) (s : OsState) : OsState :=
  let s := match receiver (s.header b).tag with
    | none => s
    | some r => r.finish b s
  { s with
    recv_q := Function.update s.recv_q b none
    running := none
    got := Function.update s.got b []
    completed := s.completed ++ [(⟨s.header b, s.got b⟩, msg.buf.2)] }

end OsState

/-! ### Steps -/

/-- What happens: `service_os_socket` is called for `b`, the call reads `k` bytes, it returns with a
part of the message left or with all of it, or `MP_AGet` notes its buffer. -/
inductive OsAct where
  | serve (b : ℕ)
  | header (b k : ℕ)
  | body (b k : ℕ)
  | leave (b : ℕ)
  | finish (b : ℕ)
  | aget (b addr : ℕ)

/-- A step. The loop of a function goes on while its last `read` has returned something and the
message is not complete. -/
inductive OsStep (fl : FloatOps) : OsState → OsAct → OsState → Prop where
  /-- `sigio_handler` goes on with a message -/
  | resume (s : OsState) (b : ℕ) (msg : OsEntry) (junk : ℕ → UInt8) (hstop : s.stopped = false)
      (hrun : s.running = none) (hmsg : s.recv_q b = some msg) :
      OsStep fl s (.serve b) (s.service b junk)
  /-- `sigio_handler`, or the function that has just received a message, finds the next one -/
  | peek (s : OsState) (b : ℕ) (junk : ℕ → UInt8) (hstop : s.stopped = false)
      (hrun : s.running = none) (hmsg : s.recv_q b = none) (hlen : hdrSize ≤ (s.sock b).length) :
      OsStep fl s (.serve b) ((s.peek b).service b junk)
  | header (s : OsState) (b k m : ℕ) (msg : OsEntry) (hstop : s.stopped = false)
      (hrun : s.running = some (b, m)) (hmsg : s.recv_q b = some msg) (hm : 0 < m)
      (hnhdr : 0 < msg.nhdr) (hk : k ≤ msg.nhdr) (hlen : k ≤ (s.sock b).length) :
      OsStep fl s (.header b k) (s.readHeader b k msg)
  | body (s : OsState) (b k m : ℕ) (msg : OsEntry) (hstop : s.stopped = false)
      (hrun : s.running = some (b, m)) (hmsg : s.recv_q b = some msg) (hm : 0 < m)
      (hleft : 0 < msg.nleft) (hnhdr : msg.nhdr = 0) (hk : k ≤ msg.nbl)
      (hlen : k ≤ (s.sock b).length) :
      OsStep fl s (.body b k) ((s.readBody b k msg).afterRead fl b)
  | leave (s : OsState) (b : ℕ) (msg : OsEntry) (hstop : s.stopped = false)
      (hrun : s.running = some (b, 0)) (hmsg : s.recv_q b = some msg) (hleft : 0 < msg.nleft) :
      OsStep fl s (.leave b) s.leave
  | finish (s : OsState) (b m : ℕ) (msg : OsEntry) (hstop : s.stopped = false)
      (hrun : s.running = some (b, m)) (hmsg : s.recv_q b = some msg) (hleft : msg.nleft = 0) :
      OsStep fl s (.finish b) (s.finish b msg)
  | aget (s : OsState) (b addr : ℕ) (hstop : s.stopped = false) (hrun : s.running = none) :
      OsStep fl s (.aget b addr)
        { s with
          get_buf_addr_q := Function.update s.get_buf_addr_q b (s.get_buf_addr_q b ++ [addr]) }

/-! ### Runs -/

/-- A message that the one-sided calls of process `b` send. -/
structure OsFrame.Valid (b : ℕ) (f : OsFrame) : Prop where
  src : f.header.src = b
  nbytes : f.header.nbytes = f.body.length
  pos : 0 < f.body.length
  nbytes_lt : f.header.nbytes < 256 ^ 4
  src_lt : b < 256 ^ 4
  dest_ptr_lt : f.header.dest_ptr < 256 ^ 8
  tag : f.header.tag ≤ 16
  get : f.header.tag = 1 → f.body.length = 16
  accum : 2 < f.header.tag → f.header.tag < 15 → accumSize (f.header.tag - 3) ∣ f.body.length
  lock : f.header.tag = 15 → f.body.length = 16 ∧ f.header.dest_ptr = 0
  sync : f.header.tag = 16 → f.body.length = 8 ∧ f.header.dest_ptr = 0

/-- What the processes send, each in its order, and the memory before. -/
structure Traffic where
  nprocs : ℕ
  frames : ℕ → List OsFrame
  frames_nil : ∀ b, nprocs ≤ b → frames b = []
  valid : ∀ b, ∀ f ∈ frames b, f.Valid b
  mem : ℕ → UInt8

/-- Before the first message. -/
def Traffic.init (t : Traffic) : OsState where
  sock b := (t.frames b).flatMap OsFrame.bytes
  hdr _ := []
  recv_q _ := none
  cells st := if st = .memory then t.mem else fun _ => 0
  get_buf_addr_q _ := []
  calls := 0
  running := none
  stopped := false
  acted _ := []
  got _ := []
  completed := []

/-- The states of the runs whose steps all meet a condition. -/
inductive OsReachable (fl : FloatOps) (t : Traffic) (cond : OsState → OsAct → Prop) :
    OsState → Prop where
  | init : OsReachable fl t cond t.init
  | step {s s' : OsState} {act : OsAct} (h : OsReachable fl t cond s) (hstep : OsStep fl s act s')
      (hcond : cond s act) : OsReachable fl t cond s'

end NetPipe.MpLite
