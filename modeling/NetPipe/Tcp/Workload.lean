import NetPipe.Tcp.Transfer

/-!
# Receiving while working

With `--workload` the data of a message is read by `TestForCompletion`, which `DoWork` calls between
two pieces of work. The probe moves the globals `r_ptr` and `bytesLeft` along, and `DoWork` sets them
before and behind its loop.
-/

namespace NetPipe.Tcp

open Transfers

/-- A process with the globals of the receive. -/
structure Recv where
  proc : Proc
  bytesLeft : ℤ
  r_ptr : ℤ

/-- `readOnce`, with the bytes it returns. -/
def readOnce (a : Answer) (s : Recv) : Except Failure (Recv × ℤ) :=
  let (p, result, errno) := sysRead a s.proc s.r_ptr s.bytesLeft
  let bytesRead := noBlock result errno
  if bytesRead < 0 then
    .error ⟨"%d read %d of %d", [p.myproc, p.buflen - s.bytesLeft, p.buflen]⟩
  else .ok (⟨p, s.bytesLeft - bytesRead, s.r_ptr + bytesRead⟩, bytesRead)

/-- `Module_TestForCompletion` -/
def testForCompletion (a : Answer) (s : Recv) : Except Failure (Recv × Bool) :=
  match readOnce a s with
  | .error e => .error e
  | .ok (s', _) => .ok (s', s'.bytesLeft = 0)

/-- The types of work. -/
inductive WorkType where
  | matrix
  | daxpy
  | memcpy
  | other
  deriving DecidableEq, Repr

/-- The arguments `type`, `nelem` and `count`. -/
structure Work where
  type : WorkType
  nelem : ℤ
  count : ℤ

/-- The floating point operations between two probes. -/
def Work.flops (w : Work) : ℤ :=
  w.count.toNat * match w.type with
    | .matrix => 2 * w.nelem * w.nelem * w.nelem
    | .daxpy => w.nelem * 2
    | _ => 0

/-- The bytes moved between two probes. -/
def Work.bytes (w : Work) : ℤ :=
  w.count.toNat * match w.type with
    | .memcpy => w.nelem * 8
    | _ => 0

/-- What `DoWork` counts. -/
structure Tally where
  ntests : ℤ
  flops : ℤ
  bytes_moved : ℤ

/-- The work between two probes. -/
def Tally.work (t : Tally) (w : Work) : Tally where
  ntests := t.ntests + 1
  flops := t.flops + w.flops
  bytes_moved := t.bytes_moved + w.bytes

/-- The end of the loop of `DoWork`. -/
abbrev WorkFinish := Except Failure (Recv × (ℕ → Answer) × Tally)

/-- The `while` loop of `DoWork`. While it is calibrated the network is not probed. -/
def workLoop (w : Work) (calibration : ℤ) :
    ℕ → (ℕ → Answer) → Recv → Tally → Option WorkFinish
  | 0, _, _, _ => none
  | fuel + 1, ans, s, t =>
    if calibration ≠ 0 then
      if (t.work w).ntests = calibration then some (.ok (s, ans, t.work w))
      else workLoop w calibration fuel ans s (t.work w)
    else match testForCompletion (ans 0) s with
      | .error e => some (.error e)
      | .ok (s', true) => some (.ok (s', shift ans, t))
      | .ok (s', false) =>
        if (t.work w).ntests = calibration then some (.ok (s', shift ans, t.work w))
        else workLoop w calibration fuel (shift ans) s' (t.work w)

/-- `DoWork`, with the amount of work it returns. -/
def doWork (w : Work) (calibration : ℤ) (fuel : ℕ) (ans : ℕ → Answer) (s : Recv) :
    Option (Except Failure (Recv × (ℕ → Answer) × ℤ)) :=
  (workLoop w calibration fuel ans { s with bytesLeft := s.proc.buflen } ⟨0, 0, 0⟩).map
    (Except.map fun (s', ans', t) => ({ s' with r_ptr := s.r_ptr }, ans', max t.flops t.bytes_moved))

/-- `RecvData`. With `--workload` the reading is done in `TestForCompletion`. -/
def recvData (workload : Bool) (fuel : ℕ) (ans : ℕ → Answer) (s : Recv) : Option Finish :=
  if ¬ workload then readFully fuel ans s.proc s.r_ptr s.proc.buflen else some (.ok (s.proc, ans))

/-! ### One message -/

variable {w : Work} {fuel : ℕ} {ans ans' : ℕ → Answer} {p : Proc} {ptr n : ℤ} {t : Tally} {s : Recv}

/-- The result without the tally. -/
def WorkFinish.recv (r : WorkFinish) : Except Failure (Recv × (ℕ → Answer)) :=
  r.map fun x => (x.1, x.2.1)

/-- A message: what the program does before it, where it is stored, and the work that is done
meanwhile. The program reads nothing from the socket before the message. -/
structure Message where
  buflen : ℕ
  pos : 0 < buflen
  r_ptr : ℤ
  work : Work
  prior : Proc → Proc
  prior_stream : ∀ p, (prior p).stream = p.stream
  prior_pos : ∀ p, (prior p).pos = p.pos

namespace Message

/-- The process when the message is wanted. -/
def enter (m : Message) (p : Proc) : Proc := { m.prior p with buflen := m.buflen }

/-- The message is the next `buflen` bytes of the stream. -/
def deliver (p : Proc) (m : Message) : Proc := (m.enter p).receive m.buflen m.r_ptr

end Message

/-- The process behind all messages. -/
def delivered (ms : List Message) (p : Proc) : Proc := ms.foldl Message.deliver p

/-- The globals behind the messages. -/
def settled (ms : List Message) (s : Recv) : Recv where
  proc := delivered ms s.proc
  bytesLeft := if ms = [] then s.bytesLeft else 0
  r_ptr := (ms.getLast?.map Message.r_ptr).getD s.r_ptr

variable {ms : List Message}

end NetPipe.Tcp
