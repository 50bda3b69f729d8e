import Mathlib.Tactic

/-!
# The calls of a trial

Between two broadcasts the driver makes a sequence of calls that does not depend on the data:
the trial loops of `netpipe.c` are written here as the lists of the calls they make. The modules
that interpret a call (pointer motion, buffer contents, message tags, collectives) all work on
these lists.
-/

namespace NetPipe

/-- The flags the trial loops read. -/
structure Flags where
  cache : Bool
  bidir : Bool
  stream : Bool
  burst : Bool
  async : Bool
  workload : Bool
  deriving DecidableEq, Repr

/-- The global pointers that are passed by address to `AdvancePtrs`. -/
inductive PtrVar where
  | s_ptr
  | r_ptr
  | ds_ptr
  | dr_ptr
  deriving DecidableEq, Repr

/-- The calls made by `main` between two broadcasts, in the words of the source. `test` sets the
global `buflen`; a `none` argument of `advancePtrs` is a `NULL`. -/
inductive Call where
  | test (buflen : ℕ)
  | mallocBufs
  | initBufferData
  | freeBufs
  | savePtrs
  | restorePtrs
  | prepostRecv
  | advancePtrs (s_cache r_cache : PtrVar) (s_no : Option PtrVar) (r_no : PtrVar)
  | flushcache
  | sync
  | setupBufferData
  | sendData
  | doWork
  | recvData
  | checkBufferData
  | reset
  | gather
  deriving DecidableEq, Repr

/-- The two copies of the trial loop. -/
inductive Side where
  | transmitter
  | receiver
  deriving DecidableEq, Repr

/-- The other process of a pair. -/
def Side.peer : Side → Side
  | .transmitter => .receiver
  | .receiver => .transmitter

@[simp] lemma Side.peer_peer (s : Side) : s.peer.peer = s := by cases s <;> rfl

/-- The loop that the process of a side runs: in bidirectional mode both transmit. -/
def Side.loop (f : Flags) (s : Side) : Side := if f.bidir then .transmitter else s

/-- Whether a loop sends, and whether it receives: in streaming mode messages go one way. -/
def Side.sends (f : Flags) (s : Side) : Bool := s == .transmitter || !f.stream

def Side.receives (f : Flags) (s : Side) : Bool := s == .receiver || !f.stream

open Call

/-- `AdvancePtrs( &ds_ptr, &dr_ptr, &s_ptr, &dr_ptr, buflen )`, after a send. -/
def advanceSent : Call := advancePtrs .ds_ptr .dr_ptr (some .s_ptr) .dr_ptr

/-- `AdvancePtrs( &s_ptr, &r_ptr, &ds_ptr, &r_ptr, buflen )`, after a receive. -/
def advanceReceived : Call := advancePtrs .s_ptr .r_ptr (some .ds_ptr) .r_ptr

/-- `AdvancePtrs( &s_ptr, &r_ptr, NULL, &r_ptr, buflen )`, while preposting. -/
def advancePosted : Call := advancePtrs .s_ptr .r_ptr none .r_ptr

/-- Prepost all receives of a trial, then go back to the first window. -/
def burstPrepost (nrepeat : ℕ) : List Call :=
  savePtrs :: (List.range nrepeat).flatMap (fun _ => [prepostRecv, advancePosted]) ++ [restorePtrs]

/-- One pass of the transmitter's timed loop. -/
def transmitterRepeat (f : Flags) : List Call :=
  (if !f.burst && f.async && !f.stream then [prepostRecv] else []) ++
  [setupBufferData, sendData, advanceSent] ++
  if !f.stream then
    (if f.workload then [doWork] else []) ++ [recvData, checkBufferData, advanceReceived]
  else []

/-- A transmitter trial. With several pairs a second `Sync` precedes the second clock reading. -/
def transmitterTrial (f : Flags) (npairs nrepeat : ℕ) : List Call :=
  (if f.burst && !f.stream then burstPrepost nrepeat else []) ++
  (if !f.cache then [flushcache] else []) ++ [sync] ++
  (List.range nrepeat).flatMap (fun _ => transmitterRepeat f) ++
  (if npairs > 1 then [sync] else []) ++ [reset]

/-- The `j`-th pass of the receiver's timed loop. -/
def receiverRepeat (f : Flags) (nrepeat j : ℕ) : List Call :=
  (if f.workload then [doWork] else []) ++ [recvData, checkBufferData, advanceReceived] ++
  (if !f.burst && f.async && j < nrepeat - 1 then [prepostRecv] else []) ++
  if !f.stream then [setupBufferData, sendData, advanceSent] else []

/-- What the receiver posts before its timed loop. -/
def receiverPrepost (f : Flags) (nrepeat : ℕ) : List Call :=
  if f.burst then burstPrepost nrepeat else if f.async then [prepostRecv] else []

/-- A receiver trial. -/
def receiverTrial (f : Flags) (nrepeat : ℕ) : List Call :=
  receiverPrepost f nrepeat ++ (if !f.cache then [flushcache] else []) ++ [sync] ++
  (List.range nrepeat).flatMap (receiverRepeat f nrepeat) ++ [reset]

/-- A trial on either side. -/
def trial (f : Flags) (npairs : ℕ) (side : Side) (nrepeat : ℕ) : List Call :=
  match side with
  | .transmitter => transmitterTrial f npairs nrepeat
  | .receiver => receiverTrial f nrepeat

/-- The gathers of the times (streaming only) and of the failures. -/
def gathers (f : Flags) : List Call :=
  (if f.stream then [gather, gather, gather] else []) ++ [gather]

/-- The calls of one data point after the broadcast of `nrepeat`. -/
def testCalls (f : Flags) (npairs ntrials : ℕ) (side : Side) (buflen nrepeat : ℕ) : List Call :=
  [test buflen, if f.cache then mallocBufs else initBufferData] ++
  (List.range ntrials).flatMap (fun _ => trial f npairs side nrepeat) ++ gathers f ++
  if f.cache then [freeBufs] else []

/-- One data point: `nrepeat` has been broadcast and passed the range check, and the schedule
only produces positive sizes. -/
structure Test where
  buflen : ℕ
  nrepeat : ℕ
  buflen_pos : 0 < buflen
  nrepeat_pos : 0 < nrepeat
  deriving Repr

end NetPipe
