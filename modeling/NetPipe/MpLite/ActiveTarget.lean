import NetPipe.MpLite.Fence

/-!
# Post, start, complete and wait

`MP_Win_post`, `MP_Win_start`, `MP_Win_complete` and `MP_Win_wait` of any number of processes on one
window, with `recv_active_target_sync`, which handles the messages of the others at any time.
-/

namespace NetPipe.MpLite

/-- The type of an active target message. -/
inductive SyncMsg where
  | post
  | complete
  deriving DecidableEq, Repr

/-- Where a process is: in the loop of a call over the processes, or between a message of
`MP_Win_post` or `MP_Win_complete` and the assignment to the flag behind it. -/
inductive SyncPc where
  | outside
  | post (group : ℕ → Bool) (i : ℕ)
  | postSet (group : ℕ → Bool) (i : ℕ)
  | start (group : ℕ → Bool) (i : ℕ)
  | complete (i : ℕ)
  | completeReset (i : ℕ)
  | wait (i : ℕ)

/-- What happens: a process makes a call, or goes on with one, or the handler of `b` takes a message
of `a`. -/
inductive SyncAct where
  | callPost (p : ℕ) (group : ℕ → Bool)
  | callStart (p : ℕ) (group : ℕ → Bool)
  | callComplete (p : ℕ)
  | callWait (p : ℕ)
  | proc (p : ℕ)
  | recv (a b : ℕ)

/-- The window at every process, the one-sided channels, and a history: the group of the last
`MP_Win_start`, the entries of `msgs` and `mids` in `MP_Win_complete`, the processes it sent to, and
the posts of `a` for `b` and the completes of `b` for `a`, issued and handled. -/
structure SyncState where
  pc : ℕ → SyncPc
  post_sent : ℕ → ℕ → Bool
  post_received : ℕ → ℕ → Bool
  count : ℕ → ℕ
  chan : ℕ → ℕ → List SyncMsg
  group : ℕ → ℕ → Bool
  entries : ℕ → ℕ
  targets : ℕ → List ℕ
  posts : ℕ → ℕ → ℕ
  postsHandled : ℕ → ℕ → ℕ
  completes : ℕ → ℕ → ℕ
  completesHandled : ℕ → ℕ → ℕ

namespace SyncState

/-- After `MP_Win_create`. -/
def init : SyncState where
  pc := fun _ => .outside
  post_sent := fun _ _ => false
  post_received := fun _ _ => false
  count := fun _ => 0
  chan := fun _ _ => []
  group := fun _ _ => false
  entries := fun _ => 0
  targets := fun _ => []
  posts := fun _ _ => 0
  postsHandled := fun _ _ => 0
  completes := fun _ _ => 0
  completesHandled := fun _ _ => 0

/-- Move on to another place. -/
def goto (p : ℕ) (pc : SyncPc) (s : SyncState) : SyncState :=
  { s with pc := Function.update s.pc p pc }

/-- `win->count = n`. -/
def setCount (p n : ℕ) (s : SyncState) : SyncState :=
  { s with count := Function.update s.count p n }

/-- `MP_Win_post` for another process: the message goes out. -/
def sendPost (p i : ℕ) (s : SyncState) : SyncState :=
  { s with
    chan := set₂ s.chan p i (s.chan p i ++ [.post])
    posts := set₂ s.posts p i (s.posts p i + 1) }

/-- `MP_Win_post` for the process itself. -/
def postSelf (p : ℕ) (s : SyncState) : SyncState :=
  { s with
    post_received := set₂ s.post_received p p true
    posts := set₂ s.posts p p (s.posts p p + 1)
    postsHandled := set₂ s.postsHandled p p (s.postsHandled p p + 1) }

/-- `win->post_sent[i] = 1`. -/
def setPostSent (p i : ℕ) (s : SyncState) : SyncState :=
  { s with post_sent := set₂ s.post_sent p i true }

/-- `MP_Win_complete` begins: `malloc` of `msgs` and `mids`. -/
def beginComplete (p : ℕ) (s : SyncState) : SyncState :=
  { s with
    entries := Function.update s.entries p (s.count p)
    targets := Function.update s.targets p [] }

/-- `MP_Win_complete` for another process: the message goes out. -/
def sendComplete (p i : ℕ) (s : SyncState) : SyncState :=
  { s with
    chan := set₂ s.chan p i (s.chan p i ++ [.complete])
    targets := Function.update s.targets p (s.targets p ++ [i])
    completes := set₂ s.completes i p (s.completes i p + 1) }

/-- `MP_Win_complete` for the process itself. -/
def completeSelf (p : ℕ) (s : SyncState) : SyncState :=
  { s with
    post_sent := set₂ s.post_sent p p false
    targets := Function.update s.targets p (s.targets p ++ [p])
    completes := set₂ s.completes p p (s.completes p p + 1)
    completesHandled := set₂ s.completesHandled p p (s.completesHandled p p + 1) }

/-- `win->post_received[i] = 0`. -/
def resetPostReceived (p i : ℕ) (s : SyncState) : SyncState :=
  { s with post_received := set₂ s.post_received p i false }

/-- The group of an access epoch. -/
def setGroup (p : ℕ) (g : ℕ → Bool) (s : SyncState) : SyncState :=
  { s with group := Function.update s.group p g }

/-- `recv_active_target_sync` of a post from `a` at `b`. -/
def recvPost (a b : ℕ) (rest : List SyncMsg) (s : SyncState) : SyncState :=
  { s with
    chan := set₂ s.chan a b rest
    post_received := set₂ s.post_received b a true
    postsHandled := set₂ s.postsHandled a b (s.postsHandled a b + 1) }

/-- `recv_active_target_sync` of a complete from `a` at `b`. -/
def recvComplete (a b : ℕ) (rest : List SyncMsg) (s : SyncState) : SyncState :=
  { s with
    chan := set₂ s.chan a b rest
    post_sent := set₂ s.post_sent b a false
    completesHandled := set₂ s.completesHandled b a (s.completesHandled b a + 1) }

/-- The number of processes in a group. -/
def groupSize (nprocs : ℕ) (g : ℕ → Bool) : ℕ := (List.range nprocs).countP g

/-- The entries of `msgs` and `mids` that were written: one for each other process. -/
def written (s : SyncState) (p : ℕ) : ℕ := (s.targets p).countP (· != p)

end SyncState

open SyncState

/-- A step. -/
inductive SyncStep (nprocs : ℕ) : SyncState → SyncAct → SyncState → Prop where
  | callPost (s : SyncState) (p : ℕ) (g : ℕ → Bool) (hp : p < nprocs) (hpc : s.pc p = .outside) :
      SyncStep nprocs s (.callPost p g) ((s.setCount p (groupSize nprocs g)).goto p (.post g 0))
  | postSkip (s : SyncState) (p : ℕ) (g : ℕ → Bool) (i : ℕ) (hpc : s.pc p = .post g i)
      (hi : i < nprocs) (hg : g i = false) :
      SyncStep nprocs s (.proc p) (s.goto p (.post g (i + 1)))
  | postSend (s : SyncState) (p : ℕ) (g : ℕ → Bool) (i : ℕ) (hpc : s.pc p = .post g i)
      (hi : i < nprocs) (hg : g i = true) (hne : i ≠ p) :
      SyncStep nprocs s (.proc p) ((s.sendPost p i).goto p (.postSet g i))
  | postSelf (s : SyncState) (p : ℕ) (g : ℕ → Bool) (hpc : s.pc p = .post g p)
      (hp : p < nprocs) (hg : g p = true) :
      SyncStep nprocs s (.proc p) ((s.postSelf p).goto p (.postSet g p))
  | postSet (s : SyncState) (p : ℕ) (g : ℕ → Bool) (i : ℕ) (hpc : s.pc p = .postSet g i) :
      SyncStep nprocs s (.proc p) ((s.setPostSent p i).goto p (.post g (i + 1)))
  | postEnd (s : SyncState) (p : ℕ) (g : ℕ → Bool) (hpc : s.pc p = .post g nprocs) :
      SyncStep nprocs s (.proc p) (s.goto p .outside)
  | callStart (s : SyncState) (p : ℕ) (g : ℕ → Bool) (hp : p < nprocs) (hpc : s.pc p = .outside) :
      SyncStep nprocs s (.callStart p g) (s.goto p (.start g 0))
  | startSkip (s : SyncState) (p : ℕ) (g : ℕ → Bool) (i : ℕ) (hpc : s.pc p = .start g i)
      (hi : i < nprocs) (hg : g i = false) :
      SyncStep nprocs s (.proc p) (s.goto p (.start g (i + 1)))
  | startFound (s : SyncState) (p : ℕ) (g : ℕ → Bool) (i : ℕ) (hpc : s.pc p = .start g i)
      (hi : i < nprocs) (hg : g i = true) (hset : s.post_received p i = true) :
      SyncStep nprocs s (.proc p) (s.goto p (.start g (i + 1)))
  | startEnd (s : SyncState) (p : ℕ) (g : ℕ → Bool) (hpc : s.pc p = .start g nprocs) :
      SyncStep nprocs s (.proc p)
        (((s.setCount p (groupSize nprocs g)).setGroup p g).goto p .outside)
  | callComplete (s : SyncState) (p : ℕ) (hp : p < nprocs) (hpc : s.pc p = .outside) :
      SyncStep nprocs s (.callComplete p) ((s.beginComplete p).goto p (.complete 0))
  | completeSkip (s : SyncState) (p i : ℕ) (hpc : s.pc p = .complete i) (hi : i < nprocs)
      (hset : s.post_received p i = false) :
      SyncStep nprocs s (.proc p) (s.goto p (.complete (i + 1)))
  | completeSend (s : SyncState) (p i : ℕ) (hpc : s.pc p = .complete i) (hi : i < nprocs)
      (hset : s.post_received p i = true) (hne : i ≠ p) :
      SyncStep nprocs s (.proc p) ((s.sendComplete p i).goto p (.completeReset i))
  | completeSelf (s : SyncState) (p : ℕ) (hpc : s.pc p = .complete p) (hp : p < nprocs)
      (hset : s.post_received p p = true) :
      SyncStep nprocs s (.proc p) ((s.completeSelf p).goto p (.completeReset p))
  | completeReset (s : SyncState) (p i : ℕ) (hpc : s.pc p = .completeReset i) :
      SyncStep nprocs s (.proc p) ((s.resetPostReceived p i).goto p (.complete (i + 1)))
  | completeEnd (s : SyncState) (p : ℕ) (hpc : s.pc p = .complete nprocs) :
      SyncStep nprocs s (.proc p) (((s.setCount p 0).setGroup p fun _ => false).goto p .outside)
  | callWait (s : SyncState) (p : ℕ) (hp : p < nprocs) (hpc : s.pc p = .outside) :
      SyncStep nprocs s (.callWait p) (s.goto p (.wait 0))
  | waitNext (s : SyncState) (p i : ℕ) (hpc : s.pc p = .wait i) (hi : i < nprocs)
      (hset : s.post_sent p i = false) :
      SyncStep nprocs s (.proc p) (s.goto p (.wait (i + 1)))
  | waitEnd (s : SyncState) (p : ℕ) (hpc : s.pc p = .wait nprocs) :
      SyncStep nprocs s (.proc p) ((s.setCount p 0).goto p .outside)
  | recvPost (s : SyncState) (a b : ℕ) (rest : List SyncMsg)
      (hchan : s.chan a b = .post :: rest) :
      SyncStep nprocs s (.recv a b) (s.recvPost a b rest)
  | recvComplete (s : SyncState) (a b : ℕ) (rest : List SyncMsg)
      (hchan : s.chan a b = .complete :: rest) :
      SyncStep nprocs s (.recv a b) (s.recvComplete a b rest)

/-- The states of the runs whose steps all meet a condition. -/
inductive SyncReachable (nprocs : ℕ) (cond : SyncState → SyncAct → Prop) : SyncState → Prop where
  | init : SyncReachable nprocs cond init
  | step {s s' : SyncState} {act : SyncAct} (h : SyncReachable nprocs cond s)
      (hstep : SyncStep nprocs s act s') (hcond : cond s act) : SyncReachable nprocs cond s'

namespace SyncState

/-- The order of the steps that the code relies on: a process is posted to when its complete for the
post before was handled; that complete is not handled before the flag for the post is set; a new
post is not handled before the flag for the old one is reset; in `MP_Win_complete` only processes of
the group have posted, and `win->count` is still large enough for them. -/
def InOrder (nprocs : ℕ) (s : SyncState) : SyncAct → Prop
  | .callPost p g => ∀ i, i < nprocs → g i = true → s.completesHandled p i = s.posts p i
  | .callComplete p =>
      (List.range nprocs).countP (fun i => s.group p i && i != p) ≤ s.count p
  | .proc p =>
    match s.pc p with
    | .postSet _ i => s.completesHandled p i < s.posts p i
    | .complete i => i < nprocs → s.post_received p i = true → s.group p i = true
    | .completeReset i => s.postsHandled i p = s.completes i p
    | _ => True
  | _ => True

/-- What the four calls promise. -/
structure Synchronised (nprocs : ℕ) (s : SyncState) : Prop where
  /-- `MP_Win_wait` gets past a process only when it has completed for every post. -/
  waits : ∀ p i j, p < nprocs → s.pc p = .wait j → i < j → i < nprocs →
    s.completes p i = s.posts p i
  /-- A handled complete leaves its flag reset. -/
  completeKept : ∀ p i, p < nprocs → i < nprocs → s.completesHandled p i = s.posts p i →
    s.post_sent p i = false
  /-- A handled post leaves its flag set until it is answered. -/
  postKept : ∀ p i, p < nprocs → i < nprocs → s.completes p i < s.postsHandled p i →
    s.post_received i p = true
  /-- `MP_Win_complete` sends to the processes of the group, in their order. -/
  exact : ∀ p i, p < nprocs → s.pc p = .complete i →
    s.targets p = (List.range i).filter fun j => s.group p j
  /-- It writes no more entries than there are. -/
  bounded : ∀ p i, p < nprocs → s.pc p = .complete i ∨ s.pc p = .completeReset i →
    s.written p ≤ s.entries p

end SyncState

end NetPipe.MpLite
