import NetPipe.MpLite.Engine

/-!
# The fence of one-sided communication

`MP_Win_fence` between any number of processes, with the handler that takes the puts and
accumulates off the one-sided channels. Every fence puts the rank of the process into one of the two
elements of `procs[myproc]` at every other process, and waits for their ranks.
-/

namespace NetPipe.MpLite

/-- A one-sided message: an operation of the program, or the put of a fence, which is `bytes` for
element `slot`. `serial` numbers the fences of the sender; the code does not send it. -/
inductive FenceMsg (α : Type*) where
  | data (op : α)
  | token (slot : ℕ) (bytes : List UInt8) (serial : ℕ)
  deriving DecidableEq, Repr

/-- Where a process is: outside a fence, in the loop that puts its rank, or in the loop that waits
for the others, where it has to reset an element it found set. -/
inductive FencePc where
  | outside
  | put (i : ℕ)
  | wait (i : ℕ)
  | reset (i : ℕ)
  deriving DecidableEq, Repr

/-- The processes and the one-sided channels between them. `procs b a` is `procs[a]` at process `b`,
and `got a b` counts the bytes of the first message from `a` to `b` that are stored. The other
fields are a history: how many puts of fences from `a` arrived at `b`, which one was last in an
element, and those whose elements were reset; the operations that `a` issued for `b`, now and when
it entered a fence; and those that were applied at a process. -/
structure FenceState (α μ : Type*) where
  pc : ℕ → FencePc
  fence_index : ℕ → ℕ
  procs : ℕ → ℕ → ℕ → List UInt8
  mem : ℕ → μ
  chan : ℕ → ℕ → List (FenceMsg α)
  got : ℕ → ℕ → ℕ
  round : ℕ → ℕ
  stored : ℕ → ℕ → ℕ
  mark : ℕ → ℕ → ℕ → ℕ
  consumed : ℕ → ℕ → List ℕ
  issued : ℕ → ℕ → List α
  before : ℕ → ℕ → ℕ → List α
  log : ℕ → List (ℕ × α)

/-- A function of two arguments changed at one place. -/
def set₂ {β : Type*} (f : ℕ → ℕ → β) (a b : ℕ) (v : β) : ℕ → ℕ → β :=
  Function.update f a (Function.update (f a) b v)

lemma set₂_apply {β : Type*} (f : ℕ → ℕ → β) (a b : ℕ) (v : β) (a' b' : ℕ) :
    set₂ f a b v a' b' = if a' = a ∧ b' = b then v else f a' b' := by
  by_cases ha : a' = a
  · subst ha
    simp [set₂, Function.update_apply]
  · simp [set₂, ha]

/-- The bytes of an element that is `-1`. -/
def unset : List UInt8 := le32 (-1)

namespace FenceState

variable {α μ : Type*}

/-- After `MP_Init`, with memories `mem`. -/
def init (mem : ℕ → μ) : FenceState α μ where
  pc := fun _ => .outside
  fence_index := fun _ => 0
  procs := fun _ _ _ => unset
  mem := mem
  chan := fun _ _ => []
  got := fun _ _ => 0
  round := fun _ => 0
  stored := fun _ _ => 0
  mark := fun _ _ _ => 0
  consumed := fun _ _ => []
  issued := fun _ _ => []
  before := fun _ _ _ => []
  log := fun _ => []

/-- Move on to another place. -/
def goto (p : ℕ) (pc : FencePc) (s : FenceState α μ) : FenceState α μ :=
  { s with pc := Function.update s.pc p pc }

/-- An operation is applied at process `b`. -/
def apply (act : α → μ → μ) (a b : ℕ) (op : α) (s : FenceState α μ) : FenceState α μ :=
  { s with
    mem := Function.update s.mem b (act op (s.mem b))
    log := Function.update s.log b (s.log b ++ [(a, op)]) }

/-- A message is issued. -/
def send (a b : ℕ) (m : FenceMsg α) (s : FenceState α μ) : FenceState α μ :=
  { s with chan := set₂ s.chan a b (s.chan a b ++ [m]) }

/-- The messages from `a` that were not taken off the channel. -/
def setChan (a b : ℕ) (l : List (FenceMsg α)) (s : FenceState α μ) : FenceState α μ :=
  { s with chan := set₂ s.chan a b l }

/-- Process `p` enters a fence. -/
def enter (p : ℕ) (s : FenceState α μ) : FenceState α μ :=
  { s with
    pc := Function.update s.pc p (.put 0)
    before := fun a b k => if a = p ∧ k = s.round p then s.issued a b else s.before a b k }

/-- Process `p` returns from a fence. -/
def leave (p : ℕ) (s : FenceState α μ) : FenceState α μ :=
  { s with
    pc := Function.update s.pc p .outside
    fence_index := Function.update s.fence_index p (1 - s.fence_index p)
    round := Function.update s.round p (s.round p + 1) }

/-- `procs[i][fence_index]=-1` at process `p`. -/
def resetSlot (p i : ℕ) (s : FenceState α μ) : FenceState α μ :=
  { s with
    pc := Function.update s.pc p (.wait (i + 1))
    procs := set₂ s.procs p i (Function.update (s.procs p i) (s.fence_index p) unset)
    consumed := set₂ s.consumed p i (s.consumed p i ++ [s.mark p i (s.fence_index p)]) }

/-- The handler stores one more byte of the put of a fence. -/
def storeByte (a b slot : ℕ) (byte : UInt8) (s : FenceState α μ) : FenceState α μ :=
  { s with
    procs := set₂ s.procs b a
      (Function.update (s.procs b a) slot ((s.procs b a slot).set (s.got a b) byte))
    got := set₂ s.got a b (s.got a b + 1) }

/-- The put of a fence is complete. -/
def tokenDone (a b slot serial : ℕ) (rest : List (FenceMsg α)) (s : FenceState α μ) :
    FenceState α μ :=
  { s with
    chan := set₂ s.chan a b rest
    got := set₂ s.got a b 0
    stored := set₂ s.stored a b (s.stored a b + 1)
    mark := set₂ s.mark b a (Function.update (s.mark b a) slot serial) }

end FenceState

open FenceState

/-- A step of a process, or of a handler. Operations are issued by the program outside the fences,
and by the handler, which answers gets and locks, at any time. -/
inductive FenceStep {α μ : Type*} (nprocs : ℕ) (act : α → μ → μ) :
    FenceState α μ → FenceState α μ → Prop where
  | issueSelf (s : FenceState α μ) (p : ℕ) (op : α) (hp : p < nprocs) :
      FenceStep nprocs act s (s.apply act p p op)
  | issue (s : FenceState α μ) (p q : ℕ) (op : α) (hp : p < nprocs) (hq : q < nprocs)
      (hne : p ≠ q) :
      FenceStep nprocs act s
        { s.send p q (.data op) with issued := set₂ s.issued p q (s.issued p q ++ [op]) }
  | enter (s : FenceState α μ) (p : ℕ) (hp : p < nprocs) (hpc : s.pc p = .outside) :
      FenceStep nprocs act s (s.enter p)
  | putSelf (s : FenceState α μ) (p : ℕ) (hp : p < nprocs) (hpc : s.pc p = .put p) :
      FenceStep nprocs act s (s.goto p (.put (p + 1)))
  | put (s : FenceState α μ) (p i : ℕ) (hp : p < nprocs) (hi : i < nprocs) (hne : i ≠ p)
      (hpc : s.pc p = .put i) :
      FenceStep nprocs act s
        ((s.send p i (.token (s.fence_index p) (le32 p) (s.round p))).goto p (.put (i + 1)))
  | putEnd (s : FenceState α μ) (p : ℕ) (hp : p < nprocs) (hpc : s.pc p = .put nprocs) :
      FenceStep nprocs act s (s.goto p (.wait 0))
  | waitSelf (s : FenceState α μ) (p : ℕ) (hp : p < nprocs) (hpc : s.pc p = .wait p) :
      FenceStep nprocs act s (s.goto p (.wait (p + 1)))
  | found (s : FenceState α μ) (p i : ℕ) (hp : p < nprocs) (hi : i < nprocs) (hne : i ≠ p)
      (hpc : s.pc p = .wait i) (hset : int32 (s.procs p i (s.fence_index p)) = i) :
      FenceStep nprocs act s (s.goto p (.reset i))
  | reset (s : FenceState α μ) (p i : ℕ) (hp : p < nprocs) (hpc : s.pc p = .reset i) :
      FenceStep nprocs act s (s.resetSlot p i)
  | leave (s : FenceState α μ) (p : ℕ) (hp : p < nprocs) (hpc : s.pc p = .wait nprocs) :
      FenceStep nprocs act s (s.leave p)
  | recvData (s : FenceState α μ) (a b : ℕ) (op : α) (rest : List (FenceMsg α))
      (hchan : s.chan a b = .data op :: rest) :
      FenceStep nprocs act s ((s.setChan a b rest).apply act a b op)
  | recvByte (s : FenceState α μ) (a b slot serial : ℕ) (bytes : List UInt8) (byte : UInt8)
      (rest : List (FenceMsg α)) (hchan : s.chan a b = .token slot bytes serial :: rest)
      (hbyte : bytes[s.got a b]? = some byte) (hmore : s.got a b + 1 < bytes.length) :
      FenceStep nprocs act s (s.storeByte a b slot byte)
  | recvLast (s : FenceState α μ) (a b slot serial : ℕ) (bytes : List UInt8) (byte : UInt8)
      (rest : List (FenceMsg α)) (hchan : s.chan a b = .token slot bytes serial :: rest)
      (hbyte : bytes[s.got a b]? = some byte) (hlast : s.got a b + 1 = bytes.length) :
      FenceStep nprocs act s ((s.storeByte a b slot byte).tokenDone a b slot serial rest)

/-- The states that can be reached after `MP_Init`. -/
inductive FenceReachable {α μ : Type*} (nprocs : ℕ) (act : α → μ → μ) (mem : ℕ → μ) :
    FenceState α μ → Prop where
  | init : FenceReachable nprocs act mem (init mem)
  | step {s s' : FenceState α μ} (h : FenceReachable nprocs act mem s)
      (hstep : FenceStep nprocs act s s') : FenceReachable nprocs act mem s'

namespace FencePc

/-- In the running fence the process has issued its put to `b`. -/
def Sent (b : ℕ) : FencePc → Prop
  | outside => False
  | put i => b < i
  | wait _ | reset _ => True

/-- In the running fence the process has reset the element of `a`. -/
def Took (a : ℕ) : FencePc → Prop
  | outside | put _ => False
  | wait i | reset i => a < i

instance (b : ℕ) : DecidablePred (Sent b) := fun pc => by cases pc <;> unfold Sent <;> infer_instance

instance (a : ℕ) : DecidablePred (Took a) := fun pc => by cases pc <;> unfold Took <;> infer_instance

end FencePc

namespace FenceState

variable {α μ : Type*}

/-- The fences that process `p` has entered. -/
def entered (s : FenceState α μ) (p : ℕ) : ℕ :=
  if s.pc p = .outside then s.round p else s.round p + 1

/-- The puts of fences that `a` has issued for `b`. -/
def sentTo (s : FenceState α μ) (a b : ℕ) : ℕ :=
  if (s.pc a).Sent b then s.round a + 1 else s.round a

/-- The elements that `b` has reset for `a`. -/
def took (s : FenceState α μ) (a b : ℕ) : ℕ :=
  if (s.pc b).Took a then s.round b + 1 else s.round b

/-- The operations of `a` that were applied at `b`. -/
def applied (s : FenceState α μ) (a b : ℕ) : List α :=
  ((s.log b).filter fun e => e.1 == a).map Prod.snd

/-- What a fence promises about the puts between two processes, and about the operations. -/
structure Fenced (nprocs : ℕ) (act : α → μ → μ) (mem : ℕ → μ) (s : FenceState α μ) : Prop where
  /-- A put arrives only in an element that is unset. -/
  free : ∀ a b slot bytes serial rest, a < nprocs → b < nprocs → a ≠ b →
    s.chan a b = .token slot bytes serial :: rest → s.got a b = 0 → s.procs b a slot = unset
  /-- What has arrived stays in its element until the process resets it. -/
  kept : ∀ a b k, a < nprocs → b < nprocs → a ≠ b → s.took a b ≤ k → k < s.stored a b →
    s.procs b a (k % 2) = le32 a ∧ s.mark b a (k % 2) = k
  /-- The resets are for the puts of the sender's fences, each once and in order. -/
  once : ∀ a b, a < nprocs → b < nprocs → a ≠ b → s.consumed b a = List.range (s.took a b)
  /-- Behind a fence every other process has entered that fence, and what it had issued before is
  applied. -/
  barrier : ∀ a b k, a < nprocs → b < nprocs → a ≠ b → k < s.round b →
    k < s.entered a ∧ s.before a b k <+: s.applied a b
  /-- Applied operations have their effect, in their order. -/
  memory : ∀ b, s.mem b = (s.log b).foldl (fun m e => act e.2 m) (mem b)

end FenceState

end NetPipe.MpLite
