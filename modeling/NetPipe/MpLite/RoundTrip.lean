import Mathlib
import NetPipe.Library.Inevitable
import NetPipe.MpLite.Collective
import NetPipe.MpLite.Gets
import NetPipe.MpLite.MpiOneSided

/-!
# A put and a get

`MP_Put` and then `MP_Get` of the same bytes, by one process in the window of another one or of its
own, with the signal handlers of both.
-/

namespace NetPipe.MpLite

/-- Where the program is: before `MP_APut`, in its `MP_Wait`, before `MP_AGet`, in its `MP_Wait`,
and at the end. -/
inductive Pc where
  | put
  | waitPut (mid : ℤ)
  | get
  | waitGet (mid : ℤ)
  | done
  deriving DecidableEq, Repr

/-- One-sided messages to the target. -/
inductive OsRequest where
  | put (dest_ptr : ℕ) (bytes : List UInt8)
  | get (src_ptr nbytes : ℕ)
  deriving DecidableEq, Repr

/-- The calls `MP_Put(buf, nelts, dest, off, wid)` and `MP_Get(buf2, nelts, dest, off, wid)` of
process `me`, for a window of bytes and a displacement in its range. -/
structure RoundTrip where
  me : ℕ
  dest : ℕ
  node : WinElt
  nelts : ℕ
  off : ℕ
  buf : ℕ
  buf2 : ℕ
  unit_eq : node.disp_unit = 1
  in_range : (off + nelts : ℕ) ≤ node.size
  isInt : IsInt node.size

/-- The state of both processes: which message ids are in use, the gets of the process, and the
messages on their way. -/
structure RoundTripState where
  pc : Pc
  mem : Memories
  inUse : ℕ → Bool
  gets : Gets
  requests : List OsRequest
  replies : List (List UInt8)

namespace RoundTrip

/-- The address of the displacement. -/
def ptr (t : RoundTrip) : ℕ := t.node.base + t.off

/-- `MP_Wait`, when it returns. It stops the program if the id is not in use, and does not return
before the reply of a get. -/
def wait (t : RoundTrip) (s : RoundTripState) (mid : ℤ) : Option RoundTripState :=
  if mid = -1 then some s
  else if mid < 0 ∨ s.inUse mid.toNat = false then none
  else
    let inUse := Function.update s.inUse mid.toNat false
    match s.gets.waitVal t.dest mid.toNat with
    | none => some { s with inUse := inUse }
    | some 0 => none
    | some _ => (s.gets.wait t.dest mid.toNat).map fun gets =>
        { s with inUse := inUse, gets := gets }

/-- A step of the program, or of the handler of the target, or of the handler of the process for a
reply. Without bytes `MP_APut` and `MP_AGet` leave the id as it is, which can be anything. -/
inductive Step (t : RoundTrip) : RoundTripState → RoundTripState → Prop where
  | aputNothing (s : RoundTripState) (mid : ℤ) (hpc : s.pc = .put)
      (haccess : t.node.aput t.nelts t.off = some .nothing) :
      Step t s { s with pc := .waitPut mid }
  | aputSelf (s : RoundTripState) (mid : ℕ) (ptr nbytes : ℤ) (hpc : s.pc = .put)
      (haccess : t.node.aput t.nelts t.off = some (.bytes ptr nbytes)) (hself : t.dest = t.me)
      (hmid : s.inUse mid = false) :
      Step t s { s with
        pc := .waitPut mid
        inUse := Function.update s.inUse mid true
        mem := Function.update s.mem t.me (mpMemmove (s.mem t.me) ptr.toNat t.buf nbytes.toNat) }
  | aput (s : RoundTripState) (mid : ℕ) (ptr nbytes : ℤ) (hpc : s.pc = .put)
      (haccess : t.node.aput t.nelts t.off = some (.bytes ptr nbytes)) (hother : t.dest ≠ t.me)
      (hmid : s.inUse mid = false) :
      Step t s { s with
        pc := .waitPut mid
        inUse := Function.update s.inUse mid true
        requests := s.requests ++ [.put ptr.toNat (bytesAt (s.mem t.me) t.buf nbytes.toNat)] }
  | waitPut (s s' : RoundTripState) (mid : ℤ) (hpc : s.pc = .waitPut mid)
      (hwait : t.wait s mid = some s') : Step t s { s' with pc := .get }
  | agetNothing (s : RoundTripState) (mid : ℤ) (hpc : s.pc = .get)
      (haccess : t.node.aget t.nelts t.off = some .nothing) :
      Step t s { s with pc := .waitGet mid }
  | agetSelf (s : RoundTripState) (mid : ℕ) (ptr nbytes : ℤ) (hpc : s.pc = .get)
      (haccess : t.node.aget t.nelts t.off = some (.bytes ptr nbytes)) (hself : t.dest = t.me)
      (hmid : s.inUse mid = false) :
      Step t s { s with
        pc := .waitGet mid
        inUse := Function.update s.inUse mid true
        mem := Function.update s.mem t.me (mpMemmove (s.mem t.me) t.buf2 ptr.toNat nbytes.toNat) }
  | aget (s : RoundTripState) (mid c : ℕ) (ptr nbytes : ℤ) (gets : Gets) (hpc : s.pc = .get)
      (haccess : t.node.aget t.nelts t.off = some (.bytes ptr nbytes)) (hother : t.dest ≠ t.me)
      (hmid : s.inUse mid = false) (hc : s.gets.get_complete.mem c = none)
      (hgets : s.gets.aget t.dest t.buf2 mid c = some gets) :
      Step t s { s with
        pc := .waitGet mid
        inUse := Function.update s.inUse mid true
        gets := gets
        requests := s.requests ++ [.get ptr.toNat nbytes.toNat] }
  | waitGet (s s' : RoundTripState) (mid : ℤ) (hpc : s.pc = .waitGet mid)
      (hwait : t.wait s mid = some s') : Step t s { s' with pc := .done }
  | recvPut (s : RoundTripState) (dest_ptr : ℕ) (bytes : List UInt8) (rest : List OsRequest)
      (hrequests : s.requests = .put dest_ptr bytes :: rest) :
      Step t s { s with
        requests := rest
        mem := Function.update s.mem t.dest (storeAt dest_ptr bytes (s.mem t.dest)) }
  | recvGet (s : RoundTripState) (src_ptr nbytes : ℕ) (rest : List OsRequest)
      (hrequests : s.requests = .get src_ptr nbytes :: rest) :
      Step t s { s with
        requests := rest
        replies := s.replies ++ [bytesAt (s.mem t.dest) src_ptr nbytes] }
  | recvReply (s : RoundTripState) (bytes : List UInt8) (rest : List (List UInt8)) (buf : ℕ)
      (gets : Gets) (hreplies : s.replies = bytes :: rest)
      (hbuf : (s.gets.startReply t.dest).recv_q t.dest = some buf)
      (hgets : (s.gets.startReply t.dest).gotReply t.dest = some gets) :
      Step t s { s with
        replies := rest
        gets := gets
        mem := Function.update s.mem t.me (storeAt buf bytes (s.mem t.me)) }

/-- Nothing is on its way, the process waits for no get from the target, and there is an id and a
node for the next message. -/
structure Start (t : RoundTrip) (s : RoundTripState) : Prop where
  pc : s.pc = .put
  requests : s.requests = []
  replies : s.replies = []
  inUse : ∃ mid, s.inUse mid = false
  node : ∃ c, s.gets.get_complete.mem c = none
  gets : ∃ h, s.gets.Match h ∧ h.waiting t.dest = [] ∧ h.replies t.dest = (h.issued t.dest).length
  recv_q : s.gets.recv_q t.dest = none

/-- At the end the window and `buf2` hold what was in `buf` in the state `s₀`, and the rest of the
memory is unchanged. -/
structure Good (t : RoundTrip) (s₀ s : RoundTripState) : Prop where
  pc : s.pc = .done
  inUse : s.inUse = s₀.inUse
  window : ∀ i < t.nelts, s.mem t.dest (t.ptr + i) = s₀.mem t.me (t.buf + i)
  buf2 : ∀ i < t.nelts, s.mem t.me (t.buf2 + i) = s₀.mem t.me (t.buf + i)
  rest : ∀ p x, ¬ (p = t.dest ∧ t.ptr ≤ x ∧ x < t.ptr + t.nelts) →
    ¬ (p = t.me ∧ t.buf2 ≤ x ∧ x < t.buf2 + t.nelts) → s.mem p x = s₀.mem p x

/-- From every state, both calls end in all interleavings, with the bytes in place. -/
def Exact (t : RoundTrip) : Prop := ∀ s, t.Start s → Inevitably t.Step (t.Good s) s

/-- There are bytes to transfer, and if the target is the process itself, the put is safe and
`buf2` does not overlap the bytes in the window. -/
def Cond (t : RoundTrip) : Prop :=
  0 < t.nelts ∧ (t.dest = t.me → SafeMove t.ptr t.buf t.nelts ∧
    (t.buf2 = t.ptr ∨ t.buf2 + t.nelts ≤ t.ptr ∨ t.ptr + t.nelts ≤ t.buf2))

end RoundTrip

/-! ### One get after another -/

namespace Gets

variable {s s' : Gets} {dest mid buf c : ℕ}

/-- There is no get from the process. -/
def Idle (s : Gets) (dest : ℕ) : Prop :=
  s.recv_q dest = none ∧ ∃ h, s.Match h ∧ h.waiting dest = [] ∧
    h.replies dest = (h.issued dest).length

/-- There is one get, without a reply. -/
def Pending (s : Gets) (dest mid buf : ℕ) : Prop :=
  s.recv_q dest = none ∧ ∃ h g, s.Match h ∧ h.waiting dest = [g] ∧ g.mid = mid ∧ g.buf = buf ∧
    (h.issued dest).drop (h.replies dest) = [g]

/-- There is one get, and its reply is stored. -/
def Answered (s : Gets) (dest mid : ℕ) : Prop :=
  s.recv_q dest = none ∧ ∃ h g, s.Match h ∧ h.waiting dest = [g] ∧ g.mid = mid ∧
    g.number < h.replies dest ∧ h.replies dest = (h.issued dest).length

lemma recv_q_of_aget (h : s.aget dest buf mid c = some s') : s'.recv_q = s.recv_q := by
  simp only [Gets.aget, Option.bind_eq_some_iff] at h
  obtain ⟨gc, -, h⟩ := h
  split_ifs at h
  rw [Option.some.injEq] at h
  subst h
  rfl

lemma recv_q_of_wait (h : s.wait dest mid = some s') : s'.recv_q = s.recv_q := by
  simp only [Gets.wait, Option.map_eq_some_iff] at h
  obtain ⟨gc, -, rfl⟩ := h
  rfl

lemma recv_q_of_gotReply (h : s.gotReply dest = some s') : s'.recv_q dest = none := by
  simp only [Gets.gotReply, Option.bind_eq_some_iff, Option.map_eq_some_iff] at h
  obtain ⟨buf, -, gc, -, rfl⟩ := h
  simp

lemma Idle.waitVal (h : s.Idle dest) : s.waitVal dest mid = none := by
  obtain ⟨-, h, hm, hwaiting, -⟩ := h
  obtain ⟨chain, hchains, -, hlist⟩ := hm.list
  have hnil : chain dest = [] := by simpa [hwaiting] using hlist dest
  have hhead := hchains.head_eq_none.mpr hnil
  cases hn : s.get_complete.mallocs <;> simp [Gets.waitVal, NodeLists.findVal, hhead, Heap.find]

lemma Idle.aget (h : s.Idle dest) (mid buf : ℕ) (hc : s.get_complete.mem c = none) :
    ∃ s', s.aget dest buf mid c = some s' ∧ s'.Pending dest mid buf := by
  obtain ⟨hrecv, h, hm, hwaiting, hreplies⟩ := h
  have hqueue := (hm.replies dest).queue
  rw [hreplies, List.drop_length, List.map_nil] at hqueue
  have hroom : s.get_buf_addr_q_head dest ≠ (s.get_buf_addr_q_tail dest + 1) % getBufQSize := by
    intro heq
    have := hqueue.succ_tail_eq_head.mp heq.symm
    simp [getBufQSize] at this
  have hfresh : mid ∉ (h.waiting dest).map GetIssue.mid := by simp [hwaiting]
  obtain ⟨s', hs', hm'⟩ := hm.aget buf hc hfresh hroom
  refine ⟨s', hs', by rw [recv_q_of_aget hs', hrecv], _, ⟨(h.issued dest).length, mid, buf⟩, hm',
    ?_, rfl, rfl, ?_⟩
  · simp [GetCall.history, hwaiting]
  · simp [GetCall.history, hreplies]

lemma Pending.waitVal (h : s.Pending dest mid buf) : s.waitVal dest mid = some 0 := by
  obtain ⟨-, h, g, hm, hwaiting, rfl, -, hdrop⟩ := h
  have hle := (hm.replies dest).le_number (g := g) (by simp [hdrop])
  rw [hm.waits dest g (by simp [hwaiting]), if_neg (Nat.not_lt.mpr hle)]

lemma Pending.reply (h : s.Pending dest mid buf) :
    (s.startReply dest).recv_q dest = some buf ∧
      ∃ s', (s.startReply dest).gotReply dest = some s' ∧ s'.Answered dest mid := by
  obtain ⟨-, h, g, hm, hwaiting, hmid, hbuf, hdrop⟩ := h
  have hqueue := (hm.replies dest).queue
  rw [hdrop, List.map_singleton, hbuf] at hqueue
  have hrecv : (s.startReply dest).recv_q dest = some buf := by
    simp [Gets.startReply, hqueue.head_eq]
  have hlen : (h.issued dest).length = h.replies dest + 1 := by
    have := congrArg List.length hdrop
    rw [List.length_drop, List.length_singleton] at this
    omega
  have hstart : (s.startReply dest).Match h := by
    apply hm.startReply
    rw [hlen]
    exact Nat.lt_succ_self _
  have hne : (s.startReply dest).recv_q dest ≠ none := by simp [hrecv]
  obtain ⟨s', hs', hm'⟩ := hstart.gotReply hne
  have hget : (h.issued dest)[h.replies dest]? = some g := by
    have := congrArg List.head? hdrop
    rwa [List.head?_drop] at this
  have hnumber := (hm.replies dest).number_eq hget
  refine ⟨hrecv, s', hs', recv_q_of_gotReply hs', _, g, hm', hwaiting, hmid, ?_, ?_⟩
  · simp [GetCall.history, hnumber]
  · simp [GetCall.history, hlen]

lemma Answered.wait (h : s.Answered dest mid) :
    s.waitVal dest mid = some 1 ∧ ∃ s', s.wait dest mid = some s' ∧ s'.Idle dest := by
  obtain ⟨hrecv, h, g, hm, hwaiting, rfl, hnumber, hreplies⟩ := h
  have hval : s.waitVal dest g.mid = some 1 := by
    rw [hm.waits dest g (by simp [hwaiting]), if_pos hnumber]
  have hmem : g.mid ∈ (h.waiting dest).map GetIssue.mid := by simp [hwaiting]
  obtain ⟨s', hs', hiff⟩ := hm.wait hmem (by simp [hval])
  have hm' := hiff.mpr (Or.inl (by simp [hwaiting]))
  refine ⟨hval, s', hs', by rw [recv_q_of_wait hs', hrecv], _, hm', ?_, ?_⟩
  · simp [GetCall.history, hwaiting]
  · simpa [GetCall.history] using hreplies

end Gets

namespace RoundTrip

variable {t : RoundTrip} {s s' s₀ : RoundTripState} {mid : ℕ}

/-! ### The calls -/

lemma isInt_of_le {x : ℤ} (t : RoundTrip) (h0 : 0 ≤ x) (h : x ≤ t.off + t.nelts) : IsInt x := by
  have hrange := t.in_range
  have hint := t.isInt
  push_cast at hrange
  simp only [IsInt] at hint ⊢
  omega

/-- Both calls use the bytes at the displacement. -/
lemma access_eq (h : 0 < t.nelts) :
    t.node.aput t.nelts t.off = some (.bytes (t.ptr : ℤ) t.nelts) ∧
      t.node.aget t.nelts t.off = some (.bytes (t.ptr : ℤ) t.nelts) := by
  have hoff : (0 : ℤ) ≤ t.off * t.node.disp_unit := by simp [t.unit_eq]
  have hint : IsInt (t.off * t.node.disp_unit) := by
    rw [t.unit_eq, mul_one]
    apply t.isInt_of_le <;> omega
  have hbytes : IsInt (t.nelts * t.node.disp_unit) := by
    rw [t.unit_eq, mul_one]
    apply t.isInt_of_le <;> omega
  have hne : (t.nelts : ℤ) * t.node.disp_unit ≠ 0 := by
    rw [t.unit_eq, mul_one]
    exact_mod_cast h.ne'
  have hsum : IsInt (t.off + t.nelts * t.node.disp_unit) := by
    rw [t.unit_eq, mul_one]
    apply t.isInt_of_le <;> omega
  have hrange := t.in_range
  push_cast at hrange
  constructor
  · rw [WinElt.aput_of_nonneg hbytes hne hint hoff (by simpa [t.unit_eq] using hsum)]
    simp [t.unit_eq, hrange, ptr]
  · rw [WinElt.aget_of_nonneg hbytes hne hint (by simp) hsum]
    simp [t.unit_eq, hrange, ptr]

lemma aput_of_eq_zero (h : t.nelts = 0) : t.node.aput t.nelts t.off = some .nothing :=
  WinElt.aput_of_eq_zero (by simp [h])

/-- `MP_Wait` for a message that is no get. -/
lemma wait_of_idle (hgets : s.gets.Idle t.dest) (hmid : s.inUse mid = true) :
    t.wait s mid = some { s with inUse := Function.update s.inUse mid false } := by
  have hneg : ¬ (mid : ℤ) = -1 := by omega
  simp [wait, hneg, hmid, hgets.waitVal]

/-- `MP_Wait` does not return before the reply of a get. -/
lemma wait_of_pending {buf : ℕ} (hgets : s.gets.Pending t.dest mid buf) :
    t.wait s mid = none := by
  have hneg : ¬ (mid : ℤ) = -1 := by omega
  simp [wait, hneg, hgets.waitVal]

lemma wait_of_answered (hgets : s.gets.Answered t.dest mid) (hmid : s.inUse mid = true) :
    ∃ gets, t.wait s mid = some { s with
      inUse := Function.update s.inUse mid false
      gets := gets } ∧ gets.Idle t.dest := by
  obtain ⟨hval, gets, hwait, hidle⟩ := hgets.wait
  refine ⟨gets, ?_, hidle⟩
  have hneg : ¬ (mid : ℤ) = -1 := by omega
  simp [wait, hneg, hmid, hval, hwait]

/-- A message id is given back. -/
lemma update_inUse {inUse : ℕ → Bool} (h : inUse mid = false) :
    Function.update (Function.update inUse mid true) mid false = inUse := by
  rw [Function.update_idem, ← h, Function.update_eq_self]

/-! ### Every run ends -/

/-- How far the program is from its end. -/
def Pc.rank : Pc → ℕ
  | .put => 4
  | .waitPut _ => 3
  | .get => 2
  | .waitGet _ => 1
  | .done => 0

/-- The steps that are left at most. -/
def load (s : RoundTripState) : ℕ := 3 * Pc.rank s.pc + 2 * s.requests.length + s.replies.length

lemma wait_frame {mid : ℤ} (h : t.wait s mid = some s') :
    s'.pc = s.pc ∧ s'.mem = s.mem ∧ s'.requests = s.requests ∧ s'.replies = s.replies := by
  rw [wait] at h
  split_ifs at h with h₁ h₂
  · cases h
    exact ⟨rfl, rfl, rfl, rfl⟩
  · dsimp only at h
    split at h
    · cases h
      exact ⟨rfl, rfl, rfl, rfl⟩
    · cases h
    · obtain ⟨gets, -, rfl⟩ := Option.map_eq_some_iff.mp h
      exact ⟨rfl, rfl, rfl, rfl⟩

lemma load_lt (hs : t.Step s s') : load s' < load s := by
  cases hs with
  | aputNothing _ hpc _ => simp [load, hpc, Pc.rank]
  | aputSelf _ _ _ hpc _ _ _ => simp [load, hpc, Pc.rank]
  | aput _ _ _ hpc _ _ _ =>
    simp only [load, hpc, Pc.rank, List.length_append, List.length_singleton]
    omega
  | waitPut s' _ hpc hwait =>
    obtain ⟨-, -, hreq, hrep⟩ := wait_frame hwait
    simp [load, hpc, Pc.rank, hreq, hrep]
  | agetNothing _ hpc _ => simp [load, hpc, Pc.rank]
  | agetSelf _ _ _ hpc _ _ _ => simp [load, hpc, Pc.rank]
  | aget _ _ _ _ _ hpc _ _ _ _ _ =>
    simp only [load, hpc, Pc.rank, List.length_append, List.length_singleton]
    omega
  | waitGet s' _ hpc hwait =>
    obtain ⟨-, -, hreq, hrep⟩ := wait_frame hwait
    simp [load, hpc, Pc.rank, hreq, hrep]
  | recvPut _ _ _ hreq => simp [load, hreq]
  | recvGet _ _ _ hreq =>
    simp only [load, hreq, List.length_cons, List.length_append, List.length_nil]
    omega
  | recvReply _ _ _ _ hrep _ _ => simp [load, hrep]

lemma Start.idle (h : t.Start s) : s.gets.Idle t.dest := ⟨h.recv_q, h.gets⟩

/-- While the program waits its message has an id, and otherwise it has none. -/
def Ids (s₀ : RoundTripState) (inUse : ℕ → Bool) : Pc → Prop
  | .waitPut mid | .waitGet mid =>
    ∃ m : ℕ, mid = m ∧ s₀.inUse m = false ∧ inUse = Function.update s₀.inUse m true
  | _ => inUse = s₀.inUse

/-! ### The target is the process itself -/

/-- The memory after the put. -/
def putMem (t : RoundTrip) (s₀ : RoundTripState) : Memories :=
  Function.update s₀.mem t.me (mpMemmove (s₀.mem t.me) t.ptr t.buf t.nelts)

/-- The memory after the get. -/
def getMem (t : RoundTrip) (s₀ : RoundTripState) : Memories :=
  Function.update (t.putMem s₀) t.me (mpMemmove (t.putMem s₀ t.me) t.buf2 t.ptr t.nelts)

/-- The memory at each place of the program. -/
def selfMem (t : RoundTrip) (s₀ : RoundTripState) : Pc → Memories
  | .put => s₀.mem
  | .waitPut _ | .get => t.putMem s₀
  | .waitGet _ | .done => t.getMem s₀

/-- A state of a run within one process. -/
structure SelfInv (t : RoundTrip) (s₀ s : RoundTripState) : Prop where
  requests : s.requests = []
  replies : s.replies = []
  gets : s.gets = s₀.gets
  ids : Ids s₀ s.inUse s.pc
  mem : s.mem = t.selfMem s₀ s.pc

lemma SelfInv.step (h : t.SelfInv s₀ s) (hpos : 0 < t.nelts) (hself : t.dest = t.me)
    (hidle : s₀.gets.Idle t.dest) (hs : t.Step s s') : t.SelfInv s₀ s' := by
  obtain ⟨hreq, hrep, hgets, hids, hmem⟩ := h
  rw [← hgets] at hidle
  obtain ⟨hput, hget⟩ := access_eq hpos
  cases hs with
  | aputNothing _ _ hacc => simp [hput] at hacc
  | aputSelf mid ptr nbytes hpc hacc _ hmid =>
    rw [hput] at hacc
    cases hacc
    rw [hpc] at hids hmem
    refine ⟨hreq, hrep, hgets, ⟨mid, rfl, hids ▸ hmid, by rw [hids]⟩, ?_⟩
    rw [hmem]
    rfl
  | aput _ _ _ _ _ hother _ => exact absurd hself hother
  | waitPut s₁ mid hpc hwait =>
    rw [hpc] at hids hmem
    obtain ⟨m, rfl, hm, hin⟩ := hids
    rw [wait_of_idle hidle (by simp [hin])] at hwait
    cases hwait
    exact ⟨hreq, hrep, hgets, by simp only [Ids, hin, update_inUse hm], hmem⟩
  | agetNothing _ _ hacc => simp [hget] at hacc
  | agetSelf mid ptr nbytes hpc hacc _ hmid =>
    rw [hget] at hacc
    cases hacc
    rw [hpc] at hids hmem
    refine ⟨hreq, hrep, hgets, ⟨mid, rfl, hids ▸ hmid, by rw [hids]⟩, ?_⟩
    rw [hmem]
    rfl
  | aget _ _ _ _ _ _ _ hother _ _ _ => exact absurd hself hother
  | waitGet s₁ mid hpc hwait =>
    rw [hpc] at hids hmem
    obtain ⟨m, rfl, hm, hin⟩ := hids
    rw [wait_of_idle hidle (by simp [hin])] at hwait
    cases hwait
    exact ⟨hreq, hrep, hgets, by simp only [Ids, hin, update_inUse hm], hmem⟩
  | recvPut _ _ _ h => simp [hreq] at h
  | recvGet _ _ _ h => simp [hreq] at h
  | recvReply _ _ _ _ h _ _ => simp [hrep] at h

lemma SelfInv.progress (h : t.SelfInv s₀ s) (hpos : 0 < t.nelts) (hself : t.dest = t.me)
    (hstart : t.Start s₀) : (∃ s', t.Step s s') ∨ s.pc = .done := by
  obtain ⟨-, -, hgets, hids, -⟩ := h
  have hidle := hstart.idle
  obtain ⟨mid, hmid⟩ := hstart.inUse
  rw [← hgets] at hidle
  obtain ⟨hput, hget⟩ := access_eq hpos
  cases hpc : s.pc with
  | put =>
    rw [hpc] at hids
    exact Or.inl ⟨_, .aputSelf s mid _ _ hpc hput hself (by rw [hids, hmid])⟩
  | waitPut _ =>
    rw [hpc] at hids
    obtain ⟨m, rfl, -, hin⟩ := hids
    exact Or.inl ⟨_, .waitPut s _ _ hpc (wait_of_idle hidle (by simp [hin]))⟩
  | get =>
    rw [hpc] at hids
    exact Or.inl ⟨_, .agetSelf s mid _ _ hpc hget hself (by rw [hids, hmid])⟩
  | waitGet _ =>
    rw [hpc] at hids
    obtain ⟨m, rfl, -, hin⟩ := hids
    exact Or.inl ⟨_, .waitGet s _ _ hpc (wait_of_idle hidle (by simp [hin]))⟩
  | done => exact Or.inr rfl

/-- Every run within one process ends with the bytes moved twice. -/
lemma inevitably_self (hpos : 0 < t.nelts) (hself : t.dest = t.me) (hstart : t.Start s₀) :
    Inevitably t.Step (fun s => s.pc = .done ∧ s.inUse = s₀.inUse ∧ s.mem = t.getMem s₀) s₀ := by
  refine Inevitably.of_measure (t.SelfInv s₀) load (fun s h => ?_) (fun s s' h hs => ?_) ?_
  · refine (h.progress hpos hself hstart).imp_right fun hpc => ⟨hpc, ?_, ?_⟩
    · have := h.ids
      rwa [hpc] at this
    · rw [h.mem, hpc]
      rfl
  · exact ⟨h.step hpos hself hstart.idle hs, load_lt hs⟩
  · exact ⟨hstart.requests, hstart.replies, rfl, by rw [hstart.pc]; rfl, by rw [hstart.pc]; rfl⟩

/-- The bytes are in place if the put is safe and the get does not touch them. -/
lemma good_of_self (hself : t.dest = t.me) (hsafe : SafeMove t.ptr t.buf t.nelts)
    (hbuf2 : t.buf2 = t.ptr ∨ t.buf2 + t.nelts ≤ t.ptr ∨ t.ptr + t.nelts ≤ t.buf2)
    (h : s.pc = .done ∧ s.inUse = s₀.inUse ∧ s.mem = t.getMem s₀) : t.Good s₀ s := by
  obtain ⟨hpc, hids, hmem⟩ := h
  have hget : SafeMove t.buf2 t.ptr t.nelts := by
    rcases hbuf2 with heq | hle | hle
    · exact Or.inl heq.le
    · exact Or.inl ((Nat.le_add_right _ _).trans hle)
    · exact Or.inr (Or.inl hle)
  have hme : s.mem t.me = blit (blit (s₀.mem t.me) (s₀.mem t.me) t.ptr t.buf t.nelts)
      (blit (s₀.mem t.me) (s₀.mem t.me) t.ptr t.buf t.nelts) t.buf2 t.ptr t.nelts := by
    rw [hmem, getMem, Function.update_self, mpMemmove_eq_blit hget, putMem, Function.update_self,
      mpMemmove_eq_blit hsafe]
  have hwindow : ∀ i < t.nelts, s.mem t.me (t.ptr + i) = s₀.mem t.me (t.buf + i) := by
    intro i hi
    rw [hme]
    rcases hbuf2 with heq | hle
    · rw [heq, blit_self, blit_of_mem hi]
    · rw [blit_of_not_mem, blit_of_mem hi]
      omega
  refine ⟨hpc, hids, by rwa [hself], fun i hi => ?_, fun p x hp hp' => ?_⟩
  · rw [hme, blit_of_mem hi, blit_of_mem hi]
  · rcases eq_or_ne p t.me with rfl | hne
    · rw [hme, blit_of_not_mem, blit_of_not_mem]
      · exact fun hx => hp ⟨hself.symm, hx⟩
      · exact fun hx => hp' ⟨rfl, hx⟩
    · rw [hmem, getMem, Function.update_of_ne hne, putMem, Function.update_of_ne hne]

/-- A start with the same bytes in all memories. -/
def start (m : ℕ → UInt8) : RoundTripState :=
  ⟨.put, fun _ => m, fun _ => false, Gets.init, [], []⟩

lemma start_start (t : RoundTrip) (m : ℕ → UInt8) : t.Start (start m) :=
  ⟨rfl, rfl, rfl, ⟨0, rfl⟩, ⟨0, rfl⟩, ⟨_, Gets.match_init, rfl, rfl⟩, rfl⟩

/-- If `MP_Wait` does not return and no message is on its way, nothing happens any more. -/
lemma not_step_of_wait {mid : ℤ} (hpc : s.pc = .waitPut mid) (hwait : t.wait s mid = none)
    (hreq : s.requests = []) (hrep : s.replies = []) (s' : RoundTripState) : ¬ t.Step s s' := by
  intro hs
  cases hs with
  | waitPut s₁ mid' hpc' hwait' =>
    rw [hpc] at hpc'
    cases hpc'
    simp [hwait] at hwait'
  | aputNothing _ hpc' _ => simp [hpc] at hpc'
  | aputSelf _ _ _ hpc' _ _ _ => simp [hpc] at hpc'
  | aput _ _ _ hpc' _ _ _ => simp [hpc] at hpc'
  | agetNothing _ hpc' _ => simp [hpc] at hpc'
  | agetSelf _ _ _ hpc' _ _ _ => simp [hpc] at hpc'
  | aget _ _ _ _ _ hpc' _ _ _ _ _ => simp [hpc] at hpc'
  | waitGet _ _ hpc' _ => simp [hpc] at hpc'
  | recvPut _ _ _ h => simp [hreq] at h
  | recvGet _ _ _ h => simp [hreq] at h
  | recvReply _ _ _ _ h _ _ => simp [hrep] at h

/-- Without bytes `MP_Wait` is called for an id that may not be in use. -/
lemma Exact.pos (h : t.Exact) : 0 < t.nelts := by
  by_contra hzero
  have hacc := aput_of_eq_zero (Nat.eq_zero_of_not_pos hzero)
  have hend := (h _ (t.start_start fun _ => 0)).of_step (.aputNothing _ 0 rfl hacc)
  have hgood := hend.final (not_step_of_wait rfl rfl rfl rfl)
  cases hgood.pc

/-- Within one process all memories end well. -/
lemma Exact.good_of_self (h : t.Exact) (hself : t.dest = t.me) (m : ℕ → UInt8) :
    ∃ s, s.mem = t.getMem (start m) ∧ t.Good (start m) s := by
  have hstart := t.start_start m
  obtain ⟨s, hs, hgood⟩ := (inevitably_self h.pos hself hstart).exists_final (h _ hstart)
  exact ⟨s, hs.2.2, hgood⟩

/-- A put that is not safe loses a byte of some memory. -/
lemma Exact.safeMove (h : t.Exact) (hself : t.dest = t.me) : SafeMove t.ptr t.buf t.nelts := by
  by_contra hsafe
  obtain ⟨x, hx, hlost⟩ := exists_lost_of_not_safeMove hsafe
  obtain ⟨s, hmem, hgood⟩ := h.good_of_self hself fun y => if y = t.buf + x then 1 else 0
  have hbyte := hgood.window x hx
  have hput : t.putMem (start fun y => if y = t.buf + x then 1 else 0) t.me = fun _ => 0 := by
    rw [putMem, Function.update_self]
    exact hlost
  rw [hmem, hself, getMem, Function.update_self, hput, mpMemmove_const] at hbyte
  simp [start] at hbyte

/-- Two different bytes cannot be at the same place. -/
lemma Exact.buf2 (h : t.Exact) (hself : t.dest = t.me) :
    t.buf2 = t.ptr ∨ t.buf2 + t.nelts ≤ t.ptr ∨ t.ptr + t.nelts ≤ t.buf2 := by
  by_contra hnot
  simp only [not_or, not_le] at hnot
  obtain ⟨hne, hlt, hlt'⟩ := hnot
  obtain ⟨s, -, hgood⟩ := h.good_of_self hself fun y => if y = t.buf then 1 else 0
  have hfirst : ∀ i, 0 < i → ¬ t.buf + i = t.buf := by
    intro i hi
    omega
  rcases Nat.lt_or_ge t.buf2 t.ptr with hle | hle
  · obtain ⟨d, hd⟩ := Nat.exists_eq_add_of_lt hle
    rw [Nat.add_assoc] at hd
    have hbuf2 := hgood.buf2 (d + 1) (by omega)
    have hwindow := hgood.window 0 h.pos
    rw [Nat.add_zero, hd, hself, hbuf2] at hwindow
    simp [start] at hwindow
  · obtain ⟨d, hd⟩ := Nat.exists_eq_add_of_lt (lt_of_le_of_ne hle (Ne.symm hne))
    rw [Nat.add_assoc] at hd
    have hwindow := hgood.window (d + 1) (by omega)
    have hbuf2 := hgood.buf2 0 h.pos
    rw [Nat.add_zero, hd, ← hself, hwindow] at hbuf2
    simp [start] at hbuf2

/-! ### The target is another process -/

/-- The bytes that are put. -/
def bytes (t : RoundTrip) (s₀ : RoundTripState) : List UInt8 :=
  bytesAt (s₀.mem t.me) t.buf t.nelts

/-- Where the program is when it has made `issued` requests of which `served` are served, and has
received `answered` replies. -/
def Stage (t : RoundTrip) (s₀ s : RoundTripState) (issued served answered : ℕ) : Prop :=
  Ids s₀ s.inUse s.pc ∧
    match s.pc with
    | .put => issued = 0 ∧ answered = 0 ∧ s.gets = s₀.gets
    | .waitPut _ | .get => issued = 1 ∧ answered = 0 ∧ s.gets = s₀.gets
    | .waitGet mid => issued = 2 ∧
      (answered = 0 ∧ s.gets.Pending t.dest mid.toNat t.buf2 ∨
        answered = 1 ∧ served = 2 ∧ s.gets.Answered t.dest mid.toNat)
    | .done => issued = 2 ∧ served = 2 ∧ answered = 1

/-- A state of a run with another process. -/
structure OtherInv (t : RoundTrip) (s₀ s : RoundTripState) (issued served answered : ℕ) :
    Prop where
  requests : s.requests =
    ([.put t.ptr (t.bytes s₀), .get t.ptr t.nelts].take issued).drop served
  served_le : served ≤ issued
  replies : s.replies = if served = 2 ∧ answered = 0 then [t.bytes s₀] else []
  memDest : s.mem t.dest =
    if served = 0 then s₀.mem t.dest else storeAt t.ptr (t.bytes s₀) (s₀.mem t.dest)
  memMe : s.mem t.me =
    if answered = 0 then s₀.mem t.me else storeAt t.buf2 (t.bytes s₀) (s₀.mem t.me)
  memOther : ∀ p, p ≠ t.dest → p ≠ t.me → s.mem p = s₀.mem p
  stage : Stage t s₀ s issued served answered

variable {issued served answered : ℕ}

lemma Stage.le_two (h : Stage t s₀ s issued served answered) : issued ≤ 2 := by
  obtain ⟨-, h⟩ := h
  cases hpc : s.pc <;> rw [hpc] at h
  · exact h.1.le.trans (by simp)
  · exact h.1.le.trans (by simp)
  · exact h.1.le.trans (by simp)
  · exact h.1.le
  · exact h.1.le

/-- A request is served while there is no reply. -/
lemma Stage.serve (h : Stage t s₀ s issued served answered) (hlt : served < 2)
    (s' : RoundTripState) (hpc : s'.pc = s.pc) (hinUse : s'.inUse = s.inUse)
    (hgets : s'.gets = s.gets) (k : ℕ) :
    answered = 0 ∧ Stage t s₀ s' issued k answered := by
  obtain ⟨hids, h⟩ := h
  rw [Stage, hpc, hinUse, hgets]
  cases hpc' : s.pc <;> rw [hpc'] at h hids
  · exact ⟨h.2.1, hids, h⟩
  · exact ⟨h.2.1, hids, h⟩
  · exact ⟨h.2.1, hids, h⟩
  · rcases h with ⟨hissued, hpending | hanswered⟩
    · exact ⟨hpending.1, hids, hissued, Or.inl hpending⟩
    · exact absurd hanswered.2.1 hlt.ne
  · exact absurd h.2.1 hlt.ne

/-- The reply arrives while the program waits for it. -/
lemma Stage.pending (h : Stage t s₀ s 2 2 0) :
    ∃ mid, s.pc = .waitGet mid ∧ s.gets.Pending t.dest mid.toNat t.buf2 := by
  obtain ⟨-, h⟩ := h
  cases hpc : s.pc <;> rw [hpc] at h
  · cases h.1
  · cases h.1
  · cases h.1
  · rcases h.2 with hpending | hanswered
    · exact ⟨_, rfl, hpending.2⟩
    · cases hanswered.1
  · cases h.2.2

lemma OtherInv.step (h : t.OtherInv s₀ s issued served answered) (hpos : 0 < t.nelts)
    (hother : t.dest ≠ t.me) (hidle : s₀.gets.Idle t.dest) (hs : t.Step s s') :
    ∃ issued served answered, t.OtherInv s₀ s' issued served answered := by
  obtain ⟨hreq, hle, hrep, hdest, hme, hrest, hids, hstage⟩ := h
  obtain ⟨hput, hget⟩ := access_eq hpos
  cases hs with
  | aputNothing _ _ hacc => simp [hput] at hacc
  | aputSelf _ _ _ _ _ hself _ => exact absurd hself hother
  | aput mid ptr nbytes hpc hacc _ hmid =>
    rw [hput] at hacc
    cases hacc
    rw [hpc] at hids hstage
    obtain ⟨rfl, rfl, hgets⟩ := hstage
    obtain rfl : served = 0 := Nat.le_zero.mp hle
    refine ⟨1, 0, 0, ?_, Nat.zero_le _, hrep, hdest, hme, hrest, ⟨mid, rfl, hids ▸ hmid, ?_⟩,
      rfl, rfl, hgets⟩
    · rw [if_pos rfl] at hme
      simp [hreq, bytes, hme]
    · rw [hids]
  | waitPut s₁ mid hpc hwait =>
    rw [hpc] at hids hstage
    obtain ⟨m, rfl, hm, hin⟩ := hids
    obtain ⟨rfl, rfl, hgets⟩ := hstage
    rw [wait_of_idle (hgets ▸ hidle) (by simp [hin])] at hwait
    cases hwait
    exact ⟨1, served, 0, hreq, hle, hrep, hdest, hme, hrest,
      by simp only [Ids, hin, update_inUse hm], rfl, rfl, hgets⟩
  | agetNothing _ _ hacc => simp [hget] at hacc
  | agetSelf _ _ _ _ _ hself _ => exact absurd hself hother
  | aget mid c ptr nbytes gets hpc hacc _ hmid hc haget =>
    rw [hget] at hacc
    cases hacc
    rw [hpc] at hids hstage
    obtain ⟨rfl, rfl, hgets⟩ := hstage
    have hidle' : s.gets.Idle t.dest := hgets ▸ hidle
    obtain ⟨gets', hgets', hpending⟩ := hidle'.aget mid t.buf2 hc
    rw [haget, Option.some.injEq] at hgets'
    subst hgets'
    refine ⟨2, served, 0, ?_, hle.trans one_le_two, hrep, hdest, hme, hrest,
      ⟨mid, rfl, hids ▸ hmid, ?_⟩, rfl, Or.inl ⟨rfl, by simpa using hpending⟩⟩
    · interval_cases served <;> simp [hreq]
    · rw [hids]
  | waitGet s₁ mid hpc hwait =>
    rw [hpc] at hids hstage
    obtain ⟨m, rfl, hm, hin⟩ := hids
    obtain ⟨rfl, ⟨rfl, hpending⟩ | ⟨rfl, rfl, hanswered⟩⟩ := hstage
    · rw [Int.toNat_natCast] at hpending
      simp [wait_of_pending hpending] at hwait
    · rw [Int.toNat_natCast] at hanswered
      obtain ⟨gets, hgets, -⟩ := wait_of_answered hanswered (by simp [hin])
      rw [hwait, Option.some.injEq] at hgets
      subst hgets
      exact ⟨2, 2, 1, hreq, hle, hrep, hdest, hme, hrest,
        by simp only [Ids, hin, update_inUse hm], rfl, rfl, rfl⟩
  | recvPut dest_ptr bs rest hrequests =>
    have hissued := Stage.le_two ⟨hids, hstage⟩
    rw [hreq] at hrequests
    have hserved : served = 0 := by
      interval_cases issued <;> interval_cases served <;> simp at hrequests ⊢
    subst hserved
    obtain ⟨rfl, hstage'⟩ := Stage.serve ⟨hids, hstage⟩ two_pos { s with
      requests := rest
      mem := Function.update s.mem t.dest (storeAt dest_ptr bs (s.mem t.dest)) } rfl rfl rfl 1
    have hfirst : OsRequest.put dest_ptr bs = .put t.ptr (t.bytes s₀) ∧ 1 ≤ issued := by
      interval_cases issued <;> simp at hrequests ⊢ <;> simp [hrequests]
    cases hfirst.1
    refine ⟨issued, 1, 0, ?_, hfirst.2, ?_, ?_, ?_, fun p hp hp' => ?_, hstage'⟩
    · interval_cases issued <;> simp at hrequests ⊢ <;> simp [hrequests]
    · simpa using hrep
    · simp [hdest]
    · simp [hother.symm, hme]
    · simp [hp, hrest p hp hp']
  | recvGet src_ptr nbytes rest hrequests =>
    have hissued := Stage.le_two ⟨hids, hstage⟩
    rw [hreq] at hrequests
    have hboth : issued = 2 ∧ served = 1 := by
      interval_cases issued <;> interval_cases served <;> simp at hrequests ⊢
    obtain ⟨rfl, rfl⟩ := hboth
    obtain ⟨rfl, hstage'⟩ := Stage.serve ⟨hids, hstage⟩ one_lt_two { s with
      requests := rest
      replies := s.replies ++ [bytesAt (s.mem t.dest) src_ptr nbytes] } rfl rfl rfl 2
    simp only [List.take_succ_cons, List.take_zero, List.drop_succ_cons, List.drop_zero,
      List.cons.injEq, OsRequest.get.injEq] at hrequests
    obtain ⟨⟨rfl, rfl⟩, rfl⟩ := hrequests
    refine ⟨2, 2, 0, rfl, le_rfl, ?_, hdest, hme, hrest, hstage'⟩
    rw [if_neg one_ne_zero] at hdest
    have hread := bytesAt_storeAt t.ptr (t.bytes s₀) (s₀.mem t.dest)
    rw [← hdest, bytes, length_bytesAt] at hread
    simp [hrep, hread, bytes]
  | recvReply bs rest buf gets hreplies hbuf hgets =>
    rw [hrep] at hreplies
    split_ifs at hreplies with hcond
    obtain ⟨rfl, rfl⟩ := hcond
    have hissued : issued = 2 := le_antisymm (Stage.le_two ⟨hids, hstage⟩) hle
    subst hissued
    obtain ⟨mid, hpc, hpending⟩ := Stage.pending ⟨hids, hstage⟩
    obtain ⟨hrecv, gets', hgets', hanswered⟩ := hpending.reply
    rw [hbuf, Option.some.injEq] at hrecv
    rw [hgets, Option.some.injEq] at hgets'
    rw [List.cons.injEq] at hreplies
    subst hrecv hgets'
    obtain ⟨rfl, rfl⟩ := hreplies
    refine ⟨2, 2, 1, hreq, le_rfl, by simp, ?_, ?_, fun p hp hp' => ?_, ⟨hids, ?_⟩⟩
    · simp [hother, hdest]
    · simpa using congrArg _ hme
    · simp [hp', hrest p hp hp']
    · rw [hpc]
      exact ⟨rfl, Or.inr ⟨rfl, rfl, hanswered⟩⟩

lemma OtherInv.progress (h : t.OtherInv s₀ s issued served answered) (hpos : 0 < t.nelts)
    (hother : t.dest ≠ t.me) (hstart : t.Start s₀) :
    (∃ s', t.Step s s') ∨ s.pc = .done := by
  obtain ⟨hreq, hle, hrep, -, -, -, hids, hstage⟩ := h
  have hidle := hstart.idle
  obtain ⟨mid, hmid⟩ := hstart.inUse
  obtain ⟨c, hc⟩ := hstart.node
  obtain ⟨hput, hget⟩ := access_eq hpos
  cases hpc : s.pc with
  | put =>
    rw [hpc] at hids hstage
    exact Or.inl ⟨_, .aput s mid _ _ hpc hput hother (by rw [hids, hmid])⟩
  | waitPut _ =>
    rw [hpc] at hids hstage
    obtain ⟨m, rfl, -, hin⟩ := hids
    obtain ⟨-, -, hgets⟩ := hstage
    exact Or.inl ⟨_, .waitPut s _ _ hpc (wait_of_idle (hgets ▸ hidle) (by simp [hin]))⟩
  | get =>
    rw [hpc] at hids hstage
    obtain ⟨-, -, hgets⟩ := hstage
    rw [← hgets] at hidle hc
    obtain ⟨gets, haget, -⟩ := hidle.aget mid t.buf2 hc
    exact Or.inl ⟨_, .aget s mid c _ _ gets hpc hget hother (by rw [hids, hmid]) hc haget⟩
  | waitGet _ =>
    rw [hpc] at hids hstage
    obtain ⟨m, rfl, -, hin⟩ := hids
    obtain ⟨rfl, ⟨rfl, hpending⟩ | ⟨rfl, rfl, hanswered⟩⟩ := hstage
    · rw [Int.toNat_natCast] at hpending
      left
      -- one of the handlers has something to do
      interval_cases served
      · exact ⟨_, .recvPut s _ _ _ hreq⟩
      · exact ⟨_, .recvGet s _ _ _ hreq⟩
      · obtain ⟨hrecv, gets, hgets, -⟩ := hpending.reply
        exact ⟨_, .recvReply s _ _ _ gets hrep hrecv hgets⟩
    · rw [Int.toNat_natCast] at hanswered
      obtain ⟨gets, hgets, -⟩ := wait_of_answered hanswered (by simp [hin])
      exact Or.inl ⟨_, .waitGet s _ _ hpc hgets⟩
  | done => exact Or.inr rfl

lemma storeAt_eq_blit (m₀ m : ℕ → UInt8) (dest src n : ℕ) :
    storeAt dest (bytesAt m₀ src n) m = blit m₀ m dest src n := by
  funext x
  by_cases hx : dest ≤ x ∧ x < dest + n
  · obtain ⟨i, rfl⟩ := Nat.exists_eq_add_of_le hx.1
    have hi : i < n := Nat.lt_of_add_lt_add_left hx.2
    rw [blit_of_mem hi]
    simp [storeAt, bytesAt, hi]
  · rw [blit_of_not_mem hx]
    rcases Nat.lt_or_ge x dest with hlt | hge
    · exact storeAt_of_lt hlt
    · apply storeAt_of_le
      rw [length_bytesAt]
      exact Nat.le_of_not_lt fun hlt => hx ⟨hge, hlt⟩

/-- At the end the bytes are in both places. -/
lemma OtherInv.good (h : t.OtherInv s₀ s issued served answered) (hpc : s.pc = .done) :
    t.Good s₀ s := by
  obtain ⟨-, -, -, hdest, hme, hrest, hids, hstage⟩ := h
  rw [hpc] at hids hstage
  obtain ⟨-, rfl, rfl⟩ := hstage
  rw [if_neg two_ne_zero, bytes, storeAt_eq_blit] at hdest
  rw [if_neg one_ne_zero, bytes, storeAt_eq_blit] at hme
  refine ⟨hpc, hids, fun i hi => ?_, fun i hi => ?_, fun p x hp hp' => ?_⟩
  · rw [hdest, blit_of_mem hi]
  · rw [hme, blit_of_mem hi]
  · rcases eq_or_ne p t.dest with rfl | hpd
    · rw [hdest, blit_of_not_mem fun hx => hp ⟨rfl, hx⟩]
    · rcases eq_or_ne p t.me with rfl | hpm
      · rw [hme, blit_of_not_mem fun hx => hp' ⟨rfl, hx⟩]
      · rw [hrest p hpd hpm]

/-- Every run with another process ends well. -/
lemma inevitably_other (hpos : 0 < t.nelts) (hother : t.dest ≠ t.me) (hstart : t.Start s₀) :
    Inevitably t.Step (t.Good s₀) s₀ := by
  refine Inevitably.of_measure
    (fun s => ∃ issued served answered, t.OtherInv s₀ s issued served answered) load
    (fun s h => ?_) (fun s s' h hs => ?_) ?_
  · obtain ⟨issued, served, answered, h⟩ := h
    exact (h.progress hpos hother hstart).imp_right h.good
  · obtain ⟨issued, served, answered, h⟩ := h
    exact ⟨h.step hpos hother hstart.idle hs, load_lt hs⟩
  · refine ⟨0, 0, 0, hstart.requests, le_rfl, by simpa using hstart.replies, rfl, rfl,
      fun _ _ _ => rfl, ?_, ?_⟩
    · rw [hstart.pc]
      rfl
    · rw [hstart.pc]
      exact ⟨rfl, rfl, rfl⟩

/-- A put and a get end with the bytes in both places, from every state and in all interleavings,
exactly if there are bytes and no overlap within one process gets in the way. -/
theorem exact_iff_cond (t : RoundTrip) : t.Exact ↔ t.Cond := by
  refine ⟨fun h => ⟨h.pos, fun hself => ⟨h.safeMove hself, h.buf2 hself⟩⟩, fun h s hstart => ?_⟩
  obtain ⟨hpos, hcond⟩ := h
  by_cases hself : t.dest = t.me
  · obtain ⟨hsafe, hbuf2⟩ := hcond hself
    exact (inevitably_self hpos hself hstart).mono fun _ => good_of_self hself hsafe hbuf2
  · exact inevitably_other hpos hself hstart

lemma isInt_sixtyFour : IsInt 64 := by decide

/-- A put and a get of no bytes. -/
def noBytes : RoundTrip where
  me := 0
  dest := 1
  node := ⟨1000, 64, 1⟩
  nelts := 0
  off := 0
  buf := 500
  buf2 := 600
  unit_eq := rfl
  in_range := by decide
  isInt := isInt_sixtyFour

/-- A put of 16 bytes into a window of the process itself, one byte behind the buffer. -/
def overlapping : RoundTrip where
  me := 0
  dest := 0
  node := ⟨1000, 64, 1⟩
  nelts := 16
  off := 8
  buf := 1007
  buf2 := 600
  unit_eq := rfl
  in_range := by decide
  isInt := isInt_sixtyFour

/-- `MP_Wait` is called for an id that was never set, and the put overwrites the second byte of its
buffer before that byte is moved. -/
theorem exact_fails : ¬ noBytes.Exact ∧ ¬ overlapping.Exact ∧
    mpMemmove (fun x => if x = 1008 then 1 else 0) overlapping.ptr 1007 16 1009 = 0 := by
  refine ⟨fun h => ?_, fun h => ?_, by decide⟩
  · exact absurd h.pos (by decide)
  · exact absurd (h.safeMove rfl) (by decide)

end RoundTrip

end NetPipe.MpLite
