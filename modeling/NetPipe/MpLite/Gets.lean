import NetPipe.Library.CallRuns
import NetPipe.Library.Ring
import NetPipe.MpLite.NodeLists

/-!
# Gets and their replies

`MP_AGet` keeps the buffer of a get in a circular queue and a flag for its completion in a linked
list. `recv_get_reply_data` takes the buffer of a reply from the queue and sets the first flag that
is not set. `MP_Wait` waits for the flag with the id of its get.
-/

namespace NetPipe.MpLite

/-- `GET_BUF_Q_SIZE`. -/
def getBufQSize : ℕ := 10000

/-- `struct MP_get_complete` without its pointer. -/
structure GetComplete where
  val : ℕ
  mid : ℕ
  deriving DecidableEq, Repr

/-- The variables for gets from each process: the list of flags, the queue of buffers, the buffer
of the reply that is being received in `recv_q`, and the buffers of the replies received so far,
which the code does not keep. -/
structure Gets where
  get_complete : NodeLists GetComplete
  get_buf_addr_q : ℕ → ℕ → ℕ
  get_buf_addr_q_head : ℕ → ℕ
  get_buf_addr_q_tail : ℕ → ℕ
  recv_q : ℕ → Option ℕ
  stored : ℕ → List ℕ

namespace Gets

/-- No gets yet. -/
def init : Gets :=
  ⟨.empty, fun _ _ => 0, fun _ => 0, fun _ => 0, fun _ => none, fun _ => []⟩

/-- The part of `MP_AGet` for another process; `c` is the address from `malloc`. It stops the
program when the queue of buffers is full. -/
def aget (s : Gets) (src buf mid c : ℕ) : Option Gets :=
  (s.get_complete.append src ⟨0, mid⟩ c).bind fun get_complete =>
    let slots := Function.update (s.get_buf_addr_q src) (s.get_buf_addr_q_tail src) buf
    let tail := (s.get_buf_addr_q_tail src + 1) % getBufQSize
    if s.get_buf_addr_q_head src = tail then none
    else some { s with
      get_complete := get_complete
      get_buf_addr_q := Function.update s.get_buf_addr_q src slots
      get_buf_addr_q_tail := Function.update s.get_buf_addr_q_tail src tail }

/-- `recv_get_reply_data` starts to receive a reply. -/
def startReply (s : Gets) (src : ℕ) : Gets :=
  let buf := s.get_buf_addr_q src (s.get_buf_addr_q_head src)
  { s with recv_q := Function.update s.recv_q src (some buf) }

/-- `recv_get_reply_data` has got all of a reply. -/
def gotReply (s : Gets) (src : ℕ) : Option Gets :=
  (s.recv_q src).bind fun buf =>
    (s.get_complete.modifyFirst src (·.val != 1) ({ · with val := 1 })).map fun get_complete =>
      { s with
        get_complete := get_complete
        get_buf_addr_q_head := Function.update s.get_buf_addr_q_head src
          ((s.get_buf_addr_q_head src + 1) % getBufQSize)
        recv_q := Function.update s.recv_q src none
        stored := Function.update s.stored src (s.stored src ++ [buf]) }

/-- The flag that `MP_Wait` waits for. -/
def waitVal (s : Gets) (dest mid : ℕ) : Option ℕ :=
  (s.get_complete.findVal dest (·.mid == mid)).map GetComplete.val

/-- `MP_Wait` for a get, after its flag is set. -/
def wait (s : Gets) (dest mid : ℕ) : Option Gets :=
  (s.get_complete.unlink dest (·.mid == mid)).map fun get_complete =>
    { s with get_complete := get_complete }

end Gets

/-- A call of `MP_AGet`, the start and the end of a reply, or the end of a call of `MP_Wait`. -/
inductive GetCall where
  | aget (src buf mid c : ℕ)
  | startReply (src : ℕ)
  | gotReply (src : ℕ)
  | wait (dest mid : ℕ)
  deriving DecidableEq, Repr

/-- A get from a process, with its number among the gets from this process. -/
structure GetIssue where
  number : ℕ
  mid : ℕ
  buf : ℕ
  deriving DecidableEq, Repr

/-- The gets from each process that were issued, those that are not yet waited for, and the number
of replies. -/
structure GetHistory where
  issued : ℕ → List GetIssue
  waiting : ℕ → List GetIssue
  replies : ℕ → ℕ

namespace GetCall

/-- What the code does. -/
def run (s : Gets) : GetCall → Option Gets
  | aget src buf mid c => s.aget src buf mid c
  | startReply src => some (s.startReply src)
  | gotReply src => s.gotReply src
  | wait dest mid => s.wait dest mid

/-- The history after a call. -/
def history (h : GetHistory) : GetCall → GetHistory
  | aget src buf mid _ =>
    let g : GetIssue := ⟨(h.issued src).length, mid, buf⟩
    { h with issued := Function.update h.issued src (h.issued src ++ [g])
             waiting := Function.update h.waiting src (h.waiting src ++ [g]) }
  | startReply _ => h
  | gotReply src => { h with replies := Function.update h.replies src (h.replies src + 1) }
  | wait dest mid =>
    let waiting := (h.waiting dest).eraseP (·.mid == mid)
    { h with waiting := Function.update h.waiting dest waiting }

/-- A new get has a new node, an id that is not in use and room in the queue. A reply answers a
get. `MP_Wait` is called for an outstanding get and ends when the flag is set. -/
def Proper (s : Gets) (h : GetHistory) : GetCall → Prop
  | aget src _ mid c =>
    s.get_complete.mem c = none ∧ mid ∉ (h.waiting src).map GetIssue.mid ∧
      s.get_buf_addr_q_head src ≠ (s.get_buf_addr_q_tail src + 1) % getBufQSize
  | startReply src => s.recv_q src = none ∧ h.replies src < (h.issued src).length
  | gotReply src => s.recv_q src ≠ none
  | wait dest mid => mid ∈ (h.waiting dest).map GetIssue.mid ∧ s.waitVal dest mid ≠ some 0

/-- `MP_Wait` does not remove the last of several gets. -/
def KeepsLast (h : GetHistory) : GetCall → Prop
  | wait dest mid =>
    (h.waiting dest).map GetIssue.mid = [mid] ∨ mid ∈ ((h.waiting dest).map GetIssue.mid).dropLast
  | _ => True

/-- The variables after some calls. -/
def runAll (calls : List GetCall) : Option Gets := calls.foldlM run .init

/-- The history of some calls. -/
def historyAll (calls : List GetCall) : GetHistory :=
  calls.foldl history ⟨fun _ => [], fun _ => [], fun _ => 0⟩

end GetCall

/-- The node of a get. -/
def GetIssue.flag (replies : ℕ) (g : GetIssue) : GetComplete :=
  ⟨if g.number < replies then 1 else 0, g.mid⟩

/-- The replies from a process are stored in the buffers of its gets, in order. -/
structure Gets.MatchFrom (s : Gets) (h : GetHistory) (src : ℕ) : Prop where
  stored : s.stored src = ((h.issued src).take (h.replies src)).map GetIssue.buf
  receiving : ∀ buf, s.recv_q src = some buf →
    ∃ g, (h.issued src)[h.replies src]? = some g ∧ g.buf = buf
  queue : Ring getBufQSize (s.get_buf_addr_q src) (s.get_buf_addr_q_head src)
    (s.get_buf_addr_q_tail src) (((h.issued src).drop (h.replies src)).map GetIssue.buf)
  mids : ((h.waiting src).map GetIssue.mid).Nodup
  numbers : (h.issued src).map GetIssue.number = List.range (h.issued src).length
  replies_le : h.replies src ≤ (h.issued src).length
  waiting : ∃ got, h.waiting src = got ++ (h.issued src).drop (h.replies src) ∧
    ∀ g ∈ got, g.number < h.replies src

/-- Every reply is stored in the buffer of its get. The list holds the gets that are not waited
for, and the flag that `MP_Wait` waits for says whether the reply of its get is stored. -/
structure Gets.Match (s : Gets) (h : GetHistory) : Prop where
  replies : ∀ src, s.MatchFrom h src
  list : ∃ chain, s.get_complete.Chains chain ∧ s.get_complete.LastKept chain ∧
    ∀ src, (chain src).map Prod.snd = (h.waiting src).map (GetIssue.flag (h.replies src))
  waits : ∀ src, ∀ g ∈ h.waiting src,
    s.waitVal src g.mid = some (if g.number < h.replies src then 1 else 0)

namespace Gets

variable {s s' : Gets} {h h' : GetHistory} {src dest mid c : ℕ} {g : GetIssue}
  {chain : ℕ → List (ℕ × GetComplete)}

@[simp]
lemma flag_mid (n : ℕ) (g : GetIssue) : (g.flag n).mid = g.mid := rfl

/-- The gets from another process do not matter. -/
lemma MatchFrom.congr (hm : s.MatchFrom h src) (hstored : s'.stored src = s.stored src)
    (hrecv : s'.recv_q src = s.recv_q src) (hslots : s'.get_buf_addr_q src = s.get_buf_addr_q src)
    (hhead : s'.get_buf_addr_q_head src = s.get_buf_addr_q_head src)
    (htail : s'.get_buf_addr_q_tail src = s.get_buf_addr_q_tail src)
    (hissued : h'.issued src = h.issued src) (hwaiting : h'.waiting src = h.waiting src)
    (hreplies : h'.replies src = h.replies src) : s'.MatchFrom h' src := by
  obtain ⟨h₁, h₂, h₃, h₄, h₅, h₆, h₇⟩ := hm
  constructor
  · rwa [hstored, hissued, hreplies]
  · rwa [hrecv, hissued, hreplies]
  · rwa [hslots, hhead, htail, hissued, hreplies]
  · rwa [hwaiting]
  · rwa [hissued]
  · rwa [hissued, hreplies]
  · rwa [hwaiting, hissued, hreplies]

/-- The number of a get is its place. -/
lemma MatchFrom.number_eq (hm : s.MatchFrom h src) {k : ℕ} (hg : (h.issued src)[k]? = some g) :
    g.number = k := by
  have hk : k < (h.issued src).length := (List.getElem?_eq_some_iff.mp hg).1
  have hnumber : ((h.issued src).map GetIssue.number)[k]? = some g.number := by
    rw [List.getElem?_map, hg, Option.map_some]
  rw [hm.numbers, List.getElem?_range hk] at hnumber
  exact (Option.some.inj hnumber).symm

/-- A get without a reply has a number from the number of replies on. -/
lemma MatchFrom.le_number (hm : s.MatchFrom h src)
    (hg : g ∈ (h.issued src).drop (h.replies src)) : h.replies src ≤ g.number := by
  obtain ⟨i, hi⟩ := List.mem_iff_getElem?.mp hg
  rw [List.getElem?_drop] at hi
  rw [hm.number_eq hi]
  exact Nat.le_add_right _ _

/-- `MP_Wait` finds the node of its get. -/
lemma waitVal_eq (hchains : s.get_complete.Chains chain)
    (hlist : (chain src).map Prod.snd = (h.waiting src).map (GetIssue.flag (h.replies src)))
    (hmids : ((h.waiting src).map GetIssue.mid).Nodup) (hg : g ∈ h.waiting src) :
    s.waitVal src g.mid = some (if g.number < h.replies src then 1 else 0) := by
  obtain ⟨w₁, w₂, hw⟩ := List.append_of_mem hg
  rw [hw, List.map_append, List.map_cons] at hlist
  obtain ⟨l₁, l', hchain, hl₁, hl'⟩ := List.map_eq_append_iff.mp hlist
  obtain ⟨⟨a, x⟩, l₂, rfl, hx, hl₂⟩ := List.map_eq_cons_iff.mp hl'
  simp only at hx
  have hnot : ∀ y ∈ l₁.map Prod.snd, (y.mid == g.mid) = false := by
    intro y hy
    rw [hl₁] at hy
    obtain ⟨g', hg', rfl⟩ := List.mem_map.mp hy
    rw [beq_eq_false_iff_ne, flag_mid]
    rw [hw, List.map_append, List.nodup_append] at hmids
    exact hmids.2.2 _ (List.mem_map_of_mem hg') _ (by simp)
  have hval := hchains.findVal hchain hnot (by simp [hx])
  rw [waitVal, hval, hx]
  rfl

lemma Match.of_list (hreplies : ∀ src, s.MatchFrom h src) (hchains : s.get_complete.Chains chain)
    (hlast : s.get_complete.LastKept chain) (hlist : ∀ src,
      (chain src).map Prod.snd = (h.waiting src).map (GetIssue.flag (h.replies src))) :
    s.Match h :=
  ⟨hreplies, ⟨chain, hchains, hlast, hlist⟩,
    fun src _ hg => waitVal_eq hchains (hlist src) (hreplies src).mids hg⟩

lemma match_init : init.Match ⟨fun _ => [], fun _ => [], fun _ => 0⟩ := by
  refine Match.of_list (fun src => ?_) NodeLists.chains_empty NodeLists.lastKept_empty
    fun _ => rfl
  exact ⟨rfl, fun _ h => by simp [init] at h, Ring.empty (by simp [getBufQSize]) _, List.nodup_nil,
    rfl, le_rfl, [], rfl, fun _ h => by simp at h⟩

/-- `MP_AGet` adds its get at the end. -/
lemma Match.aget (hm : s.Match h) (buf : ℕ) (hc : s.get_complete.mem c = none)
    (hmid : mid ∉ (h.waiting src).map GetIssue.mid)
    (hroom : s.get_buf_addr_q_head src ≠ (s.get_buf_addr_q_tail src + 1) % getBufQSize) :
    ∃ s', s.aget src buf mid c = some s' ∧ s'.Match ((GetCall.aget src buf mid c).history h) := by
  obtain ⟨chain, hchains, hlast, hlist⟩ := hm.list
  obtain ⟨gc, hgc, hchains', hlast'⟩ := hchains.append (i := src) hlast hc ⟨0, mid⟩
  refine ⟨_, by rw [Gets.aget, hgc, Option.bind_some, if_neg hroom], ?_⟩
  refine Match.of_list (fun src' => ?_) hchains' hlast' fun src' => ?_
  · rcases eq_or_ne src' src with rfl | hne
    · have hm' := hm.replies src'
      have hdrop : (h.issued src' ++ [(⟨(h.issued src').length, mid, buf⟩ : GetIssue)]).drop
          (h.replies src') =
          (h.issued src').drop (h.replies src') ++ [⟨(h.issued src').length, mid, buf⟩] := by
        rw [List.drop_append_of_le_length hm'.replies_le]
      constructor <;> simp only [GetCall.history, Function.update_self]
      · rw [hm'.stored, List.take_append_of_le_length hm'.replies_le]
      · intro buf' hbuf'
        obtain ⟨g, hg, hbuf⟩ := hm'.receiving buf' hbuf'
        refine ⟨g, ?_, hbuf⟩
        rw [List.getElem?_append_left (List.getElem?_eq_some_iff.mp hg).1, hg]
      · rw [hdrop, List.map_append]
        exact hm'.queue.push hroom.symm buf
      · rw [List.map_append, List.nodup_append]
        refine ⟨hm'.mids, by simp, ?_⟩
        rintro a ha b hb rfl
        simp only [List.map_cons, List.map_nil, List.mem_singleton] at hb
        exact hmid (hb ▸ ha)
      · rw [List.map_append, hm'.numbers, List.length_append, List.length_singleton,
          List.range_succ]
        rfl
      · exact hm'.replies_le.trans (by simp)
      · obtain ⟨got, hgot, hnumber⟩ := hm'.waiting
        refine ⟨got, ?_, hnumber⟩
        rw [hdrop, hgot, List.append_assoc]
    · apply (hm.replies src').congr <;> simp [GetCall.history, hne]
  · rcases eq_or_ne src' src with rfl | hne
    · have hflag : GetIssue.flag (h.replies src') ⟨(h.issued src').length, mid, buf⟩ = ⟨0, mid⟩ := by
        simp [GetIssue.flag, (hm.replies src').replies_le]
      simp [GetCall.history, hlist, hflag]
    · simp [GetCall.history, hne, hlist]

/-- The reply of the next get starts. -/
lemma Match.startReply (hm : s.Match h) (hlt : h.replies src < (h.issued src).length) :
    (s.startReply src).Match h := by
  obtain ⟨chain, hchains, hlast, hlist⟩ := hm.list
  refine Match.of_list (fun src' => ?_) hchains hlast hlist
  rcases eq_or_ne src' src with rfl | hne
  · have hm' := hm.replies src'
    obtain ⟨h₁, -, h₃, h₄, h₅, h₆, h₇⟩ := hm'
    refine ⟨h₁, fun buf hbuf => ?_, h₃, h₄, h₅, h₆, h₇⟩
    rw [List.drop_eq_getElem_cons hlt, List.map_cons] at h₃
    simp only [Gets.startReply, Function.update_self, Option.some.injEq, h₃.head_eq] at hbuf
    exact ⟨_, List.getElem?_eq_getElem hlt, hbuf⟩
  · apply (hm.replies src').congr <;> simp [Gets.startReply, hne]

/-- The reply of the next get is stored, and sets the flag of this get. -/
lemma Match.gotReply (hm : s.Match h) (hrecv : s.recv_q src ≠ none) :
    ∃ s', s.gotReply src = some s' ∧ s'.Match ((GetCall.gotReply src).history h) := by
  obtain ⟨chain, hchains, hlast, hlist⟩ := hm.list
  have hm' := hm.replies src
  obtain ⟨buf, hbuf⟩ := Option.ne_none_iff_exists'.mp hrecv
  obtain ⟨g, hg, rfl⟩ := hm'.receiving buf hbuf
  obtain ⟨hlt, hget⟩ := List.getElem?_eq_some_iff.mp hg
  have hdrop : (h.issued src).drop (h.replies src) =
      g :: (h.issued src).drop (h.replies src + 1) := by
    rw [List.drop_eq_getElem_cons hlt, hget]
  obtain ⟨got, hgot, hnumber⟩ := hm'.waiting
  have hopen : ∀ g' ∈ (h.issued src).drop (h.replies src + 1), h.replies src < g'.number := by
    intro g' hg'
    obtain ⟨i, hi⟩ := List.mem_iff_getElem?.mp hg'
    rw [List.getElem?_drop] at hi
    rw [hm'.number_eq hi, Nat.add_right_comm]
    exact Nat.lt_succ_of_le (Nat.le_add_right _ _)
  -- the flags of the gets before this one are set
  have hvals := hlist src
  rw [hgot, hdrop, List.map_append, List.map_cons] at hvals
  obtain ⟨l₁, l', hchain, hl₁, hl'⟩ := List.map_eq_append_iff.mp hvals
  obtain ⟨⟨a, x⟩, l₂, rfl, hx, hl₂⟩ := List.map_eq_cons_iff.mp hl'
  simp only at hx
  have hset : ∀ y ∈ l₁.map Prod.snd, (y.val != 1) = false := by
    intro y hy
    rw [hl₁] at hy
    obtain ⟨g', hg', rfl⟩ := List.mem_map.mp hy
    simp [GetIssue.flag, hnumber g' hg']
  have hnotset : (x.val != 1) = true := by
    simp [hx, GetIssue.flag, hm'.number_eq hg]
  obtain ⟨gc, hgc, hchains', hlast'⟩ :=
    hchains.modifyFirst hchain hset hnotset ({ · with val := 1 })
  refine ⟨_, by rw [Gets.gotReply, hbuf, Option.bind_some, hgc, Option.map_some], ?_⟩
  have hlen : gc.LastKept (Function.update chain src (l₁ ++ (a, ⟨1, x.mid⟩) :: l₂)) := by
    intro j hj
    rw [hlast']
    rcases eq_or_ne j src with rfl | hne
    · rw [hlast j (by simp [hchain]), hchain]
      simp
    · rw [Function.update_of_ne hne] at hj ⊢
      exact hlast j hj
  refine Match.of_list (fun src' => ?_) hchains' hlen fun src' => ?_
  · rcases eq_or_ne src' src with rfl | hne
    · constructor <;> simp only [GetCall.history, Function.update_self]
      · rw [hm'.stored, List.take_add_one, hg]
        simp
      · simp
      · have hqueue := hm'.queue
        rw [hdrop, List.map_cons] at hqueue
        exact hqueue.pop
      · exact hm'.mids
      · exact hm'.numbers
      · exact hlt
      · refine ⟨got ++ [g], ?_, ?_⟩
        · rw [hgot, hdrop]
          simp
        · intro g' hg'
          rcases List.mem_append.mp hg' with hg' | hg'
          · exact (hnumber g' hg').trans (Nat.lt_succ_self _)
          · rw [List.mem_singleton.mp hg', hm'.number_eq hg]
            exact Nat.lt_succ_self _
    · apply (hm.replies src').congr <;> simp [GetCall.history, hne]
  · rcases eq_or_ne src' src with rfl | hne
    · simp only [GetCall.history, Function.update_self, List.map_append, List.map_cons, hgot, hdrop]
      have hold : l₁.map Prod.snd = got.map (GetIssue.flag (h.replies src' + 1)) := by
        rw [hl₁]
        apply List.map_congr_left
        intro g' hg'
        simp [GetIssue.flag, hnumber g' hg', (hnumber g' hg').trans (Nat.lt_succ_self _)]
      have hrest : l₂.map Prod.snd =
          ((h.issued src').drop (h.replies src' + 1)).map (GetIssue.flag (h.replies src' + 1)) := by
        rw [hl₂]
        apply List.map_congr_left
        intro g' hg'
        have hlt' := hopen g' hg'
        simp [GetIssue.flag, Nat.not_lt.mpr hlt'.le, Nat.not_lt.mpr (Nat.succ_le_of_lt hlt')]
      rw [hold, hrest, hx]
      simp [GetIssue.flag, hm'.number_eq hg]
    · simp [GetCall.history, hne, hlist]

/-- After `MP_Wait` the list is right exactly if its get was not the last of several. -/
lemma Match.wait (hm : s.Match h) (hmid : mid ∈ (h.waiting dest).map GetIssue.mid)
    (hset : s.waitVal dest mid ≠ some 0) :
    ∃ s', s.wait dest mid = some s' ∧ (s'.Match ((GetCall.wait dest mid).history h) ↔
      (GetCall.wait dest mid).KeepsLast h) := by
  obtain ⟨chain, hchains, hlast, hlist⟩ := hm.list
  have hm' := hm.replies dest
  obtain ⟨g, hg, rfl⟩ := List.mem_map.mp hmid
  obtain ⟨w₁, w₂, hw⟩ := List.append_of_mem hg
  have hvals := hlist dest
  rw [hw, List.map_append, List.map_cons] at hvals
  obtain ⟨l₁, l', hchain, hl₁, hl'⟩ := List.map_eq_append_iff.mp hvals
  obtain ⟨⟨a, x⟩, l₂, rfl, hx, hl₂⟩ := List.map_eq_cons_iff.mp hl'
  simp only at hx
  have hmids := hm'.mids
  rw [hw, List.map_append, List.map_cons, List.nodup_append] at hmids
  have hother : ∀ g' ∈ w₁, g'.mid ≠ g.mid :=
    fun g' hg' => hmids.2.2 _ (List.mem_map_of_mem hg') _ List.mem_cons_self
  have hnot : ∀ y ∈ l₁.map Prod.snd, (y.mid == g.mid) = false := by
    intro y hy
    rw [hl₁] at hy
    obtain ⟨g', hg', rfl⟩ := List.mem_map.mp hy
    simpa using hother g' hg'
  obtain ⟨gc, hgc, hchains', hlast', -⟩ := hchains.unlink hchain hnot (by simp [hx])
  refine ⟨_, by rw [Gets.wait, hgc, Option.map_some], ?_⟩
  have hkept := hchains.lastKept_unlink hlast hchain hlast' hchains'
  have hkeeps : (GetCall.wait dest g.mid).KeepsLast h ↔ (l₂ = [] → l₁ = []) := by
    have hnil₁ : l₁ = [] ↔ w₁ = [] := by
      rw [← List.map_eq_nil_iff (f := Prod.snd), hl₁, List.map_eq_nil_iff]
    have hnil₂ : l₂ = [] ↔ w₂ = [] := by
      rw [← List.map_eq_nil_iff (f := Prod.snd), hl₂, List.map_eq_nil_iff]
    rw [GetCall.KeepsLast, hw, List.map_append, List.map_cons,
      NodeLists.eq_singleton_or_mem_dropLast, List.map_eq_nil_iff, List.map_eq_nil_iff, hnil₁, hnil₂]
    intro hmem
    obtain ⟨g', hg', heq⟩ := List.mem_map.mp hmem
    exact hother g' hg' heq
  have herase : (h.waiting dest).eraseP (·.mid == g.mid) = w₁ ++ w₂ := by
    rw [hw, List.eraseP_append_right _ (by simpa using hother)]
    simp
  -- the get was answered
  have hanswered : g.number < h.replies dest := by
    by_contra hnot
    rw [hm.waits dest g hg, if_neg hnot] at hset
    exact hset rfl
  rw [hkeeps, ← hkept]
  constructor
  · intro hm''
    obtain ⟨chain', hchain', hlast'', -⟩ := hm''.list
    rwa [hchains'.unique hchain']
  · intro hlast''
    refine Match.of_list (fun src => ?_) hchains' hlast'' fun src => ?_
    · rcases eq_or_ne src dest with rfl | hne
      · constructor <;> simp only [GetCall.history, Function.update_self]
        · exact hm'.stored
        · exact hm'.receiving
        · exact hm'.queue
        · exact List.Nodup.sublist (List.eraseP_sublist.map _) hm'.mids
        · exact hm'.numbers
        · exact hm'.replies_le
        · obtain ⟨got, hgot, hnumber⟩ := hm'.waiting
          have hmem : g ∈ got := by
            rw [hgot] at hg
            rcases List.mem_append.mp hg with hg | hg
            · exact hg
            · exact absurd (hm'.le_number hg) (Nat.not_le.mpr hanswered)
          refine ⟨got.eraseP (·.mid == g.mid), ?_, fun g' hg' => ?_⟩
          · rw [hgot, List.eraseP_append_left (a := g) (by simp) _ hmem]
          · exact hnumber g' (List.mem_of_mem_eraseP hg')
      · apply (hm.replies src).congr <;> simp [GetCall.history, hne]
    · rcases eq_or_ne src dest with rfl | hne
      · simp only [GetCall.history, Function.update_self, herase, List.map_append, hl₁, hl₂]
      · simp [GetCall.history, hne, hlist]

end Gets

namespace GetCall

/-- After every call the replies are stored in the buffers of their gets and the list is right,
exactly if `MP_Wait` never removes the last of several gets. -/
theorem match_iff_keepsLast (calls : List GetCall)
    (hproper : ∀ pre call s, pre ++ [call] <+: calls → runAll pre = some s →
      call.Proper s (historyAll pre)) :
    (∀ pre, pre <+: calls → ∃ s, runAll pre = some s ∧ s.Match (historyAll pre)) ↔
      ∀ pre call, pre ++ [call] <+: calls → call.KeepsLast (historyAll pre) := by
  refine CallRuns.forall_prefix_iff Gets.match_init ?_ calls hproper
  intro s h call hm hcall
  cases call with
  | aget src buf mid c =>
    obtain ⟨s', hs', hm'⟩ := hm.aget buf hcall.1 hcall.2.1 hcall.2.2
    exact ⟨s', hs', iff_of_true hm' trivial⟩
  | startReply src => exact ⟨_, rfl, iff_of_true (hm.startReply hcall.2) trivial⟩
  | gotReply src =>
    obtain ⟨s', hs', hm'⟩ := hm.gotReply hcall
    exact ⟨s', hs', iff_of_true hm' trivial⟩
  | wait dest mid => exact hm.wait hcall.1 hcall.2

/-- Two gets from process 1 are answered and waited for in the order of their calls. -/
def inOrder : List GetCall :=
  [aget 1 100 7 10, aget 1 200 8 20, startReply 1, gotReply 1, startReply 1, gotReply 1,
    wait 1 7, wait 1 8]

/-- The second of two gets is waited for first, and then there is another one. -/
def lastFirst : List GetCall :=
  [aget 1 100 7 10, aget 1 200 8 20, startReply 1, gotReply 1, startReply 1, gotReply 1,
    wait 1 8, aget 1 300 9 30]

lemma proper_inOrder : ∀ pre call s, pre ++ [call] <+: inOrder → runAll pre = some s →
    call.Proper s (historyAll pre) := by
  intro pre call s hpre
  obtain ⟨i, hi, rfl, rfl⟩ := CallRuns.exists_take_of_concat_prefix hpre
  simp only [inOrder, List.length_cons, List.length_nil] at hi
  intro hs
  interval_cases i <;> cases hs
  · exact ⟨rfl, by decide, by decide⟩
  · exact ⟨rfl, by decide, by decide⟩
  · exact ⟨rfl, by decide⟩
  · exact Option.some_ne_none _
  · exact ⟨rfl, by decide⟩
  · exact Option.some_ne_none _
  · exact ⟨by decide, by decide⟩
  · exact ⟨by decide, by decide⟩

theorem match_inOrder : ∃ s, runAll inOrder = some s ∧ s.Match (historyAll inOrder) := by
  have hkeeps : ∀ pre call, pre ++ [call] <+: inOrder → call.KeepsLast (historyAll pre) := by
    intro pre call hpre
    obtain ⟨i, hi, rfl, rfl⟩ := CallRuns.exists_take_of_concat_prefix hpre
    simp only [inOrder, List.length_cons, List.length_nil] at hi
    interval_cases i
    · trivial
    · trivial
    · trivial
    · trivial
    · trivial
    · trivial
    · exact Or.inr (by decide)
    · exact Or.inl rfl
  exact (match_iff_keepsLast inOrder proper_inOrder).mpr hkeeps inOrder (List.prefix_refl _)

/-- The pointer to the last node is left at a node that was freed, and `MP_AGet` writes there. -/
theorem aget_writes_freed :
    (∀ pre call s, pre ++ [call] <+: lastFirst → runAll pre = some s →
      call.Proper s (historyAll pre)) ∧
    (∃ s, runAll (lastFirst.take 7) = some s ∧ s.get_complete.head 1 = some 10 ∧
      s.get_complete.last 1 = some 20 ∧ s.get_complete.mem 20 = none) ∧
    runAll lastFirst = none ∧
    ¬ ∀ pre, pre <+: lastFirst → ∃ s, runAll pre = some s ∧ s.Match (historyAll pre) := by
  have hnone : runAll lastFirst = none := rfl
  refine ⟨fun pre call s hpre => ?_, ⟨_, rfl, rfl, rfl, rfl⟩, hnone, fun h => ?_⟩
  · obtain ⟨i, hi, rfl, rfl⟩ := CallRuns.exists_take_of_concat_prefix hpre
    simp only [lastFirst, List.length_cons, List.length_nil] at hi
    intro hs
    interval_cases i <;> cases hs
    · exact ⟨rfl, by decide, by decide⟩
    · exact ⟨rfl, by decide, by decide⟩
    · exact ⟨rfl, by decide⟩
    · exact Option.some_ne_none _
    · exact ⟨rfl, by decide⟩
    · exact Option.some_ne_none _
    · exact ⟨by decide, by decide⟩
    · exact ⟨rfl, by decide, by decide⟩
  · obtain ⟨s, hs, -⟩ := h lastFirst List.prefix_rfl
    simp [hnone] at hs

end GetCall

end NetPipe.MpLite
