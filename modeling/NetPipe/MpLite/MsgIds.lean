import NetPipe.Library.CallRuns
import NetPipe.MpLite.NodeLists

/-!
# The outstanding one-sided messages of a window

`add_msgid`, `rem_msgid` and `show_head_msgid`, and the loop over the outstanding messages in
`MP_Win_fence`, `MP_Win_complete` and `MP_Win_unlock`.
-/

namespace NetPipe.MpLite

namespace NodeLists

/-- `add_msgid`; `c` is the address from `malloc`. -/
def addMsgid (s : NodeLists ℕ) (wid mid c : ℕ) : Option (NodeLists ℕ) := s.append wid mid c

/-- `rem_msgid`. -/
def remMsgid (s : NodeLists ℕ) (wid mid : ℕ) : Option (NodeLists ℕ) := s.unlink wid (· == mid)

/-- `show_head_msgid`, which is `none` for the `-1` of an empty list. -/
def showHeadMsgid (s : NodeLists ℕ) (wid : ℕ) : Option (Option ℕ) :=
  match s.head wid with
  | none => some none
  | some p => (s.mem p).map fun node => some node.val

/-- The loop that waits for all messages of a window, for at most `n` passes, with the ids it waits
for. Of `MP_Wait` it has the part that removes the id of a one-sided message. -/
def waitOutstanding (wid : ℕ) : ℕ → NodeLists ℕ → Option (NodeLists ℕ × List ℕ)
  | 0, _ => none
  | n + 1, s =>
    (s.showHeadMsgid wid).bind fun
      | none => some (s, [])
      | some mid =>
        (s.remMsgid wid mid).bind fun s =>
          (waitOutstanding wid n s).map fun (s, mids) => (s, mid :: mids)

/-- The lists hold the ids `ids`, and the loop over a list waits for each of them once. -/
structure Outstanding (s : NodeLists ℕ) (ids : ℕ → List ℕ) : Prop where
  list : ∃ chain, s.Chains chain ∧ s.LastKept chain ∧ ∀ wid, (chain wid).map Prod.snd = ids wid
  waits : ∀ wid, ∃ s', s.waitOutstanding wid (s.mallocs + 1) = some (s', ids wid) ∧
    s'.head wid = none

end NodeLists

/-- A call of `add_msgid`, with the address of the new node, or of `rem_msgid`. -/
inductive MsgidCall where
  | add (wid mid c : ℕ)
  | rem (wid mid : ℕ)
  deriving DecidableEq, Repr

namespace MsgidCall

/-- What the code does to the lists. -/
def run (s : NodeLists ℕ) : MsgidCall → Option (NodeLists ℕ)
  | add wid mid c => s.addMsgid wid mid c
  | rem wid mid => s.remMsgid wid mid

/-- The ids that were added and not yet removed. -/
def outstanding (ids : ℕ → List ℕ) : MsgidCall → ℕ → List ℕ
  | add wid mid _ => Function.update ids wid (ids wid ++ [mid])
  | rem wid mid => Function.update ids wid ((ids wid).erase mid)

/-- The node of an `add_msgid` is not in use, and an id that is removed is in the list. -/
def Proper (s : NodeLists ℕ) (ids : ℕ → List ℕ) : MsgidCall → Prop
  | add _ _ c => s.mem c = none
  | rem wid mid => mid ∈ ids wid

/-- The call does not remove the last of several nodes. -/
def KeepsTail (ids : ℕ → List ℕ) : MsgidCall → Prop
  | add _ _ _ => True
  | rem wid mid => ids wid = [mid] ∨ mid ∈ (ids wid).dropLast

/-- The lists after some calls. -/
def runAll (calls : List MsgidCall) : Option (NodeLists ℕ) := calls.foldlM run .empty

/-- The ids that are outstanding after some calls. -/
def outstandingAll (calls : List MsgidCall) : ℕ → List ℕ := calls.foldl outstanding fun _ => []

end MsgidCall

namespace NodeLists.Chains

variable {s s' : NodeLists ℕ} {chain : ℕ → List (ℕ × ℕ)} {ids : ℕ → List ℕ} {wid mid : ℕ}

/-- `rem_msgid` takes out the first node of the id. -/
lemma remMsgid (h : s.Chains chain) (hmid : mid ∈ (chain wid).map Prod.snd) :
    ∃ l₁ a l₂ s', chain wid = l₁ ++ (a, mid) :: l₂ ∧ mid ∉ l₁.map Prod.snd ∧
      s.remMsgid wid mid = some s' ∧ s'.Chains (Function.update chain wid (l₁ ++ l₂)) ∧
      s'.last = s.last := by
  obtain ⟨m₁, m₂, hsplit, hnot⟩ := List.eq_append_cons_of_mem hmid
  obtain ⟨l₁, l', hchain, rfl, hl'⟩ := List.map_eq_append_iff.mp hsplit
  obtain ⟨⟨a, x⟩, l₂, rfl, rfl, rfl⟩ := List.map_eq_cons_iff.mp hl'
  have hl₁ : ∀ y ∈ l₁.map Prod.snd, (y == x) = false := by
    intro y hy
    rw [beq_eq_false_iff_ne]
    rintro rfl
    exact hnot hy
  obtain ⟨s', hs', hchains, hlast, -⟩ := h.unlink hchain hl₁ (beq_self_eq_true x)
  exact ⟨l₁, a, l₂, s', hchain, hnot, hs', hchains, hlast⟩

lemma showHeadMsgid (h : s.Chains chain) :
    s.showHeadMsgid wid = some ((chain wid).map Prod.snd).head? := by
  have hlinked := h.linked wid
  cases hchain : chain wid with
  | nil => simp [NodeLists.showHeadMsgid, h.head_eq_none.mpr hchain]
  | cons ax l =>
    rw [hchain] at hlinked
    obtain ⟨hhead, r, hmem, -⟩ := hlinked
    simp [NodeLists.showHeadMsgid, hhead, hmem]

/-- The loop waits for every id of the list, in order, and leaves the list empty. -/
lemma waitOutstanding (h : s.Chains chain) {n : ℕ} (hn : (chain wid).length < n) :
    ∃ s', s.waitOutstanding wid n = some (s', (chain wid).map Prod.snd) ∧
      s'.head wid = none := by
  induction n generalizing s chain with
  | zero => simp at hn
  | succ n ih =>
    cases hchain : chain wid with
    | nil =>
      refine ⟨s, ?_, h.head_eq_none.mpr hchain⟩
      simp [NodeLists.waitOutstanding, h.showHeadMsgid, hchain]
    | cons ax l =>
      obtain ⟨a, x⟩ := ax
      have hmem : x ∈ (chain wid).map Prod.snd := by simp [hchain]
      obtain ⟨l₁, b, l₂, s₁, hsplit, hnot, hrem, hchains, -⟩ := h.remMsgid hmem
      -- the id of the first node is found in the first node
      have hl₁ : l₁ = [] := by
        rw [hchain] at hsplit
        cases l₁ with
        | nil => rfl
        | cons cy l₁ =>
          rw [List.cons_append] at hsplit
          injection hsplit with hfirst _
          simp [← hfirst] at hnot
      subst hl₁
      rw [hchain, List.nil_append] at hsplit
      injection hsplit with _ hl
      subst hl
      have hlen : (Function.update chain wid ([] ++ l) wid).length < n := by
        rw [hchain] at hn
        simpa using hn
      obtain ⟨s', hs', hhead⟩ := ih hchains hlen
      refine ⟨s', ?_, hhead⟩
      simp [NodeLists.waitOutstanding, h.showHeadMsgid, hchain, hrem, hs']

lemma outstanding (h : s.Chains chain) (hlast : s.LastKept chain)
    (hids : ∀ wid, (chain wid).map Prod.snd = ids wid) : s.Outstanding ids := by
  refine ⟨⟨chain, h, hlast, hids⟩, fun wid => ?_⟩
  rw [← hids wid]
  exact h.waitOutstanding (Nat.lt_succ_of_le (h.bound wid))

end NodeLists.Chains

namespace NodeLists

lemma outstanding_empty : (empty : NodeLists ℕ).Outstanding fun _ => [] :=
  chains_empty.outstanding lastKept_empty fun _ => rfl

end NodeLists

namespace MsgidCall

variable {s s' : NodeLists ℕ} {ids : ℕ → List ℕ} {wid mid c : ℕ} 

/-- A new id stands at the end of the list. -/
lemma outstanding_add (wid mid : ℕ) (h : s.Outstanding ids) (hc : s.mem c = none) :
    ∃ s', (add wid mid c).run s = some s' ∧ s'.Outstanding ((add wid mid c).outstanding ids) := by
  obtain ⟨chain, hchains, hlast, hids⟩ := h.list
  obtain ⟨s', hs', hchains', hlast'⟩ := hchains.append (i := wid) hlast hc mid
  refine ⟨s', hs', hchains'.outstanding hlast' fun w => ?_⟩
  rw [outstanding]
  rcases eq_or_ne w wid with rfl | hw
  · simp [hids]
  · simp [hw, hids]

/-- After `rem_msgid` the list is right exactly if the id was not in the last of several nodes. -/
lemma outstanding_rem (h : s.Outstanding ids) (hmid : mid ∈ ids wid) :
    ∃ s', (rem wid mid).run s = some s' ∧
      (s'.Outstanding ((rem wid mid).outstanding ids) ↔ (rem wid mid).KeepsTail ids) := by
  obtain ⟨chain, hchains, hlast, hids⟩ := h.list
  rw [← hids] at hmid
  obtain ⟨l₁, a, l₂, s', hsplit, hnot, hs', hchains', hlast'⟩ := hchains.remMsgid hmid
  have hkept := hchains.lastKept_unlink hlast hsplit hlast' hchains'
  have hwid : ids wid = l₁.map Prod.snd ++ mid :: l₂.map Prod.snd := by
    rw [← hids, hsplit]
    simp
  have htail : (rem wid mid).KeepsTail ids ↔ (l₂ = [] → l₁ = []) := by
    rw [KeepsTail, hwid, NodeLists.eq_singleton_or_mem_dropLast hnot, List.map_eq_nil_iff,
      List.map_eq_nil_iff]
  have hids' : ∀ w, (Function.update chain wid (l₁ ++ l₂) w).map Prod.snd =
      (rem wid mid).outstanding ids w := by
    intro w
    rw [outstanding]
    rcases eq_or_ne w wid with rfl | hw
    · rw [Function.update_self, Function.update_self, hwid, List.erase_append_right _ hnot]
      simp
    · simp [hw, hids]
  refine ⟨s', hs', ?_⟩
  rw [htail, ← hkept]
  constructor
  · intro h'
    obtain ⟨chain', hchain', hlast'', -⟩ := h'.list
    rwa [hchains'.unique hchain']
  · intro hlast''
    exact hchains'.outstanding hlast'' hids'

/-- After every call the lists hold the outstanding ids, and every loop over a list waits for each
of them once, exactly if no call removes the last of several nodes. -/
theorem outstanding_iff_keepsTail (calls : List MsgidCall)
    (hproper : ∀ pre call s, pre ++ [call] <+: calls → runAll pre = some s →
      call.Proper s (outstandingAll pre)) :
    (∀ pre, pre <+: calls → ∃ s, runAll pre = some s ∧ s.Outstanding (outstandingAll pre)) ↔
      ∀ pre call, pre ++ [call] <+: calls → call.KeepsTail (outstandingAll pre) := by
  refine CallRuns.forall_prefix_iff NodeLists.outstanding_empty ?_ calls hproper
  intro s ids call hout hcall
  cases call with
  | add wid mid c =>
    obtain ⟨s', hs', hout'⟩ := outstanding_add wid mid hout hcall
    exact ⟨s', hs', iff_of_true hout' trivial⟩
  | rem wid mid => exact outstanding_rem hout hcall

/-- Two messages of one window are waited for in the order of their calls. -/
def inOrder : List MsgidCall := [add 0 1 10, add 0 2 20, rem 0 1, rem 0 2]

/-- The second of two messages is waited for first, and then another one is added. -/
def lastFirst : List MsgidCall := [add 0 1 10, add 0 2 20, rem 0 2, add 0 3 30]

lemma proper_inOrder (pre : List MsgidCall) (call : MsgidCall) (s : NodeLists ℕ)
    (hpre : pre ++ [call] <+: inOrder) (hs : runAll pre = some s) :
    call.Proper s (outstandingAll pre) := by
  obtain ⟨i, hi, rfl, rfl⟩ := CallRuns.exists_take_of_concat_prefix hpre
  simp only [inOrder, List.length_cons, List.length_nil] at hi
  interval_cases i <;> cases hs
  · rfl
  · rfl
  · exact List.mem_cons_self
  · exact List.mem_cons_self

theorem outstanding_inOrder :
    ∃ s, runAll inOrder = some s ∧ s.Outstanding (outstandingAll inOrder) := by
  have hkeeps : ∀ pre call, pre ++ [call] <+: inOrder → call.KeepsTail (outstandingAll pre) := by
    intro pre call hpre
    obtain ⟨i, hi, rfl, rfl⟩ := CallRuns.exists_take_of_concat_prefix hpre
    simp only [inOrder, List.length_cons, List.length_nil] at hi
    interval_cases i
    · trivial
    · trivial
    · exact Or.inr List.mem_cons_self
    · exact Or.inl rfl
  exact (outstanding_iff_keepsTail inOrder proper_inOrder).mpr hkeeps inOrder (List.prefix_refl _)

/-- The pointer to the last node is left at a node that was freed, and `add_msgid` writes there. -/
theorem add_writes_freed :
    (∀ pre call s, pre ++ [call] <+: lastFirst → runAll pre = some s →
      call.Proper s (outstandingAll pre)) ∧
    (∃ s, runAll (lastFirst.take 3) = some s ∧ outstandingAll (lastFirst.take 3) 0 = [1] ∧
      s.head 0 = some 10 ∧ s.last 0 = some 20 ∧ s.mem 20 = none) ∧
    runAll lastFirst = none ∧
    ¬ ∀ pre, pre <+: lastFirst → ∃ s, runAll pre = some s ∧ s.Outstanding (outstandingAll pre) := by
  have hnone : runAll lastFirst = none := rfl
  refine ⟨fun pre call s hpre hs => ?_, ⟨_, rfl, rfl, rfl, rfl, rfl⟩, hnone, fun h => ?_⟩
  · obtain ⟨i, hi, rfl, rfl⟩ := CallRuns.exists_take_of_concat_prefix hpre
    simp only [lastFirst, List.length_cons, List.length_nil] at hi
    interval_cases i <;> cases hs
    · rfl
    · rfl
    · exact List.mem_cons_of_mem _ List.mem_cons_self
    · rfl
  · obtain ⟨s, hs, -⟩ := h lastFirst List.prefix_rfl
    simp [hnone] at hs

end MsgidCall

end NetPipe.MpLite
