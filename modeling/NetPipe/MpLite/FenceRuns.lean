import NetPipe.MpLite.FenceLinks

/-!
# Runs of fences

Every step of a process or of a handler does to each link one of the operations of `Link`, or
nothing. That the fences of two processes keep each other waiting bounds the puts under way.
-/

namespace NetPipe.MpLite

open FenceState

variable {α μ : Type*}

namespace FenceState

/-- The link from `a` to `b`. -/
def link (s : FenceState α μ) (a b : ℕ) : Link α where
  chan := s.chan a b
  got := s.got a b
  elem := s.procs b a
  mark := s.mark b a
  entered := s.entered a
  sent := s.sentTo a b
  stored := s.stored a b
  took := s.took a b
  consumed := s.consumed b a
  issued := s.issued a b
  applied := s.applied a b
  before := s.before a b

/-- Where a process can be. It resets an element only for a put that has arrived. -/
def PcOk (nprocs : ℕ) (s : FenceState α μ) (p : ℕ) : Prop :=
  match s.pc p with
  | .outside => True
  | .put i | .wait i => i ≤ nprocs
  | .reset i => i < nprocs ∧ i ≠ p ∧ s.round p < s.stored i p

/-- The invariant of all runs. -/
structure Inv (nprocs : ℕ) (act : α → μ → μ) (mem : ℕ → μ) (s : FenceState α μ) : Prop where
  link : ∀ a b, a < nprocs → b < nprocs → a ≠ b → (s.link a b).Good a
  index : ∀ p, p < nprocs → s.fence_index p = s.round p % 2
  pcOk : ∀ p, p < nprocs → s.PcOk nprocs p
  memory : ∀ b, s.mem b = (s.log b).foldl (fun m e => act e.2 m) (mem b)

variable {nprocs : ℕ} {act : α → μ → μ} {mem : ℕ → μ} {s : FenceState α μ}

lemma took_eq_or (s : FenceState α μ) (a b : ℕ) :
    s.took a b = s.round b ∨ s.took a b = s.round b + 1 := by
  unfold took
  split
  · exact Or.inr rfl
  · exact Or.inl rfl

lemma sentTo_le (s : FenceState α μ) (a b : ℕ) : s.sentTo a b ≤ s.round a + 1 := by
  unfold sentTo
  split <;> omega

/-- A process is at most two puts ahead of the resets of another. -/
lemma Inv.sent_le (hs : s.Inv nprocs act mem) {a b : ℕ} (ha : a < nprocs) (hb : b < nprocs)
    (hne : a ≠ b) : s.sentTo a b ≤ s.took a b + 2 := by
  have hba := hs.link b a hb ha hne.symm
  have htook : s.took b a ≤ s.sentTo b a := hba.took_le.trans hba.stored_le
  have h₁ := s.sentTo_le a b
  have h₂ := s.sentTo_le b a
  have h₃ := s.took_eq_or b a
  have h₄ := s.took_eq_or a b
  omega

lemma init_inv : (init mem : FenceState α μ).Inv nprocs act mem where
  link a b _ _ _ :=
    { serials := rfl
      took_le := le_rfl
      stored_le := le_rfl
      sent_le := le_rfl
      entered_le := Nat.zero_le _
      token := fun _ _ _ h => absurd h List.not_mem_nil
      consumed := rfl
      got_lt := Nat.zero_lt_succ 3
      got_zero := fun _ => rfl
      full := fun _ _ h => absurd h (Nat.not_lt_zero _)
      part := fun _ => (partly_zero a).symm
      empty := fun _ => rfl
      issued := rfl
      before_chan := fun pre _ _ _ post h => by
        have h' : [] = pre ++ _ :: post := h
        simp at h'
      before_stored := fun _ h => absurd h (Nat.not_lt_zero _)
      before_now := fun h => absurd h (lt_irrefl _) }
  index p _ := rfl
  pcOk p _ := trivial
  memory b := rfl

/-! ### Where the processes are -/

variable {p a b i : ℕ} {pc' : FencePc}

lemma entered_of_outside (h : s.pc p = .outside) : s.entered p = s.round p := if_pos h

lemma entered_of_inside (h : s.pc p ≠ .outside) : s.entered p = s.round p + 1 := if_neg h

lemma sentTo_of_sent (h : (s.pc a).Sent b) : s.sentTo a b = s.round a + 1 := if_pos h

lemma sentTo_of_not_sent (h : ¬(s.pc a).Sent b) : s.sentTo a b = s.round a := if_neg h

lemma took_of_took (h : (s.pc b).Took a) : s.took a b = s.round b + 1 := if_pos h

lemma took_of_not_took (h : ¬(s.pc b).Took a) : s.took a b = s.round b := if_neg h

lemma goto_pc_self : (s.goto p pc').pc p = pc' := Function.update_self _ _ _

lemma goto_pc_of_ne (h : a ≠ p) : (s.goto p pc').pc a = s.pc a := Function.update_of_ne h _ _

/-- A process that only moves on leaves a link alone if it stays on the same side of its put and
its reset. -/
lemma link_goto (hentered : p = a → (pc' = .outside ↔ s.pc a = .outside))
    (hsent : p = a → (pc'.Sent b ↔ (s.pc a).Sent b))
    (htook : p = b → (pc'.Took a ↔ (s.pc b).Took a)) : (s.goto p pc').link a b = s.link a b := by
  have h₁ : (s.goto p pc').entered a = s.entered a := by
    unfold entered
    rcases eq_or_ne a p with rfl | hne
    · rw [goto_pc_self, if_congr (hentered rfl) rfl rfl]
      rfl
    · rw [goto_pc_of_ne hne]
      rfl
  have h₂ : (s.goto p pc').sentTo a b = s.sentTo a b := by
    unfold sentTo
    rcases eq_or_ne a p with rfl | hne
    · rw [goto_pc_self, if_congr (hsent rfl) rfl rfl]
      rfl
    · rw [goto_pc_of_ne hne]
      rfl
  have h₃ : (s.goto p pc').took a b = s.took a b := by
    unfold took
    rcases eq_or_ne b p with rfl | hne
    · rw [goto_pc_self, if_congr (htook rfl) rfl rfl]
      rfl
    · rw [goto_pc_of_ne hne]
      rfl
  unfold link
  rw [h₁, h₂, h₃]
  rfl

lemma applied_apply {c q : ℕ} {op : α} (h : ¬(a = c ∧ b = q)) :
    (s.apply act c q op).applied a b = s.applied a b := by
  unfold applied
  rcases eq_or_ne b q with rfl | hq
  · have hc : (c == a) = false := beq_eq_false_iff_ne.mpr fun hca => h ⟨hca.symm, rfl⟩
    simp [FenceState.apply, hc]
  · simp [FenceState.apply, hq]

lemma applied_apply_self {op : α} :
    (s.apply act a b op).applied a b = s.applied a b ++ [op] := by
  simp [applied, FenceState.apply]

lemma link_apply {c q : ℕ} {op : α} (h : ¬(a = c ∧ b = q)) :
    (s.apply act c q op).link a b = s.link a b := by
  unfold link
  rw [applied_apply h]
  rfl

lemma memory_apply {c q : ℕ} {op : α} (h : ∀ b, s.mem b = (s.log b).foldl (fun m e => act e.2 m)
    (mem b)) (b : ℕ) : (s.apply act c q op).mem b =
      ((s.apply act c q op).log b).foldl (fun m e => act e.2 m) (mem b) := by
  rcases eq_or_ne b q with rfl | hq
  · simp [FenceState.apply, h]
  · simpa [FenceState.apply, hq] using h b

lemma link_send {q : ℕ} {m : FenceMsg α} (h : ¬(a = p ∧ b = q)) :
    (s.send p q m).link a b = s.link a b := by
  unfold link send
  simp only [set₂_apply, if_neg h]
  rfl

lemma link_issue {q : ℕ} {op : α} (h : ¬(a = p ∧ b = q)) :
    ({ s.send p q (.data op) with
      issued := set₂ s.issued p q (s.issued p q ++ [op]) } : FenceState α μ).link a b =
      s.link a b := by
  rw [← link_send (s := s) (m := .data op) h]
  unfold link
  simp only [set₂_apply, if_neg h]
  rfl

lemma link_issue_self {op : α} :
    ({ s.send a b (.data op) with
      issued := set₂ s.issued a b (s.issued a b ++ [op]) } : FenceState α μ).link a b =
      (s.link a b).issue op := by
  unfold link Link.issue send
  simp only [set₂_apply, and_self, if_true]
  rfl

lemma link_enter_self (hpc : s.pc a = .outside) (hne : a ≠ b) :
    (s.enter a).link a b = (s.link a b).enter := by
  have hpc' : (s.enter a).pc a = .put 0 := Function.update_self _ _ _
  have h₁ : (s.enter a).entered a = s.entered a + 1 := by
    rw [entered_of_inside (by simp [hpc']), entered_of_outside hpc]
    rfl
  have h₂ : (s.enter a).sentTo a b = s.sentTo a b := by
    rw [sentTo_of_not_sent (by simp [hpc', FencePc.Sent]),
      sentTo_of_not_sent (by simp [hpc, FencePc.Sent])]
    rfl
  have h₃ : (s.enter a).took a b = s.took a b := by
    unfold took enter
    simp only [Function.update_of_ne hne.symm]
  unfold link Link.enter
  rw [h₁, h₂, h₃, entered_of_outside hpc]
  simp only [enter, true_and]
  rfl

lemma link_enter_of_ne (hpc : s.pc p = .outside) (hne : a ≠ p) :
    (s.enter p).link a b = s.link a b := by
  have h₁ : (s.enter p).entered a = s.entered a := by
    unfold entered enter
    simp only [Function.update_of_ne hne]
  have h₂ : (s.enter p).sentTo a b = s.sentTo a b := by
    unfold sentTo enter
    simp only [Function.update_of_ne hne]
  have h₃ : (s.enter p).took a b = s.took a b := by
    rcases eq_or_ne b p with rfl | hb
    · rw [took_of_not_took (by simp [enter, FencePc.Took]),
        took_of_not_took (by simp [hpc, FencePc.Took])]
      rfl
    · unfold took enter
      simp only [Function.update_of_ne hb]
  unfold link
  rw [h₁, h₂, h₃]
  simp only [enter, hne, false_and, if_false]
  rfl

lemma link_put_self {slot : ℕ} {bytes : List UInt8} {k : ℕ} (hpc : s.pc a = .put b) (hne : a ≠ b)
    (hslot : slot = s.round a % 2) (hbytes : bytes = le32 a) (hk : k = s.round a) :
    ((s.send a b (.token slot bytes k)).goto a (.put (b + 1))).link a b =
      (s.link a b).put a := by
  subst hslot hbytes hk
  have hsent : s.sentTo a b = s.round a :=
    sentTo_of_not_sent (by rw [hpc]; exact lt_irrefl b)
  have h₁ : ((s.send a b (.token (s.round a % 2) (le32 a) (s.round a))).goto a
      (.put (b + 1))).entered a = s.entered a := by
    rw [entered_of_inside (by simp [goto_pc_self]), entered_of_inside (by simp [hpc])]
    rfl
  have h₂ : ((s.send a b (.token (s.round a % 2) (le32 a) (s.round a))).goto a
      (.put (b + 1))).sentTo a b = s.sentTo a b + 1 := by
    rw [sentTo_of_sent (by simp [goto_pc_self, FencePc.Sent]), hsent]
    rfl
  have h₃ : ((s.send a b (.token (s.round a % 2) (le32 a) (s.round a))).goto a
      (.put (b + 1))).took a b = s.took a b := by
    unfold took
    rw [goto_pc_of_ne hne.symm]
    rfl
  unfold link Link.put
  rw [h₁, h₂, h₃, hsent]
  simp only [goto, send, set₂_apply, and_self, if_true]
  rfl

lemma link_reset_self (hpc : s.pc b = .reset a) (hne : a ≠ b)
    (hindex : s.fence_index b = s.round b % 2) :
    (s.resetSlot b a).link a b = (s.link a b).reset := by
  have htook : s.took a b = s.round b := took_of_not_took (by rw [hpc]; exact lt_irrefl a)
  have h₁ : (s.resetSlot b a).entered a = s.entered a := by
    unfold entered resetSlot
    simp only [Function.update_of_ne hne]
  have h₂ : (s.resetSlot b a).sentTo a b = s.sentTo a b := by
    unfold sentTo resetSlot
    simp only [Function.update_of_ne hne]
  have h₃ : (s.resetSlot b a).took a b = s.took a b + 1 := by
    rw [took_of_took (by simp [resetSlot, FencePc.Took]), htook]
    rfl
  unfold link Link.reset
  rw [h₁, h₂, h₃, htook]
  simp only [resetSlot, set₂_apply, and_self, if_true, hindex]
  rfl

lemma link_reset (hpc : s.pc p = .reset i) (h : ¬(a = i ∧ b = p)) :
    (s.resetSlot p i).link a b = s.link a b := by
  have hgoto : (s.goto p (.wait (i + 1))).link a b = s.link a b := by
    refine link_goto ?_ ?_ ?_
    · rintro rfl
      simp [hpc]
    · rintro rfl
      simp [hpc, FencePc.Sent]
    · rintro rfl
      simp only [hpc, FencePc.Took]
      have hai : a ≠ i := fun hai => h ⟨hai, rfl⟩
      omega
  rw [← hgoto]
  have h' : ¬(b = p ∧ a = i) := fun h' => h h'.symm
  unfold link resetSlot goto
  simp only [set₂_apply, if_neg h']
  rfl

lemma link_leave (hpc : s.pc p = .wait nprocs) (ha : a < nprocs) :
    (s.leave p).link a b = s.link a b := by
  have h₁ : (s.leave p).entered a = s.entered a := by
    rcases eq_or_ne a p with rfl | hne
    · rw [entered_of_outside (by simp [leave]), entered_of_inside (by simp [hpc])]
      simp [leave]
    · unfold entered leave
      simp only [Function.update_of_ne hne]
  have h₂ : (s.leave p).sentTo a b = s.sentTo a b := by
    rcases eq_or_ne a p with rfl | hne
    · rw [sentTo_of_not_sent (by simp [leave, FencePc.Sent]),
        sentTo_of_sent (by simp [hpc, FencePc.Sent])]
      simp [leave]
    · unfold sentTo leave
      simp only [Function.update_of_ne hne]
  have h₃ : (s.leave p).took a b = s.took a b := by
    rcases eq_or_ne b p with rfl | hne
    · rw [took_of_not_took (by simp [leave, FencePc.Took]),
        took_of_took (by rw [hpc]; exact ha)]
      simp [leave]
    · unfold took leave
      simp only [Function.update_of_ne hne]
  unfold link
  rw [h₁, h₂, h₃]
  rfl

lemma link_setChan {c q : ℕ} {l : List (FenceMsg α)} (h : ¬(a = c ∧ b = q)) :
    (s.setChan c q l).link a b = s.link a b := by
  unfold link setChan
  simp only [set₂_apply, if_neg h]
  rfl

lemma link_recvData_self {op : α} {rest : List (FenceMsg α)} :
    ((s.setChan a b rest).apply act a b op).link a b = (s.link a b).recvData op rest := by
  unfold link Link.recvData
  rw [applied_apply_self]
  simp only [setChan, FenceState.apply, set₂_apply, and_self, if_true]
  rfl

lemma link_storeByte {c q slot : ℕ} {byte : UInt8} (h : ¬(a = c ∧ b = q)) :
    (s.storeByte c q slot byte).link a b = s.link a b := by
  have h' : ¬(b = q ∧ a = c) := fun h' => h h'.symm
  unfold link storeByte
  simp only [set₂_apply, if_neg h, if_neg h']
  rfl

lemma link_storeByte_self {slot : ℕ} {byte : UInt8} :
    (s.storeByte a b slot byte).link a b = (s.link a b).recvByte slot byte := by
  unfold link storeByte Link.recvByte
  simp only [set₂_apply, and_self, if_true]
  rfl

lemma link_tokenDone {c q slot k : ℕ} {rest : List (FenceMsg α)} (h : ¬(a = c ∧ b = q)) :
    (s.tokenDone c q slot k rest).link a b = s.link a b := by
  have h' : ¬(b = q ∧ a = c) := fun h' => h h'.symm
  unfold link tokenDone
  simp only [set₂_apply, if_neg h, if_neg h']
  rfl

lemma link_recvLast_self {slot k : ℕ} {byte : UInt8} {rest : List (FenceMsg α)} :
    ((s.storeByte a b slot byte).tokenDone a b slot k rest).link a b =
      (s.link a b).recvLast slot k byte rest := by
  unfold link storeByte tokenDone Link.recvLast
  simp only [set₂_apply, and_self, if_true]
  rfl

/-! ### Steps -/

lemma PcOk.of_eq {s' : FenceState α μ} (h : s.PcOk nprocs p) (hpc : s'.pc p = s.pc p)
    (hround : s'.round p = s.round p) (hstored : ∀ i, s.stored i p ≤ s'.stored i p) :
    s'.PcOk nprocs p := by
  unfold PcOk at *
  rw [hpc]
  split at h
  · trivial
  · exact h
  · exact h
  · exact ⟨h.1, h.2.1, hround ▸ h.2.2.trans_le (hstored _)⟩

/-- A found element holds the put of the running fence. -/
lemma Inv.found (hs : s.Inv nprocs act mem) (hp : p < nprocs) (hi : i < nprocs) (hne : i ≠ p)
    (hpc : s.pc p = .wait i) (hset : int32 (s.procs p i (s.fence_index p)) = i) :
    s.round p < s.stored i p := by
  have hl := hs.link i p hi hp hne
  have htook : s.took i p = s.round p := took_of_not_took (by rw [hpc]; exact lt_irrefl i)
  have hle : s.took i p ≤ s.stored i p := hl.took_le
  by_contra hlt
  have hstored : s.stored i p = s.round p := by omega
  have hpart : s.procs p i (s.stored i p % 2) = partly i (s.got i p) :=
    hl.part (show s.stored i p ≤ s.took i p + 1 by omega)
  have hneg : int32 (partly i (s.got i p)) < 0 := int32_partly hl.got_lt
  rw [hs.index p hp, ← hstored, hpart] at hset
  omega

/-- A process moves on, and all links stay as they are. -/
lemma Inv.goto (hs : s.Inv nprocs act mem) (hpcOk : (s.goto p pc').PcOk nprocs p)
    (hentered : pc' = .outside ↔ s.pc p = .outside)
    (hsent : ∀ b, b < nprocs → b ≠ p → (pc'.Sent b ↔ (s.pc p).Sent b))
    (htook : ∀ a, a < nprocs → a ≠ p → (pc'.Took a ↔ (s.pc p).Took a)) :
    (s.goto p pc').Inv nprocs act mem where
  link a b ha hb hne := by
    rw [link_goto]
    · exact hs.link a b ha hb hne
    · rintro rfl
      exact hentered
    · rintro rfl
      exact hsent b hb hne.symm
    · rintro rfl
      exact htook a ha hne
  index := hs.index
  pcOk q hq := by
    rcases eq_or_ne q p with rfl | hne
    · exact hpcOk
    · exact (hs.pcOk q hq).of_eq (goto_pc_of_ne hne) rfl fun _ => le_rfl
  memory := hs.memory

/-- One operation on one link. -/
lemma Inv.of_link {s' : FenceState α μ} (hs : s.Inv nprocs act mem) {c q : ℕ}
    (hself : c < nprocs → q < nprocs → c ≠ q → (s'.link c q).Good c)
    (hother : ∀ a b, a < nprocs → b < nprocs → a ≠ b → ¬(a = c ∧ b = q) →
      s'.link a b = s.link a b)
    (hindex : ∀ p, s'.fence_index p = s.fence_index p) (hround : ∀ p, s'.round p = s.round p)
    (hpcOk : ∀ p, p < nprocs → s'.PcOk nprocs p)
    (hmemory : ∀ b, s'.mem b = (s'.log b).foldl (fun m e => act e.2 m) (mem b)) :
    s'.Inv nprocs act mem where
  link a b ha hb hne := by
    by_cases h : a = c ∧ b = q
    · obtain ⟨rfl, rfl⟩ := h
      exact hself ha hb hne
    · rw [hother a b ha hb hne h]
      exact hs.link a b ha hb hne
  index p hp := by rw [hindex, hround, hs.index p hp]
  pcOk := hpcOk
  memory := hmemory

theorem FenceStep.inv {s' : FenceState α μ} (hs : s.Inv nprocs act mem)
    (hstep : FenceStep nprocs act s s') : s'.Inv nprocs act mem := by
  cases hstep with
  | issueSelf p op hp =>
    exact {
      link := fun a b ha hb hne => by
        rw [link_apply fun h => hne (h.1.trans h.2.symm)]
        exact hs.link a b ha hb hne
      index := hs.index
      pcOk := fun q hq => (hs.pcOk q hq).of_eq rfl rfl fun _ => le_rfl
      memory := memory_apply hs.memory }
  | issue p q op hp hq hne =>
    refine hs.of_link (c := p) (q := q) (fun _ _ _ => ?_) (fun a b _ _ _ h => link_issue h)
      (fun _ => rfl) (fun _ => rfl) (fun p hp => (hs.pcOk p hp).of_eq rfl rfl fun _ => le_rfl)
      hs.memory
    rw [link_issue_self]
    exact (hs.link p q hp hq hne).issue op
  | enter p hp hpc =>
    exact {
      link := fun a b ha hb hne => by
        rcases eq_or_ne a p with rfl | hap
        · rw [link_enter_self hpc hne]
          refine (hs.link a b ha hb hne).enter ?_
          show s.entered a = s.sentTo a b
          rw [entered_of_outside hpc, sentTo_of_not_sent (by simp [hpc, FencePc.Sent])]
        · rw [link_enter_of_ne hpc hap]
          exact hs.link a b ha hb hne
      index := hs.index
      pcOk := fun q hq => by
        rcases eq_or_ne q p with rfl | hqp
        · simp [PcOk, enter]
        · exact (hs.pcOk q hq).of_eq (Function.update_of_ne hqp _ _) rfl fun _ => le_rfl
      memory := hs.memory }
  | putSelf p hp hpc =>
    refine hs.goto ?_ (by simp [hpc]) (fun b _ hbp => ?_) fun a _ _ => by simp [hpc, FencePc.Took]
    · simpa [PcOk, goto_pc_self] using hp
    · simp only [hpc, FencePc.Sent]
      omega
  | put p i hp hi hne hpc =>
    refine hs.of_link (c := p) (q := i) (fun _ _ hpi => ?_) (fun a b _ _ _ h => ?_)
      (fun _ => rfl) (fun _ => rfl) (fun q hq => ?_) hs.memory
    · rw [link_put_self hpc hpi (hs.index p hp) rfl rfl]
      refine (hs.link p i hp hi hpi).put ?_
      show s.entered p = s.sentTo p i + 1
      rw [entered_of_inside (by simp [hpc]), sentTo_of_not_sent (by simp [hpc, FencePc.Sent])]
    · rw [link_goto, link_send h]
      · rintro rfl
        show FencePc.put (i + 1) = .outside ↔ s.pc p = .outside
        simp [hpc]
      · rintro rfl
        show b < i + 1 ↔ (s.pc p).Sent b
        have hbi : b ≠ i := fun hbi => h ⟨rfl, hbi⟩
        simp only [hpc, FencePc.Sent]
        omega
      · rintro rfl
        show False ↔ (s.pc p).Took a
        simp [hpc, FencePc.Took]
    · rcases eq_or_ne q p with rfl | hqp
      · simpa [PcOk, goto_pc_self] using hi
      · exact (hs.pcOk q hq).of_eq (goto_pc_of_ne hqp) rfl fun _ => le_rfl
  | putEnd p hp hpc =>
    refine hs.goto ?_ (by simp [hpc]) (fun b hb _ => ?_) fun a _ _ => by simp [hpc, FencePc.Took]
    · simp [PcOk, goto_pc_self]
    · simp [hpc, FencePc.Sent, hb]
  | waitSelf p hp hpc =>
    refine hs.goto ?_ (by simp [hpc]) (fun b _ _ => by simp [hpc, FencePc.Sent]) fun a _ hap => ?_
    · simpa [PcOk, goto_pc_self] using hp
    · simp only [hpc, FencePc.Took]
      omega
  | found p i hp hi hne hpc hset =>
    refine hs.goto ?_ (by simp [hpc]) (fun b _ _ => by simp [hpc, FencePc.Sent]) fun a _ _ => by
      simp [hpc, FencePc.Took]
    simpa [PcOk, goto_pc_self] using ⟨hi, hne, hs.found hp hi hne hpc hset⟩
  | reset p i hp hpc =>
    have hok : i < nprocs ∧ i ≠ p ∧ s.round p < s.stored i p := by
      have h := hs.pcOk p hp
      rwa [PcOk, hpc] at h
    refine hs.of_link (c := i) (q := p) (fun _ _ hip => ?_) (fun a b _ _ _ h => link_reset hpc h)
      (fun _ => rfl) (fun _ => rfl) (fun q hq => ?_) hs.memory
    · rw [link_reset_self hpc hip (hs.index p hp)]
      refine (hs.link i p hok.1 hp hip).reset ?_ (hs.sent_le hok.1 hp hip)
      show s.took i p < s.stored i p
      rw [took_of_not_took (by simp [hpc, FencePc.Took])]
      exact hok.2.2
    · rcases eq_or_ne q p with rfl | hqp
      · simpa [PcOk, resetSlot] using hok.1
      · exact (hs.pcOk q hq).of_eq (Function.update_of_ne hqp _ _) rfl fun _ => le_rfl
  | leave p hp hpc =>
    exact {
      link := fun a b ha hb hne => by
        rw [link_leave hpc ha]
        exact hs.link a b ha hb hne
      index := fun q hq => by
        have hq' := hs.index q hq
        rcases eq_or_ne q p with rfl | hqp
        · simp only [leave, Function.update_self]
          omega
        · simpa [leave, hqp] using hq'
      pcOk := fun q hq => by
        rcases eq_or_ne q p with rfl | hqp
        · simp [PcOk, leave]
        · exact (hs.pcOk q hq).of_eq (Function.update_of_ne hqp _ _)
            (Function.update_of_ne hqp _ _) fun _ => le_rfl
      memory := hs.memory }
  | recvData a b op rest hchan =>
    refine hs.of_link (c := a) (q := b) (fun ha hb hne => ?_) (fun a' b' _ _ _ h => ?_)
      (fun _ => rfl) (fun _ => rfl) (fun p hp => (hs.pcOk p hp).of_eq rfl rfl fun _ => le_rfl)
      (memory_apply hs.memory)
    · rw [link_recvData_self]
      exact (hs.link a b ha hb hne).recvData hchan
    · rw [link_apply h, link_setChan h]
  | recvByte a b slot k bytes byte rest hchan hbyte hmore =>
    refine hs.of_link (c := a) (q := b) (fun ha hb hne => ?_) (fun a' b' _ _ _ h => link_storeByte h)
      (fun _ => rfl) (fun _ => rfl) (fun p hp => (hs.pcOk p hp).of_eq rfl rfl fun _ => le_rfl)
      hs.memory
    rw [link_storeByte_self]
    exact (hs.link a b ha hb hne).recvByte (hs.sent_le ha hb hne) hchan hbyte hmore
  | recvLast a b slot k bytes byte rest hchan hbyte hlast =>
    refine hs.of_link (c := a) (q := b) (fun ha hb hne => ?_) (fun a' b' _ _ _ h => ?_)
      (fun _ => rfl) (fun _ => rfl) (fun p hp => (hs.pcOk p hp).of_eq rfl rfl fun i => ?_) hs.memory
    · rw [link_recvLast_self]
      exact (hs.link a b ha hb hne).recvLast (hs.sent_le ha hb hne) hchan hbyte hlast
    · rw [link_tokenDone h, link_storeByte h]
    · simp only [tokenDone, storeByte, set₂_apply]
      split
      · rename_i h
        rw [h.1, h.2]
        exact Nat.le_succ _
      · exact le_rfl

/-! ### What a fence promises -/

lemma Inv.fenced (hs : s.Inv nprocs act mem) : s.Fenced nprocs act mem where
  free a b slot bytes k rest ha hb hne hchan hgot := by
    have hl := hs.link a b ha hb hne
    obtain ⟨-, hlt, rfl, -, -⟩ := hl.head hchan
    have hlt' : s.stored a b < s.sentTo a b := hlt
    have hsent := hs.sent_le ha hb hne
    have hpart : s.procs b a (s.stored a b % 2) = partly a (s.got a b) :=
      hl.part (show s.stored a b ≤ s.took a b + 1 by omega)
    rw [hgot, partly_zero] at hpart
    exact hpart
  kept a b k ha hb hne := (hs.link a b ha hb hne).full k
  once a b ha hb hne := (hs.link a b ha hb hne).consumed
  barrier a b k ha hb hne hk := by
    have hl := hs.link a b ha hb hne
    have htook := s.took_eq_or a b
    have hle : s.took a b ≤ s.stored a b := hl.took_le
    have hstored : k < s.stored a b := by omega
    have hsent : s.stored a b ≤ s.sentTo a b := hl.stored_le
    have hentered : s.sentTo a b ≤ s.entered a := hl.sent_le
    exact ⟨by omega, hl.before_stored k hstored⟩
  memory := hs.memory

/-- Two elements suffice: in every run of any number of processes the fences keep their promise. -/
theorem fence_correct (h : FenceReachable nprocs act mem s) : s.Fenced nprocs act mem := by
  apply Inv.fenced
  induction h with
  | init => exact init_inv
  | step _ hstep ih => exact FenceStep.inv ih hstep

/-- A run of two processes in which the first returns from a fence. -/
theorem fence_correct_two : ∃ s : FenceState Unit Unit,
    s.round 0 = 1 ∧ s.Fenced 2 (fun _ m => m) (fun _ => ()) := by
  have h₀ : FenceReachable 2 (fun (_ : Unit) (m : Unit) => m) (fun _ => ()) (init fun _ => ()) :=
    .init
  have hput := (h₀.step (.enter _ 1 (by decide) rfl)).step
    (.put _ 1 0 (by decide) (by decide) (by decide) rfl)
  have hbyte := ((hput.step (.recvByte _ 1 0 0 0 _ _ [] rfl rfl (by decide))).step
    (.recvByte _ 1 0 0 0 _ _ [] rfl rfl (by decide))).step
    (.recvByte _ 1 0 0 0 _ _ [] rfl rfl (by decide))
  have hlast := hbyte.step (.recvLast _ 1 0 0 0 _ _ [] rfl rfl rfl)
  have hputs := (((hlast.step (.enter _ 0 (by decide) rfl)).step (.putSelf _ 0 (by decide) rfl)).step
    (.put _ 0 1 (by decide) (by decide) (by decide) rfl)).step (.putEnd _ 0 (by decide) rfl)
  have hfound := (hputs.step (.waitSelf _ 0 (by decide) rfl)).step
    (.found _ 0 1 (by decide) (by decide) (by decide) rfl (by decide))
  have hleave := (hfound.step (.reset _ 0 1 (by decide) rfl)).step (.leave _ 0 (by decide) rfl)
  exact ⟨_, rfl, fence_correct hleave⟩

end FenceState

end NetPipe.MpLite
