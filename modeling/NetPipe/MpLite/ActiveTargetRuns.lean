import NetPipe.Library.Handshake
import NetPipe.MpLite.ActiveTarget

/-!
# Runs of post, start, complete and wait

The flags and messages of a process that posts and of one that completes are a handshake. Every step
is an operation of one handshake, or of none, and in order it is one that loses nothing.
-/

namespace NetPipe.MpLite

namespace SyncPc

/-- The post to `i` was sent, and the flag for it is to be set. -/
def setting (i : ℕ) : SyncPc → Bool
  | postSet _ j => j == i
  | _ => false

/-- The complete to `i` was sent, and the flag for its post is to be reset. -/
def resetting (i : ℕ) : SyncPc → Bool
  | completeReset j => j == i
  | _ => false

/-- No message was just sent. -/
def Plain (pc : SyncPc) : Prop := ∀ i, pc.setting i = false ∧ pc.resetting i = false

end SyncPc

namespace SyncState

/-- The handshake between `p`, which posts, and `i`, which completes. -/
def shake (s : SyncState) (p i : ℕ) : Handshake where
  posted := s.posts p i
  received := s.postsHandled p i
  answered := s.completes p i
  acked := s.completesHandled p i
  requests := (s.chan p i).count .post
  answers := (s.chan i p).count .complete
  waiting := s.post_sent p i
  pending := s.post_received i p
  setting := (s.pc p).setting i
  resetting := (s.pc i).resetting p

/-- The processes of the group from `lo` on have posted and wait for a complete. -/
def Access (nprocs : ℕ) (s : SyncState) (p lo : ℕ) : Prop :=
  ∀ j, lo ≤ j → j < nprocs → s.group p j = true → s.completes j p < s.postsHandled j p

/-- The processes of `g` from `lo` on have completed for all posts. -/
def Ready (nprocs : ℕ) (s : SyncState) (p : ℕ) (g : ℕ → Bool) (lo : ℕ) : Prop :=
  ∀ j, lo ≤ j → j < nprocs → g j = true → s.completesHandled p j = s.posts p j

/-- The entries suffice for the group, and the completes up to `i` went to the group. -/
def Sending (nprocs : ℕ) (s : SyncState) (p i : ℕ) : Prop :=
  s.targets p = (List.range i).filter (fun j => s.group p j) ∧
    (List.range nprocs).countP (fun j => s.group p j && j != p) ≤ s.entries p

/-- What a process knows at a place. -/
abbrev Known (nprocs : ℕ) (s : SyncState) (p : ℕ) : SyncPc → Prop
  | .outside => s.Access nprocs p 0
  | .post g i => s.Access nprocs p 0 ∧ s.Ready nprocs p g i
  | .postSet g i => s.Access nprocs p 0 ∧ s.Ready nprocs p g (i + 1) ∧ i < nprocs
  | .start g i => s.Access nprocs p 0 ∧
      ∀ j, j < i → j < nprocs → g j = true → s.completes j p < s.postsHandled j p
  | .complete i => s.Access nprocs p i ∧ s.Sending nprocs p i ∧ i ≤ nprocs
  | .completeReset i => s.Access nprocs p (i + 1) ∧ s.Sending nprocs p (i + 1) ∧ i < nprocs
  | .wait i => s.Access nprocs p 0 ∧
      ∀ j, j < i → j < nprocs → s.completesHandled p j = s.posts p j

/-- The invariant of the runs in order. -/
structure Inv (nprocs : ℕ) (s : SyncState) : Prop where
  shakes : ∀ p i, p < nprocs → i < nprocs → (s.shake p i).Good
  known : ∀ p, p < nprocs → s.Known nprocs p (s.pc p)

variable {nprocs : ℕ} {s s' : SyncState} {p i a b : ℕ} {pc' : SyncPc}

lemma Access.mono {lo : ℕ} (h : s.Access nprocs p lo) (hgroup : s'.group p = s.group p)
    (hcompletes : ∀ j, s'.completes j p = s.completes j p)
    (hhandled : ∀ j, s.postsHandled j p ≤ s'.postsHandled j p) : s'.Access nprocs p lo := by
  intro j hlo hj hg
  rw [hgroup] at hg
  rw [hcompletes]
  exact (h j hlo hj hg).trans_le (hhandled j)

/-- What a process knows stays true while the others and the handlers move. -/
lemma Known.frame {pc : SyncPc} (h : s.Known nprocs p pc) (hgroup : s'.group p = s.group p)
    (htargets : s'.targets p = s.targets p) (hentries : s'.entries p = s.entries p)
    (hcompletes : ∀ j, s'.completes j p = s.completes j p)
    (hhandled : ∀ j, s.postsHandled j p ≤ s'.postsHandled j p)
    (hacked : ∀ j, j < nprocs → s.completesHandled p j = s.posts p j →
      s'.completesHandled p j = s'.posts p j) : s'.Known nprocs p pc := by
  have haccess : ∀ lo, s.Access nprocs p lo → s'.Access nprocs p lo :=
    fun lo h => h.mono hgroup hcompletes hhandled
  have hready : ∀ g lo, s.Ready nprocs p g lo → s'.Ready nprocs p g lo :=
    fun g lo h j hlo hj hg => hacked j hj (h j hlo hj hg)
  have hsending : ∀ i, s.Sending nprocs p i → s'.Sending nprocs p i := by
    intro i h
    unfold Sending
    rwa [htargets, hentries, hgroup]
  cases pc with
  | outside => exact haccess _ h
  | post => exact ⟨haccess _ h.1, hready _ _ h.2⟩
  | postSet => exact ⟨haccess _ h.1, hready _ _ h.2.1, h.2.2⟩
  | start =>
    refine ⟨haccess _ h.1, fun j hji hj hg => ?_⟩
    rw [hcompletes]
    exact (h.2 j hji hj hg).trans_le (hhandled j)
  | complete => exact ⟨haccess _ h.1, hsending _ h.2.1, h.2.2⟩
  | completeReset => exact ⟨haccess _ h.1, hsending _ h.2.1, h.2.2⟩
  | wait => exact ⟨haccess _ h.1, fun j hji hj => hacked j hj (h.2 j hji hj)⟩

/-! ### The handshakes behind the steps -/

lemma goto_pc_self : (s.goto p pc').pc p = pc' := Function.update_self _ _ _

lemma goto_pc_of_ne (h : a ≠ p) : (s.goto p pc').pc a = s.pc a := Function.update_of_ne h _ _

lemma shake_goto (hset : p = a → pc'.setting b = (s.pc a).setting b)
    (hreset : p = b → pc'.resetting a = (s.pc b).resetting a) :
    (s.goto p pc').shake a b = s.shake a b := by
  have h₁ : ((s.goto p pc').pc a).setting b = (s.pc a).setting b := by
    rcases eq_or_ne a p with rfl | hne
    · rw [goto_pc_self]
      exact hset rfl
    · rw [goto_pc_of_ne hne]
  have h₂ : ((s.goto p pc').pc b).resetting a = (s.pc b).resetting a := by
    rcases eq_or_ne b p with rfl | hne
    · rw [goto_pc_self]
      exact hreset rfl
    · rw [goto_pc_of_ne hne]
  unfold shake
  rw [h₁, h₂]
  rfl

/-- A process that neither has just sent a message nor sends one leaves all handshakes alone. -/
lemma shake_goto_of_plain (h : (s.pc p).Plain) (h' : pc'.Plain) :
    (s.goto p pc').shake a b = s.shake a b := by
  apply shake_goto
  · rintro rfl
    rw [(h b).1, (h' b).1]
  · rintro rfl
    rw [(h a).2, (h' a).2]

lemma shake_sendPost {g : ℕ → Bool} (hpc : s.pc p = .post g i) (h : ¬(a = p ∧ b = i)) :
    ((s.sendPost p i).goto p (.postSet g i)).shake a b = s.shake a b := by
  rw [shake_goto]
  · refine Handshake.ext ?_ rfl rfl rfl ?_ ?_ rfl rfl rfl rfl
    · simp only [shake, sendPost, set₂_apply, if_neg h]
    · simp only [shake, sendPost, set₂_apply, if_neg h]
    · simp only [shake, sendPost, set₂_apply]
      split
      · rename_i h'
        simp [h'.1, h'.2]
      · rfl
  · rintro rfl
    have hbi : (i == b) = false := beq_eq_false_iff_ne.mpr fun hib => h ⟨rfl, hib.symm⟩
    simp [sendPost, hpc, SyncPc.setting, hbi]
  · rintro rfl
    simp [sendPost, hpc, SyncPc.resetting]

lemma shake_sendPost_self {g : ℕ → Bool} (hne : i ≠ p) :
    ((s.sendPost p i).goto p (.postSet g i)).shake p i = (s.shake p i).post := by
  refine Handshake.ext ?_ rfl rfl rfl ?_ ?_ rfl rfl ?_ ?_
  · simp [shake, sendPost, goto, Handshake.post, set₂_apply]
  · simp [shake, sendPost, goto, Handshake.post, set₂_apply]
  · have h : ¬(i = p ∧ p = i) := fun h => hne h.1
    simp [shake, sendPost, goto, Handshake.post, set₂_apply, h]
  · simp [shake, goto, Handshake.post, SyncPc.setting]
  · simp [shake, sendPost, goto, Handshake.post, hne]

lemma shake_postSelf {g : ℕ → Bool} (hpc : s.pc p = .post g p) (h : ¬(a = p ∧ b = p)) :
    ((s.postSelf p).goto p (.postSet g p)).shake a b = s.shake a b := by
  have h' : ¬(b = p ∧ a = p) := fun h' => h h'.symm
  rw [shake_goto]
  · refine Handshake.ext ?_ ?_ rfl rfl rfl rfl rfl ?_ rfl rfl
    · simp only [shake, postSelf, set₂_apply, if_neg h]
    · simp only [shake, postSelf, set₂_apply, if_neg h]
    · simp only [shake, postSelf, set₂_apply, if_neg h']
  · rintro rfl
    have hpb : (p == b) = false := beq_eq_false_iff_ne.mpr fun hab => h ⟨rfl, hab.symm⟩
    simp [postSelf, hpc, SyncPc.setting, hpb]
  · rintro rfl
    simp [postSelf, hpc, SyncPc.resetting]

lemma shake_postSelf_self {g : ℕ → Bool} (hpc : s.pc p = .post g p) :
    ((s.postSelf p).goto p (.postSet g p)).shake p p = (s.shake p p).post.arrive := by
  refine Handshake.ext ?_ ?_ rfl rfl ?_ rfl rfl ?_ ?_ ?_
  · simp [shake, postSelf, goto, Handshake.post, Handshake.arrive, set₂_apply]
  · simp [shake, postSelf, goto, Handshake.post, Handshake.arrive, set₂_apply]
  · simp [shake, postSelf, goto, Handshake.post, Handshake.arrive]
  · simp [shake, postSelf, goto, Handshake.post, Handshake.arrive, set₂_apply]
  · simp [shake, goto, Handshake.post, Handshake.arrive, SyncPc.setting]
  · simp [shake, goto, Handshake.post, Handshake.arrive, SyncPc.resetting, hpc]

lemma shake_postSet {g : ℕ → Bool} (hpc : s.pc p = .postSet g i) (h : ¬(a = p ∧ b = i)) :
    ((s.setPostSent p i).goto p (.post g (i + 1))).shake a b = s.shake a b := by
  rw [shake_goto]
  · refine Handshake.ext rfl rfl rfl rfl rfl rfl ?_ rfl rfl rfl
    simp only [shake, setPostSent, set₂_apply, if_neg h]
  · rintro rfl
    have hbi : (i == b) = false := beq_eq_false_iff_ne.mpr fun hib => h ⟨rfl, hib.symm⟩
    simp [setPostSent, hpc, SyncPc.setting, hbi]
  · rintro rfl
    simp [setPostSent, hpc, SyncPc.resetting]

lemma shake_postSet_self {g : ℕ → Bool} (hpc : s.pc p = .postSet g i) :
    ((s.setPostSent p i).goto p (.post g (i + 1))).shake p i = (s.shake p i).setFlag := by
  refine Handshake.ext rfl rfl rfl rfl rfl rfl ?_ rfl ?_ ?_
  · simp [shake, setPostSent, goto, Handshake.setFlag, set₂_apply]
  · simp [shake, goto, Handshake.setFlag, SyncPc.setting]
  · rcases eq_or_ne i p with rfl | hne
    · simp [shake, goto, Handshake.setFlag, SyncPc.resetting, hpc]
    · simp [shake, setPostSent, goto, Handshake.setFlag, hne]

lemma shake_sendComplete (hpc : s.pc p = .complete i) (h : ¬(a = i ∧ b = p)) :
    ((s.sendComplete p i).goto p (.completeReset i)).shake a b = s.shake a b := by
  have h' : ¬(b = p ∧ a = i) := fun h' => h h'.symm
  rw [shake_goto]
  · refine Handshake.ext rfl rfl ?_ rfl ?_ ?_ rfl rfl rfl rfl
    · simp only [shake, sendComplete, set₂_apply, if_neg h]
    · simp only [shake, sendComplete, set₂_apply]
      split
      · rename_i h''
        simp [h''.1, h''.2]
      · rfl
    · simp only [shake, sendComplete, set₂_apply, if_neg h']
  · rintro rfl
    simp [sendComplete, hpc, SyncPc.setting]
  · rintro rfl
    have hai : (i == a) = false := beq_eq_false_iff_ne.mpr fun hia => h ⟨hia.symm, rfl⟩
    simp [sendComplete, hpc, SyncPc.resetting, hai]

lemma shake_sendComplete_self (hne : i ≠ p) :
    ((s.sendComplete p i).goto p (.completeReset i)).shake i p = (s.shake i p).answer := by
  refine Handshake.ext rfl rfl ?_ rfl ?_ ?_ rfl rfl ?_ ?_
  · simp [shake, sendComplete, goto, Handshake.answer, set₂_apply]
  · have h : ¬(i = p ∧ p = i) := fun h => hne h.1
    simp [shake, sendComplete, goto, Handshake.answer, set₂_apply, h]
  · simp [shake, sendComplete, goto, Handshake.answer, set₂_apply]
  · simp [shake, sendComplete, goto, Handshake.answer, hne]
  · simp [shake, goto, Handshake.answer, SyncPc.resetting]

lemma shake_completeSelf (hpc : s.pc p = .complete p) (h : ¬(a = p ∧ b = p)) :
    ((s.completeSelf p).goto p (.completeReset p)).shake a b = s.shake a b := by
  rw [shake_goto]
  · refine Handshake.ext rfl rfl ?_ ?_ rfl rfl ?_ rfl rfl rfl
    · simp only [shake, completeSelf, set₂_apply, if_neg h]
    · simp only [shake, completeSelf, set₂_apply, if_neg h]
    · simp only [shake, completeSelf, set₂_apply, if_neg h]
  · rintro rfl
    simp [completeSelf, hpc, SyncPc.setting]
  · rintro rfl
    have hab : (p == a) = false := beq_eq_false_iff_ne.mpr fun hba => h ⟨hba.symm, rfl⟩
    simp [completeSelf, hpc, SyncPc.resetting, hab]

lemma shake_completeSelf_self (hpc : s.pc p = .complete p) :
    ((s.completeSelf p).goto p (.completeReset p)).shake p p = (s.shake p p).answer.ack := by
  refine Handshake.ext rfl rfl ?_ ?_ rfl ?_ ?_ rfl ?_ ?_
  · simp [shake, completeSelf, goto, Handshake.answer, Handshake.ack, set₂_apply]
  · simp [shake, completeSelf, goto, Handshake.answer, Handshake.ack, set₂_apply]
  · simp [shake, completeSelf, goto, Handshake.answer, Handshake.ack]
  · simp [shake, completeSelf, goto, Handshake.answer, Handshake.ack, set₂_apply]
  · simp [shake, goto, Handshake.answer, Handshake.ack, SyncPc.setting, hpc]
  · simp [shake, goto, Handshake.answer, Handshake.ack, SyncPc.resetting]

lemma shake_reset (hpc : s.pc p = .completeReset i) (h : ¬(a = i ∧ b = p)) :
    ((s.resetPostReceived p i).goto p (.complete (i + 1))).shake a b = s.shake a b := by
  have h' : ¬(b = p ∧ a = i) := fun h' => h h'.symm
  rw [shake_goto]
  · refine Handshake.ext rfl rfl rfl rfl rfl rfl rfl ?_ rfl rfl
    simp only [shake, resetPostReceived, set₂_apply, if_neg h']
  · rintro rfl
    simp [resetPostReceived, hpc, SyncPc.setting]
  · rintro rfl
    have hai : (i == a) = false := beq_eq_false_iff_ne.mpr fun hia => h ⟨hia.symm, rfl⟩
    simp [resetPostReceived, hpc, SyncPc.resetting, hai]

lemma shake_reset_self (hpc : s.pc p = .completeReset i) :
    ((s.resetPostReceived p i).goto p (.complete (i + 1))).shake i p =
      (s.shake i p).resetFlag := by
  refine Handshake.ext rfl rfl rfl rfl rfl rfl rfl ?_ ?_ ?_
  · simp [shake, resetPostReceived, goto, Handshake.resetFlag, set₂_apply]
  · rcases eq_or_ne i p with rfl | hne
    · simp [shake, goto, Handshake.resetFlag, SyncPc.setting, hpc]
    · simp [shake, resetPostReceived, goto, Handshake.resetFlag, hne]
  · simp [shake, goto, Handshake.resetFlag, SyncPc.resetting]

lemma shake_recvPost {c q : ℕ} {rest : List SyncMsg} (hchan : s.chan c q = .post :: rest)
    (h : ¬(a = c ∧ b = q)) : (s.recvPost c q rest).shake a b = s.shake a b := by
  have h' : ¬(b = q ∧ a = c) := fun h' => h h'.symm
  refine Handshake.ext rfl ?_ rfl rfl ?_ ?_ rfl ?_ rfl rfl
  · simp only [shake, SyncState.recvPost, set₂_apply, if_neg h]
  · simp only [shake, SyncState.recvPost, set₂_apply, if_neg h]
  · simp only [shake, SyncState.recvPost, set₂_apply]
    split
    · rename_i hcq
      rw [hcq.1, hcq.2, hchan]
      simp
    · rfl
  · simp only [shake, SyncState.recvPost, set₂_apply, if_neg h']

lemma shake_recvPost_self {rest : List SyncMsg} (hchan : s.chan a b = .post :: rest) :
    (s.recvPost a b rest).shake a b = (s.shake a b).arrive := by
  refine Handshake.ext rfl ?_ rfl rfl ?_ ?_ rfl ?_ rfl rfl
  · simp [shake, SyncState.recvPost, Handshake.arrive, set₂_apply]
  · simp [shake, SyncState.recvPost, Handshake.arrive, set₂_apply, hchan]
  · simp only [shake, SyncState.recvPost, Handshake.arrive, set₂_apply]
    split
    · rename_i hab
      obtain ⟨rfl, -⟩ := hab
      rw [hchan]
      simp
    · rfl
  · simp [shake, SyncState.recvPost, Handshake.arrive, set₂_apply]

lemma shake_recvComplete {c q : ℕ} {rest : List SyncMsg}
    (hchan : s.chan c q = .complete :: rest) (h : ¬(a = q ∧ b = c)) :
    (s.recvComplete c q rest).shake a b = s.shake a b := by
  have h' : ¬(b = c ∧ a = q) := fun h' => h h'.symm
  refine Handshake.ext rfl rfl rfl ?_ ?_ ?_ ?_ rfl rfl rfl
  · simp only [shake, SyncState.recvComplete, set₂_apply, if_neg h]
  · simp only [shake, SyncState.recvComplete, set₂_apply]
    split
    · rename_i hcq
      rw [hcq.1, hcq.2, hchan]
      simp
    · rfl
  · simp only [shake, SyncState.recvComplete, set₂_apply, if_neg h']
  · simp only [shake, SyncState.recvComplete, set₂_apply, if_neg h]

lemma shake_recvComplete_self {rest : List SyncMsg} (hchan : s.chan a b = .complete :: rest) :
    (s.recvComplete a b rest).shake b a = (s.shake b a).ack := by
  refine Handshake.ext rfl rfl rfl ?_ ?_ ?_ ?_ rfl rfl rfl
  · simp [shake, SyncState.recvComplete, Handshake.ack, set₂_apply]
  · simp only [shake, SyncState.recvComplete, Handshake.ack, set₂_apply]
    split
    · rename_i hab
      obtain ⟨rfl, -⟩ := hab
      rw [hchan]
      simp
    · rfl
  · simp [shake, SyncState.recvComplete, Handshake.ack, set₂_apply, hchan]
  · simp [shake, SyncState.recvComplete, Handshake.ack, set₂_apply]

/-! ### Steps -/

lemma init_inv : init.Inv nprocs where
  shakes _ _ _ _ := Handshake.good_init
  known _ _ := fun _ _ _ hg => absurd hg Bool.false_ne_true

lemma Inv.at (hs : s.Inv nprocs) (hp : p < nprocs) {pc : SyncPc} (hpc : s.pc p = pc) :
    s.Known nprocs p pc :=
  hpc ▸ hs.known p hp

lemma Known.goto (h : s.Known nprocs p pc') :
    (s.goto p pc').Known nprocs p ((s.goto p pc').pc p) := by
  rw [goto_pc_self]
  exact h.frame rfl rfl rfl (fun _ => rfl) (fun _ => le_rfl) fun _ _ h => h

/-- Where a process is not itself concerned, it stays where it is and knows what it knew. -/
lemma Inv.known_goto (hs : s.Inv nprocs) {q : ℕ} (hq : q < nprocs) (hne : q ≠ p)
    (hpc : s'.pc = s.pc) (h : s.Known nprocs q (s.pc q) → s'.Known nprocs q (s.pc q)) :
    (s'.goto p pc').Known nprocs q ((s'.goto p pc').pc q) := by
  rw [goto_pc_of_ne hne, hpc]
  exact (h (hs.known q hq)).frame rfl rfl rfl (fun _ => rfl) (fun _ => le_rfl) fun _ _ h => h

/-- A step of `p` concerns one handshake. -/
lemma Inv.of_shake (hs : s.Inv nprocs) {c q : ℕ}
    (hself : c < nprocs → q < nprocs → ((s'.goto p pc').shake c q).Good)
    (hother : ∀ a b, ¬(a = c ∧ b = q) → (s'.goto p pc').shake a b = s.shake a b)
    (hpc : s'.pc = s.pc) (hknown : p < nprocs → s'.Known nprocs p pc')
    (hframe : ∀ r, r < nprocs → r ≠ p → s.Known nprocs r (s.pc r) → s'.Known nprocs r (s.pc r)) :
    (s'.goto p pc').Inv nprocs where
  shakes a b ha hb := by
    by_cases h : a = c ∧ b = q
    · obtain ⟨rfl, rfl⟩ := h
      exact hself ha hb
    · rw [hother a b h]
      exact hs.shakes a b ha hb
  known r hr := by
    rcases eq_or_ne r p with rfl | hne
    · exact (hknown hr).goto
    · exact hs.known_goto hr hne hpc (hframe r hr hne)

/-- A step of `p` without a message or a flag. -/
lemma Inv.plain (hs : s.Inv nprocs) {pc : SyncPc} (hat : s.pc p = pc) (hplain : pc.Plain)
    (hplain' : pc'.Plain) (hshake : ∀ a b, s'.shake a b = s.shake a b) (hpc : s'.pc = s.pc)
    (hknown : p < nprocs → s'.Known nprocs p pc')
    (hframe : ∀ r, r < nprocs → r ≠ p → s.Known nprocs r (s.pc r) → s'.Known nprocs r (s.pc r)) :
    (s'.goto p pc').Inv nprocs := by
  have hplain₀ : (s'.pc p).Plain := by rwa [hpc, hat]
  have hall : ∀ a b, (s'.goto p pc').shake a b = s.shake a b := fun a b => by
    rw [shake_goto_of_plain hplain₀ hplain', hshake]
  refine hs.of_shake (c := p) (q := p) (fun hp _ => ?_) (fun a b _ => hall a b) hpc hknown hframe
  rw [hall]
  exact hs.shakes p p hp hp

/-- A process only moves on. -/
lemma Inv.goto (hs : s.Inv nprocs) {pc : SyncPc} (hat : s.pc p = pc) (hplain : pc.Plain)
    (hplain' : pc'.Plain) (hknown : p < nprocs → s.Known nprocs p pc') :
    (s.goto p pc').Inv nprocs :=
  hs.plain hat hplain hplain' (fun _ _ => rfl) rfl hknown fun _ _ _ h => h

/-- A received post, outside of the answer, is not answered yet. -/
lemma Inv.open_of_received (hs : s.Inv nprocs) (hp : p < nprocs) (hi : i < nprocs)
    (hset : s.post_received p i = true) (hreset : (s.pc p).resetting i = false) :
    s.completes i p < s.postsHandled i p :=
  ((hs.shakes i p hi hp).cleared hset).resolve_left (by simp [shake, hreset])

lemma Inv.acked_of_not_sent (hs : s.Inv nprocs) (hp : p < nprocs) (hi : i < nprocs)
    (hset : s.post_sent p i = false) (hsetting : (s.pc p).setting i = false) :
    s.completesHandled p i = s.posts p i :=
  (hs.shakes p i hp hi).acked_of_waiting hset hsetting

lemma Inv.setCount (hs : s.Inv nprocs) (n : ℕ) : (s.setCount p n).Inv nprocs where
  shakes := hs.shakes
  known r hr :=
    (hs.known r hr).frame rfl rfl rfl (fun _ => rfl) (fun _ => le_rfl) fun _ _ h => h

/-- An access epoch begins or ends. -/
lemma Inv.setGroup (hs : s.Inv nprocs) {pc : SyncPc} {g : ℕ → Bool} (hat : s.pc p = pc)
    (hplain : pc.Plain)
    (hopen : p < nprocs → ∀ j, j < nprocs → g j = true → s.completes j p < s.postsHandled j p) :
    ((s.setGroup p g).goto p .outside).Inv nprocs := by
  refine hs.plain hat hplain (fun _ => ⟨rfl, rfl⟩) (fun _ _ => rfl) rfl (fun hp => ?_) ?_
  · intro j _ hj hg
    have hgj : g j = true := by
      simpa [SyncState.setGroup] using hg
    exact hopen hp j hj hgj
  · intro r _ hne h
    exact h.frame (Function.update_of_ne hne _ _) rfl rfl (fun _ => rfl) (fun _ => le_rfl)
      fun _ _ h => h

lemma Inv.beginComplete (hs : s.Inv nprocs) (hpc : s.pc p = .outside)
    (hcount : (List.range nprocs).countP (fun i => s.group p i && i != p) ≤ s.count p) :
    ((s.beginComplete p).goto p (.complete 0)).Inv nprocs := by
  refine hs.plain hpc (fun _ => ⟨rfl, rfl⟩) (fun _ => ⟨rfl, rfl⟩) (fun _ _ => rfl) rfl
    (fun hp => ⟨hs.at hp hpc, ⟨?_, ?_⟩, Nat.zero_le _⟩) ?_
  · simp [SyncState.beginComplete]
  · simpa [SyncState.beginComplete] using hcount
  · intro r _ hne h
    exact h.frame rfl (Function.update_of_ne hne _ _) (Function.update_of_ne hne _ _)
      (fun _ => rfl) (fun _ => le_rfl) fun _ _ h => h

lemma le_set₂_succ {f : ℕ → ℕ → ℕ} {c q : ℕ} : f a b ≤ set₂ f c q (f c q + 1) a b := by
  rw [set₂_apply]
  split
  · rename_i h
    rw [h.1, h.2]
    exact Nat.le_succ _
  · exact le_rfl

lemma set₂_of_left_ne {α : Type*} {f : ℕ → ℕ → α} {c q : ℕ} {v : α} (h : a ≠ c) :
    set₂ f c q v a b = f a b := by
  rw [set₂_apply, if_neg fun h' => h h'.1]

lemma set₂_of_right_ne {α : Type*} {f : ℕ → ℕ → α} {c q : ℕ} {v : α} (h : b ≠ q) :
    set₂ f c q v a b = f a b := by
  rw [set₂_apply, if_neg fun h' => h h'.2]

/-- A post by `p` raises its own counters only. -/
lemma Known.post {pc : SyncPc} {q : ℕ} (h : s.Known nprocs q pc) (hne : q ≠ p)
    (hgroup : s'.group = s.group) (htargets : s'.targets = s.targets)
    (hentries : s'.entries = s.entries) (hcompletes : s'.completes = s.completes)
    (hhandled : ∀ j, s.postsHandled j q ≤ s'.postsHandled j q)
    (hacked : s'.completesHandled = s.completesHandled)
    (hposts : s'.posts = set₂ s.posts p i (s.posts p i + 1)) : s'.Known nprocs q pc := by
  refine h.frame (by rw [hgroup]) (by rw [htargets]) (by rw [hentries]) (fun j => by rw [hcompletes])
    hhandled fun j _ h => ?_
  rw [hacked, hposts, set₂_of_left_ne hne]
  exact h

lemma Inv.sendPost {g : ℕ → Bool} (hs : s.Inv nprocs) (hpc : s.pc p = .post g i) (hi : i < nprocs)
    (hg : g i = true) (hne : i ≠ p) : ((s.sendPost p i).goto p (.postSet g i)).Inv nprocs := by
  refine hs.of_shake (c := p) (q := i) (fun hp hi => ?_) (fun a b => shake_sendPost hpc) rfl
    (fun hp => ?_) fun q _ hqp h => ?_
  · rw [shake_sendPost_self hne]
    exact (hs.shakes p i hp hi).post ((hs.at hp hpc).2 i le_rfl hi hg)
  · obtain ⟨haccess, hready⟩ := hs.at hp hpc
    refine ⟨haccess, fun j hj hjn hgj => ?_, hi⟩
    have hji : j ≠ i := Nat.ne_of_gt hj
    simp only [SyncState.sendPost, set₂_of_right_ne hji]
    exact hready j (Nat.le_of_succ_le hj) hjn hgj
  · exact h.post hqp rfl rfl rfl rfl (fun _ => le_rfl) rfl rfl

lemma Inv.postSelf {g : ℕ → Bool} (hs : s.Inv nprocs) (hpc : s.pc p = .post g p) (hp : p < nprocs)
    (hg : g p = true) : ((s.postSelf p).goto p (.postSet g p)).Inv nprocs := by
  refine hs.of_shake (c := p) (q := p) (fun _ _ => ?_) (fun a b => shake_postSelf hpc) rfl
    (fun _ => ?_) fun q _ hqp h => ?_
  · rw [shake_postSelf_self hpc]
    refine ((hs.shakes p p hp hp).post ((hs.at hp hpc).2 p le_rfl hp hg)).arrive ?_
    exact Nat.succ_pos _
  · obtain ⟨haccess, hready⟩ := hs.at hp hpc
    refine ⟨haccess.mono rfl (fun _ => rfl) fun j => le_set₂_succ, fun j hj hjn hgj => ?_, hp⟩
    have hjp : j ≠ p := Nat.ne_of_gt hj
    simp only [SyncState.postSelf, set₂_of_right_ne hjp]
    exact hready j (Nat.le_of_succ_le hj) hjn hgj
  · exact h.post hqp rfl rfl rfl rfl (fun j => le_set₂_succ) rfl rfl

lemma Inv.setPostSent {g : ℕ → Bool} (hs : s.Inv nprocs) (hpc : s.pc p = .postSet g i)
    (hopen : s.completesHandled p i < s.posts p i) :
    ((s.setPostSent p i).goto p (.post g (i + 1))).Inv nprocs := by
  refine hs.of_shake (c := p) (q := i) (fun hp hi => ?_) (fun a b => shake_postSet hpc) rfl
    (fun hp => ?_) fun q _ _ h => ?_
  · rw [shake_postSet_self hpc]
    exact (hs.shakes p i hp hi).setFlag hopen
  · obtain ⟨haccess, hready, -⟩ := hs.at hp hpc
    exact ⟨haccess, hready⟩
  · exact h.frame rfl rfl rfl (fun _ => rfl) (fun _ => le_rfl) fun _ _ h => h

/-- The complete to `i` extends the targets by `i`, a process of the group. -/
lemma Known.answered (h : s.Known nprocs p (.complete i)) (hi : i < nprocs)
    (hgroup : s.group p i = true) (hsame : s'.group = s.group)
    (htargets : s'.targets p = s.targets p ++ [i]) (hentries : s'.entries = s.entries)
    (hcompletes : s'.completes = set₂ s.completes i p (s.completes i p + 1))
    (hhandled : s'.postsHandled = s.postsHandled) : s'.Known nprocs p (.completeReset i) := by
  obtain ⟨haccess, ⟨hsent, hentries'⟩, -⟩ := h
  refine ⟨fun j hj hjn hg => ?_, ⟨?_, ?_⟩, hi⟩
  · have hji : j ≠ i := Nat.ne_of_gt hj
    rw [hcompletes, hhandled, set₂_of_left_ne hji]
    exact haccess j (Nat.le_of_succ_le hj) hjn (by rwa [hsame] at hg)
  · rw [htargets, hsent, hsame, List.range_succ, List.filter_append]
    simp [hgroup]
  · rw [hsame, hentries]
    exact hentries'

lemma Inv.sendComplete (hs : s.Inv nprocs) (hpc : s.pc p = .complete i) (hi : i < nprocs)
    (hset : s.post_received p i = true) (hgroup : s.group p i = true) (hne : i ≠ p) :
    ((s.sendComplete p i).goto p (.completeReset i)).Inv nprocs := by
  refine hs.of_shake (c := i) (q := p) (fun hi hp => ?_) (fun a b => shake_sendComplete hpc) rfl
    (fun hp => ?_) fun q _ hqp h => ?_
  · rw [shake_sendComplete_self hne]
    exact (hs.shakes i p hi hp).answer hset (by simp [shake, hpc, SyncPc.resetting])
  · exact (hs.at hp hpc).answered hi hgroup rfl (Function.update_self _ _ _) rfl rfl rfl
  · exact h.frame rfl (Function.update_of_ne hqp _ _) rfl (fun _ => set₂_of_right_ne hqp)
      (fun _ => le_rfl) fun _ _ h => h

lemma Inv.completeSelf (hs : s.Inv nprocs) (hpc : s.pc p = .complete p) (hp : p < nprocs)
    (hset : s.post_received p p = true) (hgroup : s.group p p = true) :
    ((s.completeSelf p).goto p (.completeReset p)).Inv nprocs := by
  refine hs.of_shake (c := p) (q := p) (fun _ _ => ?_) (fun a b => shake_completeSelf hpc) rfl
    (fun _ => ?_) fun q _ hqp h => ?_
  · rw [shake_completeSelf_self hpc]
    refine ((hs.shakes p p hp hp).answer hset (by simp [shake, hpc, SyncPc.resetting])).ack ?_
    exact Nat.succ_pos _
  · exact (hs.at hp hpc).answered hp hgroup rfl (Function.update_self _ _ _) rfl rfl rfl
  · refine h.frame rfl (Function.update_of_ne hqp _ _) rfl (fun _ => set₂_of_right_ne hqp)
      (fun _ => le_rfl) fun j _ h => ?_
    simp only [SyncState.completeSelf, set₂_of_left_ne hqp]
    exact h

lemma Inv.resetPostReceived (hs : s.Inv nprocs) (hpc : s.pc p = .completeReset i)
    (hhandled : s.postsHandled i p = s.completes i p) :
    ((s.resetPostReceived p i).goto p (.complete (i + 1))).Inv nprocs := by
  refine hs.of_shake (c := i) (q := p) (fun hi hp => ?_) (fun a b => shake_reset hpc) rfl
    (fun hp => ?_) fun q _ _ h => ?_
  · rw [shake_reset_self hpc]
    exact (hs.shakes i p hi hp).resetFlag hhandled
  · obtain ⟨haccess, hsending, hi⟩ := hs.at hp hpc
    exact ⟨haccess, hsending, hi⟩
  · exact h.frame rfl rfl rfl (fun _ => rfl) (fun _ => le_rfl) fun _ _ h => h

/-- The handler runs: one handshake is concerned, and no process moves. -/
lemma Inv.of_recv (hs : s.Inv nprocs) {c q : ℕ}
    (hself : c < nprocs → q < nprocs → (s'.shake c q).Good)
    (hother : ∀ a b, ¬(a = c ∧ b = q) → s'.shake a b = s.shake a b) (hpc : s'.pc = s.pc)
    (hframe : ∀ r, r < nprocs → s.Known nprocs r (s.pc r) → s'.Known nprocs r (s.pc r)) :
    s'.Inv nprocs where
  shakes a b ha hb := by
    by_cases h : a = c ∧ b = q
    · obtain ⟨rfl, rfl⟩ := h
      exact hself ha hb
    · rw [hother a b h]
      exact hs.shakes a b ha hb
  known r hr := by
    rw [hpc]
    exact hframe r hr (hs.known r hr)

lemma Inv.recvPost {rest : List SyncMsg} (hs : s.Inv nprocs) (hchan : s.chan a b = .post :: rest) :
    (s.recvPost a b rest).Inv nprocs := by
  refine hs.of_recv (c := a) (q := b) (fun ha hb => ?_) (fun a' b' => shake_recvPost hchan) rfl
    fun r _ h => ?_
  · rw [shake_recvPost_self hchan]
    exact (hs.shakes a b ha hb).arrive (by simp [shake, hchan])
  · exact h.frame rfl rfl rfl (fun _ => rfl) (fun _ => le_set₂_succ) fun _ _ h => h

lemma Inv.recvComplete {rest : List SyncMsg} (hs : s.Inv nprocs)
    (hchan : s.chan a b = .complete :: rest) : (s.recvComplete a b rest).Inv nprocs := by
  have hans : 0 < (s.shake b a).answers := by simp [shake, hchan]
  refine hs.of_recv (c := b) (q := a) (fun hb ha => ?_) (fun a' b' => shake_recvComplete hchan) rfl
    fun r hr h => ?_
  · rw [shake_recvComplete_self hchan]
    exact (hs.shakes b a hb ha).ack hans
  · refine h.frame rfl rfl rfl (fun _ => rfl) (fun _ => le_rfl) fun j hj h => ?_
    have hne : ¬(r = b ∧ j = a) := by
      rintro ⟨rfl, rfl⟩
      exact absurd h ((hs.shakes r j hr hj).acked_lt_of_answers hans).ne
    simp only [SyncState.recvComplete, set₂_apply, if_neg hne]
    exact h

theorem SyncStep.inv {act : SyncAct} (hs : s.Inv nprocs) (hcond : s.InOrder nprocs act)
    (hstep : SyncStep nprocs s act s') : s'.Inv nprocs := by
  cases hstep with
  | callPost p g hp hpc =>
    exact (hs.setCount _).goto hpc (fun _ => ⟨rfl, rfl⟩) (fun _ => ⟨rfl, rfl⟩) fun _ =>
      ⟨(hs.setCount _).at hp hpc, fun j _ hj hg => hcond j hj hg⟩
  | postSkip p g i hpc hi hg =>
    refine hs.goto hpc (fun _ => ⟨rfl, rfl⟩) (fun _ => ⟨rfl, rfl⟩) fun hp => ?_
    obtain ⟨haccess, hready⟩ := hs.at hp hpc
    exact ⟨haccess, fun j hj => hready j (Nat.le_of_succ_le hj)⟩
  | postSend p g i hpc hi hg hne => exact hs.sendPost hpc hi hg hne
  | postSelf p g hpc hp hg => exact hs.postSelf hpc hp hg
  | postSet p g i hpc =>
    simp only [InOrder, hpc] at hcond
    exact hs.setPostSent hpc hcond
  | postEnd p g hpc =>
    exact hs.goto hpc (fun _ => ⟨rfl, rfl⟩) (fun _ => ⟨rfl, rfl⟩) fun hp => (hs.at hp hpc).1
  | callStart p g hp hpc =>
    exact hs.goto hpc (fun _ => ⟨rfl, rfl⟩) (fun _ => ⟨rfl, rfl⟩) fun _ =>
      ⟨hs.at hp hpc, fun j hj => absurd hj (Nat.not_lt_zero j)⟩
  | startSkip p g i hpc hi hg =>
    refine hs.goto hpc (fun _ => ⟨rfl, rfl⟩) (fun _ => ⟨rfl, rfl⟩) fun hp => ?_
    obtain ⟨haccess, hfound⟩ := hs.at hp hpc
    refine ⟨haccess, fun j hj hjn hgj => ?_⟩
    rcases Nat.lt_succ_iff_lt_or_eq.mp hj with h | rfl
    · exact hfound j h hjn hgj
    · simp [hg] at hgj
  | startFound p g i hpc hi hg hset =>
    refine hs.goto hpc (fun _ => ⟨rfl, rfl⟩) (fun _ => ⟨rfl, rfl⟩) fun hp => ?_
    obtain ⟨haccess, hfound⟩ := hs.at hp hpc
    refine ⟨haccess, fun j hj hjn hgj => ?_⟩
    rcases Nat.lt_succ_iff_lt_or_eq.mp hj with h | rfl
    · exact hfound j h hjn hgj
    · exact hs.open_of_received hp hi hset (by simp [hpc, SyncPc.resetting])
  | startEnd p g hpc =>
    exact (hs.setCount _).setGroup hpc (fun _ => ⟨rfl, rfl⟩) fun hp j hj hg =>
      (hs.at hp hpc).2 j hj hj hg
  | callComplete p hp hpc => exact hs.beginComplete hpc hcond
  | completeSkip p i hpc hi hset =>
    refine hs.goto hpc (fun _ => ⟨rfl, rfl⟩) (fun _ => ⟨rfl, rfl⟩) fun hp => ?_
    obtain ⟨haccess, ⟨hsent, hentries⟩, -⟩ := hs.at hp hpc
    have hgroup : s.group p i = false := by
      by_contra hg
      have hlt := haccess i le_rfl hi (by simpa using hg)
      have hset' := (hs.shakes i p hi hp).pending hlt
      exact absurd hset' (by simp [shake, hset])
    refine ⟨fun j hj => haccess j (Nat.le_of_succ_le hj), ⟨?_, hentries⟩, hi⟩
    rw [hsent, List.range_succ, List.filter_append]
    simp [hgroup]
  | completeSend p i hpc hi hset hne =>
    simp only [InOrder, hpc] at hcond
    exact hs.sendComplete hpc hi hset (hcond hi hset) hne
  | completeSelf p hpc hp hset =>
    simp only [InOrder, hpc] at hcond
    exact hs.completeSelf hpc hp hset (hcond hp hset)
  | completeReset p i hpc =>
    simp only [InOrder, hpc] at hcond
    exact hs.resetPostReceived hpc hcond
  | completeEnd p hpc =>
    exact (hs.setCount _).setGroup hpc (fun _ => ⟨rfl, rfl⟩) fun _ _ _ hg =>
      absurd hg Bool.false_ne_true
  | callWait p hp hpc =>
    exact hs.goto hpc (fun _ => ⟨rfl, rfl⟩) (fun _ => ⟨rfl, rfl⟩) fun _ =>
      ⟨hs.at hp hpc, fun j hj => absurd hj (Nat.not_lt_zero j)⟩
  | waitNext p i hpc hi hset =>
    refine hs.goto hpc (fun _ => ⟨rfl, rfl⟩) (fun _ => ⟨rfl, rfl⟩) fun hp => ?_
    obtain ⟨haccess, hacked⟩ := hs.at hp hpc
    refine ⟨haccess, fun j hj hjn => ?_⟩
    rcases Nat.lt_succ_iff_lt_or_eq.mp hj with h | rfl
    · exact hacked j h hjn
    · exact hs.acked_of_not_sent hp hi hset (by simp [hpc, SyncPc.setting])
  | waitEnd p hpc =>
    exact (hs.setCount _).goto hpc (fun _ => ⟨rfl, rfl⟩) (fun _ => ⟨rfl, rfl⟩) fun hp =>
      ((hs.setCount _).at hp hpc).1
  | recvPost a b rest hchan => exact hs.recvPost hchan
  | recvComplete a b rest hchan => exact hs.recvComplete hchan

/-! ### What the calls promise -/

/-- The completes to the others are among those for which there are entries. -/
lemma Sending.written_le (h : s.Sending nprocs p i) (hi : i ≤ nprocs) :
    s.written p ≤ s.entries p := by
  obtain ⟨hsent, hentries⟩ := h
  have hsub : (List.range i).Sublist (List.range nprocs) := List.range_sublist.mpr hi
  calc s.written p = (List.range i).countP fun j => s.group p j && j != p := by
        rw [written, hsent, List.countP_filter]
        exact List.countP_congr fun j _ => by rw [Bool.and_comm]
    _ ≤ (List.range nprocs).countP fun j => s.group p j && j != p := hsub.countP_le
    _ ≤ s.entries p := hentries

lemma Inv.promise (hs : s.Inv nprocs) : s.Synchronised nprocs where
  waits p i j hp hpc hij hi := by
    have hacked := (hs.at hp hpc).2 i hij hi
    have hh := hs.shakes p i hp hi
    have h₁ : s.completesHandled p i ≤ s.completes p i := hh.acked_le
    have h₂ : s.completes p i ≤ s.posts p i := hh.answered_le.trans hh.received_le
    exact le_antisymm h₂ (hacked ▸ h₁)
  completeKept p i hp hi hacked := (hs.shakes p i hp hi).waiting_of_acked hacked
  postKept p i hp hi hopen := (hs.shakes p i hp hi).pending hopen
  exact p i hp hpc := (hs.at hp hpc).2.1.1
  bounded p i hp hpc := by
    rcases hpc with hpc | hpc
    · exact (hs.at hp hpc).2.1.written_le (hs.at hp hpc).2.2
    · exact (hs.at hp hpc).2.1.written_le (hs.at hp hpc).2.2

/-- In order, the calls keep their promise in every run of any number of processes. -/
theorem synchronised (h : SyncReachable nprocs (InOrder nprocs) s) : s.Synchronised nprocs := by
  apply Inv.promise
  induction h with
  | init => exact init_inv
  | step _ hstep hcond ih => exact SyncStep.inv ih hcond hstep

/-- In a run in order the first process posts to the second, which answers. -/
theorem synchronised_two : ∃ s : SyncState, s.pc 0 = .wait 2 ∧ s.completes 0 1 = 1 ∧
    s.Synchronised 2 := by
  have h₀ : SyncReachable 2 (InOrder 2) init := .init
  have hpost := ((h₀.step (.callPost _ 0 (· == 1) (by decide) rfl) (fun _ _ _ => rfl)).step
    (.postSkip _ 0 _ 0 rfl (by decide) rfl) trivial).step
    (.postSend _ 0 _ 1 rfl (by decide) rfl (by decide)) trivial
  have hsent := (hpost.step (.postSet _ 0 _ 1 rfl) Nat.zero_lt_one).step (.postEnd _ 0 _ rfl) trivial
  have hstart := ((hsent.step (.recvPost _ 0 1 [] rfl) trivial).step
    (.callStart _ 1 (· == 0) (by decide) rfl) trivial).step
    (.startFound _ 1 _ 0 rfl (by decide) rfl rfl) trivial
  have hstarted := (hstart.step (.startSkip _ 1 _ 1 rfl (by decide) rfl) trivial).step
    (.startEnd _ 1 _ rfl) trivial
  have hcomplete := ((hstarted.step (.callComplete _ 1 (by decide) rfl) le_rfl).step
    (.completeSend _ 1 0 rfl (by decide) rfl (by decide)) (fun _ _ => rfl)).step
    (.completeReset _ 1 0 rfl) rfl
  have hcompleted := (hcomplete.step (.completeSkip _ 1 1 rfl (by decide) rfl)
    (fun _ h => absurd h Bool.false_ne_true)).step (.completeEnd _ 1 rfl)
    (fun h => absurd h (Nat.lt_irrefl 2))
  have hwait := ((hcompleted.step (.recvComplete _ 1 0 [] rfl) trivial).step
    (.callWait _ 0 (by decide) rfl) trivial).step (.waitNext _ 0 0 rfl (by decide) rfl) trivial
  exact ⟨_, rfl, rfl, synchronised (hwait.step (.waitNext _ 0 1 rfl (by decide) rfl) trivial)⟩

/-- The complete is handled after the post was sent and before `post_sent[1] = 1`. -/
theorem not_synchronised :
    ¬∀ s : SyncState, SyncReachable 2 (fun _ _ => True) s → s.Synchronised 2 := by
  intro h
  have h₀ : SyncReachable 2 (fun _ _ => True) init := .init
  have hpost := ((h₀.step (.callPost _ 0 (· == 1) (by decide) rfl) trivial).step
    (.postSkip _ 0 _ 0 rfl (by decide) rfl) trivial).step
    (.postSend _ 0 _ 1 rfl (by decide) rfl (by decide)) trivial
  have hstart := ((hpost.step (.recvPost _ 0 1 [] rfl) trivial).step
    (.callStart _ 1 (· == 0) (by decide) rfl) trivial).step
    (.startFound _ 1 _ 0 rfl (by decide) rfl rfl) trivial
  have hstarted := (hstart.step (.startSkip _ 1 _ 1 rfl (by decide) rfl) trivial).step
    (.startEnd _ 1 _ rfl) trivial
  have hcomplete := (hstarted.step (.callComplete _ 1 (by decide) rfl) trivial).step
    (.completeSend _ 1 0 rfl (by decide) rfl (by decide)) trivial
  have hset := (hcomplete.step (.recvComplete _ 1 0 [] rfl) trivial).step
    (.postSet _ 0 _ 1 rfl) trivial
  have hkept := (h _ hset).completeKept 0 1 (by decide) (by decide) rfl
  exact absurd hkept (by decide)

end SyncState

end NetPipe.MpLite
