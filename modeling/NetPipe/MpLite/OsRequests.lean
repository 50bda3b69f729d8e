import Mathlib
import NetPipe.MpLite.OsScratch

/-!
# Requests that are acted on

Get requests, lock requests and the messages of post and complete are read into variables: the first
two into static ones, the last into the array of the call. They are acted on as they were sent if no
two of a kind are read at once, and the last are read within a call.
-/

namespace NetPipe.MpLite

namespace OsState

/-- A get or lock request is not read while another one of its kind was read in part, and the call
that begins with a post or complete message reads all of it. -/
def RequestsApart : OsState → OsAct → Prop
  | s, .body b k => (s.header b).tag = 1 ∨ (s.header b).tag = 15 → 0 < k →
      ∀ a, a ≠ b → s.recv_q a ≠ none → (s.header a).tag = (s.header b).tag → s.got a = []
  | s, .leave b => (s.header b).tag ≠ 16
  | _, _ => True

/-- The requests that were acted on are those that were sent, byte for byte and in their order. -/
structure ActedAsSent (t : Traffic) (s : OsState) : Prop where
  stopped : s.stopped = false
  acted : ∀ b, s.acted b = ((s.receivedFrom b).filter fun f => f.header.IsRequest).map fun f =>
    (f.header.tag, f.body)
  sent : ∀ b, s.receivedFrom b <+: t.frames b

/-- The invariant of the runs that keep requests apart. -/
structure RequestInv (t : Traffic) (s : OsState) : Prop where
  streamed : s.Streamed t
  kept : s.Kept OsHeader.IsRequest
  sync : ∀ b msg, s.recv_q b = some msg → (s.header b).tag = 16 →
    (∃ m, s.running = some (b, m)) ∧ msg.buf = (.active_targ_hdr s.calls, 0)
  acted : ∀ b, s.acted b = ((s.receivedFrom b).filter fun f => f.header.IsRequest).map fun f =>
    (f.header.tag, f.body)

variable {fl : FloatOps} {t : Traffic} {s s' : OsState} {act : OsAct} {a b k m : ℕ} {msg : OsEntry}
  {f : OsFrame} {rest : List OsFrame}

/-- Different kinds of messages have different variables. -/
lemma Current.tag_of_buf (hc : s.Current t b f rest msg) :
    (msg.buf.1 = .get_hdr → f.header.tag = 1) ∧ (msg.buf.1 = .lock_hdr → f.header.tag = 15) ∧
      ∀ call, msg.buf.1 = .active_targ_hdr call → f.header.tag = 16 := by
  have htarget := hc.receiving.target
  rcases hc.valid.tag_cases with h | h | h | h | h | h
  · simp [htarget.put h]
  · simp [htarget.get h, h]
  · simp [htarget.reply h]
  · rw [htarget.accum h]
    unfold accumStorage
    split_ifs <;> simp
  · simp [htarget.lock h, h]
  · obtain ⟨call, hcall⟩ := htarget.sync h
    simp [hcall, h]

/-- A post or complete message is read in the call that is running. -/
lemma RequestInv.eq_of_sync (hs : s.RequestInv t) (hrun : s.running = some (b, m))
    (hmsg : s.recv_q a = some msg) (hsync : (s.header a).tag = 16) : a = b := by
  obtain ⟨⟨m', hrun'⟩, -⟩ := hs.sync a msg hmsg hsync
  simpa using congrArg (Option.map Prod.fst) (hrun'.symm.trans hrun)

lemma RequestInv.not_sync (hs : s.RequestInv t) (hrun : s.running = none)
    (hmsg : s.recv_q a = some msg) : (s.header a).tag ≠ 16 := by
  intro hsync
  obtain ⟨⟨m', hrun'⟩, -⟩ := hs.sync a msg hmsg hsync
  simp [hrun] at hrun'

lemma RequestInv.alone (hs : s.RequestInv t) (hrun : s.running = some (b, m))
    (hcond : s.RequestsApart (.body b k)) (hk : 0 < k) : s.Alone OsHeader.IsRequest b := by
  intro msg hmsg a hne msg' hmsg' hrequest hbuf
  obtain ⟨f, rest, hc⟩ := hs.streamed.current hmsg
  obtain ⟨f', rest', hc'⟩ := hs.streamed.current hmsg'
  obtain ⟨hget, hlock, -⟩ := hc.tag_of_buf
  have hpending : (s.header a).tag = (s.header b).tag →
      (s.header b).tag = 1 ∨ (s.header b).tag = 15 → (s.view a).pending = 0 :=
    fun hsame htag => OsView.pending_of_nil (hcond htag hk a hne (by simp [hmsg']) hsame)
  have htarget := hc'.receiving.target
  rw [← hc'.header_eq] at htarget
  rcases hrequest with h | h | h
  · have hb : (s.header b).tag = 1 := by
      rw [hc.header_eq]
      exact hget (hbuf ▸ congrArg Prod.fst (htarget.get h))
    exact hpending (h.trans hb.symm) (Or.inl hb)
  · have hb : (s.header b).tag = 15 := by
      rw [hc.header_eq]
      exact hlock (hbuf ▸ congrArg Prod.fst (htarget.lock h))
    exact hpending (h.trans hb.symm) (Or.inr hb)
  · exact absurd (hs.eq_of_sync hrun hmsg' h) hne

/-- What the function does with a request that is complete. -/
lemma Current.finish_acted (hc : s.Current t b f rest msg)
    (hsync : f.header.tag = 16 → msg.buf = (.active_targ_hdr s.calls, 0)) :
    (s.finish b msg).acted = if f.header.IsRequest then
      Function.update s.acted b
        (s.acted b ++ [(f.header.tag, bytesAt (s.cells msg.buf.1) msg.buf.2 f.body.length)])
      else s.acted := by
  have htarget := hc.receiving.target
  unfold OsState.finish
  rw [hc.header_eq]
  rcases hc.valid.tag_cases with h | h | h | h | h | h
  · simp [h, receiver, recvPutData, OsHeader.IsRequest]
  · simp [h, receiver, recvGetRequest, OsHeader.IsRequest, OsState.act, hc.header_eq, htarget.get h,
      hc.valid.get h]
  · simp [h, receiver, recvGetReplyData, OsHeader.IsRequest]
  · have hnot : ¬f.header.IsRequest := by
      obtain ⟨h₁, h₂⟩ := h
      unfold OsHeader.IsRequest
      omega
    simp [OsFrame.Valid.receiver_accum h, recvAccumOperation, hnot]
  · simp [h, receiver, recvLockRequest, OsHeader.IsRequest, OsState.act, hc.header_eq,
      htarget.lock h, hc.valid.lock h]
  · simp [h, receiver, recvActiveTargetSync, OsHeader.IsRequest, OsState.act, hc.header_eq,
      hsync h, hc.valid.sync h]

/-- A request that is complete is in its variable. -/
lemma Current.request_bytes (hc : s.Current t b f rest msg) (hmsg : s.recv_q b = some msg)
    (hkept : s.Kept OsHeader.IsRequest) (hrequest : f.header.IsRequest) (hleft : msg.nleft = 0) :
    bytesAt (s.cells msg.buf.1) msg.buf.2 f.body.length = f.body := by
  have haccum : ¬f.header.IsAccum := by
    unfold OsHeader.IsRequest at hrequest
    unfold OsHeader.IsAccum
    omega
  obtain ⟨hgot, -⟩ := hc.finished hleft
  have hpending : (s.view b).pending = f.body.length := by
    unfold OsView.pending
    rw [view_header, hc.header_eq, if_neg haccum, if_pos hrequest]
    exact congrArg List.length hgot
  have hbytes := hkept b msg hmsg (by rwa [view_header, hc.header_eq])
  rw [hpending] at hbytes
  simpa [view, hgot] using hbytes

lemma requestInv_init : t.init.RequestInv t where
  streamed := streamed_init
  kept b := OsView.kept_of_pending (OsView.pending_of_nil rfl)
  sync b msg hmsg := by
    simp [Traffic.init] at hmsg
  acted b := rfl

end OsState

open OsState

variable {fl : FloatOps} {t : Traffic} {s s' : OsState} {act : OsAct}

/-- The array of the call that is running is the only one that is used. -/
lemma OsStep.sync (hs : s.RequestInv t) (hcond : s.RequestsApart act) (hstep : OsStep fl s act s') :
    ∀ b msg, s'.recv_q b = some msg → (s'.header b).tag = 16 →
      (∃ m, s'.running = some (b, m)) ∧ msg.buf = (.active_targ_hdr s'.calls, 0) := by
  cases hstep with
  | resume b msg junk hstop hrun hmsg =>
    obtain ⟨f, rest, hc⟩ := hs.streamed.current hmsg
    rw [hc.service_eq hmsg]
    intro a msg' hmsg' hsync
    exact absurd hsync (hs.not_sync hrun hmsg')
  | peek b junk hstop hrun hmsg hlen =>
    obtain ⟨f, rest, buf, hp⟩ := hs.streamed.peeked hmsg hlen junk
    rw [hp.service]
    intro a msg' hmsg' hsync
    rcases eq_or_ne a b with rfl | hne
    · have hheader : parseOsHeader ((s.peek a).hdr a) = f.header := by rw [hp.hdr, hp.valid.parse]
      obtain rfl : f.header.newEntry buf = msg' := by simpa [begin, setEntry] using hmsg'
      have htag : f.header.tag = 16 := by
        rw [← hheader]
        exact hsync
      exact ⟨⟨1, rfl⟩, hp.sync htag⟩
    · have hold : s.recv_q a = some msg' := by
        simpa [begin, setEntry, newCall, setCells, OsState.peek, hne] using hmsg'
      have hhdr : (s.peek b).hdr a = s.hdr a := Function.update_of_ne hne _ _
      have hheader : parseOsHeader ((s.peek b).hdr a) = s.header a := congrArg parseOsHeader hhdr
      exact absurd (hheader ▸ hsync) (hs.not_sync hrun hold)
  | header b k m msg hstop hrun hmsg hm hnhdr hk hlen =>
    obtain ⟨f, rest, hc⟩ := hs.streamed.current hmsg
    rw [hc.readHeader_eq hnhdr hk]
    intro a msg' hmsg' hsync
    rcases eq_or_ne a b with rfl | hne
    · obtain rfl : msg.updateProgress k = msg' := by simpa using hmsg'
      rw [updateProgress_buf]
      exact ⟨⟨k, rfl⟩, (hs.sync a msg hmsg hsync).2⟩
    · have hold : s.recv_q a = some msg' := by simpa [hne] using hmsg'
      exact absurd (hs.eq_of_sync hrun hold hsync) hne
  | body b k m msg hstop hrun hmsg hm hleft hnhdr hk hlen =>
    obtain ⟨f, rest, hc⟩ := hs.streamed.current hmsg
    rw [hc.body_eq hnhdr hleft hk]
    intro a msg' hmsg' hsync
    rcases eq_or_ne a b with rfl | hne
    · obtain rfl : msg.next (s.header a).unit k = msg' := by simpa [bodyDone] using hmsg'
      rw [next_buf]
      exact ⟨⟨k, rfl⟩, (hs.sync a msg hmsg hsync).2⟩
    · have hold : s.recv_q a = some msg' := by simpa [bodyDone, hne] using hmsg'
      exact absurd (hs.eq_of_sync hrun hold hsync) hne
  | leave b msg hstop hrun hmsg hleft =>
    intro a msg' hmsg' hsync
    obtain rfl := hs.eq_of_sync hrun hmsg' hsync
    exact absurd hsync hcond
  | finish b m msg hstop hrun hmsg hleft =>
    obtain ⟨acted, q, hfinish⟩ := finish_eq b msg s
    rw [hfinish]
    intro a msg' hmsg' hsync
    rcases eq_or_ne a b with rfl | hne
    · simp at hmsg'
    · have hold : s.recv_q a = some msg' := by simpa [hne] using hmsg'
      exact absurd (hs.eq_of_sync hrun hold hsync) hne
  | aget b addr hstop hrun => exact hs.sync

/-- Only a message that is complete is acted on. -/
lemma OsStep.acted (hs : s.RequestInv t) (hstep : OsStep fl s act s') : ∀ b,
    s'.acted b = ((s'.receivedFrom b).filter fun f => f.header.IsRequest).map fun f =>
      (f.header.tag, f.body) := by
  cases hstep with
  | resume b msg junk hstop hrun hmsg =>
    obtain ⟨f, rest, hc⟩ := hs.streamed.current hmsg
    rw [hc.service_eq hmsg]
    exact hs.acted
  | peek b junk hstop hrun hmsg hlen =>
    obtain ⟨f, rest, buf, hp⟩ := hs.streamed.peeked hmsg hlen junk
    rw [hp.service]
    exact hs.acted
  | header b k m msg hstop hrun hmsg hm hnhdr hk hlen =>
    obtain ⟨f, rest, hc⟩ := hs.streamed.current hmsg
    rw [hc.readHeader_eq hnhdr hk]
    exact hs.acted
  | body b k m msg hstop hrun hmsg hm hleft hnhdr hk hlen =>
    obtain ⟨f, rest, hc⟩ := hs.streamed.current hmsg
    rw [hc.body_eq hnhdr hleft hk]
    exact hs.acted
  | leave b msg hstop hrun hmsg hleft => exact hs.acted
  | finish b m msg hstop hrun hmsg hleft =>
    obtain ⟨f, rest, hc⟩ := hs.streamed.current hmsg
    obtain ⟨hgot, -⟩ := hc.finished hleft
    have hacted := hc.finish_acted fun hsync => (hs.sync b msg hmsg (by rwa [hc.header_eq])).2
    have hreceived : ∀ a, (s.finish b msg).receivedFrom a =
        if a = b then s.receivedFrom a ++ [f] else s.receivedFrom a := by
      intro a
      obtain ⟨acted, q, hfinish⟩ := finish_eq b msg s
      rw [hfinish]
      by_cases hab : a = b
      · simp [receivedFrom, hc.header_eq, hc.valid.src, hgot, hab]
      · simp [receivedFrom, hc.header_eq, hc.valid.src, hab, Ne.symm hab]
    intro a
    rw [hacted, hreceived]
    by_cases hrequest : f.header.IsRequest
    · have hbytes := hc.request_bytes hmsg hs.kept hrequest hleft
      rcases eq_or_ne a b with rfl | hne
      · simp [hrequest, hbytes, hs.acted a]
      · simp [hrequest, hne, hs.acted a]
    · rcases eq_or_ne a b with rfl | hne
      · simp [hrequest, hs.acted a]
      · simp [hrequest, hne, hs.acted a]
  | aget b addr hstop hrun => exact hs.acted

theorem OsStep.requestInv (hs : s.RequestInv t) (hcond : s.RequestsApart act)
    (hstep : OsStep fl s act s') : s'.RequestInv t where
  streamed := hstep.streamed hs.streamed
  kept := by
    refine hstep.kept hs.streamed hs.kept (fun h => Or.inr) (fun hrun a msg hmsg hrequest hbuf => ?_)
      fun b k hact hk => ?_
    · obtain ⟨f, rest, hc⟩ := hs.streamed.current hmsg
      have hsync := hc.tag_of_buf.2.2 _ hbuf
      exact hs.not_sync hrun hmsg (by rwa [hc.header_eq])
    · subst hact
      cases hstep with
      | body _ _ m msg hstop hrun => exact hs.alone hrun hcond hk
  sync := hstep.sync hs hcond
  acted := hstep.acted hs

namespace OsState

lemma RequestInv.actedAsSent (hs : s.RequestInv t) : s.ActedAsSent t where
  stopped := hs.streamed.stopped
  acted := hs.acted
  sent b := by
    obtain ⟨rest, hframes, -⟩ := hs.streamed.stream b
    exact ⟨rest, hframes.symm⟩

/-- In every run that keeps requests apart they are acted on as they were sent. -/
theorem acted_as_sent (h : OsReachable fl t RequestsApart s) : s.ActedAsSent t := by
  apply RequestInv.actedAsSent
  induction h with
  | init => exact requestInv_init
  | step _ hstep hcond ih => exact hstep.requestInv ih hcond

/-- Process `0` sends a post message for window `3`. -/
def onePost : Traffic where
  nprocs := 1
  frames_nil b hb := if_neg (Nat.ne_of_gt hb)
  frames b := if b = 0 then [⟨⟨8, 0, 16, 0⟩, leBytes 4 3 ++ leBytes 4 0⟩] else []
  valid b f hf := by
    split_ifs at hf with hb
    · obtain rfl := List.mem_singleton.mp hf
      constructor <;> simp [hb]
    · simp at hf
  mem _ := 0

/-- The message is read in two pieces within a call. -/
theorem acted_as_sent_post : ∃ s : OsState, s.acted 0 = [(16, leBytes 4 3 ++ leBytes 4 0)] ∧
    s.ActedAsSent onePost := by
  have h₀ : OsReachable .none onePost RequestsApart onePost.init := .init
  have hheader := (h₀.step (.peek _ 0 (fun _ => 0) rfl rfl rfl (by decide)) trivial).step
    (.header _ 0 24 1 _ rfl rfl rfl (by decide) (by decide) (by decide) (by decide)) trivial
  have hpart := hheader.step
    (.body _ 0 3 24 _ rfl rfl rfl (by decide) (by decide) rfl (by decide) (by decide))
    (fun h => absurd h (by decide))
  have hbody := hpart.step
    (.body _ 0 5 3 _ rfl rfl rfl (by decide) (by decide) rfl (by decide) (by decide))
    (fun h => absurd h (by decide))
  exact ⟨_, by decide, acted_as_sent (hbody.step (.finish _ 0 _ _ rfl rfl rfl rfl) trivial)⟩

lemma twoGets_valid (b : ℕ) : ∀ f ∈ (if b < 2 then
    [(⟨⟨16, b, 1, 0⟩, List.replicate 16 (UInt8.ofNat b)⟩ : OsFrame)] else []), f.Valid b := by
  intro f hf
  split_ifs at hf with hb
  · obtain rfl := List.mem_singleton.mp hf
    constructor <;> simp
    omega
  · simp at hf

/-- Two processes send a get request. -/
def twoGets : Traffic where
  nprocs := 2
  frames_nil _ hb := if_neg (Nat.not_lt.mpr hb)
  frames b := if b < 2 then [⟨⟨16, b, 1, 0⟩, List.replicate 16 (UInt8.ofNat b)⟩] else []
  valid := twoGets_valid
  mem _ := 0

/-- Half of the request of process `0` is read, then that of process `1`, then the rest. -/
theorem not_acted_as_sent :
    ¬∀ s : OsState, OsReachable .none twoGets (fun _ _ => True) s → s.ActedAsSent twoGets := by
  intro h
  have h₀ : OsReachable .none twoGets (fun _ _ => True) twoGets.init := .init
  have hheader := (h₀.step (.peek _ 0 (fun _ => 0) rfl rfl rfl (by decide)) trivial).step
    (.header _ 0 24 1 _ rfl rfl rfl (by decide) (by decide) (by decide) (by decide)) trivial
  have hhalf := ((hheader.step
    (.body _ 0 8 24 _ rfl rfl rfl (by decide) (by decide) rfl (by decide) (by decide)) trivial).step
    (.body _ 0 0 8 _ rfl rfl rfl (by decide) (by decide) rfl (by decide) (by decide)) trivial).step
    (.leave _ 0 _ rfl rfl rfl (by decide)) trivial
  have hother := ((hhalf.step (.peek _ 1 (fun _ => 0) rfl rfl rfl (by decide)) trivial).step
    (.header _ 1 24 1 _ rfl rfl rfl (by decide) (by decide) (by decide) (by decide)) trivial).step
    (.body _ 1 16 24 _ rfl rfl rfl (by decide) (by decide) rfl (by decide) (by decide)) trivial
  have hrest := ((hother.step (.finish _ 1 _ _ rfl rfl rfl rfl) trivial).step
    (.resume _ 0 _ (fun _ => 0) rfl rfl rfl) trivial).step
    (.body _ 0 8 1 _ rfl rfl rfl (by decide) (by decide) rfl (by decide) (by decide)) trivial
  have hacted := (h _ (hrest.step (.finish _ 0 _ _ rfl rfl rfl rfl) trivial)).acted 0
  exact absurd hacted (by decide)

end OsState

end NetPipe.MpLite
