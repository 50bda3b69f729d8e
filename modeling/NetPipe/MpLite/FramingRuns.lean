import Mathlib
import NetPipe.MpLite.Framing

/-!
# Runs of the engine on streams of messages

In which runs every byte of a socket is read as what it was sent as.
-/

namespace NetPipe.MpLite

namespace Engine

variable {nprocs maxMsgs : ℕ} {myproc : ℤ} {s s' : Engine} {id : ℕ} {cs : List Call}

/-! ### Conditions -/

/-- `do_recv` reads the header of the next message only when the last one is complete. -/
def HeaderInTurn (s : Engine) : Prop :=
  ∀ src id m cs, s.calls = .recvLoop src id m :: cs → s.Continues id m → (s.msg_list id).nhdr ≠ 0 →
    s.sock src ≠ [] → ∀ x ∈ s.recv_q src, (s.msg_list x).nhdr = 0 → (s.msg_list x).nleft ≤ 0

/-- `check_header` moves on only to a receive that has no message yet and is of the right size. -/
def MovedFits (s : Engine) : Prop :=
  ∀ src id n cs p, s.calls = .checkHeader src id n :: cs →
    ¬ (s.msg_list id).Fits (parseHeader (s.hdr src)).nbytes (parseHeader (s.hdr src)).tag →
    (s.recv_q src).find? (fun p => (s.msg_list p).Fits
      (parseHeader (s.hdr src)).nbytes (parseHeader (s.hdr src)).tag) = some p →
    (s.msg_list p).nhdr ≠ 0 ∧ (s.msg_list p).nbytes = (parseHeader (s.hdr src)).nbytes

/-- The states from which a step keeps the frames, if no receive from any source is posted. -/
structure FramingKept (nprocs maxMsgs : ℕ) (s : Engine) : Prop
    extends EntriesFresh nprocs maxMsgs s where
  known : s.recv_q (-1) = []
  inTurn : s.HeaderInTurn
  moved : s.MovedFits

/-! ### Every byte is read once -/

lemma map_byte_header (k : ℕ) (l : List UInt8) :
    (l.mapIdx fun i b => Role.header (k + i) b).map Role.byte = l :=
  List.ext_getElem (by simp) fun i _ _ => by simp [Role.byte]

lemma map_byte_body (k : ℕ) (l : List UInt8) :
    (l.mapIdx fun i b => Role.body (k + i) b).map Role.byte = l :=
  List.ext_getElem (by simp) fun i _ _ => by simp [Role.byte]

/-- The bytes that were read and those that are in the socket are those that have arrived. -/
def ReadOnce (s : Engine) : Prop :=
  ∀ src, (s.log src).map Role.byte ++ s.sock src = s.arrived src

lemma ReadOnce.congr (h : s.ReadOnce) (hlog : s'.log = s.log) (hsock : s'.sock = s.sock)
    (harrived : s'.arrived = s.arrived) : s'.ReadOnce := by
  intro src
  rw [hlog, hsock, harrived]
  exact h src

/-- The first `k` bytes of a socket are read. -/
lemma ReadOnce.read (h : s.ReadOnce) {src : ℤ} {k : ℕ} {roles : List Role}
    (hroles : roles.map Role.byte = (s.sock src).take k)
    (hlog : s'.log = Function.update s.log src (s.log src ++ roles))
    (hsock : s'.sock = Function.update s.sock src ((s.sock src).drop k))
    (harrived : s'.arrived = s.arrived) : s'.ReadOnce := by
  intro i
  rw [hlog, hsock, harrived]
  rcases eq_or_ne i src with rfl | hne
  · rw [Function.update_self, Function.update_self, List.map_append, hroles, List.append_assoc,
      List.take_append_drop]
    exact h i
  · rw [Function.update_of_ne hne, Function.update_of_ne hne]
    exact h i

lemma ReadOnce.step (h : s.ReadOnce) (hstep : Step nprocs maxMsgs myproc s s') : s'.ReadOnce := by
  cases hstep with
  | arrive src bytes =>
    intro i
    rcases eq_or_ne i src with rfl | hne
    · simp only [Function.update_self]
      rw [← List.append_assoc, h i]
    · simp only [Function.update_of_ne hne]
      exact h i
  | readHeader src id m cs hcalls hgo hhdr => exact h.read (map_byte_header _ _) rfl rfl rfl
  | readBody src id cur n cs hcalls =>
    rw [readBody]
    dsimp only
    split_ifs
    · exact h.read (map_byte_body _ _) rfl rfl rfl
    · exact h.congr rfl rfl rfl
  | leave id c =>
    rw [leaveWait]
    split_ifs <;> exact h.congr rfl rfl rfl
  | finishSend dest id m cat_nap cs =>
    rw [finishSend]
    split_ifs <;> exact h.congr rfl rfl rfl
  | finishRecv src id m stale cs =>
    rw [finishRecv]
    split_ifs <;> exact h.congr rfl rfl rfl
  | _ => exact h.congr rfl rfl rfl

/-- What has arrived stays. -/
lemma arrived_step (hstep : Step nprocs maxMsgs myproc s s') (src : ℤ) :
    s.arrived src <+: s'.arrived src := by
  cases hstep with
  | arrive i bytes =>
    rcases eq_or_ne src i with rfl | hne
    · simp only [Function.update_self]
      exact List.prefix_append _ _
    · simp only [Function.update_of_ne hne]
      exact List.prefix_refl _
  | readBody src id cur n cs hcalls =>
    rw [readBody]
    split_ifs <;> exact List.prefix_refl _
  | leave id c =>
    rw [leaveWait]
    split_ifs <;> exact List.prefix_refl _
  | finishSend dest id m cat_nap cs =>
    rw [finishSend]
    split_ifs <;> exact List.prefix_refl _
  | finishRecv src id m stale cs =>
    rw [finishRecv]
    split_ifs <;> exact List.prefix_refl _
  | _ => exact List.prefix_refl _

/-! ### Steps -/

section

variable {frames : ℤ → List SentMessage} {src node t : ℤ} {p n m a new cur : ℕ} {stale : List ℕ}

/-- Each source is framed. -/
def AllFramed (frames : ℤ → List SentMessage) (s : Engine) : Prop :=
  ∀ src, ∃ rest pr, s.Framed (frames src) src rest pr

lemma idle_of_none (h : s.receiving = none) (src : ℤ) : s.Idle src := by
  intro id
  simp [h]

lemma receiving_of_serving (h : s.serving = none) : s.receiving = none := by
  cases hr : s.receiving with
  | none => rfl
  | some x =>
    have hserving := serving_of_receiving hr
    rw [h] at hserving
    cases hserving

lemma Idle.of_receiving (h : s.receiving = some (src, id)) {i : ℤ} (hne : i ≠ src) : s.Idle i := by
  intro x hx
  rw [h, Option.some.injEq, Prod.mk.injEq] at hx
  exact hne hx.1.symm

/-- A step outside the loops of `do_recv`. -/
lemma AllFramed.still (h : s.AllFramed frames) (hs : s.Sound myproc) (hlog : s'.log = s.log)
    (hhdr : s'.hdr = s.hdr) (hrecv : s'.recv_q = s.recv_q)
    (hentries : ∀ i, ∀ x ∈ s.recv_q i, s'.msg_list x = s.msg_list x ∨
      (s.msg_list x).Complete ∧ (s'.msg_list x).Complete)
    (hcalls : s'.calls = s.calls ∨ s.receiving = none ∧ s'.receiving = none) :
    s'.AllFramed frames := by
  intro i
  obtain ⟨rest, pr, hi⟩ := h i
  refine ⟨rest, pr, hi.still hs (by rw [hlog]) (by rw [hhdr]) (l := []) ?_ (by simp) (hentries i) ?_⟩
  · rw [hrecv, List.append_nil]
  · exact hcalls.imp (fun heq => ⟨heq, rfl⟩) fun hr => ⟨idle_of_none hr.1 i, idle_of_none hr.2 i⟩

/-- A step of the loop for `src`. -/
lemma AllFramed.loop (h : s.AllFramed frames) (hs : s.Sound myproc)
    (hr : s.receiving = some (src, id)) (hr' : ∀ i x, s'.receiving = some (i, x) → i = src)
    (hlog : ∀ i, i ≠ src → s'.log i = s.log i) (hhdr : ∀ i, i ≠ src → s'.hdr i = s.hdr i)
    (hrecv : ∀ i, i ≠ src → s'.recv_q i = s.recv_q i)
    (hentries : ∀ x, s'.msg_list x = s.msg_list x ∨ x ∈ s.recv_q src ∨ ¬ s.Linked x)
    (hown : ∃ rest pr, s'.Framed (frames src) src rest pr) : s'.AllFramed frames := by
  intro i
  rcases eq_or_ne i src with rfl | hne
  · exact hown
  obtain ⟨rest, pr, hi⟩ := h i
  refine ⟨rest, pr, hi.still hs (hlog i hne) (hhdr i hne) (l := []) ?_ (by simp) (fun x hx => ?_) ?_⟩
  · rw [hrecv i hne, List.append_nil]
  · refine Or.inl ((hentries x).resolve_right ?_)
    rintro (hx' | hx')
    · exact hne ((hs.queues.recvSrc i x hx).symm.trans (hs.queues.recvSrc src x hx'))
    · exact hx' (.of_recv hx)
  · exact Or.inr ⟨.of_receiving hr hne, fun x hx => hne (hr' i x hx)⟩

/-- The bytes in a socket come next in its stream. -/
lemma Framed.next_bytes {frames rest : List SentMessage} {pr : Place}
    (h : s.Framed frames src rest pr) (honce : s.ReadOnce)
    (harrived : s.arrived src <+: frames.flatMap (SentMessage.bytes src)) :
    s.sock src <+: (rest.flatMap (SentMessage.bytes src)).drop pr.offset := by
  have hmap := h.readTo.map Role.byte
  simp only [SentMessage.map_byte_roles] at hmap
  refine hmap.unread ?_
  rw [honce src]
  exact harrived

/-- Entries of sends, and entries that are in no queue, do not matter. -/
lemma AllFramed.elsewhere (h : s.AllFramed frames) (hs : s.Sound myproc) (node : ℤ) (hlog : s'.log = s.log)
    (hhdr : s'.hdr = s.hdr) (hrecv : s'.recv_q = s.recv_q)
    (hentries : ∀ x, s'.msg_list x = s.msg_list x ∨ x ∈ s.send_q node ∨ ¬ s.Linked x)
    (hcalls : s.receiving = none ∧ s'.receiving = none) : s'.AllFramed frames := by
  refine h.still hs hlog hhdr hrecv (fun i x hx => Or.inl ?_) (Or.inr hcalls)
  refine (hentries x).resolve_right ?_
  rintro (hx' | hx')
  · exact hs.ne_send hx' (Or.inl hx) rfl
  · exact hx' (.of_recv hx)

lemma eq_or_updated {f : ℕ → MsgEntry} {msg : MsgEntry} (x : ℕ) :
    Function.update f id msg x = f x ∨ x = id := by
  rcases eq_or_ne x id with rfl | hne
  · exact Or.inr rfl
  · exact Or.inl (Function.update_of_ne hne ..)

lemma receiving_service (hserv : ∀ c ∈ cs, c.IsService) (hcalls : s.calls = cs) :
    s.receiving = none :=
  receiving_of_serving (serving_service hserv hcalls)

/-- `recv_from_q` finds a message whose header was read and which the receive accepts. -/
lemma findBuffered_spec {msg : MsgEntry} (h : findBuffered nprocs s msg = some (t, p)) :
    (s.msg_list p).nhdr = 0 ∧ msg.Fits (s.msg_list p).nbytes (s.msg_list p).tag := by
  obtain ⟨i, -, hi⟩ := List.exists_of_findSome?_eq_some h
  obtain ⟨p', hp', heq⟩ := Option.map_eq_some_iff.mp hi
  rw [Prod.mk.injEq] at heq
  obtain ⟨rfl, rfl⟩ := heq
  simpa using List.find?_some hp'

/-- What runs after `do_recv` or `do_send`. -/
lemma calls_finishRecv (s : Engine) (src : ℤ) (id : ℕ) (stale : List ℕ) (cs : List Call) :
    (s.finishRecv src id stale cs).calls = cs ∨
      (s.finishRecv src id stale cs).calls = .doRecv src :: cs := by
  rw [finishRecv]
  split_ifs <;> simp [em]

lemma calls_finishSend (s : Engine) (dest : ℤ) (id : ℕ) (cs : List Call) :
    (s.finishSend dest id cs).calls = cs ∨ (s.finishSend dest id cs).calls = .doSend dest :: cs := by
  rw [finishSend]
  split_ifs <;> simp [em]

lemma not_checking (hr : s.receiving = none) (x n : ℕ) (cs : List Call) :
    s.calls ≠ .checkHeader src x n :: cs := by
  intro hc
  simp [receiving, hc] at hr

/-- A receive takes a message of `msg_q`, and goes on with its body if it is not complete. -/
lemma AllFramed.take (h : s.AllFramed frames) (hs : s.Sound myproc) (hr : s.receiving = none)
    (hid : ¬ s.Linked id) (hhdr : (s.msg_list p).nhdr = 0)
    (hfirst : (s.msg_list p).nleft ≠ 0 → (s.recv_q t).head? = some p)
    (hlist : s'.msg_list = (s.takeBuffered id t p stale).msg_list)
    (hrecv : s'.recv_q = (s.takeBuffered id t p stale).recv_q) (hlog : s'.log = s.log)
    (hhdr' : s'.hdr = s.hdr) (hr' : s'.receiving = none) : s'.AllFramed frames := by
  have hne : ∀ {i x}, x ∈ s.recv_q i → x ≠ id := by
    rintro i x hx rfl
    exact hid (.of_recv hx)
  have hother : ∀ {i x}, x ∈ s.recv_q i → x ≠ p → s'.msg_list x = s.msg_list x := fun hx hxp => by
    rw [hlist, takeBuffered_msg_list, Function.update_of_ne hxp, Function.update_of_ne (hne hx)]
  by_cases hdone : (s.msg_list p).nleft = 0
  · refine h.still hs hlog hhdr' ?_ (fun i x hx => ?_) (Or.inr ⟨hr, hr'⟩)
    · rw [hrecv]
      exact if_pos hdone
    · rcases eq_or_ne x p with rfl | hxp
      · obtain ⟨rest, pr, hi⟩ := h i
        have hc := (hi.nleft (hi.not_checked (not_checking hr)) hx).resolve_left (by omega)
        refine Or.inr ⟨hc, ?_⟩
        rw [hlist, takeBuffered_msg_list, Function.update_self]
        exact ⟨hc.nhdr, hc.phdr, hc.nbl, hc.nleft⟩
      · exact Or.inl (hother hx hxp)
  have hhead := hfirst hdone
  have hp := List.mem_of_head? hhead
  have hrecv' : s'.recv_q = Function.update s.recv_q t (id :: next p (s.recv_q t) stale) := by
    rw [hrecv]
    exact if_neg hdone
  intro i
  obtain ⟨rest, pr, hi⟩ := h i
  rcases eq_or_ne i t with rfl | hit
  · obtain ⟨j, rfl⟩ := hi.body_of_nhdr (hi.not_checked (not_checking hr)) hp hhdr hdone
    obtain ⟨-, msg, tl, rfl, hj, hmsg⟩ := hi.reads
    obtain ⟨l, hl⟩ := List.head?_eq_some_iff.mp hhead
    have hnodup := hs.queues.recvNodup i
    rw [hl, List.nodup_cons] at hnodup
    have hnext : s'.recv_q i = id :: l := by
      rw [hrecv', Function.update_self, next_head hhead, hl, List.tail_cons]
    refine framed_body msg tl id j ?_ ?_ ?_ hj.le (fun x hx hxid => ?_) (fun x hx => ?_)
      fun pr' _ => loopOk_of_idle (idle_of_none hr' i) pr'
    · rw [hlog]
      exact hi.readTo
    · rw [hnext]
      exact List.mem_cons_self
    · rw [hlist, takeBuffered_msg_list, Function.update_of_ne (hne hp).symm, Function.update_self]
      exact hmsg.takeOver hj i _
    · rw [hnext] at hx
      have hxl := (List.mem_cons.mp hx).resolve_left hxid
      have hxp : x ≠ p := by
        rintro rfl
        exact hnodup.1 hxl
      have hxq : x ∈ s.recv_q i := by
        rw [hl]
        exact List.mem_cons_of_mem p hxl
      rw [hother hxq hxp]
      exact hi.others x hxq fun hcon => hxp (Option.some.inj hcon).symm
    · rw [hnext, before_head rfl] at hx
      cases hx
  · refine ⟨rest, pr, hi.still hs (by rw [hlog]) (by rw [hhdr']) (l := []) ?_ (by simp)
      (fun x hx => Or.inl (hother hx ?_)) (Or.inr ⟨idle_of_none hr i, idle_of_none hr' i⟩)⟩
    · rw [hrecv', Function.update_of_ne hit, List.append_nil]
    · rintro rfl
      exact hit ((hs.queues.recvSrc i x hx).symm.trans (hs.queues.recvSrc t x hp))

lemma receiving_postRecv (hs : s.Sound myproc) (hcalls : s.calls = .arecv id :: cs) :
    (s.postRecv nprocs myproc id cs).receiving = none := by
  have hserv := (hs.handles.head hcalls).2
  rw [postRecv]
  split_ifs
  · refine receiving_service (fun c hc => ?_) rfl
    rcases List.mem_append.mp hc with hc | hc
    · exact service_handlerCalls nprocs myproc c hc
    · exact hserv c hc
  · exact receiving_service hserv rfl
  · rfl

/-- A receive is posted. -/
lemma framed_postRecv (h : s.AllFramed frames) (hs : s.Sound myproc)
    (hcalls : s.calls = .arecv id :: cs) (hfresh : (s.msg_list id).InHeader 0) :
    (s.postRecv nprocs myproc id cs).AllFramed frames := by
  have hr : s.receiving = none := by simp [receiving, hcalls]
  have hr' : (s.postRecv nprocs myproc id cs).receiving = none := receiving_postRecv hs hcalls
  intro i
  obtain ⟨rest, pr, hi⟩ := h i
  rcases eq_or_ne i (s.msg_list id).src with heq | hne
  · refine ⟨rest, pr, hi.still hs rfl rfl (l := [id]) ?_ (fun x hx => ?_) (fun x _ => Or.inl rfl)
      (Or.inr ⟨idle_of_none hr i, idle_of_none hr' i⟩)⟩
    · rw [heq]
      exact Function.update_self ..
    · rw [List.mem_singleton.mp hx]
      exact hfresh
  · refine ⟨rest, pr, hi.still hs rfl rfl (l := []) ?_ (by simp) (fun x _ => Or.inl rfl)
      (Or.inr ⟨idle_of_none hr i, idle_of_none hr' i⟩)⟩
    rw [List.append_nil]
    exact Function.update_of_ne hne ..

/-- What is known of a state of a run. -/
structure Framing (frames : ℤ → List SentMessage) (s : Engine) : Prop where
  once : s.ReadOnce
  framed : s.AllFramed frames
  /-- no byte was read for a new receive -/
  arecv : ∀ id cs, s.calls = .arecv id :: cs → (s.msg_list id).InHeader 0
  leaving : ∀ id c, s.user = .leaving id c → ∀ i, id ∈ s.recv_q i → (s.msg_list id).Complete

lemma Framing.checking (h : s.Framing frames) (hwell : ∀ i, ∀ m ∈ frames i, m.WellFormed i)
    (hcalls : s.calls = .checkHeader src id n :: cs) :
    ∃ msg tl, s.Checking (frames src) src id msg tl := by
  obtain ⟨rest, pr, hi⟩ := h.framed src
  exact hi.checking hcalls (hwell src)

/-- The headers name the process they come from. -/
lemma Framing.headers (h : s.Framing frames) (hwell : ∀ i, ∀ m ∈ frames i, m.WellFormed i) :
    s.HeaderNamesSource := by
  intro src id n cs hcalls
  obtain ⟨msg, tl, hc⟩ := h.checking hwell hcalls
  rw [hc.header]

lemma FramingKept.matchingKept (h : s.FramingKept nprocs maxMsgs) (hheaders : s.HeaderNamesSource) :
    s.MatchingKept nprocs maxMsgs := by
  refine ⟨⟨h.toEntriesFresh, hheaders⟩, fun src id n cs _ _ _ r hr => ?_, fun id cs _ r hr => ?_⟩
  · simp [h.known] at hr
  · simp [h.known] at hr

/-- `do_recv` finds no message in `msg_q`, as no receive accepts one that is there. -/
lemma not_doRecvFound (hs : s.Sound myproc) (hm : s.Matching nprocs myproc)
    (hcalls : s.calls = .doRecv src :: cs) (hid : (s.recv_q src).head? = some id)
    (hhdr : (s.msg_list id).nhdr ≠ 0) (hflag : (s.msg_list id).recv_flag ≠ 2) :
    findBuffered nprocs s (s.msg_list id) ≠ some (t, p) := by
  intro hp
  have hmem := List.mem_of_head? hid
  have hsrc := hs.queues.recvSrc src id hmem
  have ht : t = src := (findBuffered_src (hsrc ▸ (hs.call hcalls).2.1) hp).trans hsrc
  exact hm.unmatched src id hmem (Or.inr ⟨Or.inl hhdr, hflag⟩) t (Or.inl ht.symm) p
    (findBuffered_mem hp) (findBuffered_spec hp).2

lemma AllFramed.step (h : s.Framing frames) (hs : s.Sound myproc) (hm : s.Matching nprocs myproc)
    (hcond : s.FramingKept nprocs maxMsgs) (hwell : ∀ i, ∀ m ∈ frames i, m.WellFormed i)
    (harrived : ∀ i, s.arrived i <+: (frames i).flatMap (SentMessage.bytes i))
    (hstep : Step nprocs maxMsgs myproc s s') : s'.AllFramed frames := by
  have hf := h.framed
  cases hstep with
  | arrive src bytes =>
    exact hf.still hs rfl rfl rfl (fun _ _ _ => Or.inl rfl) (Or.inl rfl)
  | signal hcalls huser =>
    refine hf.still hs rfl rfl rfl (fun _ _ _ => Or.inl rfl) (Or.inr ⟨by simp [receiving, hcalls], ?_⟩)
    exact receiving_service (service_handlerCalls nprocs myproc) rfl
  | userSend id buf nbytes dest tag hcalls huser hbuf hdest hid =>
    have hnew := hcond.new id hid
    rw [create_eq hnew]
    refine hf.elsewhere hs 0 rfl rfl rfl (fun x => ?_) ⟨by simp [receiving, hcalls], ?_⟩
    · refine (eq_or_updated x).imp_right ?_
      rintro rfl
      exact Or.inr hnew
    · rw [receiving, start]
      dsimp only
      split_ifs <;> rfl
  | userRecv id buf nbytes src tag hcalls huser hbuf hsrc hid =>
    have hnew := hcond.new id hid
    rw [create_eq hnew]
    refine hf.elsewhere hs 0 rfl rfl rfl (fun x => ?_) ⟨by simp [receiving, hcalls], ?_⟩
    · refine (eq_or_updated x).imp_right ?_
      rintro rfl
      exact Or.inr hnew
    · rw [receiving, start]
      dsimp only
      split_ifs <;> rfl
  | wait id hcalls | waitNull id hcalls | waitDone id hcalls | waitPush id hcalls
  | waitBlock id hcalls | blockDone id hcalls =>
    exact hf.still hs rfl rfl rfl (fun _ _ _ => Or.inl rfl) (Or.inl rfl)
  | waitSelf id hcalls =>
    exact hf.still hs rfl rfl rfl (fun _ _ _ => Or.inl rfl) (Or.inr ⟨by simp [receiving, hcalls], rfl⟩)
  | push id a hcalls huser ha =>
    refine hf.still hs rfl rfl rfl (fun i x hx => Or.inl ?_) (Or.inl rfl)
    refine (eq_or_updated x).resolve_right ?_
    rintro rfl
    have hflag := hs.handles.pushing x huser
    rw [(hs.handles.recvs i x hx).1] at hflag
    cases hflag
  | leave id c hcalls huser =>
    rw [leaveWait]
    split_ifs
    · refine hf.still hs rfl rfl rfl (fun i x hx => ?_) (Or.inl rfl)
      refine (eq_or_updated x).imp_right ?_
      rintro rfl
      have hc := h.leaving x c huser i hx
      exact ⟨hc, by
        simp only [setEntry, Function.update_self]
        exact ⟨hc.nhdr, hc.phdr, hc.nbl, hc.nleft⟩⟩
    · exact hf.still hs rfl rfl rfl (fun _ _ _ => Or.inl rfl) (Or.inl rfl)
  | asend id cs hcalls =>
    refine hf.still hs rfl rfl rfl (fun _ _ _ => Or.inl rfl) (Or.inr ⟨by simp [receiving, hcalls], ?_⟩)
    rw [asend]
    split_ifs
    · exact receiving_service (hs.handles.head hcalls).2 rfl
    · rfl
  | sendToQ id a cs hcalls ha =>
    obtain ⟨-, hid, -⟩ := hs.call hcalls
    refine hf.elsewhere hs 0 rfl rfl rfl (fun x => ?_)
      ⟨by simp [receiving, hcalls], receiving_service (hs.handles.head hcalls).2 rfl⟩
    refine (eq_or_updated x).imp_right ?_
    rintro rfl
    exact Or.inr hid
  | arecvFound id cs t p stale hcalls hp =>
    obtain ⟨-, hid, -⟩ := hs.call hcalls
    exact hf.take hs (by simp [receiving, hcalls]) hid (findBuffered_spec hp).1
      (fun hleft => (hcond.unfinished t p ((found_arecv hcalls).trans hp) hleft).1) rfl rfl rfl rfl
      (receiving_service (hs.handles.head hcalls).2 rfl)
  | arecvPost id cs hcalls hp => exact framed_postRecv hf hs hcalls (h.arecv id cs hcalls)
  | selfFound id cs t p stale hcalls hp =>
    obtain ⟨-, hid, -⟩ := hs.call hcalls
    exact hf.take hs (by simp [receiving, hcalls]) hid (findBuffered_spec hp).1
      (fun hleft => (hcond.unfinished t p ((found_recvFromSelf hcalls).trans hp) hleft).1) rfl rfl rfl
      rfl (receiving_service (hs.handles.head hcalls).2 rfl)
  | selfEmpty id cs hcalls hsrc hp =>
    exact hf.still hs rfl rfl rfl (fun _ _ _ => Or.inl rfl)
      (Or.inr ⟨by simp [receiving, hcalls], receiving_service (hs.handles.head hcalls).2 rfl⟩)
  | serviceSend node cs hcalls | serviceRecv node cs hcalls =>
    refine hf.still hs rfl rfl rfl (fun _ _ _ => Or.inl rfl) (Or.inr ⟨by simp [receiving, hcalls], ?_⟩)
    split_ifs
    · rfl
    · exact receiving_service (hs.handles.head hcalls).2 rfl
  | peekNothing node cs hcalls hp =>
    exact hf.still hs rfl rfl rfl (fun _ _ _ => Or.inl rfl)
      (Or.inr ⟨by simp [receiving, hcalls], receiving_service (hs.handles.head hcalls).2 rfl⟩)
  | peekFound node p cs hcalls hactive hsock hp =>
    simp [hcond.known] at hp
  | peekBuffer node new a cs hcalls hrecv =>
    exact absurd hcond.known hrecv
  | doSend dest id cs hcalls hid =>
    exact hf.still hs rfl rfl rfl (fun _ _ _ => Or.inl rfl)
      (Or.inr ⟨by simp [receiving, hcalls], rfl⟩)
  | sendPass dest id m cat_nap k k' cs hcalls hgo =>
    have hid : (s.send_q dest).head? = some id := (hs.call hcalls).1
    refine hf.elsewhere hs dest rfl rfl rfl (fun x => ?_) ⟨by simp [receiving, hcalls], ?_⟩
    · refine (eq_or_updated x).imp_right ?_
      rintro rfl
      exact Or.inl (List.mem_of_head? hid)
    · rw [sendPass, receiving]
      dsimp only
      split_ifs <;> rfl
  | finishSend dest id m cat_nap cs hcalls hstop =>
    have hid : (s.send_q dest).head? = some id := (hs.call hcalls).1
    have hr : s.receiving = none := by simp [receiving, hcalls]
    have hserv := (hs.handles.head hcalls).2
    rw [finishSend]
    dsimp only
    split_ifs
    · exact hf.still hs rfl rfl rfl (fun _ _ _ => Or.inl rfl) (Or.inr ⟨hr, receiving_service hserv rfl⟩)
    all_goals
      refine hf.elsewhere hs dest rfl rfl rfl (fun x => ?_) ⟨hr, ?_⟩
    · refine (eq_or_updated x).imp_right ?_
      rintro rfl
      exact Or.inl (List.mem_of_head? hid)
    · exact receiving_service hserv rfl
    · refine (eq_or_updated x).imp_right ?_
      rintro rfl
      exact Or.inl (List.mem_of_head? hid)
    · rfl
  | doRecvFound src id cs t p stale hcalls hid hhdr hflag hp =>
    exact absurd hp (not_doRecvFound hs hm hcalls hid hhdr hflag)
  | doRecv src id cs hcalls hid hp =>
    intro i
    obtain ⟨rest, pr, hi⟩ := hf i
    rcases eq_or_ne i src with rfl | hne
    · exact ⟨rest, pr, framed_doRecv hi hcalls hid⟩
    · exact ⟨rest, pr, hi.still hs rfl rfl (l := []) (List.append_nil _).symm (by simp)
        (fun _ _ => Or.inl rfl)
        (Or.inr ⟨idle_of_none (by simp [receiving, hcalls]) i, .of_receiving rfl hne⟩)⟩
  | readHeader src id m cs hcalls hgo hhdr =>
    have hr : s.receiving = some (src, id) := by simp [receiving, hcalls]
    obtain ⟨rest, pr, hi⟩ := hf src
    obtain ⟨pr', hown⟩ := framed_readHeader hi hs hcalls hhdr (hi.next_bytes h.once (harrived src))
      (hcond.inTurn src id m cs hcalls hgo hhdr)
    refine hf.loop hs hr (fun i x hx => ?_) (fun i hne => Function.update_of_ne hne ..)
      (fun i hne => Function.update_of_ne hne ..) (fun _ _ => rfl) (fun x => ?_) ⟨rest, pr', hown⟩
    · rw [Engine.readHeader, receiving] at hx
      dsimp only at hx
      split_ifs at hx <;> cases hx <;> rfl
    · refine (eq_or_updated x).imp_right ?_
      rintro rfl
      exact Or.inl (hs.call hcalls).1
  | gotHeader src id m cs hcalls hgo hhdr =>
    obtain ⟨rest, pr, hi⟩ := hf src
    exact hf.loop hs (by simp [receiving, hcalls]; rfl) (fun i x hx => by cases hx; rfl) (fun _ _ => rfl)
      (fun _ _ => rfl) (fun _ _ => rfl) (fun _ => Or.inl rfl)
      ⟨rest, pr, framed_gotHeader hi hs hcalls hgo hhdr⟩
  | matchHeader src id n cs hcalls hfits =>
    have hid : id ∈ s.recv_q src := (hs.call hcalls).1
    obtain ⟨msg, tl, hc⟩ := h.checking hwell hcalls
    refine hf.loop hs (by simp [receiving, hcalls]; rfl) (fun i x hx => by cases hx; rfl)
      (fun _ _ => rfl) (fun _ _ => rfl) (fun _ _ => rfl) (fun x => ?_) (framed_matchHeader hc hid)
    refine (eq_or_updated x).imp_right ?_
    rintro rfl
    exact Or.inl hid
  | redirect src id p n cs hcalls hfits hp =>
    have hid : id ∈ s.recv_q src := (hs.call hcalls).1
    have hmem := List.mem_of_find?_eq_some hp
    have hne : p ≠ id := by
      rintro rfl
      exact hfits (by simpa using List.find?_some hp)
    obtain ⟨msg, tl, hc⟩ := h.checking hwell hcalls
    obtain ⟨hunread, hsize⟩ := hcond.moved src id n cs p hcalls hfits hp
    rw [hc.header] at hsize
    refine hf.loop hs (by simp [receiving, hcalls]; rfl) (fun i x hx => by cases hx; rfl)
      (fun _ _ => rfl) (fun _ _ => rfl) (fun i hne => Function.update_of_ne hne ..) (fun x => ?_)
      (framed_redirect hc hid hmem hne hunread hsize)
    rcases eq_or_ne x p with rfl | hxp
    · exact Or.inr (Or.inl hmem)
    rcases eq_or_ne x id with rfl | hxid
    · exact Or.inr (Or.inl hid)
    · exact Or.inl ((Function.update_of_ne hxp ..).trans (Function.update_of_ne hxid ..))
  | pushUnexpected src id new a n cs hcalls hfits hp hnbytes ha hnew =>
    have hid : id ∈ s.recv_q src := (hs.call hcalls).1
    have hlinked := hcond.new new hnew
    obtain ⟨msg, tl, hc⟩ := h.checking hwell hcalls
    have hown : ∃ rest pr, (s.pushUnexpected myproc src id new a n cs).Framed (frames src) src rest pr :=
      framed_pushUnexpected hc hid hlinked
    rw [pushUnexpected_eq hlinked] at hown ⊢
    refine hf.loop hs (by simp [receiving, hcalls]; rfl) (fun i x hx => by cases hx; rfl)
      (fun _ _ => rfl) (fun _ _ => rfl) (fun i hne => Function.update_of_ne hne ..) (fun x => ?_) hown
    rcases eq_or_ne x new with rfl | hxnew
    · exact Or.inr (Or.inr hlinked)
    rcases eq_or_ne x id with rfl | hxid
    · exact Or.inr (Or.inl hid)
    · exact Or.inl ((Function.update_of_ne hxnew ..).trans (Function.update_of_ne hxid ..))
  | readBody src id cur n cs hcalls =>
    obtain ⟨-, hcur⟩ := (hs.call hcalls).1
    obtain ⟨rest, pr, hi⟩ := hf src
    have hown := framed_readBody hi hs hcalls (hi.next_bytes h.once (harrived src))
    rw [readBody] at hown ⊢
    dsimp only at hown ⊢
    split_ifs at hown ⊢
    · refine hf.loop hs (by simp [receiving, hcalls]; rfl) (fun i x hx => by cases hx; rfl)
        (fun i hne => Function.update_of_ne hne ..) (fun _ _ => rfl) (fun _ _ => rfl) (fun x => ?_) hown
      refine (eq_or_updated x).imp_right ?_
      rintro rfl
      exact Or.inl hcur
    · exact hf.loop hs (by simp [receiving, hcalls]; rfl) (fun i x hx => by cases hx; rfl)
        (fun _ _ => rfl) (fun _ _ => rfl) (fun _ _ => rfl) (fun _ => Or.inl rfl) hown
  | finishRecv src id m stale cs hcalls hstop =>
    obtain ⟨rest, pr, hi⟩ := hf src
    have hr' : (s.finishRecv src id stale cs).receiving = none := by
      rcases calls_finishRecv s src id stale cs with hc | hc
      · exact receiving_service (hs.handles.head hcalls).2 hc
      · simp [receiving, hc]
    have hown := framed_finishRecv hi hs hcalls (idle_of_none hr' src)
    refine hf.loop hs (by simp [receiving, hcalls]; rfl) (fun i x hx => by simp [hr'] at hx)
      (fun i _ => ?_) (fun i _ => ?_) (fun i hne => ?_) (fun x => Or.inl ?_) ⟨rest, pr, hown⟩
    all_goals
      rw [Engine.finishRecv]
      split_ifs <;> first | rfl | exact Function.update_of_ne hne ..

/-- A new receive is as `create_msg_entry` has set it up. -/
lemma Framing.arecv_step (h : s.Framing frames) (hs : s.Sound myproc)
    (hcond : s.FramingKept nprocs maxMsgs) (hstep : Step nprocs maxMsgs myproc s s') :
    ∀ id cs, s'.calls = .arecv id :: cs → (s'.msg_list id).InHeader 0 := by
  have hserv : ∀ {cs cs' : List Call} {x : ℕ}, (∀ c ∈ cs, c.IsService) → cs ≠ .arecv x :: cs' := by
    rintro - cs' x hserv rfl
    exact hserv _ List.mem_cons_self
  have htail : ∀ {c : Call} {cs cs' : List Call} {x : ℕ}, s.calls = c :: cs → cs ≠ .arecv x :: cs' :=
    fun hcalls => hserv (hs.handles.head hcalls).2
  intro id cs hc
  cases hstep with
  | arrive => exact h.arecv id cs hc
  | signal => exact absurd hc (hserv (service_handlerCalls nprocs myproc))
  | userSend id' buf nbytes dest tag hcalls huser hbuf hdest hid =>
    simp only [start] at hc
    split_ifs at hc <;> cases hc
  | userRecv id' buf nbytes src tag hcalls huser hbuf hsrc hid =>
    rw [create_eq (hcond.new id' hid)] at hc ⊢
    simp only [start] at hc
    split_ifs at hc
    cases hc
    simp only [start, Function.update_self]
    exact .create (Int.natCast_nonneg _) ..
  | wait id' hcalls | waitNull id' hcalls | waitDone id' hcalls | waitPush id' hcalls
  | waitBlock id' hcalls | blockDone id' hcalls | push id' a hcalls =>
    cases hcalls.symm.trans hc
  | leave id' c hcalls =>
    rw [leaveWait] at hc
    split_ifs at hc <;> cases hcalls.symm.trans hc
  | waitSelf id' hcalls | doSend dest id' cs' hcalls | doRecvFound src id' cs' t p stale hcalls
  | doRecv src id' cs' hcalls | gotHeader src id' m cs' hcalls | matchHeader src id' n cs' hcalls
  | redirect src id' p n cs' hcalls | pushUnexpected src id' new a n cs' hcalls
  | peekFound node p cs' hcalls | peekBuffer node new a cs' hcalls => cases hc
  | sendToQ id' a cs' hcalls | arecvFound id' cs' t p stale hcalls | selfFound id' cs' t p stale hcalls
  | selfEmpty id' cs' hcalls | peekNothing node cs' hcalls => exact absurd hc (htail hcalls)
  | asend id' cs' hcalls | serviceSend node cs' hcalls | serviceRecv node cs' hcalls =>
    simp only [asend] at hc
    split_ifs at hc <;> first | exact absurd hc (htail hcalls) | cases hc
  | arecvPost id' cs' hcalls =>
    simp only [postRecv] at hc
    split_ifs at hc
    · refine absurd hc (hserv fun c hmem => ?_)
      rcases List.mem_append.mp hmem with hmem | hmem
      · exact service_handlerCalls nprocs myproc c hmem
      · exact (hs.handles.head hcalls).2 c hmem
    · exact absurd hc (htail hcalls)
    · cases hc
  | sendPass dest id' m cat_nap k k' cs' hcalls =>
    simp only [sendPass] at hc
    split_ifs at hc <;> cases hc
  | finishSend dest id' m cat_nap cs' hcalls =>
    rcases calls_finishSend s dest id' cs' with hc' | hc'
    · exact absurd (hc'.symm.trans hc) (htail hcalls)
    · cases hc'.symm.trans hc
  | readHeader src id' m cs' hcalls =>
    simp only [readHeader] at hc
    split_ifs at hc <;> cases hc
  | readBody src id' cur n cs' hcalls =>
    rw [readBody] at hc
    split_ifs at hc <;> cases hc
  | finishRecv src id' m stale cs' hcalls =>
    rcases calls_finishRecv s src id' stale cs' with hc' | hc'
    · exact absurd (hc'.symm.trans hc) (htail hcalls)
    · cases hc'.symm.trans hc

/-- An entry of a queue that has no bytes left is complete, while no header is checked. -/
lemma Framing.complete (h : s.Framing frames) (hcalls : s.calls = []) {i : ℤ}
    (hid : id ∈ s.recv_q i) (hdone : (s.msg_list id).nleft = 0) : (s.msg_list id).Complete := by
  obtain ⟨rest, pr, hi⟩ := h.framed i
  exact (hi.nleft (hi.not_checked (by simp [hcalls])) hid).resolve_left (by omega)

/-- A step that the user's program does not take, and that changes no entry which is complete. -/
lemma Framing.leaving_kept (h : s.Framing frames) (huser : s'.user = s.user)
    (hrecv : ∀ i x, x ∈ s'.recv_q i → (∃ j, x ∈ s.recv_q j) ∨ ∀ c, s.user ≠ .leaving x c)
    (hentries : ∀ j x, x ∈ s.recv_q j → s'.msg_list x = s.msg_list x ∨ ¬ (s.msg_list x).Complete) :
    ∀ id c, s'.user = .leaving id c → ∀ i, id ∈ s'.recv_q i → (s'.msg_list id).Complete := by
  intro id c hc i hid
  rw [huser] at hc
  rcases hrecv i id hid with ⟨j, hj⟩ | hne
  · have hcomplete := h.leaving id c hc j hj
    rw [(hentries j id hj).resolve_right fun hcon => hcon hcomplete]
    exact hcomplete
  · exact absurd hc (hne c)

/-- An entry that the user leaves, and that is still in a queue, stays complete. -/
lemma leaving_step (h : s.Framing frames) (hs : s.Sound myproc) (hm : s.Matching nprocs myproc)
    (hcond : s.FramingKept nprocs maxMsgs) (hwell : ∀ i, ∀ m ∈ frames i, m.WellFormed i)
    (hstep : Step nprocs maxMsgs myproc s s') :
    ∀ id c, s'.user = .leaving id c → ∀ i, id ∈ s'.recv_q i → (s'.msg_list id).Complete := by
  cases hstep with
  | arrive | signal | asend | serviceSend | serviceRecv | peekNothing | doSend | doRecv | gotHeader =>
    exact h.leaving
  | userSend id buf nbytes dest tag hcalls huser hbuf hdest hid
  | userRecv id buf nbytes src tag hcalls huser hbuf hsrc hid =>
    intro x c hc
    cases huser.symm.trans hc
  | wait | waitNull | waitPush | waitBlock | waitSelf =>
    intro x c hc
    cases hc
  | waitDone id hcalls huser hdone | blockDone id hcalls huser hdone =>
    rintro x c ⟨⟩ i hx
    exact h.complete hcalls hx hdone
  | push id a hcalls huser ha =>
    rintro x c ⟨⟩ i hx
    have hflag := hs.handles.pushing id huser
    rw [(hs.handles.recvs i id hx).1] at hflag
    cases hflag
  | leave id c hcalls huser =>
    rw [leaveWait]
    split_ifs <;>
    · intro x c hc
      cases hc
  | sendToQ id a cs hcalls ha =>
    obtain ⟨-, hid, -⟩ := hs.call hcalls
    refine h.leaving_kept rfl (fun i x hx => Or.inl ⟨i, hx⟩) fun j x hx =>
      (eq_or_updated x).imp_right ?_
    rintro rfl
    exact absurd (.of_recv hx) hid
  | arecvFound id cs t p stale hcalls hp | arecvPost id cs hcalls hp =>
    intro x c hc
    cases (hs.call hcalls).2.2.2.2.2.symm.trans hc
  | selfFound id cs t p stale hcalls hp =>
    have hdone := hcond.complete ((found_recvFromSelf hcalls).trans hp) (by simp [hcalls])
    rintro x c ⟨⟩ i hx
    replace hx : id ∈ (s.takeBuffered id t p stale).recv_q i := hx
    rw [show (s.takeBuffered id t p stale).recv_q = s.recv_q from if_pos hdone] at hx
    exact absurd (.of_recv hx) (hs.call hcalls).2.1
  | selfEmpty id cs hcalls hsrc hp =>
    rintro x c ⟨⟩ i hx
    exact absurd (.of_recv hx) (hs.call hcalls).2.1
  | peekFound node p cs hcalls hactive hsock hp => simp [hcond.known] at hp
  | peekBuffer node new a cs hcalls hrecv => exact absurd hcond.known hrecv
  | sendPass dest id m cat_nap k k' cs hcalls hgo =>
    have hid : (s.send_q dest).head? = some id := (hs.call hcalls).1
    refine h.leaving_kept rfl (fun i x hx => Or.inl ⟨i, hx⟩) fun j x hx =>
      (eq_or_updated x).imp_right ?_
    rintro rfl
    exact absurd rfl (hs.ne_send (List.mem_of_head? hid) (Or.inl hx))
  | finishSend dest id m cat_nap cs hcalls hstop =>
    have hid : (s.send_q dest).head? = some id := (hs.call hcalls).1
    rw [finishSend]
    split_ifs
    · exact h.leaving
    all_goals
      refine h.leaving_kept rfl (fun i x hx => Or.inl ⟨i, hx⟩) fun j x hx =>
        (eq_or_updated x).imp_right ?_
      rintro rfl
      exact absurd rfl (hs.ne_send (List.mem_of_head? hid) (Or.inl hx))
  | doRecvFound src id cs t p stale hcalls hid hhdr hflag hp =>
    exact absurd hp (not_doRecvFound hs hm hcalls hid hhdr hflag)
  | readHeader src id m cs hcalls hgo hhdr =>
    refine h.leaving_kept rfl (fun i x hx => Or.inl ⟨i, hx⟩) fun j x hx =>
      (eq_or_updated x).imp_right ?_
    rintro rfl
    exact fun hc => hhdr hc.nhdr
  | matchHeader src id n cs hcalls hfits =>
    obtain ⟨msg, tl, hchecking⟩ := h.checking hwell hcalls
    refine h.leaving_kept rfl (fun i x hx => Or.inl ⟨i, hx⟩) fun j x hx =>
      (eq_or_updated x).imp_right ?_
    rintro rfl
    exact hchecking.entry.not_complete
  | redirect src id p n cs hcalls hfits hp =>
    have hmem := List.mem_of_find?_eq_some hp
    obtain ⟨msg, tl, hchecking⟩ := h.checking hwell hcalls
    have hunread := (hcond.moved src id n cs p hcalls hfits hp).1
    refine h.leaving_kept rfl (fun i x hx => Or.inl ?_) fun j x hx => ?_
    · rcases mem_update hx with ⟨-, hx⟩ | ⟨-, hx⟩
      · exact ⟨src, ((List.mem_cons.mp hx).elim (· ▸ hmem) List.mem_of_mem_erase)⟩
      · exact ⟨i, hx⟩
    · rcases eq_or_ne x p with rfl | hxp
      · exact Or.inr fun hc => hunread hc.nhdr
      rcases eq_or_ne x id with rfl | hxid
      · exact Or.inr hchecking.entry.not_complete
      · exact Or.inl ((Function.update_of_ne hxp ..).trans (Function.update_of_ne hxid ..))
  | pushUnexpected src id new a n cs hcalls hfits hp hnbytes ha hnew =>
    have hlinked := hcond.new new hnew
    obtain ⟨msg, tl, hchecking⟩ := h.checking hwell hcalls
    rw [pushUnexpected_eq hlinked]
    refine h.leaving_kept rfl (fun i x hx => ?_) fun j x hx => ?_
    · rcases mem_update hx with ⟨-, hx⟩ | ⟨-, hx⟩
      · rcases List.mem_cons.mp hx with rfl | hx
        · refine Or.inr fun c hc => not_handle hs.handles (findEntry_free hnew) ?_
          exact hs.handles.user x (congrArg WaitPoint.entry hc)
        · exact Or.inl ⟨src, hx⟩
      · exact Or.inl ⟨i, hx⟩
    · have hxnew : x ≠ new := by
        rintro rfl
        exact hlinked (.of_recv hx)
      rcases eq_or_ne x id with rfl | hxid
      · exact Or.inr hchecking.entry.not_complete
      · exact Or.inl ((Function.update_of_ne hxnew ..).trans (Function.update_of_ne hxid ..))
  | readBody src id cur n cs hcalls =>
    rw [readBody]
    dsimp only
    split_ifs with hgo
    · refine h.leaving_kept rfl (fun i x hx => Or.inl ⟨i, hx⟩) fun j x hx =>
        (eq_or_updated x).imp_right ?_
      rintro rfl hc
      exact hgo.2.ne' hc.nbl
    · exact h.leaving
  | finishRecv src id m stale cs hcalls hstop =>
    have hid : id ∈ s.recv_q src := (hs.call hcalls).1
    rw [Engine.finishRecv]
    split_ifs
    · exact h.leaving
    · refine h.leaving_kept rfl (fun i x hx => Or.inl ?_) fun _ _ _ => Or.inl rfl
      exact ⟨i, (Queues.sublist_update (next_sublist hid) i).subset hx⟩
    · refine h.leaving_kept rfl (fun i x hx => Or.inl ?_) fun _ _ _ => Or.inl rfl
      exact ⟨i, (Queues.sublist_update (.refl _) i).subset hx⟩

lemma Framing.step (h : s.Framing frames) (hs : s.Sound myproc) (hm : s.Matching nprocs myproc)
    (hcond : s.FramingKept nprocs maxMsgs) (hwell : ∀ i, ∀ m ∈ frames i, m.WellFormed i)
    (harrived : ∀ i, s.arrived i <+: (frames i).flatMap (SentMessage.bytes i))
    (hstep : Step nprocs maxMsgs myproc s s') : s'.Framing frames :=
  ⟨h.once.step hstep, .step h hs hm hcond hwell harrived hstep, h.arecv_step hs hcond hstep,
    leaving_step h hs hm hcond hwell hstep⟩

lemma Framing.init (frames : ℤ → List SentMessage) (mem : ℕ → UInt8) :
    (Engine.init mem).Framing frames := by
  refine ⟨fun i => rfl, fun i => ⟨frames i, .between, .nil _ _, trivial, nofun, nofun, trivial⟩,
    nofun, nofun⟩

lemma Framing.of_run {mem : ℕ → UInt8} (hmy : 0 ≤ myproc)
    (hwell : ∀ i, ∀ m ∈ frames i, m.WellFormed i)
    (h : Run nprocs maxMsgs myproc (FramingKept nprocs maxMsgs) (Engine.init mem) s)
    (harrived : ∀ i, s.arrived i <+: (frames i).flatMap (SentMessage.bytes i)) :
    s.Sound myproc ∧ s.Matching nprocs myproc ∧ s.Framing frames := by
  induction h with
  | refl => exact ⟨.init mem, .init mem, .init frames mem⟩
  | tail _ hs ih =>
    have harrived' := fun i => (arrived_step hs.1 i).trans (harrived i)
    obtain ⟨hsound, hm, hf⟩ := ih harrived'
    have hkept := hs.2.matchingKept (hf.headers hwell)
    exact ⟨hsound.step hkept.toQueuesFresh hmy hs.1, hm.step hsound hmy hkept hs.1,
      hf.step hsound hm hs.2 hwell harrived' hs.1⟩

/-- Let the processes send messages, and no receive from any source be posted. Let `do_recv` begin
with the next header only when the last message is complete, and `check_header` move on only to a
receive of the right size that has no message yet. Then every byte is read once and as what it was
sent as, a byte of a body with its offset. -/
theorem framed_as_sent {myproc : ℕ} {mem : ℕ → UInt8}
    (hwell : ∀ i, ∀ m ∈ frames i, m.WellFormed i)
    (h : Run nprocs maxMsgs myproc (FramingKept nprocs maxMsgs) (Engine.init mem) s)
    (harrived : ∀ i, s.arrived i <+: (frames i).flatMap (SentMessage.bytes i)) (src : ℤ) :
    s.log src <+: (frames src).flatMap (SentMessage.roles src) ∧
      (s.log src).map Role.byte ++ s.sock src = s.arrived src := by
  obtain ⟨-, -, hf⟩ := Framing.of_run (Int.natCast_nonneg myproc) hwell h harrived
  obtain ⟨rest, pr, hi⟩ := hf.framed src
  exact ⟨hi.readTo.isPrefix, hf.once src⟩

end

/-! ### Two runs -/

/-- What process 1 sends: one message. -/
def oneMessage (m : SentMessage) (i : ℤ) : List SentMessage := if i = 1 then [m] else []

lemma oneMessage_arrived {m : SentMessage} {l : List UInt8}
    (hother : ∀ i, i ≠ 1 → s.arrived i = []) (hl : s.arrived 1 = l) (hm : l <+: m.bytes 1) (i : ℤ) :
    s.arrived i <+: (oneMessage m i).flatMap (SentMessage.bytes i) := by
  rcases eq_or_ne i 1 with rfl | hne
  · rw [hl]
    simpa [oneMessage] using hm
  · rw [hother i hne]
    exact List.nil_prefix

/-- A receive with tag 1 is posted and a message with tag 2 comes. Its second byte arrives between
two calls of `read` of one loop of `do_recv`, which goes on with the header for the receive that was
posted. -/
theorem framed_as_sent_fails : ∃ s : Engine,
    Run 2 10 (0 : ℕ) (fun s => s.recv_q (-1) = []) (Engine.init fun _ => 0) s ∧
      (∀ i, s.arrived i <+: (oneMessage ⟨2, [7, 8]⟩ i).flatMap (SentMessage.bytes i)) ∧
      ¬ s.log 1 <+: (oneMessage ⟨2, [7, 8]⟩ 1).flatMap (SentMessage.roles 1) := by
  let s₀ : Engine := Engine.init fun _ => 0
  let s₁ : Engine := { s₀ with
    sock := Function.update s₀.sock 1 (s₀.sock 1 ++ (headerBytes 2 1 2 ++ [7]))
    arrived := Function.update s₀.arrived 1 (s₀.arrived 1 ++ (headerBytes 2 1 2 ++ [7])) }
  let s₂ := (s₁.create 0 1 100 1 1 (-1) 1).start 1 [.arecv 1]
  let s₃ := s₂.postRecv 2 0 1 []
  let s₄ : Engine := { s₃ with calls := [.recvLoop 1 1 1] }
  let s₅ := s₄.readHeader 1 1 []
  let s₆ := s₅.pushUnexpected 0 1 1 2 200 24 []
  let s₇ := s₆.readBody 1 1 2 24 []
  let s₈ : Engine := { s₇ with
    sock := Function.update s₇.sock 1 (s₇.sock 1 ++ [8])
    arrived := Function.update s₇.arrived 1 (s₇.arrived 1 ++ [8]) }
  let s₉ := s₈.readHeader 1 1 []
  have h₁ : Step 2 10 0 s₀ s₁ := .arrive s₀ 1 (headerBytes 2 1 2 ++ [7])
  have h₂ : Step 2 10 0 s₁ s₂ :=
    .userRecv s₁ 1 100 1 1 1 rfl rfl (by simp) ⟨by simp, by simp⟩ (by decide)
  have h₃ : Step 2 10 0 s₂ s₃ := .arecvPost s₂ 1 [] rfl (by decide)
  have h₄ : Step 2 10 0 s₃ s₄ := .doRecv s₃ 1 1 [] rfl (by decide) fun _ _ => by decide
  have h₅ : Step 2 10 0 s₄ s₅ := .readHeader s₄ 1 1 1 [] rfl (by decide) (by decide)
  have h₆ : Step 2 10 0 s₅ s₆ := .pushUnexpected s₅ 1 1 2 200 24 [] (by decide) (by decide)
    (by decide) (by decide) (by simp) (by decide)
  have h₇ : Step 2 10 0 s₆ s₇ := .readBody s₆ 1 1 2 24 [] rfl
  have h₈ : Step 2 10 0 s₇ s₈ := .arrive s₇ 1 [8]
  have h₉ : Step 2 10 0 s₈ s₉ := .readHeader s₈ 1 1 1 [] (by decide) (by decide) (by decide)
  have hrun : Run 2 10 (0 : ℕ) (fun s => s.recv_q (-1) = []) s₀ s₉ :=
    ((((((((Relation.ReflTransGen.single ⟨h₁, rfl⟩).tail ⟨h₂, rfl⟩).tail ⟨h₃, rfl⟩).tail
      ⟨h₄, rfl⟩).tail ⟨h₅, rfl⟩).tail ⟨h₆, rfl⟩).tail ⟨h₇, rfl⟩).tail ⟨h₈, rfl⟩).tail ⟨h₉, rfl⟩
  refine ⟨s₉, hrun, oneMessage_arrived (fun i hi => ?_) rfl (by decide), by decide +kernel⟩
  exact (Function.update_of_ne hi ..).trans (Function.update_of_ne hi ..)

/-- Nothing is found or sent. -/
lemma FramingKept.of_found (hnew : s.NewUnlinked maxMsgs) (hfound : s.found nprocs = none)
    (hsend : ∀ dest id m c cs, s.calls ≠ .sendLoop dest id m c :: cs) (hany : s.recv_q (-1) = [])
    (hturn : s.HeaderInTurn) (hmoved : s.MovedFits) : s.FramingKept nprocs maxMsgs := by
  refine ⟨⟨hnew, fun t p hp => ?_, fun dest id m c cs hc => ?_, fun t p hp => ?_⟩, hany, hturn, hmoved⟩
  · simp [hfound] at hp
  · exact absurd hc (hsend _ _ _ _ _)
  · simp [hfound] at hp

/-- A receive is posted, and its message has arrived already. -/
theorem framed_as_sent_posted : ∃ s : Engine,
    Run 2 10 (0 : ℕ) (FramingKept 2 10) (Engine.init fun _ => 0) s ∧ (s.log 1).length = 25 ∧
      s.log 1 <+: (oneMessage ⟨2, [7]⟩ 1).flatMap (SentMessage.roles 1) ∧
      (s.log 1).map Role.byte ++ s.sock 1 = s.arrived 1 := by
  let s₀ : Engine := Engine.init fun _ => 0
  let s₁ : Engine := { s₀ with
    sock := Function.update s₀.sock 1 (s₀.sock 1 ++ (headerBytes 1 1 2 ++ [7]))
    arrived := Function.update s₀.arrived 1 (s₀.arrived 1 ++ (headerBytes 1 1 2 ++ [7])) }
  let s₂ := (s₁.create 0 1 100 1 1 (-1) 2).start 1 [.arecv 1]
  let s₃ := s₂.postRecv 2 0 1 []
  let s₄ : Engine := { s₃ with calls := [.recvLoop 1 1 1] }
  let s₅ := s₄.readHeader 1 1 []
  let s₆ := s₅.matchHeader 1 1 24 []
  let s₇ := s₆.readBody 1 1 1 24 []
  have h₁ : Step 2 10 0 s₀ s₁ := .arrive s₀ 1 (headerBytes 1 1 2 ++ [7])
  have h₂ : Step 2 10 0 s₁ s₂ :=
    .userRecv s₁ 1 100 1 1 2 rfl rfl (by simp) ⟨by simp, by simp⟩ (by decide)
  have h₃ : Step 2 10 0 s₂ s₃ := .arecvPost s₂ 1 [] rfl (by decide)
  have h₄ : Step 2 10 0 s₃ s₄ := .doRecv s₃ 1 1 [] rfl (by decide) fun _ _ => by decide
  have h₅ : Step 2 10 0 s₄ s₅ := .readHeader s₄ 1 1 1 [] rfl (by decide) (by decide)
  have h₆ : Step 2 10 0 s₅ s₆ := .matchHeader s₅ 1 1 24 [] (by decide) (by decide)
  have h₇ : Step 2 10 0 s₆ s₇ := .readBody s₆ 1 1 1 24 [] rfl
  have hempty : ∀ {s : Engine}, s.send_q = s₀.send_q → s.recv_q = s₀.recv_q → s.msg_q = s₀.msg_q →
      ∀ x, s.Linked x → x ≤ s.mid := by
    rintro s hsend hrecv hmsg x ⟨i, hx | hx | hx⟩
    · simp [hsend, s₀, Engine.init] at hx
    · simp [hrecv, s₀, Engine.init] at hx
    · simp [hmsg, s₀, Engine.init] at hx
  have hone : ∀ x, s₃.Linked x → x ≤ 1 := by
    rintro x ⟨i, hx | hx | hx⟩
    · cases hx
    · rcases mem_update hx with ⟨-, hx'⟩ | ⟨-, hx'⟩
      · exact (List.mem_singleton.mp hx').le
      · cases hx'
    · cases hx
  have hcond₀ : s₀.FramingKept 2 10 := .of_found (.of_mid (hempty rfl rfl rfl) (by decide))
    (by decide) (fun _ _ _ _ _ h => by cases h) rfl (fun _ _ _ _ h => by cases h)
    (fun _ _ _ _ _ h _ => by cases h)
  have hcond₁ : s₁.FramingKept 2 10 := .of_found (.of_mid (hempty rfl rfl rfl) (by decide))
    (by decide) (fun _ _ _ _ _ h => by cases h) rfl (fun _ _ _ _ h => by cases h)
    (fun _ _ _ _ _ h _ => by cases h)
  have hcond₂ : s₂.FramingKept 2 10 := .of_found (.of_mid (hempty rfl rfl rfl) (by decide))
    (by decide) (fun _ _ _ _ _ h => by cases h) rfl (fun _ _ _ _ h => by cases h)
    (fun _ _ _ _ _ h _ => by cases h)
  have hcond₃ : s₃.FramingKept 2 10 := .of_found (.of_mid hone (by decide)) (by decide)
    (fun _ _ _ _ _ h => by cases h) (by decide) (fun _ _ _ _ h => by cases h)
    (fun _ _ _ _ _ h _ => by cases h)
  have hcond₄ : s₄.FramingKept 2 10 := .of_found (.of_mid hone (by decide)) (by decide)
    (fun _ _ _ _ _ h => by cases h) (by decide)
    (fun src id m cs hc _ _ _ => by cases hc; decide) (fun _ _ _ _ _ h _ => by cases h)
  have hcond₅ : s₅.FramingKept 2 10 := .of_found (.of_mid hone (by decide)) (by decide)
    (fun _ _ _ _ _ h => by cases h) (by decide) (fun _ _ _ _ h => by cases h)
    (fun _ _ _ _ _ hc hfits => by cases hc; exact absurd (by decide) hfits)
  have hcond₆ : s₆.FramingKept 2 10 := .of_found (.of_mid hone (by decide)) (by decide)
    (fun _ _ _ _ _ h => by cases h) (by decide) (fun _ _ _ _ h => by cases h)
    (fun _ _ _ _ _ h _ => by cases h)
  have hrun : Run 2 10 (0 : ℕ) (FramingKept 2 10) s₀ s₇ :=
    ((((((Relation.ReflTransGen.single ⟨h₁, hcond₀⟩).tail ⟨h₂, hcond₁⟩).tail ⟨h₃, hcond₂⟩).tail
      ⟨h₄, hcond₃⟩).tail ⟨h₅, hcond₄⟩).tail ⟨h₆, hcond₅⟩).tail ⟨h₇, hcond₆⟩
  have hwell : ∀ i, ∀ m ∈ oneMessage ⟨2, [7]⟩ i, m.WellFormed i := by
    intro i m hm
    rw [oneMessage] at hm
    split_ifs at hm with hi
    · obtain rfl := List.mem_singleton.mp hm
      subst hi
      exact ⟨by decide, by decide, by decide⟩
    · cases hm
  exact ⟨s₇, hrun, by decide, framed_as_sent hwell hrun
    (oneMessage_arrived (fun i hi => Function.update_of_ne hi ..) rfl (by decide)) 1⟩

end Engine

end NetPipe.MpLite
