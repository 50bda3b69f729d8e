import NetPipe.MpLite.Queues

/-!
# Entries in the queues are in use

The entries of the queues are in use, so that `create_msg_entry` never takes one of them: unless
`do_recv` leaves a complete message in its queue when it stops, or a header does not name the process
it comes from, or an entry is given back as in `Handles`.
-/

namespace NetPipe.MpLite

namespace Engine

variable {nprocs maxMsgs : ℕ} {myproc : ℤ} {s s' : Engine} {id : ℕ} {cs : List Call}

/-! ### Messages in progress -/

/-- The loop of `do_send` that runs, with its message. -/
def sending (s : Engine) : Option (ℤ × ℕ) :=
  match s.calls with
  | .sendLoop dest id _ _ :: _ => some (dest, id)
  | _ => none

/-- The receives of a queue that the loop which runs has not come to. -/
def waiting (s : Engine) (i : ℤ) : List ℕ :=
  match s.receiving with
  | some (src, id) => if src = i then next id (s.recv_q i) [] else s.recv_q i
  | none => s.recv_q i

/-- The invariant of messages that are sent and received. -/
structure Progress (s : Engine) : Prop where
  sendLeft : ∀ i, ∀ id ∈ s.send_q i, s.sending = some (i, id) ∨ 0 < (s.msg_list id).nleft
  recvLeft : ∀ i, ∀ id ∈ s.waiting i, (s.msg_list id).nleft ≠ 0
  /-- `MP_Wait` gives back an entry that is in no queue -/
  leaving : ∀ id c, s.user = .leaving id c → (s.msg_list id).send_flag = 3 ∨ ¬ s.Linked id

/-- When `do_recv` stops before its message is complete, it leaves no complete message in the
queue. -/
def StopsClean (s : Engine) : Prop :=
  ∀ src id m cs, s.calls = .recvLoop src id m :: cs → ¬ s.Continues id m →
    (s.msg_list id).nleft ≠ 0 → ∀ x ∈ s.recv_q src, (s.msg_list x).nleft ≠ 0

/-- The states from which a step keeps the entries in the queues. -/
structure QueuesKept (nprocs : ℕ) (s : Engine) : Prop where
  selfSends : s.SelfSendsAwaited nprocs
  buffered : s.BufferedLeft
  unfinished : s.UnfinishedFirst nprocs
  stops : s.StopsClean
  headers : s.HeaderNamesSource

/-- All invariants of the entries and queues. -/
structure InUse (myproc : ℤ) (s : Engine) : Prop extends Sound myproc s where
  linked : s.LinkedInUse
  progress : s.Progress

lemma waiting_subset {i : ℤ} {x : ℕ} (h : x ∈ s.waiting i) : x ∈ s.recv_q i := by
  rw [waiting] at h
  split at h
  · split_ifs at h
    · exact next_subset _ _ h
    · exact h
  · exact h

lemma Progress.recvLeft_of_none (h : s.Progress) (hr : s.receiving = none) {i : ℤ} {x : ℕ}
    (hx : x ∈ s.recv_q i) : (s.msg_list x).nleft ≠ 0 := by
  refine h.recvLeft i x ?_
  rwa [waiting, hr]

/-! ### What a step does to the entries in the queues -/

section

variable {src node dest t : ℤ} {p n m a new cur : ℕ} {stale : List ℕ} {hd : Header}

/-- No entry comes into a queue, and those in the queues stay in use. -/
lemma LinkedInUse.frame (h : s.LinkedInUse) (hlinked : ∀ x, s'.Linked x → s.Linked x)
    (hbuf : ∀ x, s'.Linked x → (s'.msg_list x).buf = (s.msg_list x).buf) : s'.LinkedInUse := by
  intro x hx
  rw [hbuf x hx]
  exact h x (hlinked x hx)

/-- An entry changes that is in use afterwards. -/
lemma LinkedInUse.update (h : s.LinkedInUse) {msg : MsgEntry}
    (hlist : s'.msg_list = Function.update s.msg_list id msg) (hmsg : msg.buf ≠ 0)
    (hlinked : ∀ x, x ≠ id → s'.Linked x → s.Linked x) : s'.LinkedInUse := by
  intro x hx
  rw [hlist]
  rcases eq_or_ne x id with rfl | hne
  · rwa [Function.update_self]
  · rw [Function.update_of_ne hne]
    exact h x (hlinked x hne hx)

/-- The buffer of an entry stays where it is. -/
lemma buf_update {f : ℕ → MsgEntry} {msg : MsgEntry} (h : msg.buf = (f id).buf) (x : ℕ) :
    (Function.update f id msg x).buf = (f x).buf := by
  rcases eq_or_ne x id with rfl | hne
  · rw [Function.update_self]
    exact h
  · rw [Function.update_of_ne hne]

lemma LinkedInUse.create (h : s.LinkedInUse) (hid : ¬ s.Linked id) (buf : ℕ)
    (nbytes src dest tag : ℤ) :
    ((s.create myproc id buf nbytes src dest tag).start id cs).LinkedInUse := by
  rw [create_eq hid]
  refine h.frame (fun x hx => hx) fun x hx => ?_
  have hne : x ≠ id := by
    rintro rfl
    exact hid hx
  simp only [start, Function.update_of_ne hne]

lemma InUse.linked_leave (h : s.InUse myproc) {c : Bool} (huser : s.user = .leaving id c) :
    (s.leaveWait id).LinkedInUse := by
  rw [leaveWait]
  split_ifs with h3
  · have hid := (h.progress.leaving id c huser).resolve_left h3
    refine h.linked.frame (fun x hx => hx) fun x hx => ?_
    refine congrArg MsgEntry.buf (Function.update_of_ne ?_ ..)
    rintro rfl
    exact hid hx
  · exact h.linked

lemma linked_asend (h : s.LinkedInUse) (hbuf : (s.msg_list id).buf ≠ 0) :
    (s.asend id cs).LinkedInUse := by
  refine h.update (Function.update_eq_self id s.msg_list).symm hbuf ?_
  rintro x hne ⟨i, hx | hx | hx⟩
  · rcases mem_update hx with ⟨rfl, hx'⟩ | ⟨-, hx'⟩
    · exact .of_send ((List.mem_append.mp hx').resolve_right (by simpa using hne))
    · exact .of_send hx'
  · exact .of_recv hx
  · exact .of_msg hx

lemma linked_sendToQ (h : s.LinkedInUse) (ha : a ≠ 0) : (s.sendToQ id a cs).LinkedInUse := by
  refine h.update rfl ha ?_
  rintro x hne ⟨i, hx | hx | hx⟩
  · exact .of_send hx
  · exact .of_recv hx
  · rcases mem_update hx with ⟨rfl, hx'⟩ | ⟨-, hx'⟩
    · exact .of_msg ((List.mem_append.mp hx').resolve_right (by simpa using hne))
    · exact .of_msg hx'

lemma linked_postRecv (h : s.LinkedInUse) (hbuf : (s.msg_list id).buf ≠ 0) :
    (s.postRecv nprocs myproc id cs).LinkedInUse := by
  refine h.update (Function.update_eq_self id s.msg_list).symm hbuf ?_
  rintro x hne ⟨i, hx | hx | hx⟩
  · exact .of_send hx
  · rcases mem_update hx with ⟨rfl, hx'⟩ | ⟨-, hx'⟩
    · exact .of_recv ((List.mem_append.mp hx').resolve_right (by simpa using hne))
    · exact .of_recv hx'
  · exact .of_msg hx

/-- A message of `msg_q` is no send to another process. -/
lemma Sound.not_send (h : s.Sound myproc) (hp : p ∈ s.msg_q t) (i : ℤ) : p ∉ s.send_q i := by
  intro hx
  obtain ⟨hdest, hne⟩ := h.handles.sends i p hx
  exact hne (hdest.symm.trans (h.queues.msgSrc t p hp).2)

/-- What `recv_from_q` does to the messages that are sent and received. -/
lemma takeBuffered_linked (hp : p ∈ s.msg_q t)
    (hfirst : (s.msg_list p).nleft ≠ 0 → (s.recv_q t).head? = some p) {x : ℕ}
    (hx : (s.takeBuffered id t p stale).Linked x) : x = id ∧ (s.msg_list p).nleft ≠ 0 ∨ s.Linked x := by
  obtain ⟨i, hx | hx | hx⟩ := hx
  · exact Or.inr (.of_send hx)
  · by_cases hdone : (s.msg_list p).nleft = 0
    · rw [show (s.takeBuffered id t p stale).recv_q = s.recv_q from if_pos hdone] at hx
      exact Or.inr (.of_recv hx)
    · rw [show (s.takeBuffered id t p stale).recv_q = _ from if_neg hdone,
        next_head (hfirst hdone)] at hx
      rcases mem_update hx with ⟨rfl, hx'⟩ | ⟨-, hx'⟩
      · rcases List.mem_cons.mp hx' with rfl | hx'
        · exact Or.inl ⟨rfl, hdone⟩
        · exact Or.inr (.of_recv (List.mem_of_mem_tail hx'))
      · exact Or.inr (.of_recv hx')
  · rcases mem_update hx with ⟨rfl, hx'⟩ | ⟨-, hx'⟩
    · exact Or.inr (.of_msg (List.mem_of_mem_erase hx'))
    · exact Or.inr (.of_msg hx')

/-- The message that was taken is in no queue any more. -/
lemma InUse.taken_unlinked (h : s.InUse myproc) (hr : s.receiving = none) (hp : p ∈ s.msg_q t)
    (hne : p ≠ id) (hfirst : (s.msg_list p).nleft ≠ 0 → (s.recv_q t).head? = some p) :
    ¬ (s.takeBuffered id t p stale).Linked p := by
  have hsrc := (h.queues.msgSrc t p hp).1
  rintro ⟨i, hx | hx | hx⟩
  · exact h.not_send hp i hx
  · by_cases hdone : (s.msg_list p).nleft = 0
    · rw [show (s.takeBuffered id t p stale).recv_q = s.recv_q from if_pos hdone] at hx
      exact h.progress.recvLeft_of_none hr hx hdone
    · rw [show (s.takeBuffered id t p stale).recv_q = _ from if_neg hdone,
        next_head (hfirst hdone)] at hx
      rcases mem_update hx with ⟨rfl, hx'⟩ | ⟨hi, hx'⟩
      · obtain ⟨l, hl⟩ := List.head?_eq_some_iff.mp (hfirst hdone)
        have hx'' := (List.mem_cons.mp hx').resolve_left hne
        rw [hl, List.tail_cons] at hx''
        exact (List.nodup_cons.mp (hl ▸ h.queues.recvNodup i)).1 hx''
      · exact hi ((h.queues.recvSrc i p hx').symm.trans hsrc)
  · rcases mem_update hx with ⟨rfl, hx'⟩ | ⟨hi, hx'⟩
    · exact (h.queues.msgNodup i).not_mem_erase hx'
    · exact hi ((h.queues.msgSrc i p hx').1.symm.trans hsrc)

lemma InUse.linked_take (h : s.InUse myproc) (hr : s.receiving = none) (hp : p ∈ s.msg_q t)
    (hne : p ≠ id) (hfirst : (s.msg_list p).nleft ≠ 0 → (s.recv_q t).head? = some p)
    (hbuf : (s.msg_list p).nleft ≠ 0 → (s.msg_list id).buf ≠ 0) :
    (s.takeBuffered id t p stale).LinkedInUse := by
  intro x hx
  have hxp : x ≠ p := by
    rintro rfl
    exact h.taken_unlinked hr hp hne hfirst hx
  rw [takeBuffered_msg_list, Function.update_of_ne hxp,
    buf_update (takeOver_kept t (s.msg_list id) (s.msg_list p)).1]
  rcases takeBuffered_linked hp hfirst hx with ⟨rfl, hleft⟩ | hx'
  · exact hbuf hleft
  · exact h.linked x hx'

lemma takeAnySource_linked (hp : p ∈ s.recv_q (-1)) {x : ℕ}
    (hx : (s.takeAnySource node p hd cs).Linked x) : s.Linked x := by
  obtain ⟨i, hx | hx | hx⟩ := hx
  · exact .of_send hx
  · rcases mem_update hx with ⟨rfl, hx'⟩ | ⟨hi, hx'⟩
    · rcases List.mem_cons.mp hx' with rfl | hx'
      · exact .of_recv hp
      · exact .of_recv hx'
    · rcases mem_update hx' with ⟨rfl, hx'⟩ | ⟨-, hx'⟩
      · exact .of_recv (List.mem_of_mem_erase hx')
      · exact .of_recv hx'
  · exact .of_msg hx

lemma linked_peekFound (h : s.LinkedInUse) (hp : p ∈ s.recv_q (-1)) :
    (s.takeAnySource node p hd cs).LinkedInUse :=
  h.frame (fun x => takeAnySource_linked hp) fun x _ => buf_update (by rfl) x

lemma bufferAnySource_linked (hnew : ¬ s.Linked new) {x : ℕ} (hne : x ≠ new)
    (hx : (s.bufferAnySource myproc node new a hd cs).Linked x) : s.Linked x := by
  rw [bufferAnySource_eq hnew] at hx
  obtain ⟨i, hx | hx | hx⟩ := hx
  · exact .of_send hx
  · rcases mem_update hx with ⟨rfl, hx'⟩ | ⟨-, hx'⟩
    · exact .of_recv ((List.mem_append.mp hx').resolve_right (by simpa using hne))
    · exact .of_recv hx'
  · rcases mem_update hx with ⟨rfl, hx'⟩ | ⟨-, hx'⟩
    · exact .of_msg ((List.mem_append.mp hx').resolve_right (by simpa using hne))
    · exact .of_msg hx'

lemma linked_peekBuffer (h : s.LinkedInUse) (hnew : ¬ s.Linked new) (ha : a ≠ 0) :
    (s.bufferAnySource myproc node new a hd cs).LinkedInUse := by
  refine h.update (congrArg msg_list (bufferAnySource_eq hnew)) ?_ fun x hne hx => ?_
  · exact ha
  · exact bufferAnySource_linked hnew hne hx

lemma redirect_linked (hp : p ∈ s.recv_q src) {x : ℕ} (hx : (s.redirect src id p n cs).Linked x) :
    s.Linked x := by
  obtain ⟨i, hx | hx | hx⟩ := hx
  · exact .of_send hx
  · rcases mem_update hx with ⟨rfl, hx'⟩ | ⟨-, hx'⟩
    · exact .of_recv ((List.perm_cons_erase hp).mem_iff.mpr hx')
    · exact .of_recv hx'
  · exact .of_msg hx

lemma linked_redirect (h : s.LinkedInUse) (hp : p ∈ s.recv_q src) :
    (s.redirect src id p n cs).LinkedInUse := by
  refine h.frame (fun x hx => redirect_linked hp hx) fun x _ => ?_
  rw [show (s.redirect src id p n cs).msg_list = Function.update
    (Function.update s.msg_list id (s.msg_list id).resetHeader) p _ from rfl]
  exact (buf_update (by rfl) x).trans (buf_update (by rfl) x)

lemma pushUnexpected_linked (hnew : ¬ s.Linked new) {x : ℕ} (hne : x ≠ new)
    (hx : (s.pushUnexpected myproc src id new a n cs).Linked x) : s.Linked x := by
  rw [pushUnexpected_eq hnew] at hx
  obtain ⟨i, hx | hx | hx⟩ := hx
  · exact .of_send hx
  · rcases mem_update hx with ⟨rfl, hx'⟩ | ⟨-, hx'⟩
    · exact .of_recv ((List.mem_cons.mp hx').resolve_left hne)
    · exact .of_recv hx'
  · rcases mem_update hx with ⟨rfl, hx'⟩ | ⟨-, hx'⟩
    · exact .of_msg ((List.mem_append.mp hx').resolve_right (by simpa using hne))
    · exact .of_msg hx'

lemma linked_pushUnexpected (h : s.LinkedInUse) (hnew : ¬ s.Linked new) (ha : a ≠ 0) :
    (s.pushUnexpected myproc src id new a n cs).LinkedInUse := by
  intro x hx
  have hlist := congrArg msg_list (@pushUnexpected_eq myproc s id cs src new a n hnew)
  rw [hlist]
  rcases eq_or_ne x new with rfl | hne
  · dsimp only
    rw [Function.update_self]
    exact ha
  · dsimp only
    rw [Function.update_of_ne hne, buf_update (by rfl)]
    exact h x (pushUnexpected_linked hnew hne hx)

lemma finishRecv_linked (hid : id ∈ s.recv_q src) {x : ℕ}
    (hx : (s.finishRecv src id stale cs).Linked x) : s.Linked x := by
  rw [finishRecv] at hx
  split_ifs at hx
  · exact hx
  all_goals
    obtain ⟨i, hx | hx | hx⟩ := hx
    · exact .of_send hx
    · rcases mem_update hx with ⟨rfl, hx'⟩ | ⟨-, hx'⟩
      · first | exact .of_recv (mem_next hid hx') | exact .of_recv hx'
      · exact .of_recv hx'
    · exact .of_msg hx

lemma finishRecv_msg_list : (s.finishRecv src id stale cs).msg_list = s.msg_list := by
  rw [finishRecv]
  split_ifs <;> rfl

lemma finishSend_linked {x : ℕ} (hx : (s.finishSend dest id cs).Linked x) : s.Linked x := by
  rw [finishSend] at hx
  split_ifs at hx
  · exact hx
  · obtain ⟨i, hx | hx | hx⟩ := hx
    · rcases mem_update hx with ⟨rfl, hx'⟩ | ⟨-, hx'⟩
      · exact .of_send (List.mem_of_mem_tail hx')
      · exact .of_send hx'
    · exact .of_recv hx
    · exact .of_msg hx

lemma linked_finishSend (h : s.Sound myproc) (hlinked : s.LinkedInUse)
    (hid : (s.send_q dest).head? = some id) : (s.finishSend dest id cs).LinkedInUse := by
  obtain ⟨l, hl⟩ := List.head?_eq_some_iff.mp hid
  obtain ⟨hnot, -⟩ := List.nodup_cons.mp (hl ▸ h.queues.sendNodup dest)
  obtain ⟨hdest, hself⟩ := h.handles.sends dest id (List.mem_of_head? hid)
  refine hlinked.frame (fun x => finishSend_linked) fun x hx => ?_
  rw [finishSend] at hx ⊢
  split_ifs at hx ⊢ with hpos
  · rfl
  · refine congrArg MsgEntry.buf (Function.update_of_ne ?_ ..)
    rintro rfl
    obtain ⟨i, hx | hx | hx⟩ := hx
    · rcases mem_update hx with ⟨rfl, hx'⟩ | ⟨hi, hx'⟩
      · rw [hl] at hx'
        exact hnot hx'
      · exact hi ((h.handles.sends i x hx').1.symm.trans hdest)
    · exact hself (hdest.symm.trans (h.handles.recvs i x hx).2)
    · exact hself (hdest.symm.trans (h.queues.msgSrc i x hx).2)

end

lemma QueuesKept.fresh (h : s.QueuesKept nprocs) (hlinked : s.LinkedInUse) :
    s.QueuesFresh nprocs maxMsgs :=
  ⟨(EntriesKept.mk hlinked h.selfSends h.buffered h.unfinished).fresh, h.headers⟩

lemma InUse.linked_step (h : s.InUse myproc) (hcond : s.QueuesKept nprocs)
    (hstep : Step nprocs maxMsgs myproc s s') : s'.LinkedInUse := by
  have hl := h.linked
  have hfresh : s.QueuesFresh nprocs maxMsgs := hcond.fresh hl
  cases hstep with
  | arrive | signal | wait | waitNull | waitDone | waitPush | waitSelf | waitBlock | blockDone
  | selfEmpty | serviceSend | serviceRecv | peekNothing | doSend | doRecv | gotHeader => exact hl
  | userSend id buf nbytes dest tag hcalls huser hbuf hdest hid =>
    exact hl.create (hfresh.new id hid) _ _ _ _ _
  | userRecv id buf nbytes src tag hcalls huser hbuf hsrc hid =>
    exact hl.create (hfresh.new id hid) _ _ _ _ _
  | push id a hcalls huser ha =>
    refine hl.frame (fun x hx => hx) fun x _ => buf_update ?_ x
    split_ifs <;> rfl
  | leave id c hcalls huser => exact h.linked_leave huser
  | asend id cs hcalls => exact linked_asend hl (h.call hcalls).2.2.1
  | sendToQ id a cs hcalls ha => exact linked_sendToQ hl ha
  | arecvFound id cs t p stale hcalls hp =>
    obtain ⟨-, hid, hbuf, -⟩ := h.call hcalls
    have hmem := findBuffered_mem hp
    have hne : p ≠ id := by
      rintro rfl
      exact hid (.of_msg hmem)
    exact h.linked_take (by simp [receiving, hcalls]) hmem hne
      (fun hleft => (hcond.unfinished t p ((found_arecv hcalls).trans hp) hleft).1) fun _ => hbuf
  | arecvPost id cs hcalls hp => exact linked_postRecv hl (h.call hcalls).2.2.1
  | selfFound id cs t p stale hcalls hp =>
    obtain ⟨-, hid, -⟩ := h.call hcalls
    have hmem := findBuffered_mem hp
    have hdone := hfresh.complete ((found_recvFromSelf hcalls).trans hp) (by simp [hcalls])
    have hne : p ≠ id := by
      rintro rfl
      exact hid (.of_msg hmem)
    exact h.linked_take (by simp [receiving, hcalls]) hmem hne (fun hleft => absurd hdone hleft)
      fun hleft => absurd hdone hleft
  | peekFound node p cs hcalls hactive hsock hp hnbytes =>
    exact linked_peekFound hl (List.mem_of_find?_eq_some hp)
  | peekBuffer node new a cs hcalls hrecv hactive hsock hp hnbytes ha hnew =>
    exact linked_peekBuffer hl (hfresh.new new hnew) ha
  | sendPass dest id m cat_nap k k' cs hcalls hgo =>
    refine hl.frame (fun x hx => hx) fun x _ => buf_update ?_ x
    rw [MsgEntry.write]
    split_ifs <;> simp
  | finishSend dest id m cat_nap cs hcalls hstop =>
    exact linked_finishSend h.toSound hl (h.call hcalls).1
  | doRecvFound src id cs t p stale hcalls hid hhdr hflag hp =>
    have hmem := findBuffered_mem hp
    have hr : s.receiving = none := by simp [receiving, hcalls]
    have hdone := hfresh.complete ((found_doRecv hcalls hid hhdr hflag).trans hp) (by simp [hcalls])
    have hne : p ≠ id := by
      rintro rfl
      exact h.progress.recvLeft_of_none hr (List.mem_of_head? hid) hdone
    exact h.linked_take hr hmem hne (fun hleft => absurd hdone hleft) fun hleft => absurd hdone hleft
  | readHeader src id m cs hcalls hgo hhdr =>
    exact hl.frame (fun x hx => hx) fun x _ => buf_update MsgEntry.updateProgress_buf x
  | matchHeader src id n cs hcalls hfits =>
    exact hl.frame (fun x hx => hx) fun x _ => buf_update (by rfl) x
  | redirect src id p n cs hcalls hfits hp => exact linked_redirect hl (List.mem_of_find?_eq_some hp)
  | pushUnexpected src id new a n cs hcalls hfits hp hnbytes ha hnew =>
    exact linked_pushUnexpected hl (hfresh.new new hnew) ha
  | readBody src id cur n cs hcalls =>
    rw [Engine.readBody]
    dsimp only
    split_ifs
    · exact hl.frame (fun x hx => hx) fun x _ => buf_update MsgEntry.updateProgress_buf x
    · exact hl
  | finishRecv src id m stale cs hcalls hstop =>
    refine hl.frame (fun x => finishRecv_linked (h.call hcalls).1) fun x _ => ?_
    rw [finishRecv_msg_list]

/-! ### Progress -/

section

variable {src node dest t : ℤ} {p n m a new cur : ℕ} {stale : List ℕ} {hd : Header}

/-- No loop of `do_recv` runs before the step, and the queues of receives are kept. -/
lemma waiting_of_none {i : ℤ} {x : ℕ} (hx : x ∈ s'.waiting i) (hr : s.receiving = none)
    (hq : s'.recv_q = s.recv_q) : x ∈ s.waiting i := by
  rw [waiting, hr]
  exact hq ▸ waiting_subset hx

/-- The loop does not wait for its own message. -/
lemma Queues.waiting_ne (h : s.Queues myproc) (hr : s.receiving = some (src, id))
    (hid : id ∈ s.recv_q src) {i : ℤ} {x : ℕ} (hx : x ∈ s.waiting i) : x ≠ id := by
  rintro rfl
  have hi := (h.recvSrc i x (waiting_subset hx)).symm.trans (h.recvSrc src x hid)
  rw [waiting, hr, hi] at hx
  simp only [if_true] at hx
  exact not_mem_next_self (h.recvNodup src) hx

lemma Progress.quiet (h : s.Progress) (hq : Quiet s s') (huser : s'.user = s.user)
    (hsend : ∀ x, s.sending = some x → s'.sending = some x)
    (hrecv : ∀ i, ∀ x ∈ s'.waiting i, x ∈ s.waiting i) : s'.Progress := by
  refine ⟨fun i x hx => ?_, fun i x hx => ?_, fun x c hx => ?_⟩
  · rw [hq.send_q] at hx
    rw [hq.msg_list]
    exact (h.sendLeft i x hx).imp_left (hsend _)
  · rw [hq.msg_list]
    exact h.recvLeft i x (hrecv i x hx)
  · rw [huser] at hx
    rw [hq.msg_list, Queues.linked_congr hq.send_q hq.recv_q hq.msg_q]
    exact h.leaving x c hx

/-- The entries of the sends are kept. -/
lemma InUse.sendLeft_frame (h : s.InUse myproc) (hsend : s.sending = none)
    (hq : s'.send_q = s.send_q) (hleft : ∀ x, s.Linked x → (s.msg_list x).dest ≠ myproc →
      (s'.msg_list x).nleft = (s.msg_list x).nleft) :
    ∀ i, ∀ x ∈ s'.send_q i, s'.sending = some (i, x) ∨ 0 < (s'.msg_list x).nleft := by
  intro i x hx
  rw [hq] at hx
  obtain ⟨hdest, hne⟩ := h.handles.sends i x hx
  rw [hleft x (.of_send hx) fun heq => hne (hdest.symm.trans heq)]
  refine Or.inr ((h.progress.sendLeft i x hx).resolve_left ?_)
  simp [hsend]

/-- No entry of the user comes into a queue. -/
lemma InUse.leaving_frame (h : s.InUse myproc) (hf : Frame myproc s s')
    (hlinked : ∀ x ∈ s.handles.map Prod.fst, s'.Linked x → s.Linked x) :
    ∀ x c, s'.user = .leaving x c → (s'.msg_list x).send_flag = 3 ∨ ¬ s'.Linked x := by
  intro x c hx
  rw [hf.user] at hx
  have hmem : x ∈ s.handles.map Prod.fst := h.handles.user x (by rw [hx]; rfl)
  rcases h.progress.leaving x c hx with h3 | hnot
  · exact Or.inl ((hf.entries x hmem).flag.trans h3)
  · exact Or.inr fun hl => hnot (hlinked x hmem hl)

/-- No loop runs, and the entries in the queues are kept. -/
lemma InUse.progress_idle (h : s.InUse myproc) (hs : s.sending = none) (hr : s.receiving = none)
    (hsend : s'.send_q = s.send_q) (hrecv : s'.recv_q = s.recv_q)
    (hleft : ∀ x, s.Linked x → (s'.msg_list x).nleft = (s.msg_list x).nleft)
    (hleaving : ∀ x c, s'.user = .leaving x c →
      (s'.msg_list x).send_flag = 3 ∨ ¬ s'.Linked x) : s'.Progress := by
  refine ⟨h.sendLeft_frame hs hsend fun x hx _ => hleft x hx, fun i x hx => ?_, hleaving⟩
  have hx' := waiting_of_none hx hr hrecv
  rw [hleft x (.of_recv (waiting_subset hx'))]
  exact h.progress.recvLeft i x hx'

lemma progress_create (h : s.InUse myproc) (hcalls : s.calls = []) (huser : s.user = .outside)
    (hid : ¬ s.Linked id) (buf : ℕ) (nbytes src dest tag : ℤ) (cs : List Call) :
    ((s.create myproc id buf nbytes src dest tag).start id cs).Progress := by
  rw [create_eq hid]
  refine h.progress_idle ?_ ?_ rfl rfl (fun x hx => ?_) fun x c hx => ?_
  · simp [sending, hcalls]
  · simp [receiving, hcalls]
  · have hne : x ≠ id := by
      rintro rfl
      exact hid hx
    simp only [start, Function.update_of_ne hne]
  · exact absurd (huser.symm.trans hx) (by simp)

/-- What the user waits for is in no queue of sends or receives once it is complete. -/
lemma InUse.done_unlinked (h : s.InUse myproc) (hcalls : s.calls = [])
    (hmem : id ∈ s.handles.map Prod.fst) (hdone : (s.msg_list id).nleft = 0) :
    (s.msg_list id).send_flag = 3 ∨ ¬ s.Linked id := by
  by_cases h3 : (s.msg_list id).send_flag = 3
  · exact Or.inl h3
  refine Or.inr ?_
  rintro ⟨i, hi | hi | hi⟩
  · rcases h.progress.sendLeft i id hi with hs | hleft
    · simp [sending, hcalls] at hs
    · omega
  · exact h.progress.recvLeft_of_none (by simp [receiving, hcalls]) hi hdone
  · exact h3 (h.queues.msgFlag i id hi hmem)

/-- `MP_Wait` goes on. -/
lemma progress_user (h : s.InUse myproc) (hcalls : s.calls = []) (hq : Quiet s s')
    (hleaving : ∀ x c, s'.user = .leaving x c → (s.msg_list x).send_flag = 3 ∨ ¬ s.Linked x) :
    s'.Progress := by
  refine h.progress_idle ?_ ?_ hq.send_q hq.recv_q (fun x _ => ?_) fun x c hx => ?_
  · simp [sending, hcalls]
  · simp [receiving, hcalls]
  · rw [hq.msg_list]
  · rw [hq.msg_list, Queues.linked_congr hq.send_q hq.recv_q hq.msg_q]
    exact hleaving x c hx

lemma progress_push (h : s.InUse myproc) (hcalls : s.calls = []) :
    Progress { s.pushToBuffer id a with user := .leaving id true } := by
  have hid : ((s.pushToBuffer id a).msg_list id).send_flag = 3 ∧
      ((s.pushToBuffer id a).msg_list id).nleft = (s.msg_list id).nleft := by
    rw [show (s.pushToBuffer id a).msg_list id = _ from Function.update_self ..]
    split_ifs <;> exact ⟨rfl, rfl⟩
  refine h.progress_idle ?_ ?_ rfl rfl (fun x _ => ?_) fun x c hx => ?_
  · simp [sending, hcalls]
  · simp [receiving, hcalls]
  · show ((s.pushToBuffer id a).msg_list x).nleft = _
    rcases eq_or_ne x id with rfl | hne
    · exact hid.2
    · rw [show (s.pushToBuffer id a).msg_list x = _ from Function.update_of_ne hne ..]
  · cases hx
    exact Or.inl hid.1

lemma progress_leave (h : s.InUse myproc) (hcalls : s.calls = []) : (s.leaveWait id).Progress := by
  refine h.progress_idle ?_ ?_ ?_ ?_ (fun x _ => ?_) fun x c hx => ?_
  · simp [sending, hcalls]
  · simp [receiving, hcalls]
  · rw [leaveWait]
    split_ifs <;> rfl
  · rw [leaveWait]
    split_ifs <;> rfl
  · rw [leaveWait]
    split_ifs
    · show (Function.update s.msg_list id _ x).nleft = _
      rcases eq_or_ne x id with rfl | hne
      · rw [Function.update_self]
      · rw [Function.update_of_ne hne]
    · rfl
  · cases hx

lemma progress_asend (h : s.InUse myproc) (hcalls : s.calls = .asend id :: cs) :
    (s.asend id cs).Progress := by
  obtain ⟨-, -, -, hleft, huser⟩ := h.call hcalls
  refine ⟨fun i x hx => ?_, fun i x hx => ?_, fun x c hx => ?_⟩
  · rcases mem_update hx with ⟨rfl, hx'⟩ | ⟨-, hx'⟩
    · rw [List.mem_append, List.mem_singleton] at hx'
      rcases hx' with hx' | rfl
      · exact Or.inr ((h.progress.sendLeft _ x hx').resolve_left (by simp [sending, hcalls]))
      · exact Or.inr hleft
    · exact Or.inr ((h.progress.sendLeft _ x hx').resolve_left (by simp [sending, hcalls]))
  · have hr : s.receiving = none := by simp [receiving, hcalls]
    exact h.progress.recvLeft i x (waiting_of_none hx hr rfl)
  · exact absurd (huser.symm.trans hx) (by simp)

lemma progress_sendToQ (h : s.InUse myproc) (hcalls : s.calls = .sendToQ id :: cs) :
    (s.sendToQ id a cs).Progress := by
  obtain ⟨⟨-, -, huser⟩, hid, -⟩ := h.call hcalls
  refine h.progress_idle ?_ ?_ rfl rfl (fun x hx => ?_) fun x c hx => ?_
  · simp [sending, hcalls]
  · simp [receiving, hcalls]
  · have hne : x ≠ id := by
      rintro rfl
      exact hid hx
    rw [show (s.sendToQ id a cs).msg_list x = _ from Function.update_of_ne hne ..]
  · exact absurd (huser.symm.trans hx) (by simp)

lemma progress_postRecv (h : s.InUse myproc) (hcalls : s.calls = .arecv id :: cs) :
    (s.postRecv nprocs myproc id cs).Progress := by
  obtain ⟨-, hid, hbuf, hsrc, hleft, huser⟩ := h.call hcalls
  refine ⟨?_, fun i x hx => ?_, fun x c hx => ?_⟩
  · exact h.sendLeft_frame (by simp [sending, hcalls]) rfl fun _ _ _ => rfl
  · rcases mem_update (waiting_subset hx) with ⟨rfl, hx'⟩ | ⟨-, hx'⟩
    · rw [List.mem_append, List.mem_singleton] at hx'
      rcases hx' with hx' | rfl
      · exact h.progress.recvLeft_of_none (by simp [receiving, hcalls]) hx'
      · exact hleft.ne'
    · exact h.progress.recvLeft_of_none (by simp [receiving, hcalls]) hx'
  · exact absurd (huser.symm.trans hx) (by simp)

lemma takeBuffered_nleft (hne : p ≠ id) {x : ℕ} : ((s.takeBuffered id t p stale).msg_list x).nleft =
    if x = id then (s.msg_list p).nleft else (s.msg_list x).nleft := by
  rw [takeBuffered_msg_list]
  rcases eq_or_ne x p with rfl | hxp
  · rw [Function.update_self, if_neg hne]
  · rw [Function.update_of_ne hxp]
    rcases eq_or_ne x id with rfl | hxid
    · rw [Function.update_self, if_pos rfl, MsgEntry.takeOver]
      split_ifs with hdone
      · exact hdone.symm
      · rfl
    · rw [Function.update_of_ne hxid, if_neg hxid]

lemma progress_arecvFound (h : s.InUse myproc) (hcond : s.QueuesKept nprocs)
    (hcalls : s.calls = .arecv id :: cs)
    (hp : findBuffered nprocs s (s.msg_list id) = some (t, p)) :
    Progress { s.takeBuffered id t p stale with calls := cs } := by
  obtain ⟨-, hid, hbuf, hsrc, hleft, huser⟩ := h.call hcalls
  have hmem := findBuffered_mem hp
  have hs : s.sending = none := by simp [sending, hcalls]
  have hr : s.receiving = none := by simp [receiving, hcalls]
  have hne : p ≠ id := by
    rintro rfl
    exact hid (.of_msg hmem)
  have hkept : ∀ x, s.Linked x →
      ((s.takeBuffered id t p stale).msg_list x).nleft = (s.msg_list x).nleft := by
    intro x hx
    rw [takeBuffered_nleft hne, if_neg]
    rintro rfl
    exact hid hx
  refine ⟨h.sendLeft_frame hs rfl fun x hx _ => hkept x hx, fun i x hx => ?_, fun x c hx => ?_⟩
  · have hx' := waiting_subset hx
    replace hx' : x ∈ (s.takeBuffered id t p stale).recv_q i := hx'
    show ((s.takeBuffered id t p stale).msg_list x).nleft ≠ 0
    by_cases hdone : (s.msg_list p).nleft = 0
    · rw [show (s.takeBuffered id t p stale).recv_q = s.recv_q from if_pos hdone] at hx'
      rw [hkept x (.of_recv hx')]
      exact h.progress.recvLeft_of_none hr hx'
    · rw [show (s.takeBuffered id t p stale).recv_q = _ from if_neg hdone, next_head
        (hcond.unfinished t p ((found_arecv hcalls).trans hp) hdone).1] at hx'
      by_cases hxid : x = id
      · rw [takeBuffered_nleft hne, if_pos hxid]
        exact hdone
      · rw [takeBuffered_nleft hne, if_neg hxid]
        rcases mem_update hx' with ⟨rfl, hx'⟩ | ⟨-, hx'⟩
        · have hx' := List.mem_of_mem_tail ((List.mem_cons.mp hx').resolve_left hxid)
          exact h.progress.recvLeft_of_none hr hx'
        · exact h.progress.recvLeft_of_none hr hx'
  · exact absurd (huser.symm.trans hx) (by simp)

/-- A complete message is taken. -/
lemma progress_takeComplete (h : s.InUse myproc) (hs : s.sending = none)
    (hr : s.receiving = none) (hmem : p ∈ s.msg_q t) (hdone : (s.msg_list p).nleft = 0)
    (hid : (s.msg_list id).IsRecv myproc) (hne : p ≠ id) {cs : List Call} {user : WaitPoint}
    (hs' : s' = { s.takeBuffered id t p stale with calls := cs, user := user })
    (hw : ∀ i, ∀ x ∈ s'.waiting i, x ≠ id)
    (hleaving : ∀ x c, user = .leaving x c → (s.msg_list x).send_flag = 3 ∨ ¬ s.Linked x) :
    s'.Progress := by
  subst hs'
  have hrecv : (s.takeBuffered id t p stale).recv_q = s.recv_q := if_pos hdone
  have hkept : ∀ x, x ≠ id →
      ((s.takeBuffered id t p stale).msg_list x).nleft = (s.msg_list x).nleft := by
    intro x hx
    rw [takeBuffered_nleft hne, if_neg hx]
  refine ⟨?_, fun i x hx => ?_, fun x c hx => ?_⟩
  · refine h.sendLeft_frame hs rfl fun x _ hdest => hkept x ?_
    rintro rfl
    exact hdest hid.2
  · have hx' := waiting_subset hx
    replace hx' : x ∈ (s.takeBuffered id t p stale).recv_q i := hx'
    rw [hrecv] at hx'
    show ((s.takeBuffered id t p stale).msg_list x).nleft ≠ 0
    rw [hkept x (hw i x hx)]
    exact h.progress.recvLeft_of_none hr hx'
  · rcases hleaving x c hx with h3 | hnot
    · refine Or.inl ?_
      show ((s.takeBuffered id t p stale).msg_list x).send_flag = 3
      have hxid : x ≠ id := by
        rintro rfl
        exact absurd (hid.1.symm.trans h3) (by simp)
      rw [takeBuffered_msg_list]
      rcases eq_or_ne x p with rfl | hxp
      · rw [Function.update_self]
        exact h3
      · rwa [Function.update_of_ne hxp, Function.update_of_ne hxid]
    · refine Or.inr fun hl => hnot ?_
      have hl' : (s.takeBuffered id t p stale).Linked x := hl
      rcases takeBuffered_linked hmem (fun hleft => absurd hdone hleft) hl' with ⟨-, hleft⟩ | hl'
      · exact absurd hdone hleft
      · exact hl'

lemma progress_selfFound (h : s.InUse myproc) (hcond : s.QueuesKept nprocs)
    (hcalls : s.calls = .recvFromSelf id :: cs)
    (hp : findBuffered nprocs s (s.msg_list id) = some (t, p)) {b : Bool} :
    Progress { s.takeBuffered id t p stale with calls := cs, user := .leaving id b } := by
  obtain ⟨⟨hrecv, -⟩, hid, -⟩ := h.call hcalls
  have hmem := findBuffered_mem hp
  have hfresh : s.QueuesFresh nprocs 0 := hcond.fresh h.linked
  have hdone := hfresh.complete ((found_recvFromSelf hcalls).trans hp) (by simp [hcalls])
  refine progress_takeComplete h (by simp [sending, hcalls]) (by simp [receiving, hcalls]) hmem hdone
    hrecv ?_ rfl (fun i x hx => ?_) fun x c hx => ?_
  · rintro rfl
    exact hid (.of_msg hmem)
  · rintro rfl
    have hx' := waiting_subset hx
    replace hx' : x ∈ (s.takeBuffered x t p stale).recv_q i := hx'
    rw [show (s.takeBuffered x t p stale).recv_q = s.recv_q from if_pos hdone] at hx'
    exact hid (.of_recv hx')
  · cases hx
    exact Or.inr hid

lemma progress_doRecvFound (h : s.InUse myproc) (hcond : s.QueuesKept nprocs)
    (hcalls : s.calls = .doRecv src :: cs) (hid : (s.recv_q src).head? = some id)
    (hhdr : (s.msg_list id).nhdr ≠ 0) (hflag : (s.msg_list id).recv_flag ≠ 2)
    (hp : findBuffered nprocs s (s.msg_list id) = some (t, p))
    (hq : Queues myproc { s.takeBuffered id t p stale with calls := .recvLoop src id m :: cs }) :
    Progress { s.takeBuffered id t p stale with calls := .recvLoop src id m :: cs } := by
  have hmem := findBuffered_mem hp
  have hmem' := List.mem_of_head? hid
  have hr : s.receiving = none := by simp [receiving, hcalls]
  have hfresh : s.QueuesFresh nprocs 0 := hcond.fresh h.linked
  have hdone := hfresh.complete ((found_doRecv hcalls hid hhdr hflag).trans hp) (by simp [hcalls])
  refine progress_takeComplete h (by simp [sending, hcalls]) hr hmem hdone
    (h.handles.recvs src id hmem') ?_ rfl (fun i x hx => ?_) h.progress.leaving
  · rintro rfl
    exact h.progress.recvLeft_of_none hr hmem' hdone
  · refine hq.waiting_ne rfl ?_ hx
    show id ∈ (s.takeBuffered id t p stale).recv_q src
    rwa [show (s.takeBuffered id t p stale).recv_q = s.recv_q from if_pos hdone]

lemma progress_peekFound (h : s.InUse myproc) (hcalls : s.calls = .peek node :: cs)
    (hp : p ∈ s.recv_q (-1)) (hpos : 0 ≤ hd.nbytes) : (s.takeAnySource node p hd cs).Progress := by
  have hr : s.receiving = none := by simp [receiving, hcalls]
  have hne : ∀ x, x ≠ p → (s.takeAnySource node p hd cs).msg_list x = s.msg_list x :=
    fun x hx => Function.update_of_ne hx _ _
  have hp' : (s.takeAnySource node p hd cs).msg_list p =
      (s.msg_list p).setMessage hd.nbytes node hd.tag := Function.update_self ..
  refine ⟨?_, fun i x hx => ?_, ?_⟩
  · refine h.sendLeft_frame (by simp [sending, hcalls]) rfl fun x _ hdest => ?_
    rw [hne x]
    rintro rfl
    exact hdest (h.handles.recvs _ x hp).2
  · rcases eq_or_ne x p with rfl | hxp
    · rw [hp']
      exact (nleft_setMessage hpos node hd.tag _).ne'
    · rw [hne x hxp]
      rcases mem_update (waiting_subset hx) with ⟨rfl, hx'⟩ | ⟨hi, hx'⟩
      · exact h.progress.recvLeft_of_none hr ((List.mem_cons.mp hx').resolve_left hxp)
      · rcases mem_update hx' with ⟨rfl, hx'⟩ | ⟨-, hx'⟩
        · exact h.progress.recvLeft_of_none hr (List.mem_of_mem_erase hx')
        · exact h.progress.recvLeft_of_none hr hx'
  · exact h.leaving_frame (frame_takeAnySource h.handles hp) fun x _ => takeAnySource_linked hp

lemma progress_peekBuffer (h : s.InUse myproc) (hcalls : s.calls = .peek node :: cs)
    (hnew : ¬ s.Linked new) (hfree : (s.msg_list new).buf = 0) (hpos : 0 ≤ hd.nbytes) :
    (s.bufferAnySource myproc node new a hd cs).Progress := by
  have hr : s.receiving = none := by simp [receiving, hcalls]
  have hf : Frame myproc s (s.bufferAnySource myproc node new a hd cs) :=
    frame_bufferAnySource h.handles hnew hfree
  have hleaving := h.leaving_frame hf fun x hm => bufferAnySource_linked hnew fun heq =>
    h.handles.inUse x hm (heq ▸ hfree)
  have hne : ∀ x, s.Linked x → x ≠ new := by
    rintro x hx rfl
    exact hnew hx
  rw [bufferAnySource_eq hnew] at hleaving ⊢
  refine ⟨?_, fun i x hx => ?_, hleaving⟩
  · refine h.sendLeft_frame (by simp [sending, hcalls]) rfl fun x hx _ => ?_
    simp only [Function.update_of_ne (hne x hx)]
  · rcases eq_or_ne x new with rfl | hxn
    · simp only [Function.update_self]
      exact (nleft_setMessage hpos node hd.tag msgNull).ne'
    · simp only [Function.update_of_ne hxn]
      rcases mem_update (waiting_subset hx) with ⟨rfl, hx'⟩ | ⟨hi, hx'⟩
      · rw [List.mem_append, List.mem_singleton] at hx'
        exact h.progress.recvLeft_of_none hr (hx'.resolve_right hxn)
      · exact h.progress.recvLeft_of_none hr hx'

lemma progress_sendPass (h : s.InUse myproc) {cat_nap : Bool} {k k' : ℕ}
    (hcalls : s.calls = .sendLoop dest id m cat_nap :: cs) :
    (s.sendPass dest id cat_nap k k' cs).Progress := by
  have hid := List.mem_of_head? (h.call hcalls).1
  obtain ⟨hdest, hself⟩ := h.handles.sends dest id hid
  have hne : ∀ x, x ≠ id → (s.sendPass dest id cat_nap k k' cs).msg_list x = s.msg_list x :=
    fun x hx => Function.update_of_ne hx _ _
  have hs : (s.sendPass dest id cat_nap k k' cs).sending = some (dest, id) := by
    rw [Engine.sendPass, sending]
    dsimp only
    split_ifs <;> rfl
  refine ⟨fun i x hx => ?_, fun i x hx => ?_, ?_⟩
  · rw [hs]
    replace hx : x ∈ s.send_q i := hx
    rcases eq_or_ne x id with rfl | hxid
    · rw [(h.handles.sends i x hx).1.symm.trans hdest]
      exact Or.inl rfl
    · rw [hne x hxid]
      refine Or.inr ((h.progress.sendLeft i x hx).resolve_left ?_)
      simpa [sending, hcalls] using fun _ => hxid.symm
  · have hx' := waiting_subset hx
    replace hx' : x ∈ s.recv_q i := hx'
    rw [hne x]
    · exact h.progress.recvLeft_of_none (by simp [receiving, hcalls]) hx'
    · rintro rfl
      exact hself (hdest.symm.trans (h.handles.recvs i x hx').2)
  · exact h.leaving_frame (frame_sendPass h.handles hid) fun x _ hx => hx

lemma progress_finishSend (h : s.InUse myproc) (hcond : s.BufferedLeft) {cat_nap : Bool}
    (hcalls : s.calls = .sendLoop dest id m cat_nap :: cs) : (s.finishSend dest id cs).Progress := by
  have hhead := (h.call hcalls).1
  have hid := List.mem_of_head? hhead
  obtain ⟨l, hl⟩ := List.head?_eq_some_iff.mp hhead
  obtain ⟨hnot, -⟩ := List.nodup_cons.mp (hl ▸ h.queues.sendNodup dest)
  obtain ⟨hdest, hself⟩ := h.handles.sends dest id hid
  have hleaving := h.leaving_frame (frame_finishSend h.handles hcalls hcond)
    fun x _ => finishSend_linked
  have hleft : ∀ i, ∀ x ∈ s.send_q i, x ≠ id → 0 < (s.msg_list x).nleft := by
    intro i x hx hxid
    refine (h.progress.sendLeft i x hx).resolve_left ?_
    simpa [sending, hcalls] using fun _ => hxid.symm
  have hr : s.receiving = none := by simp [receiving, hcalls]
  have hnleft : ∀ x, (Function.update s.msg_list id (s.msg_list id).detach x).nleft =
      (s.msg_list x).nleft := by
    intro x
    rcases eq_or_ne x id with rfl | hxid
    · rw [Function.update_self, MsgEntry.detach]
      split_ifs <;> rfl
    · rw [Function.update_of_ne hxid]
  rw [Engine.finishSend] at hleaving ⊢
  split_ifs at hleaving ⊢ with hpos
  · refine ⟨fun i x hx => ?_, fun i x hx => ?_, hleaving⟩
    · rcases eq_or_ne x id with rfl | hxid
      · exact Or.inr hpos
      · exact Or.inr (hleft i x hx hxid)
    · have hx' := waiting_subset hx
      exact h.progress.recvLeft_of_none hr hx'
  · refine ⟨fun i x hx => ?_, fun i x hx => ?_, hleaving⟩
    · have hx' : x ∈ s.send_q i ∧ x ≠ id := by
        rcases mem_update hx with ⟨rfl, hx'⟩ | ⟨hi, hx'⟩
        · refine ⟨List.mem_of_mem_tail hx', ?_⟩
          rintro rfl
          rw [hl] at hx'
          exact hnot hx'
        · refine ⟨hx', ?_⟩
          rintro rfl
          exact hi ((h.handles.sends i x hx').1.symm.trans hdest)
      exact Or.inr ((hnleft x).symm ▸ hleft i x hx'.1 hx'.2)
    · show (Function.update s.msg_list id _ x).nleft ≠ 0
      rw [hnleft x]
      have hx' := waiting_subset hx
      exact h.progress.recvLeft_of_none hr hx'

/-- A step of the loop of `do_recv` that changes only entries which it has come to. -/
lemma InUse.progress_loop (h : s.InUse myproc) (hf : Frame myproc s s') (hs : s.sending = none)
    (hsend : s'.send_q = s.send_q) (hlinked : ∀ x ∈ s.handles.map Prod.fst, s'.Linked x → s.Linked x)
    (hleft : ∀ x, s.Linked x → (s.msg_list x).dest ≠ myproc →
      (s'.msg_list x).nleft = (s.msg_list x).nleft)
    (hwaiting : ∀ i, ∀ x ∈ s'.waiting i, x ∈ s.waiting i ∧
      (s'.msg_list x).nleft = (s.msg_list x).nleft) : s'.Progress := by
  refine ⟨h.sendLeft_frame hs hsend hleft, fun i x hx => ?_, h.leaving_frame hf hlinked⟩
  obtain ⟨hx', heq⟩ := hwaiting i x hx
  rw [heq]
  exact h.progress.recvLeft i x hx'

lemma waiting_eq (hr : s.receiving = some (src, id)) (i : ℤ) :
    s.waiting i = if src = i then next id (s.recv_q i) [] else s.recv_q i := by
  rw [waiting, hr]

/-- The queues and the loop are kept. -/
lemma waiting_congr {x : ℤ × ℕ} (hr : s.receiving = some x) (hr' : s'.receiving = some x)
    (hrecv : s'.recv_q = s.recv_q) (i : ℤ) : s'.waiting i = s.waiting i := by
  rw [waiting, waiting, hr, hr', hrecv]

/-- Only the entry of the message changes. -/
lemma InUse.progress_entry (h : s.InUse myproc) (hf : Frame myproc s s') (hs : s.sending = none)
    (hr : s.receiving = some (src, id)) (hr' : s'.receiving = some (src, id))
    (hcur : cur ∈ s.recv_q src) (hnot : cur ∉ next id (s.recv_q src) []) {msg : MsgEntry}
    (hlist : s'.msg_list = Function.update s.msg_list cur msg) (hsend : s'.send_q = s.send_q)
    (hrecv : s'.recv_q = s.recv_q) (hmsg : s'.msg_q = s.msg_q) : s'.Progress := by
  have hne : ∀ x, x ≠ cur → s'.msg_list x = s.msg_list x := by
    intro x hx
    rw [hlist, Function.update_of_ne hx]
  refine h.progress_loop hf hs hsend (fun x _ => (Queues.linked_congr hsend hrecv hmsg x).mp)
    (fun x _ hdest => ?_) fun i x hx => ?_
  · rw [hne x]
    rintro rfl
    exact hdest (h.handles.recvs src x hcur).2
  · rw [waiting_congr hr hr' hrecv] at hx
    refine ⟨hx, ?_⟩
    rw [hne x]
    rintro rfl
    have hi := (h.queues.recvSrc i x (waiting_subset hx)).symm.trans (h.queues.recvSrc src x hcur)
    rw [waiting_eq hr, if_pos hi.symm, hi] at hx
    exact hnot hx

lemma progress_readHeader (h : s.InUse myproc) (hcalls : s.calls = .recvLoop src id m :: cs) :
    (s.readHeader src id cs).Progress := by
  have hid : id ∈ s.recv_q src := (h.call hcalls).1
  refine h.progress_entry (frame_readHeader h.handles hid) (by simp [sending, hcalls])
    (by simp [receiving, hcalls]) ?_ hid (not_mem_next_self (h.queues.recvNodup src)) rfl rfl rfl rfl
  rw [Engine.readHeader, receiving]
  dsimp only
  split_ifs <;> rfl

lemma progress_matchHeader (h : s.InUse myproc) (hcalls : s.calls = .checkHeader src id n :: cs) :
    (s.matchHeader src id n cs).Progress := by
  have hid : id ∈ s.recv_q src := (h.call hcalls).1
  exact h.progress_entry (frame_matchHeader h.handles hid) (by simp [sending, hcalls])
    (by simp [receiving, hcalls]) rfl hid (not_mem_next_self (h.queues.recvNodup src)) rfl rfl rfl rfl

lemma progress_readBody (h : s.InUse myproc) (hcalls : s.calls = .readBody src id cur n :: cs) :
    (s.readBody src id cur n cs).Progress := by
  obtain ⟨⟨hid, hcur⟩, hsrc, hnot⟩ := h.call hcalls
  have hf : Frame myproc s (s.readBody src id cur n cs) := frame_readBody h.handles hcur
  have hr : s.receiving = some (src, id) := by simp [receiving, hcalls]
  rw [Engine.readBody] at hf ⊢
  dsimp only at hf ⊢
  split_ifs at hf ⊢
  · exact h.progress_entry hf (by simp [sending, hcalls]) hr rfl hcur hnot rfl rfl rfl rfl
  · refine h.progress.quiet ⟨rfl, rfl, rfl, rfl, rfl, rfl⟩ rfl ?_ fun i x hx => ?_
    · simp [sending, hcalls]
    · rw [waiting_eq hr]
      exact hx

lemma progress_redirect (h : s.InUse myproc) (hcalls : s.calls = .checkHeader src id n :: cs)
    (hp : p ∈ s.recv_q src) (hne : p ≠ id) : (s.redirect src id p n cs).Progress := by
  have hid : id ∈ s.recv_q src := (h.call hcalls).1
  have hr : s.receiving = some (src, id) := by simp [receiving, hcalls]
  have hlist : ∀ x, x ≠ id → x ≠ p → (s.redirect src id p n cs).msg_list x = s.msg_list x := by
    intro x hxid hxp
    rw [show (s.redirect src id p n cs).msg_list x = _ from Function.update_of_ne hxp ..]
    exact Function.update_of_ne hxid ..
  refine h.progress_loop (frame_redirect h.handles hid hp) (by simp [sending, hcalls]) rfl
    (fun x _ => redirect_linked hp) (fun x _ hdest => ?_) fun i x hx => ?_
  · rw [hlist x]
    · rintro rfl
      exact hdest (h.handles.recvs src x hid).2
    · rintro rfl
      exact hdest (h.handles.recvs src x hp).2
  · have hr' : (s.redirect src id p n cs).receiving = some (src, id) := rfl
    rw [waiting_eq hr'] at hx
    rw [waiting_eq hr]
    split_ifs at hx ⊢ with hi
    · subst hi
      rw [show (s.redirect src id p n cs).recv_q src = _ from Function.update_self ..] at hx
      obtain ⟨hx', hxp⟩ := next_moved hne hid (h.queues.recvNodup src) hx
      rw [hlist x _ hxp]
      · exact ⟨hx', rfl⟩
      · rintro rfl
        exact not_mem_next_self (h.queues.recvNodup src) hx'
    · rw [show (s.redirect src id p n cs).recv_q i = _ from Function.update_of_ne (Ne.symm hi) ..] at hx
      refine ⟨hx, ?_⟩
      rw [hlist x]
      · rintro rfl
        exact hi ((h.queues.recvSrc src x hid).symm.trans (h.queues.recvSrc i x hx))
      · rintro rfl
        exact hi ((h.queues.recvSrc src x hp).symm.trans (h.queues.recvSrc i x hx))

lemma progress_pushUnexpected (h : s.InUse myproc) (hcalls : s.calls = .checkHeader src id n :: cs)
    (hnew : ¬ s.Linked new) (hfree : (s.msg_list new).buf = 0) :
    (s.pushUnexpected myproc src id new a n cs).Progress := by
  have hid : id ∈ s.recv_q src := (h.call hcalls).1
  have hr : s.receiving = some (src, id) := by simp [receiving, hcalls]
  have hr' : (s.pushUnexpected myproc src id new a n cs).receiving = some (src, id) := rfl
  have hf : Frame myproc s (s.pushUnexpected myproc src id new a n cs) :=
    frame_pushUnexpected h.handles hnew hid hfree
  have hne : new ≠ id := by
    rintro rfl
    exact hnew (.of_recv hid)
  have heq := @pushUnexpected_eq myproc s id cs src new a n hnew
  have hsend : (s.pushUnexpected myproc src id new a n cs).send_q = s.send_q := by rw [heq]
  have hrecv : (s.pushUnexpected myproc src id new a n cs).recv_q =
      Function.update s.recv_q src (new :: s.recv_q src) := by rw [heq]
  have hlist : ∀ x, x ≠ new → x ≠ id →
      (s.pushUnexpected myproc src id new a n cs).msg_list x = s.msg_list x := by
    intro x hxn hxid
    rw [heq]
    simp only [Function.update_of_ne hxn, Function.update_of_ne hxid]
  refine h.progress_loop hf (by simp [sending, hcalls]) hsend (fun x hm => ?_)
    (fun x hx hdest => ?_) fun i x hx => ?_
  · refine pushUnexpected_linked hnew ?_
    rintro rfl
    exact h.handles.inUse x hm hfree
  · rw [hlist x]
    · rintro rfl
      exact hnew hx
    · rintro rfl
      exact hdest (h.handles.recvs src x hid).2
  · have hx' : x ∈ s.waiting i := by
      rw [waiting_eq hr', hrecv] at hx
      rw [waiting_eq hr]
      split_ifs at hx ⊢ with hi
      · subst hi
        rwa [Function.update_self, next_cons hne] at hx
      · rwa [Function.update_of_ne (Ne.symm hi)] at hx
    refine ⟨hx', ?_⟩
    have hxn : x ≠ new := by
      rintro rfl
      exact hnew (.of_recv (waiting_subset hx'))
    rw [hlist x hxn (h.queues.waiting_ne hr hid hx')]

lemma progress_finishRecv (h : s.InUse myproc) (hcond : s.StopsClean)
    (hcalls : s.calls = .recvLoop src id m :: cs) (hstop : ¬ s.Continues id m) :
    (s.finishRecv src id stale cs).Progress := by
  have hid : id ∈ s.recv_q src := (h.call hcalls).1
  have hr : s.receiving = some (src, id) := by simp [receiving, hcalls]
  have hs : s.sending = none := by simp [sending, hcalls]
  have hf : Frame myproc s (s.finishRecv src id stale cs) := frame_finishRecv h.handles hid
  have hleaving := h.leaving_frame hf fun x _ => finishRecv_linked hid
  have hother : ∀ i, i ≠ src → ∀ x ∈ s.recv_q i, (s.msg_list x).nleft ≠ 0 := by
    intro i hi x hx
    refine h.progress.recvLeft i x ?_
    rwa [waiting_eq hr, if_neg hi.symm]
  have hmem : ∀ x ∈ next id (s.recv_q src) stale, (s.msg_list x).nleft ≠ 0 := by
    intro x hx
    refine h.progress.recvLeft src x ?_
    rw [next, if_pos hid] at hx
    rwa [waiting_eq hr, if_pos rfl, next, if_pos hid]
  have hall : (s.msg_list id).nleft ≠ 0 → ∀ i, ∀ x ∈ s.recv_q i, (s.msg_list x).nleft ≠ 0 := by
    intro hleft i x hx
    rcases eq_or_ne i src with rfl | hi
    · exact hcond i id m cs hcalls hstop hleft x hx
    · exact hother i hi x hx
  rw [Engine.finishRecv] at hleaving ⊢
  split_ifs at hleaving ⊢ with hpos hdone
  · refine ⟨h.sendLeft_frame hs rfl fun _ _ _ => rfl, fun i x hx => ?_, hleaving⟩
    have hx' := waiting_subset hx
    exact hall hpos.ne' i x hx'
  · refine ⟨h.sendLeft_frame hs rfl fun _ _ _ => rfl, fun i x hx => ?_, hleaving⟩
    rcases mem_update (waiting_subset hx) with ⟨rfl, hx'⟩ | ⟨hi, hx'⟩
    · exact hmem x hx'
    · exact hother i hi x hx'
  · refine ⟨h.sendLeft_frame hs rfl fun _ _ _ => rfl, fun i x hx => ?_, hleaving⟩
    rcases mem_update (waiting_subset hx) with ⟨rfl, hx'⟩ | ⟨hi, hx'⟩
    · exact hall hdone i x hx'
    · exact hall hdone i x hx'

end

lemma InUse.progress_step (h : s.InUse myproc) (hcond : s.QueuesKept nprocs)
    (hq : s'.Queues myproc) (hstep : Step nprocs maxMsgs myproc s s') : s'.Progress := by
  have hfresh : s.QueuesFresh nprocs maxMsgs := hcond.fresh h.linked
  have hquiet : ∀ {s' : Engine}, Quiet s s' → s'.user = s.user → s.sending = none →
      s.receiving = none → s'.Progress := by
    intro s' hq huser hs hr
    refine h.progress.quiet hq huser (by simp [hs]) fun i x hx => ?_
    exact waiting_of_none hx hr hq.recv_q
  cases hstep with
  | arrive =>
    exact h.progress.quiet ⟨rfl, rfl, rfl, rfl, rfl, rfl⟩ rfl (fun _ hx => hx) (fun _ _ hx => hx)
  | signal hcalls huser =>
    exact hquiet ⟨rfl, rfl, rfl, rfl, rfl, rfl⟩ rfl (by simp [sending, hcalls])
      (by simp [receiving, hcalls])
  | userSend id buf nbytes dest tag hcalls huser hbuf hdest hid =>
    exact progress_create h hcalls huser (hfresh.new id hid) ..
  | userRecv id buf nbytes src tag hcalls huser hbuf hsrc hid =>
    exact progress_create h hcalls huser (hfresh.new id hid) ..
  | wait id hcalls | waitNull id hcalls | waitPush id hcalls | waitSelf id hcalls
  | waitBlock id hcalls =>
    exact progress_user h hcalls ⟨rfl, rfl, rfl, rfl, rfl, rfl⟩ fun x c hx => by cases hx
  | waitDone id hcalls huser hdone | blockDone id hcalls huser hdone =>
    refine progress_user h hcalls ⟨rfl, rfl, rfl, rfl, rfl, rfl⟩ fun x c hx => ?_
    cases hx
    exact h.done_unlinked hcalls (h.handles.user id (by rw [huser]; rfl)) hdone
  | push id a hcalls huser ha => exact progress_push h hcalls
  | leave id c hcalls huser => exact progress_leave h hcalls
  | asend id cs hcalls => exact progress_asend h hcalls
  | sendToQ id a cs hcalls ha => exact progress_sendToQ h hcalls
  | arecvFound id cs t p stale hcalls hp => exact progress_arecvFound h hcond hcalls hp
  | arecvPost id cs hcalls hp => exact progress_postRecv h hcalls
  | selfFound id cs t p stale hcalls hp => exact progress_selfFound h hcond hcalls hp
  | selfEmpty id cs hcalls hsrc hp =>
    refine h.progress_idle (by simp [sending, hcalls]) (by simp [receiving, hcalls]) rfl rfl
      (fun _ _ => rfl) fun x c hx => ?_
    cases hx
    exact Or.inr (h.call hcalls).2.1
  | serviceSend node cs hcalls | serviceRecv node cs hcalls | peekNothing node cs hcalls
  | doSend dest id cs hcalls | doRecv src id cs hcalls =>
    exact hquiet ⟨rfl, rfl, rfl, rfl, rfl, rfl⟩ rfl (by simp [sending, hcalls])
      (by simp [receiving, hcalls])
  | peekFound node p cs hcalls hactive hsock hp hnbytes =>
    exact progress_peekFound h hcalls (List.mem_of_find?_eq_some hp) hnbytes
  | peekBuffer node new a cs hcalls hrecv hactive hsock hp hnbytes ha hnew =>
    exact progress_peekBuffer h hcalls (hfresh.new new hnew) (findEntry_free hnew) hnbytes
  | sendPass dest id m cat_nap k k' cs hcalls hgo => exact progress_sendPass h hcalls
  | finishSend dest id m cat_nap cs hcalls hstop => exact progress_finishSend h hcond.buffered hcalls
  | doRecvFound src id cs t p stale hcalls hid hhdr hflag hp =>
    exact progress_doRecvFound h hcond hcalls hid hhdr hflag hp hq
  | readHeader src id m cs hcalls hgo hhdr => exact progress_readHeader h hcalls
  | gotHeader src id m cs hcalls hgo hhdr =>
    have hr : s.receiving = some (src, id) := by simp [receiving, hcalls]
    refine h.progress.quiet ⟨rfl, rfl, rfl, rfl, rfl, rfl⟩ rfl (by simp [sending, hcalls])
      fun i x hx => ?_
    rw [waiting_eq hr]
    exact hx
  | matchHeader src id n cs hcalls hfits => exact progress_matchHeader h hcalls
  | redirect src id p n cs hcalls hfits hp =>
    refine progress_redirect h hcalls (List.mem_of_find?_eq_some hp) ?_
    rintro rfl
    exact hfits (by simpa using List.find?_some hp)
  | pushUnexpected src id new a n cs hcalls hfits hp hnbytes ha hnew =>
    exact progress_pushUnexpected h hcalls (hfresh.new new hnew) (findEntry_free hnew)
  | readBody src id cur n cs hcalls => exact progress_readBody h hcalls
  | finishRecv src id m stale cs hcalls hstop => exact progress_finishRecv h hcond.stops hcalls hstop

lemma InUse.step (h : s.InUse myproc) (hcond : s.QueuesKept nprocs) (hmy : 0 ≤ myproc)
    (hstep : Step nprocs maxMsgs myproc s s') : s'.InUse myproc :=
  have hsound : s'.Sound myproc := h.toSound.step (hcond.fresh h.linked) hmy hstep
  ⟨hsound, h.linked_step hcond hstep, h.progress_step hcond hsound.queues hstep⟩

lemma InUse.init (mem : ℕ → UInt8) : (init mem).InUse myproc := by
  refine ⟨.init mem, ?_, ?_, ?_, ?_⟩
  · exact linkedInUse_of_empty (fun _ => rfl) (fun _ => rfl) fun _ => rfl
  all_goals simp [Engine.init, waiting, receiving]

lemma InUse.of_run {mem : ℕ → UInt8} (hmy : 0 ≤ myproc)
    (h : Run nprocs maxMsgs myproc (QueuesKept nprocs) (Engine.init mem) s) : s.InUse myproc := by
  induction h with
  | refl => exact .init mem
  | tail _ hs ih => exact ih.step hs.2 hmy hs.1

/-- Let `do_recv` leave no complete message in a queue when it stops incomplete, headers name the
process they come from, no receive take a message to the process itself that is not waited for or an
unfinished one from behind the head of its queue, and no run of the signal handler finish a buffered
message that `MP_Wait` still reads. Then every entry in a queue is in use, and `create_msg_entry`
takes none of them. -/
theorem linked_in_use {myproc : ℕ} {mem : ℕ → UInt8}
    (h : Run nprocs maxMsgs myproc (QueuesKept nprocs) (Engine.init mem) s) :
    (∀ id, s.Linked id → (s.msg_list id).buf ≠ 0) ∧
    ∀ id, findEntry maxMsgs s.mid s.msg_list = some id → ¬ s.Linked id := by
  have hsound := InUse.of_run (Int.natCast_nonneg myproc) h
  exact ⟨hsound.linked, fun id hid hl => hsound.linked id hl (findEntry_free hid)⟩

/-- No loop runs and no message is looked for. -/
lemma QueuesKept.of_calls (hfound : s.found nprocs = none)
    (hcalls : ∀ c ∈ s.calls, ∃ id, c = .arecv id) : s.QueuesKept nprocs := by
  have hcall : ∀ {c : Call} {cs : List Call}, s.calls = c :: cs → ∃ id, c = .arecv id :=
    fun hc => hcalls _ (hc ▸ List.mem_cons_self ..)
  refine ⟨fun t p hp => ?_, fun dest id m c cs hc => ?_, fun t p hp => ?_,
    fun src id m cs hc => ?_, fun src id n cs hc => ?_⟩
  · simp [hfound] at hp
  · simpa using hcall hc
  · simp [hfound] at hp
  · simpa using hcall hc
  · simpa using hcall hc

/-- A receive from process 1 is posted. -/
theorem linked_in_use_posted : ∃ s : Engine,
    Run 2 10 (0 : ℕ) (QueuesKept 2) (Engine.init fun _ => 0) s ∧ 1 ∈ s.recv_q 1 ∧
      (s.msg_list 1).buf ≠ 0 := by
  let s₀ : Engine := Engine.init fun _ => 0
  let s₁ := (s₀.create 0 1 100 1 1 (-1) 1).start 1 [.arecv 1]
  let s₂ := s₁.postRecv 2 0 1 []
  have h₁ : Step 2 10 0 s₀ s₁ :=
    .userRecv s₀ 1 100 1 1 1 rfl rfl (by simp) ⟨by simp, by simp⟩ (by decide)
  have h₂ : Step 2 10 0 s₁ s₂ := .arecvPost s₁ 1 [] rfl (by decide)
  have hcond₀ : s₀.QueuesKept 2 := .of_calls (by decide) (by simp [s₀, Engine.init])
  have hcond₁ : s₁.QueuesKept 2 := .of_calls (by decide) (by simp [s₁, start])
  have hrun : Run 2 10 (0 : ℕ) (QueuesKept 2) s₀ s₂ :=
    (Relation.ReflTransGen.single ⟨h₁, hcond₀⟩).tail ⟨h₂, hcond₁⟩
  have hmem : 1 ∈ s₂.recv_q 1 := by decide
  exact ⟨s₂, hrun, hmem, (linked_in_use hrun).1 1 (.of_recv hmem)⟩

/-- Two receives from process 1 are posted, and nothing has come yet. -/
def twoReceives : Engine :=
  let s₁ := ((Engine.init fun _ => 0).create 0 1 100 1 1 (-1) 1).start 1 [.arecv 1]
  let s₂ := s₁.postRecv 2 0 1 []
  let s₃ : Engine := { s₂ with calls := [.recvLoop 1 1 1] }
  let s₄ := s₃.readHeader 1 1 []
  let s₅ := s₄.finishRecv 1 1 [] []
  let s₆ := (s₅.create 0 2 200 1 1 (-1) 2).start 2 [.arecv 2]
  s₆.postRecv 2 0 2 []

lemma reach_twoReceives :
    Relation.ReflTransGen (Step 2 10 0) (Engine.init fun _ => 0) twoReceives := by
  let s₀ : Engine := Engine.init fun _ => 0
  let s₁ := (s₀.create 0 1 100 1 1 (-1) 1).start 1 [.arecv 1]
  let s₂ := s₁.postRecv 2 0 1 []
  let s₃ : Engine := { s₂ with calls := [.recvLoop 1 1 1] }
  let s₄ := s₃.readHeader 1 1 []
  let s₅ := s₄.finishRecv 1 1 [] []
  let s₆ := (s₅.create 0 2 200 1 1 (-1) 2).start 2 [.arecv 2]
  have h₁ : Step 2 10 0 s₀ s₁ :=
    .userRecv s₀ 1 100 1 1 1 rfl rfl (by simp) ⟨by simp, by simp⟩ (by decide)
  have h₂ : Step 2 10 0 s₁ s₂ := .arecvPost s₁ 1 [] rfl (by decide)
  have h₃ : Step 2 10 0 s₂ s₃ := .doRecv s₂ 1 1 [] rfl (by decide) fun _ _ => by decide
  have h₄ : Step 2 10 0 s₃ s₄ := .readHeader s₃ 1 1 1 [] rfl (by decide) (by decide)
  have h₅ : Step 2 10 0 s₄ s₅ := .finishRecv s₄ 1 1 0 [] [] (by decide) (by decide)
  have h₆ : Step 2 10 0 s₅ s₆ :=
    .userRecv s₅ 2 200 1 1 2 (by decide) (by decide) (by simp) ⟨by simp, by simp⟩ (by decide)
  have h₇ : Step 2 10 0 s₆ twoReceives := .arecvPost s₆ 2 [] (by decide) (by decide)
  exact ((((((Relation.ReflTransGen.single h₁).tail h₂).tail h₃).tail h₄).tail h₅).tail h₆).tail h₇

/-- The message for the second receive comes, and the signal handler receives it. -/
def secondComplete : Engine :=
  let s₁ : Engine := { twoReceives with
    sock := Function.update twoReceives.sock 1 (twoReceives.sock 1 ++ (headerBytes 1 1 2 ++ [7]))
    arrived := Function.update twoReceives.arrived 1
      (twoReceives.arrived 1 ++ (headerBytes 1 1 2 ++ [7])) }
  let s₂ : Engine := { s₁ with calls := [.recvLoop 1 1 1, .peek 1] }
  let s₃ := s₂.readHeader 1 1 [.peek 1]
  let s₄ := s₃.redirect 1 1 2 24 [.peek 1]
  let s₅ := s₄.readBody 1 1 2 24 [.peek 1]
  let s₆ := s₅.readHeader 1 1 [.peek 1]
  let s₇ := s₆.finishRecv 1 1 [] [.peek 1]
  { s₇ with calls := [] }

lemma reach_secondComplete :
    Relation.ReflTransGen (Step 2 10 0) twoReceives secondComplete := by
  let s₁ : Engine := { twoReceives with
    sock := Function.update twoReceives.sock 1 (twoReceives.sock 1 ++ (headerBytes 1 1 2 ++ [7]))
    arrived := Function.update twoReceives.arrived 1
      (twoReceives.arrived 1 ++ (headerBytes 1 1 2 ++ [7])) }
  let s₂ : Engine := { s₁ with calls := [.serviceSend 1, .serviceRecv 1, .peek 1] }
  let s₃ : Engine := { s₁ with calls := [.serviceRecv 1, .peek 1] }
  let s₄ : Engine := { s₁ with calls := [.doRecv 1, .peek 1] }
  let s₅ : Engine := { s₁ with calls := [.recvLoop 1 1 1, .peek 1] }
  let s₆ := s₅.readHeader 1 1 [.peek 1]
  let s₇ := s₆.redirect 1 1 2 24 [.peek 1]
  let s₈ := s₇.readBody 1 1 2 24 [.peek 1]
  let s₉ := s₈.readHeader 1 1 [.peek 1]
  let s₁₀ := s₉.finishRecv 1 1 [] [.peek 1]
  have h₁ : Step 2 10 0 twoReceives s₁ := .arrive twoReceives 1 (headerBytes 1 1 2 ++ [7])
  have h₂ : Step 2 10 0 s₁ s₂ := .signal s₁ (by decide) (by decide)
  have h₃ : Step 2 10 0 s₂ s₃ := .serviceSend s₂ 1 [.serviceRecv 1, .peek 1] rfl
  have h₄ : Step 2 10 0 s₃ s₄ := .serviceRecv s₃ 1 [.peek 1] rfl
  have h₅ : Step 2 10 0 s₄ s₅ :=
    .doRecv s₄ 1 1 [.peek 1] rfl (by decide) fun _ _ => by decide
  have h₆ : Step 2 10 0 s₅ s₆ := .readHeader s₅ 1 1 1 [.peek 1] rfl (by decide) (by decide)
  have h₇ : Step 2 10 0 s₆ s₇ := .redirect s₆ 1 1 2 24 [.peek 1] (by decide) (by decide) (by decide)
  have h₈ : Step 2 10 0 s₇ s₈ := .readBody s₇ 1 1 2 24 [.peek 1] rfl
  have h₉ : Step 2 10 0 s₈ s₉ :=
    .readHeader s₈ 1 1 1 [.peek 1] (by decide) (by decide) (by decide)
  have h₁₀ : Step 2 10 0 s₉ s₁₀ := .finishRecv s₉ 1 1 0 [] [.peek 1] (by decide) (by decide)
  have h₁₁ : Step 2 10 0 s₁₀ secondComplete := .peekNothing s₁₀ 1 [] (by decide) (Or.inl (by decide))
  exact ((((((((((Relation.ReflTransGen.single h₁).tail h₂).tail h₃).tail h₄).tail h₅).tail h₆).tail
    h₇).tail h₈).tail h₉).tail h₁₀).tail h₁₁

/-- The second receive is complete while the loop waits for the first one, and stays at the head of
the queue. `MP_Wait` marks its entry as free. -/
theorem linked_in_use_fails : ∃ s : Engine,
    Run 2 10 0 (fun _ => True) (Engine.init fun _ => 0) s ∧ s.calls = [] ∧ s.Linked 2 ∧
      (s.msg_list 2).buf = 0 := by
  let s₁ : Engine := { secondComplete with user := .testing 2 }
  let s₂ : Engine := { s₁ with user := .leaving 2 true }
  let s₃ := s₂.leaveWait 2
  have h₁ : Step 2 10 0 secondComplete s₁ :=
    .wait secondComplete 2 rfl (by decide) (by decide) (by decide)
  have h₂ : Step 2 10 0 s₁ s₂ := .waitDone s₁ 2 rfl rfl (by decide)
  have h₃ : Step 2 10 0 s₂ s₃ := .leave s₂ 2 true rfl rfl
  have hrun : Relation.ReflTransGen (Step 2 10 0) (Engine.init fun _ => 0) s₃ :=
    (((reach_twoReceives.trans reach_secondComplete).tail h₁).tail h₂).tail h₃
  exact ⟨s₃, hrun.lift (fun s => s) fun _ _ h => ⟨h, trivial⟩, by decide, ⟨1, by decide⟩, by decide⟩

end Engine

end NetPipe.MpLite
