import NetPipe.MpLite.Engine

/-!
# Entries that the user has not waited for

`MP_Wait`, `do_send` and `recv_from_q` mark entries as free. The entry of a message that the user has
not waited for stays in use, unless a receive takes a message of the process to itself or the signal
handler finishes a buffered send too early.
-/

namespace NetPipe.MpLite

/-- An entry that was set up by `MP_ARecv`, `check_header` or the signal handler. -/
def MsgEntry.IsRecv (myproc : ℤ) (msg : MsgEntry) : Prop := msg.send_flag = 0 ∧ msg.dest = myproc

/-- The entry that the user waits for. -/
def WaitPoint.entry : WaitPoint → Option ℕ
  | .testing id | .pushing id | .blocking id | .receiving id | .leaving id _ => some id
  | .outside | .aborted => none

/-- A call of the loops of the signal handler. -/
def Call.IsService : Call → Prop
  | .serviceSend _ | .serviceRecv _ | .peek _ => True
  | _ => False

namespace Engine

/-- The message of `msg_q` that the next call finds. -/
def found (nprocs : ℕ) (s : Engine) : Option (ℤ × ℕ) :=
  match s.calls with
  | .arecv id :: _ | .recvFromSelf id :: _ => findBuffered nprocs s (s.msg_list id)
  | .doRecv src :: _ =>
    (s.recv_q src).head?.bind fun id =>
      if (s.msg_list id).nhdr ≠ 0 ∧ (s.msg_list id).recv_flag ≠ 2 then
        findBuffered nprocs s (s.msg_list id)
      else none
  | _ => none

/-- No entry in a queue is marked as free. -/
def LinkedInUse (s : Engine) : Prop := ∀ id, s.Linked id → (s.msg_list id).buf ≠ 0

/-- No receive takes a message that the process has sent to itself and not waited for. -/
def SelfSendsAwaited (nprocs : ℕ) (s : Engine) : Prop :=
  ∀ t p, s.found nprocs = some (t, p) → p ∉ s.handles.map Prod.fst

/-- `do_send` does not finish a buffered message while `MP_Wait` still reads its entry. -/
def BufferedLeft (s : Engine) : Prop :=
  ∀ dest id m cat_nap cs, s.calls = .sendLoop dest id m cat_nap :: cs →
    (s.msg_list id).nleft ≤ 0 → (s.msg_list id).send_flag = 3 → ∀ c, s.user ≠ .leaving id c

/-- A message of `msg_q` that is found before it is complete is at the head of `recv_q`, and the
receive is new. -/
def UnfinishedFirst (nprocs : ℕ) (s : Engine) : Prop :=
  ∀ t p, s.found nprocs = some (t, p) → (s.msg_list p).nleft ≠ 0 →
    (s.recv_q t).head? = some p ∧ ∃ id cs, s.calls = .arecv id :: cs

/-- What is known of the entry of a call. -/
def CallOk (myproc : ℤ) (s : Engine) : Call → Prop
  | .arecv id => (s.msg_list id).IsRecv myproc
  | .recvLoop src id _ | .checkHeader src id _ => id ∈ s.recv_q src
  | .readBody src id cur _ => id ∈ s.recv_q src ∧ cur ∈ s.recv_q src
  | .asend id => (s.msg_list id).send_flag = 1 ∧ (s.msg_list id).dest ≠ myproc
  | .sendToQ id => (s.msg_list id).send_flag = 1 ∧ (s.msg_list id).dest = myproc ∧
    s.user = .outside
  | .recvFromSelf id => (s.msg_list id).IsRecv myproc ∧ s.user = .receiving id
  | .sendLoop dest id _ _ => (s.send_q dest).head? = some id
  | _ => True

/-- The next call is right, and only those of the signal handler are left after it. -/
def CallsOk (myproc : ℤ) (s : Engine) : List Call → Prop
  | [] => True
  | c :: cs => s.CallOk myproc c ∧ ∀ c' ∈ cs, c'.IsService

/-- The invariant of the messages that the user has not waited for. -/
structure HandleInv (myproc : ℤ) (s : Engine) : Prop where
  gen : ∀ x ∈ s.handles, s.gen x.1 = x.2
  inUse : ∀ id ∈ s.handles.map Prod.fst, (s.msg_list id).buf ≠ 0
  nodup : (s.handles.map Prod.fst).Nodup
  user : ∀ id, s.user.entry = some id → id ∈ s.handles.map Prod.fst
  pushing : ∀ id, s.user = .pushing id → (s.msg_list id).send_flag = 1
  flags : ∀ id ∈ s.handles.map Prod.fst, (s.msg_list id).IsRecv myproc ∨
    (s.msg_list id).send_flag = 1 ∨ (s.msg_list id).send_flag = 3
  /-- a send that do_send will mark as free: `MP_Wait` is about to end -/
  pushed : ∀ id ∈ s.handles.map Prod.fst, (s.msg_list id).send_flag = 3 →
    (s.msg_list id).dest = myproc ∧ (s.msg_list id).nleft = 0 ∨ ∃ c, s.user = .leaving id c
  sends : ∀ i, ∀ id ∈ s.send_q i, (s.msg_list id).dest = i ∧ i ≠ myproc
  recvs : ∀ i, ∀ id ∈ s.recv_q i, (s.msg_list id).IsRecv myproc
  calls : s.CallsOk myproc s.calls

variable {nprocs maxMsgs : ℕ} {myproc : ℤ} {s s' : Engine} {id : ℕ} {cs : List Call}

/-! ### Queues -/

lemma Linked.of_send {i : ℤ} (h : id ∈ s.send_q i) : s.Linked id := ⟨i, Or.inl h⟩

lemma Linked.of_recv {i : ℤ} (h : id ∈ s.recv_q i) : s.Linked id := ⟨i, Or.inr (Or.inl h)⟩

lemma Linked.of_msg {i : ℤ} (h : id ∈ s.msg_q i) : s.Linked id := ⟨i, Or.inr (Or.inr h)⟩

/-- The queue `i` changes. -/
lemma mem_update {q : ℤ → List ℕ} {l : List ℕ} {i j : ℤ} {x : ℕ}
    (h : x ∈ Function.update q i l j) : j = i ∧ x ∈ l ∨ j ≠ i ∧ x ∈ q j := by
  rcases eq_or_ne j i with rfl | hne
  · rw [Function.update_self] at h
    exact Or.inl ⟨rfl, h⟩
  · rw [Function.update_of_ne hne] at h
    exact Or.inr ⟨hne, h⟩

lemma mem_update_self {q : ℤ → List ℕ} {l : List ℕ} {i : ℤ} {x : ℕ} (h : x ∈ l) :
    x ∈ Function.update q i l i := by
  rwa [Function.update_self]

lemma mem_next {x : ℕ} {l stale : List ℕ} (hid : id ∈ l) (hx : x ∈ next id l stale) : x ∈ l := by
  rw [next, if_pos hid] at hx
  exact List.dropWhile_subset _ (List.mem_of_mem_tail hx)

lemma next_head {l stale : List ℕ} (h : l.head? = some id) : next id l stale = l.tail := by
  obtain ⟨l', rfl⟩ := List.head?_eq_some_iff.mp h
  simp [next]

lemma findBuffered_mem {msg : MsgEntry} {t : ℤ} {p : ℕ}
    (h : findBuffered nprocs s msg = some (t, p)) : p ∈ s.msg_q t := by
  obtain ⟨i, -, hi⟩ := List.exists_of_findSome?_eq_some h
  obtain ⟨p', hp', heq⟩ := Option.map_eq_some_iff.mp hi
  rw [Prod.mk.injEq] at heq
  obtain ⟨rfl, rfl⟩ := heq
  exact List.mem_of_find?_eq_some hp'

/-! ### New entries -/

lemma cut_of_not_mem {l : List ℕ} (h : id ∉ l) : cut id l = l := if_neg h

/-- Setting up an entry that is in no queue leaves the queues as they are. -/
lemma create_eq (hid : ¬ s.Linked id) (buf : ℕ) (nbytes src dest tag : ℤ) : s.create myproc id buf nbytes src dest tag =
      { s with
        msg_list := Function.update s.msg_list id (.create myproc buf nbytes src dest tag)
        mid := id
        gen := Function.update s.gen id (s.gen id + 1) } := by
  have hsend : (fun i => cut id (s.send_q i)) = s.send_q :=
    funext fun i => cut_of_not_mem fun hi => hid (.of_send hi)
  have hrecv : (fun i => cut id (s.recv_q i)) = s.recv_q :=
    funext fun i => cut_of_not_mem fun hi => hid (.of_recv hi)
  have hmsg : (fun i => cut id (s.msg_q i)) = s.msg_q :=
    funext fun i => cut_of_not_mem fun hi => hid (.of_msg hi)
  rw [create, hsend, hrecv, hmsg]

lemma pushUnexpected_eq {src : ℤ} {new a n : ℕ} (hnew : ¬ s.Linked new) :
    s.pushUnexpected myproc src id new a n cs =
      let h := parseHeader (s.hdr src)
      { s with
        msg_list := Function.update (Function.update s.msg_list id (s.msg_list id).resetHeader) new
          (MsgEntry.create myproc a h.nbytes h.src (-1) h.tag).skipHeader
        mid := new
        gen := Function.update s.gen new (s.gen new + 1)
        recv_q := Function.update s.recv_q src (new :: s.recv_q src)
        msg_q := Function.update s.msg_q h.src (s.msg_q h.src ++ [new])
        trace := Function.update s.trace src
          (s.trace src ++ [.buffered (new, s.gen new + 1) h])
        calls := .readBody src id new n :: cs } := by
  have hnew' : ¬ (s.setEntry id (s.msg_list id).resetHeader).Linked new := hnew
  simp only [pushUnexpected, create_eq hnew']
  simp only [setEntry, name, Function.update_self, Function.update_idem]

lemma bufferAnySource_eq {node : ℤ} {new a : ℕ} {h : Header} (hnew : ¬ s.Linked new) :
    s.bufferAnySource myproc node new a h cs =
      { s with
        msg_list := Function.update s.msg_list new
          { MsgEntry.create myproc a h.nbytes node (-1) h.tag with recv_flag := 2 }
        mid := new
        gen := Function.update s.gen new (s.gen new + 1)
        msg_q := Function.update s.msg_q node (s.msg_q node ++ [new])
        recv_q := Function.update s.recv_q node (s.recv_q node ++ [new])
        calls := .doRecv node :: .peek node :: cs } := by
  simp only [bufferAnySource, create_eq hnew]
  simp only [setEntry, Function.update_self, Function.update_idem]

lemma create_isRecv (buf : ℕ) (nbytes src tag : ℤ) :
    (MsgEntry.create myproc buf nbytes src (-1) tag).IsRecv myproc := ⟨rfl, rfl⟩

lemma create_send_flag {dest : ℤ} (hdest : 0 ≤ dest) (buf : ℕ) (nbytes src tag : ℤ) :
    (MsgEntry.create myproc buf nbytes src dest tag).send_flag = 1 := by
  rw [MsgEntry.create, if_neg (not_lt.mpr hdest)]

lemma create_dest {dest : ℤ} (hdest : 0 ≤ dest) (buf : ℕ) (nbytes src tag : ℤ) :
    (MsgEntry.create myproc buf nbytes src dest tag).dest = dest := by
  rw [MsgEntry.create, if_neg (not_lt.mpr hdest)]

lemma create_buf (buf : ℕ) (nbytes src dest tag : ℤ) :
    (MsgEntry.create myproc buf nbytes src dest tag).buf = buf := by
  rw [MsgEntry.create]
  split_ifs <;> rfl

/-! ### Entries -/

/-- What the functions of the engine leave as it is in an entry. -/
structure Kept (myproc : ℤ) (msg msg' : MsgEntry) : Prop where
  buf : msg'.buf = msg.buf
  flag : msg'.send_flag = msg.send_flag
  dest : msg'.dest = msg.dest
  /-- a message of the process to itself that was put into `msg_q` is complete -/
  nleft : msg.send_flag = 3 → msg.dest = myproc → msg'.nleft = msg.nleft

namespace Kept

variable {msg msg' msg'' : MsgEntry}

lemma refl (msg : MsgEntry) : Kept myproc msg msg := ⟨rfl, rfl, rfl, fun _ _ => rfl⟩

lemma trans (h : Kept myproc msg msg') (h' : Kept myproc msg' msg'') : Kept myproc msg msg'' :=
  ⟨h'.buf.trans h.buf, h'.flag.trans h.flag, h'.dest.trans h.dest, fun h3 hd =>
    (h'.nleft (h.flag.trans h3) (h.dest.trans hd)).trans (h.nleft h3 hd)⟩

lemma isRecv (h : Kept myproc msg msg') (hr : msg.IsRecv myproc) : msg'.IsRecv myproc :=
  ⟨h.flag.trans hr.1, h.dest.trans hr.2⟩

/-- The counters of a receive may change. -/
lemma of_isRecv (hr : msg.IsRecv myproc) (hbuf : msg'.buf = msg.buf)
    (hflag : msg'.send_flag = msg.send_flag) (hdest : msg'.dest = msg.dest) :
    Kept myproc msg msg' :=
  ⟨hbuf, hflag, hdest, fun h3 _ => absurd (hr.1.symm.trans h3) (by simp)⟩

/-- The counters of a message to another process may change. -/
lemma of_dest (hne : msg.dest ≠ myproc) (hbuf : msg'.buf = msg.buf)
    (hflag : msg'.send_flag = msg.send_flag) (hdest : msg'.dest = msg.dest) :
    Kept myproc msg msg' :=
  ⟨hbuf, hflag, hdest, fun _ hd => absurd hd hne⟩

lemma updateProgress (hr : msg.IsRecv myproc) (n : ℕ) : Kept myproc msg (msg.updateProgress n) := by
  apply of_isRecv hr <;> simp

lemma takeOver (hr : msg.IsRecv myproc) (tsrc : ℤ) (p : MsgEntry) :
    Kept myproc msg (msg.takeOver tsrc p) := by
  apply of_isRecv hr <;> rw [MsgEntry.takeOver] <;> split_ifs <;> rfl

/-- The entry `id` changes. -/
lemma update {f : ℕ → MsgEntry} (h : Kept myproc (f id) msg) (x : ℕ) :
    Kept myproc (f x) (Function.update f id msg x) := by
  rcases eq_or_ne x id with rfl | hne
  · rw [Function.update_self]
    exact h
  · rw [Function.update_of_ne hne]
    exact refl _

end Kept

/-- A step that keeps the messages that the user has not waited for. -/
structure Frame (myproc : ℤ) (s s' : Engine) : Prop where
  handles : s'.handles = s.handles
  user : s'.user = s.user
  gen : ∀ id ∈ s.handles.map Prod.fst, s'.gen id = s.gen id
  entries : ∀ id ∈ s.handles.map Prod.fst, Kept myproc (s.msg_list id) (s'.msg_list id)
  sends : ∀ i, ∀ id ∈ s'.send_q i, (s'.msg_list id).dest = i ∧ i ≠ myproc
  recvs : ∀ i, ∀ id ∈ s'.recv_q i, (s'.msg_list id).IsRecv myproc

lemma HandleInv.frame (h : s.HandleInv myproc) (hf : Frame myproc s s')
    (hcalls : s'.CallsOk myproc s'.calls) : s'.HandleInv myproc := by
  obtain ⟨hhandles, huser, hgen, hentries, hsends, hrecvs⟩ := hf
  refine ⟨?_, ?_, ?_, ?_, ?_, ?_, ?_, hsends, hrecvs, hcalls⟩ <;> try rw [hhandles]
  · intro x hx
    rw [hgen x.1 (List.mem_map_of_mem hx)]
    exact h.gen x hx
  · intro id hid
    rw [(hentries id hid).buf]
    exact h.inUse id hid
  · exact h.nodup
  · rw [huser]
    exact h.user
  · rw [huser]
    intro id hid
    rw [(hentries id (h.user id (by rw [hid]; rfl))).flag]
    exact h.pushing id hid
  · intro id hid
    rw [(hentries id hid).flag]
    exact (h.flags id hid).imp_left (hentries id hid).isRecv
  · intro id hid h3
    rw [(hentries id hid).flag] at h3
    rw [huser, (hentries id hid).dest]
    refine (h.pushed id hid h3).imp_left fun hself => ⟨hself.1, ?_⟩
    rw [(hentries id hid).nleft h3 hself.1]
    exact hself.2

lemma Frame.setCalls (h : Frame myproc s s') (cs : List Call) :
    Frame myproc s { s' with calls := cs } :=
  ⟨h.handles, h.user, h.gen, h.entries, h.sends, h.recvs⟩

/-- A step that keeps all entries. -/
lemma HandleInv.frame_of_kept (h : s.HandleInv myproc) (hhandles : s'.handles = s.handles)
    (huser : s'.user = s.user) (hgen : s'.gen = s.gen) (hsend : s'.send_q = s.send_q)
    (hentries : ∀ id, Kept myproc (s.msg_list id) (s'.msg_list id))
    (hrecvs : ∀ i, ∀ id ∈ s'.recv_q i, (s.msg_list id).IsRecv myproc) : Frame myproc s s' := by
  refine ⟨hhandles, huser, fun id _ => congrFun hgen id, fun id _ => hentries id, ?_,
    fun i id hid => (hentries id).isRecv (hrecvs i id hid)⟩
  rw [hsend]
  intro i id hid
  rw [(hentries id).dest]
  exact h.sends i id hid

/-! ### The next call -/

lemma callsOk_of_service (h : ∀ c ∈ cs, c.IsService) : s.CallsOk myproc cs := by
  cases cs with
  | nil => trivial
  | cons c cs =>
    refine ⟨?_, fun c' hc' => h c' (List.mem_cons_of_mem _ hc')⟩
    have hc := h c (List.mem_cons_self ..)
    cases c <;> trivial

lemma service_handlerCalls (nprocs : ℕ) (myproc : ℤ) :
    ∀ c ∈ handlerCalls nprocs myproc, c.IsService := by
  intro c hc
  simp only [handlerCalls, List.mem_append, List.mem_map] at hc
  rcases hc with (⟨_, -, rfl⟩ | ⟨_, -, rfl⟩) | ⟨_, -, rfl⟩ <;> trivial

lemma callsOk_ite {b : Prop} [Decidable b] {cs' : List Call} (h : b → s.CallsOk myproc cs)
    (h' : ¬ b → s.CallsOk myproc cs') : s.CallsOk myproc (if b then cs else cs') := by
  split_ifs with hb
  · exact h hb
  · exact h' hb

lemma HandleInv.head (h : s.HandleInv myproc) {c : Call} (hc : s.calls = c :: cs) :
    s.CallOk myproc c ∧ ∀ c' ∈ cs, c'.IsService := by
  have hok := h.calls
  rw [hc] at hok
  exact hok

lemma callsOk_nil (h : cs = []) : s.CallsOk myproc cs := by
  rw [h]
  trivial

/-- A step that changes neither entries nor queues. -/
structure Quiet (s s' : Engine) : Prop where
  msg_list : s'.msg_list = s.msg_list
  handles : s'.handles = s.handles
  gen : s'.gen = s.gen
  send_q : s'.send_q = s.send_q
  recv_q : s'.recv_q = s.recv_q
  msg_q : s'.msg_q = s.msg_q

lemma HandleInv.quiet (h : s.HandleInv myproc) (hq : Quiet s s') (huser : s'.user = s.user)
    (hcalls : s'.CallsOk myproc s'.calls) : s'.HandleInv myproc := by
  refine h.frame (h.frame_of_kept hq.handles huser hq.gen hq.send_q (fun id => ?_) ?_) hcalls
  · rw [hq.msg_list]
    exact .refl _
  · rw [hq.recv_q]
    exact h.recvs

/-- `MP_Wait` goes on. -/
lemma HandleInv.setUser (h : s.HandleInv myproc) (hq : Quiet s s')
    (huser : ∀ id, s'.user.entry = some id → id ∈ s.handles.map Prod.fst)
    (hpushing : ∀ id, s'.user = .pushing id → (s.msg_list id).send_flag = 1)
    (hleave : ∀ id c, s.user ≠ .leaving id c) (hcalls : s'.CallsOk myproc s'.calls) :
    s'.HandleInv myproc := by
  obtain ⟨hmsg, hhandles, hgen, hsend, hrecv, -⟩ := hq
  refine ⟨?_, ?_, ?_, ?_, ?_, ?_, ?_, ?_, ?_, hcalls⟩
  · rw [hhandles, hgen]
    exact h.gen
  · rw [hhandles, hmsg]
    exact h.inUse
  · rw [hhandles]
    exact h.nodup
  · rw [hhandles]
    exact huser
  · rw [hmsg]
    exact hpushing
  · rw [hhandles, hmsg]
    exact h.flags
  · rw [hhandles, hmsg]
    intro id hid h3
    rcases h.pushed id hid h3 with hself | ⟨c, hc⟩
    · exact Or.inl hself
    · exact absurd hc (hleave id c)
  · rw [hsend, hmsg]
    exact h.sends
  · rw [hrecv, hmsg]
    exact h.recvs

/-- `MP_Wait` goes on for the same message. -/
lemma HandleInv.goOn (h : s.HandleInv myproc) (hq : Quiet s s')
    (huser : s'.user.entry = s.user.entry)
    (hpushing : ∀ id, s'.user = .pushing id → (s.msg_list id).send_flag = 1)
    (hleave : ∀ id c, s.user ≠ .leaving id c) (hcalls : s'.CallsOk myproc s'.calls) :
    s'.HandleInv myproc :=
  h.setUser hq (fun id hid => h.user id (huser.symm.trans hid)) hpushing hleave hcalls

/-! ### Receives -/

section

variable {src node : ℤ} {p n a new : ℕ} {stale : List ℕ}

lemma frame_readHeader (h : s.HandleInv myproc) (hid : id ∈ s.recv_q src) :
    Frame myproc s (s.readHeader src id cs) :=
  h.frame_of_kept rfl rfl rfl rfl (Kept.update (.updateProgress (h.recvs src id hid) _)) h.recvs

lemma frame_matchHeader (h : s.HandleInv myproc) (hid : id ∈ s.recv_q src) :
    Frame myproc s (s.matchHeader src id n cs) :=
  h.frame_of_kept rfl rfl rfl rfl (Kept.update (.of_isRecv (h.recvs src id hid) rfl rfl rfl))
    h.recvs

/-- A queue of receives changes. -/
lemma HandleInv.recvs_update (h : s.HandleInv myproc) {l : List ℕ}
    (hl : ∀ x ∈ l, (s.msg_list x).IsRecv myproc) (i : ℤ) :
    ∀ x ∈ Function.update s.recv_q src l i, (s.msg_list x).IsRecv myproc := by
  intro x hx
  rcases mem_update hx with ⟨-, hx⟩ | ⟨-, hx⟩
  · exact hl x hx
  · exact h.recvs i x hx

lemma frame_redirect (h : s.HandleInv myproc) (hid : id ∈ s.recv_q src) (hp : p ∈ s.recv_q src) :
    Frame myproc s (s.redirect src id p n cs) := by
  have hrecv : ∀ x ∈ p :: (s.recv_q src).erase p, (s.msg_list x).IsRecv myproc := by
    intro x hx
    rcases List.mem_cons.mp hx with rfl | hx
    · exact h.recvs src x hp
    · exact h.recvs src x (List.mem_of_mem_erase hx)
  have hreset : ∀ x, Kept myproc (s.msg_list x)
      ((s.setEntry id (s.msg_list id).resetHeader).msg_list x) :=
    Kept.update (.of_isRecv (h.recvs src id hid) rfl rfl rfl)
  refine h.frame_of_kept rfl rfl rfl rfl (fun x => (hreset x).trans ?_) (h.recvs_update hrecv)
  have hskip : ∀ {msg : MsgEntry}, msg.IsRecv myproc → Kept myproc msg msg.skipHeader :=
    fun hr => .of_isRecv hr rfl rfl rfl
  exact Kept.update (hskip ((hreset p).isRecv (h.recvs src p hp))) x

lemma frame_readBody (h : s.HandleInv myproc) {cur : ℕ} (hcur : cur ∈ s.recv_q src) :
    Frame myproc s (s.readBody src id cur n cs) := by
  rw [readBody]
  split_ifs
  · exact h.frame_of_kept rfl rfl rfl rfl (Kept.update (.updateProgress (h.recvs src cur hcur) _))
      h.recvs
  · exact h.frame_of_kept rfl rfl rfl rfl (fun _ => .refl _) h.recvs

lemma frame_finishRecv (h : s.HandleInv myproc) (hid : id ∈ s.recv_q src) :
    Frame myproc s (s.finishRecv src id stale cs) := by
  rw [finishRecv]
  split_ifs
  · exact h.frame_of_kept rfl rfl rfl rfl (fun _ => .refl _) h.recvs
  all_goals
    refine h.frame_of_kept rfl rfl rfl rfl (fun _ => .refl _) (h.recvs_update ?_)
    first
    | exact fun x hx => h.recvs src x (mem_next hid hx)
    | exact h.recvs src

lemma frame_postRecv (h : s.HandleInv myproc) (hid : (s.msg_list id).IsRecv myproc) :
    Frame myproc s (s.postRecv nprocs myproc id cs) := by
  refine h.frame_of_kept rfl rfl rfl rfl (fun _ => .refl _) (h.recvs_update fun x hx => ?_)
  rcases List.mem_append.mp hx with hx | hx
  · exact h.recvs _ x hx
  · rw [List.mem_singleton.mp hx]
    exact hid

lemma frame_takeAnySource (h : s.HandleInv myproc) {hd : Header} (hp : p ∈ s.recv_q (-1)) :
    Frame myproc s (s.takeAnySource node p hd cs) := by
  refine h.frame_of_kept rfl rfl rfl rfl
    (Kept.update (.of_isRecv (h.recvs _ p hp) rfl rfl rfl)) fun i x hx => ?_
  rcases mem_update hx with ⟨-, hx⟩ | ⟨-, hx⟩
  · rcases List.mem_cons.mp hx with rfl | hx
    · exact h.recvs _ x hp
    · exact h.recvs node x hx
  · exact h.recvs_update (fun y hy => h.recvs _ y (List.mem_of_mem_erase hy)) i x hx

lemma not_handle (h : s.HandleInv myproc) (hid : (s.msg_list id).buf = 0) :
    id ∉ s.handles.map Prod.fst := fun hmem => h.inUse id hmem hid

/-- A free entry is set up for a receive. -/
lemma HandleInv.frame_fresh (h : s.HandleInv myproc) {f : ℕ → MsgEntry} {msg : MsgEntry}
    (hhandles : s'.handles = s.handles) (huser : s'.user = s.user) (hsend : s'.send_q = s.send_q)
    (hgen : s'.gen = Function.update s.gen new (s.gen new + 1))
    (hlist : s'.msg_list = Function.update f new msg) (hnew : ¬ s.Linked new)
    (hfree : (s.msg_list new).buf = 0) (hf : ∀ id, Kept myproc (s.msg_list id) (f id))
    (hmsg : msg.IsRecv myproc) (hrecvs : ∀ i, ∀ id ∈ s'.recv_q i, id ≠ new → id ∈ s.recv_q i) :
    Frame myproc s s' := by
  have hne : ∀ id ∈ s.handles.map Prod.fst, id ≠ new := fun id hid heq =>
    not_handle h hfree (heq ▸ hid)
  have hentries : ∀ id ≠ new, Kept myproc (s.msg_list id) (s'.msg_list id) := by
    intro id hid
    rw [hlist, Function.update_of_ne hid]
    exact hf id
  refine ⟨hhandles, huser, fun id hid => ?_, fun id hid => hentries id (hne id hid), ?_,
    fun i id hid => ?_⟩
  · rw [hgen, Function.update_of_ne (hne id hid)]
  · rw [hsend]
    intro i id hid
    have hid' : id ≠ new := fun heq => hnew (heq ▸ .of_send hid)
    rw [(hentries id hid').dest]
    exact h.sends i id hid
  · rcases eq_or_ne id new with rfl | hid'
    · rw [hlist, Function.update_self]
      exact hmsg
    · exact (hentries id hid').isRecv (h.recvs i id (hrecvs i id hid hid'))

lemma frame_pushUnexpected (h : s.HandleInv myproc) (hnew : ¬ s.Linked new)
    (hid : id ∈ s.recv_q src) (hfree : (s.msg_list new).buf = 0) :
    Frame myproc s (s.pushUnexpected myproc src id new a n cs) := by
  rw [pushUnexpected_eq hnew]
  refine h.frame_fresh rfl rfl rfl rfl rfl hnew hfree
    (Kept.update (.of_isRecv (h.recvs src id hid) rfl rfl rfl)) ⟨rfl, rfl⟩ fun i x hx hne => ?_
  rcases mem_update hx with ⟨rfl, hx⟩ | ⟨-, hx⟩
  · exact (List.mem_cons.mp hx).resolve_left hne
  · exact hx

lemma frame_bufferAnySource (h : s.HandleInv myproc) (hnew : ¬ s.Linked new) {hd : Header}
    (hfree : (s.msg_list new).buf = 0) :
    Frame myproc s (s.bufferAnySource myproc node new a hd cs) := by
  rw [bufferAnySource_eq hnew]
  refine h.frame_fresh rfl rfl rfl rfl rfl hnew hfree (fun _ => .refl _) ⟨rfl, rfl⟩
    fun i x hx hne => ?_
  rcases mem_update hx with ⟨rfl, hx⟩ | ⟨-, hx⟩
  · exact (List.mem_append.mp hx).resolve_right fun hx => hne (List.mem_singleton.mp hx)
  · exact hx

lemma takeBuffered_msg_list (s : Engine) (id : ℕ) (t : ℤ) (p : ℕ) (stale : List ℕ) :
    (s.takeBuffered id t p stale).msg_list =
      Function.update (Function.update s.msg_list id ((s.msg_list id).takeOver t (s.msg_list p))) p
        { s.msg_list p with buf := 0 } := rfl

/-- A receive takes a message of `msg_q`. If it is not complete, it is at the head of `recv_q`. -/
lemma frame_takeBuffered (h : s.HandleInv myproc) {t : ℤ} (hid : (s.msg_list id).IsRecv myproc)
    (hp : p ∉ s.handles.map Prod.fst)
    (hfirst : (s.msg_list p).nleft ≠ 0 → (s.recv_q t).head? = some p) :
    Frame myproc s (s.takeBuffered id t p stale) := by
  have hid' : ∀ x, Kept myproc (s.msg_list x)
      (Function.update s.msg_list id ((s.msg_list id).takeOver t (s.msg_list p)) x) :=
    Kept.update (.takeOver hid t _)
  have hentries : ∀ x ≠ p, Kept myproc (s.msg_list x) ((s.takeBuffered id t p stale).msg_list x) := by
    intro x hx
    rw [takeBuffered_msg_list, Function.update_of_ne hx]
    exact hid' x
  have hfree : (s.takeBuffered id t p stale).msg_list p = { s.msg_list p with buf := 0 } :=
    Function.update_self ..
  refine ⟨rfl, rfl, fun _ _ => rfl, fun x hx => hentries x fun heq => hp (heq ▸ hx),
    fun i x hx => ?_, fun i x hx => ?_⟩
  · have hx' := h.sends i x hx
    rcases eq_or_ne x p with rfl | hne
    · rw [hfree]
      exact hx'
    · rw [(hentries x hne).dest]
      exact hx'
  · have hx' : (s.msg_list x).IsRecv myproc := by
      by_cases hleft : (s.msg_list p).nleft = 0
      · rw [show (s.takeBuffered id t p stale).recv_q = s.recv_q from if_pos hleft] at hx
        exact h.recvs i x hx
      · rw [show (s.takeBuffered id t p stale).recv_q = Function.update s.recv_q t
          (id :: next p (s.recv_q t) stale) from if_neg hleft, next_head (hfirst hleft)] at hx
        refine h.recvs_update (fun y hy => ?_) i x hx
        rcases List.mem_cons.mp hy with rfl | hy
        · exact hid
        · exact h.recvs t y (List.mem_of_mem_tail hy)
    rcases eq_or_ne x p with rfl | hne
    · rw [hfree]
      exact hx'
    · exact (hentries x hne).isRecv hx'

/-! ### Sends -/

lemma frame_sendPass (h : s.HandleInv myproc) {dest : ℤ} {k k' : ℕ} {cat_nap : Bool}
    (hid : id ∈ s.send_q dest) : Frame myproc s (s.sendPass dest id cat_nap k k' cs) := by
  have hne : (s.msg_list id).dest ≠ myproc := fun heq =>
    (h.sends dest id hid).2 ((h.sends dest id hid).1.symm.trans heq)
  refine h.frame_of_kept rfl rfl rfl rfl (Kept.update (.of_dest hne ?_ ?_ ?_)) h.recvs <;>
    · rw [MsgEntry.write]
      split_ifs <;> simp

lemma frame_asend (h : s.HandleInv myproc) (hid : (s.msg_list id).dest ≠ myproc) :
    Frame myproc s (s.asend id cs) := by
  refine ⟨rfl, rfl, fun _ _ => rfl, fun _ _ => .refl _, fun i x hx => ?_, h.recvs⟩
  rcases mem_update hx with ⟨rfl, hx'⟩ | ⟨-, hx'⟩
  · rw [List.mem_append, List.mem_singleton] at hx'
    rcases hx' with hx' | rfl
    · exact h.sends _ x hx'
    · exact ⟨rfl, hid⟩
  · exact h.sends i x hx'

lemma detach_kept {msg : MsgEntry} (h3 : msg.send_flag ≠ 3) (h4 : msg.send_flag ≠ 4) :
    msg.detach = msg := by
  rw [MsgEntry.detach, if_neg h3, if_neg h4]

lemma detach_dest (msg : MsgEntry) : msg.detach.dest = msg.dest := by
  rw [MsgEntry.detach]
  split_ifs <;> rfl

lemma detach_send_flag (msg : MsgEntry) : msg.detach.send_flag = msg.send_flag := by
  rw [MsgEntry.detach]
  split_ifs <;> rfl

lemma frame_finishSend (h : s.HandleInv myproc) {dest : ℤ} {m : ℕ} {cat_nap : Bool}
    (hcalls : s.calls = .sendLoop dest id m cat_nap :: cs) (hleft : s.BufferedLeft) :
    Frame myproc s (s.finishSend dest id cs) := by
  have hid : id ∈ s.send_q dest := List.mem_of_head? (h.head hcalls).1
  by_cases hpos : (s.msg_list id).nleft > 0
  · rw [finishSend, if_pos hpos]
    exact h.frame_of_kept rfl rfl rfl rfl (fun _ => .refl _) h.recvs
  rw [finishSend, if_neg hpos]
  -- what is marked as free is no message of the user
  have hentries : ∀ x ∈ s.handles.map Prod.fst, Kept myproc (s.msg_list x)
      (Function.update s.msg_list id (s.msg_list id).detach x) := by
    intro x hx
    rcases eq_or_ne x id with rfl | hne
    · rw [Function.update_self, detach_kept]
      · exact .refl _
      · intro h3
        rcases h.pushed x hx h3 with ⟨hdest, -⟩ | ⟨c, hc⟩
        · obtain ⟨heq, hne⟩ := h.sends dest x hid
          exact hne (heq.symm.trans hdest)
        · exact hleft dest x m cat_nap cs hcalls (not_lt.mp hpos) h3 c hc
      · intro h4
        rcases h.flags x hx with hr | h1 | h3
        · exact absurd (hr.1.symm.trans h4) (by simp)
        · exact absurd (h1.symm.trans h4) (by simp)
        · exact absurd (h3.symm.trans h4) (by simp)
    · rw [Function.update_of_ne hne]
      exact .refl _
  have hdest : ∀ x, (Function.update s.msg_list id (s.msg_list id).detach x).dest =
      (s.msg_list x).dest := by
    intro x
    rcases eq_or_ne x id with rfl | hne
    · rw [Function.update_self, detach_dest]
    · rw [Function.update_of_ne hne]
  have hflag : ∀ x, (Function.update s.msg_list id (s.msg_list id).detach x).send_flag =
      (s.msg_list x).send_flag := by
    intro x
    rcases eq_or_ne x id with rfl | hne
    · rw [Function.update_self, detach_send_flag]
    · rw [Function.update_of_ne hne]
  refine ⟨rfl, rfl, fun _ _ => rfl, hentries, fun i x hx => ?_, fun i x hx => ?_⟩
  · refine (hdest x).symm ▸ h.sends i x ?_
    rcases mem_update hx with ⟨rfl, hx⟩ | ⟨-, hx⟩
    · exact List.mem_of_mem_tail hx
    · exact hx
  · exact ⟨(hflag x).trans (h.recvs i x hx).1, (hdest x).trans (h.recvs i x hx).2⟩

end

/-! ### What the user does -/

/-- A send to the process itself is put into `msg_q`. -/
lemma HandleInv.sendToQ (h : s.HandleInv myproc) {a : ℕ} (ha : a ≠ 0)
    (hcalls : s.calls = .sendToQ id :: cs) : (s.sendToQ id a cs).HandleInv myproc := by
  obtain ⟨⟨hflag, hdest, huser⟩, hserv⟩ := h.head hcalls
  have hne : ∀ x, x ≠ id → (s.sendToQ id a cs).msg_list x = s.msg_list x :=
    fun x hx => Function.update_of_ne hx _ _
  have hid : (s.sendToQ id a cs).msg_list id =
      { s.msg_list id with buf := a, nleft := 0, nhdr := 0, send_flag := 3 } :=
    Function.update_self ..
  refine ⟨h.gen, fun x hx => ?_, h.nodup, h.user, fun x hx => absurd (huser.symm.trans hx) (by simp),
    fun x hx => ?_, fun x hx h3 => ?_, fun i x hx => ?_, fun i x hx => ?_, callsOk_of_service hserv⟩
  all_goals rcases eq_or_ne x id with rfl | hx'
  · rw [hid]
    exact ha
  · rw [hne x hx']
    exact h.inUse x hx
  · rw [hid]
    exact Or.inr (Or.inr rfl)
  · rw [hne x hx']
    exact h.flags x hx
  · rw [hid]
    exact Or.inl ⟨hdest, rfl⟩
  · rw [hne x hx'] at h3 ⊢
    exact h.pushed x hx h3
  · rw [hid]
    exact h.sends i x hx
  · rw [hne x hx']
    exact h.sends i x hx
  · exact absurd ((h.recvs i x hx).1.symm.trans hflag) (by simp)
  · rw [hne x hx']
    exact h.recvs i x hx

/-- `push_to_buffer`, with which `MP_Wait` ends. -/
lemma HandleInv.push (h : s.HandleInv myproc) {a : ℕ} (hcalls : s.calls = [])
    (huser : s.user = .pushing id) :
    HandleInv myproc { s.pushToBuffer id a with user := .leaving id true } := by
  have hmem : id ∈ s.handles.map Prod.fst := h.user id (by rw [huser]; rfl)
  have hflag : (s.msg_list id).send_flag = 1 := h.pushing id huser
  have hne : ∀ x, x ≠ id → (s.pushToBuffer id a).msg_list x = s.msg_list x :=
    fun x hx => Function.update_of_ne hx _ _
  obtain ⟨hbuf, h3', hdest⟩ : ((s.pushToBuffer id a).msg_list id).buf = (s.msg_list id).buf ∧
      ((s.pushToBuffer id a).msg_list id).send_flag = 3 ∧
      ((s.pushToBuffer id a).msg_list id).dest = (s.msg_list id).dest := by
    rw [show (s.pushToBuffer id a).msg_list id = _ from Function.update_self ..]
    split_ifs <;> exact ⟨rfl, rfl, rfl⟩
  refine ⟨h.gen, fun x hx => ?_, h.nodup, fun x hx => ?_, fun x hx => (by cases hx),
    fun x hx => ?_, fun x hx h3 => ?_, fun i x hx => ?_, fun i x hx => ?_, ?_⟩
  · show ((s.pushToBuffer id a).msg_list x).buf ≠ 0
    rcases eq_or_ne x id with rfl | hx'
    · rw [hbuf]
      exact h.inUse x hx
    · rw [hne x hx']
      exact h.inUse x hx
  · cases hx
    exact hmem
  · show ((s.pushToBuffer id a).msg_list x).IsRecv myproc ∨
      ((s.pushToBuffer id a).msg_list x).send_flag = 1 ∨
      ((s.pushToBuffer id a).msg_list x).send_flag = 3
    rcases eq_or_ne x id with rfl | hx'
    · exact Or.inr (Or.inr h3')
    · rw [hne x hx']
      exact h.flags x hx
  · show ((s.pushToBuffer id a).msg_list x).dest = myproc ∧
      ((s.pushToBuffer id a).msg_list x).nleft = 0 ∨ ∃ c, _ = WaitPoint.leaving x c
    rcases eq_or_ne x id with rfl | hx'
    · exact Or.inr ⟨true, rfl⟩
    · replace h3 : ((s.pushToBuffer id a).msg_list x).send_flag = 3 := h3
      rw [hne x hx'] at h3 ⊢
      rcases h.pushed x hx h3 with hself | ⟨c, hc⟩
      · exact Or.inl hself
      · rw [huser] at hc
        cases hc
  · show ((s.pushToBuffer id a).msg_list x).dest = i ∧ _
    rcases eq_or_ne x id with rfl | hx'
    · rw [hdest]
      exact h.sends i x hx
    · rw [hne x hx']
      exact h.sends i x hx
  · show ((s.pushToBuffer id a).msg_list x).IsRecv myproc
    rcases eq_or_ne x id with rfl | hx'
    · exact absurd ((h.recvs i x hx).1.symm.trans hflag) (by simp)
    · rw [hne x hx']
      exact h.recvs i x hx
  · show CallsOk myproc _ s.calls
    rw [hcalls]
    trivial

/-- One of the messages was waited for. -/
lemma mem_eraseP_fst {l : List (ℕ × ℕ)} (hl : (l.map Prod.fst).Nodup) {x : ℕ × ℕ}
    (hx : x ∈ l.eraseP (·.1 = id)) : x ∈ l ∧ x.1 ≠ id := by
  refine ⟨List.mem_of_mem_eraseP hx, ?_⟩
  induction l with
  | nil => simp at hx
  | cons y l ih =>
    rw [List.map_cons, List.nodup_cons] at hl
    by_cases hy : y.1 = id
    · rw [List.eraseP_cons_of_pos (by simpa using hy)] at hx
      exact fun heq => hl.1 (List.mem_map.mpr ⟨x, hx, heq.trans hy.symm⟩)
    · rw [List.eraseP_cons_of_neg (by simpa using hy)] at hx
      rcases List.mem_cons.mp hx with rfl | hx
      · exact hy
      · exact ih hl.2 hx

lemma HandleInv.leave (h : s.HandleInv myproc) {c : Bool} (hcalls : s.calls = [])
    (huser : s.user = .leaving id c) : (s.leaveWait id).HandleInv myproc := by
  have hmem : ∀ x ∈ (s.leaveWait id).handles.map Prod.fst, x ∈ s.handles.map Prod.fst ∧ x ≠ id := by
    intro x hx
    obtain ⟨y, hy, rfl⟩ := List.mem_map.mp hx
    obtain ⟨hy, hne⟩ := mem_eraseP_fst h.nodup hy
    exact ⟨List.mem_map_of_mem hy, hne⟩
  have hne : ∀ x, x ≠ id → (s.leaveWait id).msg_list x = s.msg_list x := by
    intro x hx
    rw [leaveWait]
    split_ifs
    · exact Function.update_of_ne hx _ _
    · rfl
  have hkinds : ∀ x, ((s.leaveWait id).msg_list x).send_flag = (s.msg_list x).send_flag ∧
      ((s.leaveWait id).msg_list x).dest = (s.msg_list x).dest := by
    intro x
    rcases eq_or_ne x id with rfl | hx
    · rw [leaveWait]
      split_ifs
      · rw [show ((s.setEntry x _).msg_list x) = _ from Function.update_self ..]
        exact ⟨rfl, rfl⟩
      · exact ⟨rfl, rfl⟩
    · rw [hne x hx]
      exact ⟨rfl, rfl⟩
  have hqueues : (s.leaveWait id).gen = s.gen ∧ (s.leaveWait id).send_q = s.send_q ∧
      (s.leaveWait id).recv_q = s.recv_q ∧ (s.leaveWait id).calls = s.calls := by
    rw [leaveWait]
    split_ifs <;> exact ⟨rfl, rfl, rfl, rfl⟩
  obtain ⟨hgen, hsend, hrecv, hcalls'⟩ := hqueues
  refine ⟨fun x hx => ?_, fun x hx => ?_, ?_, fun x hx => (by cases hx), fun x hx => (by cases hx),
    fun x hx => ?_, fun x hx h3 => ?_, ?_, ?_, ?_⟩
  · rw [hgen]
    exact h.gen x (List.mem_of_mem_eraseP hx)
  · rw [hne x (hmem x hx).2]
    exact h.inUse x (hmem x hx).1
  · exact h.nodup.sublist (List.eraseP_sublist.map _)
  · rw [hne x (hmem x hx).2]
    exact h.flags x (hmem x hx).1
  · rw [hne x (hmem x hx).2] at h3 ⊢
    rcases h.pushed x (hmem x hx).1 h3 with hself | ⟨c', hc'⟩
    · exact Or.inl hself
    · rw [huser] at hc'
      cases hc'
      exact absurd rfl (hmem id hx).2
  · rw [hsend]
    intro i x hx
    rw [(hkinds x).2]
    exact h.sends i x hx
  · rw [hrecv]
    exact fun i x hx => ⟨(hkinds x).1.trans (h.recvs i x hx).1, (hkinds x).2.trans (h.recvs i x hx).2⟩
  · rw [hcalls', hcalls]
    trivial

/-- `MP_ASend` and `MP_ARecv` hand out an entry that was free. -/
lemma HandleInv.create (h : s.HandleInv myproc) (hnew : ¬ s.Linked id)
    (hfree : (s.msg_list id).buf = 0) (huser : s.user = .outside) {buf : ℕ} (hbuf : buf ≠ 0)
    {nbytes src dest tag : ℤ} (hflag : (MsgEntry.create myproc buf nbytes src dest tag).IsRecv myproc ∨
      (MsgEntry.create myproc buf nbytes src dest tag).send_flag = 1)
    (hcalls : CallsOk myproc ((s.create myproc id buf nbytes src dest tag).start id cs) cs) :
    ((s.create myproc id buf nbytes src dest tag).start id cs).HandleInv myproc := by
  have hid : id ∉ s.handles.map Prod.fst := not_handle h hfree
  rw [create_eq hnew] at hcalls ⊢
  have hne : ∀ x ∈ s.handles.map Prod.fst, x ≠ id := fun x hx heq => hid (heq ▸ hx)
  have hlinked : ∀ x, s.Linked x → x ≠ id := fun x hx heq => hnew (heq ▸ hx)
  have hmem : ∀ x, x ∈ (s.handles ++ [(id, s.gen id + 1)]).map Prod.fst ↔
      x ∈ s.handles.map Prod.fst ∨ x = id := by simp
  simp only [start, name, Function.update_self]
  refine ⟨fun x hx => ?_, fun x hx => ?_, ?_, fun x hx => ?_, fun x hx => ?_,
    fun x hx => ?_, fun x hx h3 => ?_, fun i x hx => ?_, fun i x hx => ?_, ?_⟩
  · rcases List.mem_append.mp hx with hx | hx
    · have hx' := hne x.1 (List.mem_map_of_mem hx)
      simpa [hx'] using h.gen x hx
    · rw [List.mem_singleton.mp hx]
      exact Function.update_self ..
  · rcases (hmem x).mp hx with hx | rfl
    · simpa [hne x hx] using h.inUse x hx
    · simpa [create_buf] using hbuf
  · rw [List.map_append, List.map_singleton, ← List.concat_eq_append]
    exact h.nodup.concat hid
  · rw [huser] at hx
    cases hx
  · rw [huser] at hx
    cases hx
  · rcases (hmem x).mp hx with hx | rfl
    · simpa [hne x hx] using h.flags x hx
    · simpa using hflag.imp_right Or.inl
  · rcases (hmem x).mp hx with hx | rfl
    · simp only [Function.update_of_ne (hne x hx)] at h3 ⊢
      exact h.pushed x hx h3
    · simp only [Function.update_self] at h3
      rcases hflag with hr | h1
      · exact absurd (hr.1.symm.trans h3) (by simp)
      · exact absurd (h1.symm.trans h3) (by simp)
  · simpa [hlinked x (.of_send hx)] using h.sends i x hx
  · simpa [hlinked x (.of_recv hx)] using h.recvs i x hx
  · simpa only [start, name, Function.update_self] using hcalls

/-! ### Runs -/

lemma found_arecv (hcalls : s.calls = .arecv id :: cs) :
    s.found nprocs = findBuffered nprocs s (s.msg_list id) := by
  rw [found, hcalls]

lemma found_recvFromSelf (hcalls : s.calls = .recvFromSelf id :: cs) :
    s.found nprocs = findBuffered nprocs s (s.msg_list id) := by
  rw [found, hcalls]

lemma found_doRecv {src : ℤ} (hcalls : s.calls = .doRecv src :: cs)
    (hid : (s.recv_q src).head? = some id) (hhdr : (s.msg_list id).nhdr ≠ 0)
    (hflag : (s.msg_list id).recv_flag ≠ 2) :
    s.found nprocs = findBuffered nprocs s (s.msg_list id) := by
  rw [found, hcalls]
  simp [hid, hhdr, hflag]

/-- When `MP_Wait` looks for a message to the process itself, a complete one is there. -/
def SelfReceiveServed (nprocs : ℕ) (s : Engine) : Prop :=
  ∀ id cs, s.calls = .recvFromSelf id :: cs →
    ∃ x ∈ s.found nprocs, (s.msg_list x.2).nleft = 0

/-- `create_msg_entry` takes an entry that is in no queue. -/
def NewUnlinked (maxMsgs : ℕ) (s : Engine) : Prop :=
  ∀ id, findEntry maxMsgs s.mid s.msg_list = some id → ¬ s.Linked id

/-- The states from which a step keeps the entries that the user has not waited for. -/
structure EntriesFresh (nprocs maxMsgs : ℕ) (s : Engine) : Prop where
  new : s.NewUnlinked maxMsgs
  selfSends : s.SelfSendsAwaited nprocs
  buffered : s.BufferedLeft
  unfinished : s.UnfinishedFirst nprocs

/-- The same, where no entry of a queue is free. -/
structure EntriesKept (nprocs : ℕ) (s : Engine) : Prop where
  linked : s.LinkedInUse
  selfSends : s.SelfSendsAwaited nprocs
  buffered : s.BufferedLeft
  unfinished : s.UnfinishedFirst nprocs

/-- The states from which a step does not spoil a message that the user has not waited for. -/
structure HandlesKept (nprocs : ℕ) (s : Engine) : Prop extends EntriesKept nprocs s where
  served : s.SelfReceiveServed nprocs

lemma EntriesKept.fresh (h : s.EntriesKept nprocs) : s.EntriesFresh nprocs maxMsgs :=
  ⟨fun id hid hl => h.linked id hl (findEntry_free hid), h.selfSends, h.buffered, h.unfinished⟩

lemma HandleInv.found (h : s.HandleInv myproc) (hcond : s.EntriesFresh nprocs maxMsgs) {t : ℤ} {p : ℕ}
    (stale : List ℕ) (hp : s.found nprocs = some (t, p)) (hid : (s.msg_list id).IsRecv myproc) :
    Frame myproc s (s.takeBuffered id t p stale) :=
  frame_takeBuffered h hid (hcond.selfSends t p hp) fun hleft => (hcond.unfinished t p hp hleft).1

lemma HandleInv.init (mem : ℕ → UInt8) : (init mem).HandleInv myproc := by
  refine ⟨?_, ?_, ?_, ?_, ?_, ?_, ?_, ?_, ?_, trivial⟩ <;> simp [Engine.init, WaitPoint.entry]

lemma HandleInv.step (h : s.HandleInv myproc) (hcond : s.EntriesFresh nprocs maxMsgs)
    (hstep : Step nprocs maxMsgs myproc s s') : s'.HandleInv myproc := by
  cases hstep with
  | arrive => exact h.quiet ⟨rfl, rfl, rfl, rfl, rfl, rfl⟩ rfl h.calls
  | signal hcalls huser =>
    exact h.quiet ⟨rfl, rfl, rfl, rfl, rfl, rfl⟩ rfl
      (callsOk_of_service (service_handlerCalls nprocs myproc))
  | userSend id buf nbytes dest tag hcalls huser hbuf hdest hid =>
    have hfree := findEntry_free hid
    have hnew := hcond.new id hid
    refine h.create hnew hfree huser hbuf (Or.inr (create_send_flag hdest.1 ..)) ?_
    rw [create_eq hnew]
    refine ⟨?_, by simp⟩
    split_ifs with hself
    · refine ⟨?_, ?_, huser⟩
      · simpa [start] using create_send_flag hdest.1 ..
      · simpa [start, create_dest hdest.1] using hself
    · refine ⟨?_, ?_⟩
      · simpa [start] using create_send_flag hdest.1 ..
      · simpa [start, create_dest hdest.1] using hself
  | userRecv id buf nbytes src tag hcalls huser hbuf hsrc hid =>
    have hfree := findEntry_free hid
    have hnew := hcond.new id hid
    refine h.create hnew hfree huser hbuf (Or.inl (create_isRecv ..)) ?_
    rw [create_eq hnew]
    split_ifs with hself
    · trivial
    · refine ⟨?_, by simp⟩
      show MsgEntry.IsRecv myproc (Function.update s.msg_list id _ id)
      rw [Function.update_self]
      exact create_isRecv ..
  | wait id hcalls huser hid hbuf =>
    refine h.setUser ⟨rfl, rfl, rfl, rfl, rfl, rfl⟩ (fun x hx => ?_) (fun x hx => (by cases hx))
      (fun x c hc => ?_) ?_
    · cases hx
      exact hid
    · exact absurd (huser.symm.trans hc) (by simp)
    · exact callsOk_nil hcalls
  | waitNull id hcalls huser hid hbuf => exact absurd hbuf (h.inUse id hid)
  | waitDone id hcalls huser hdone =>
    exact h.goOn ⟨rfl, rfl, rfl, rfl, rfl, rfl⟩ (by rw [huser]; rfl) (by simp) (by simp [huser])
      (callsOk_nil hcalls)
  | waitPush id hcalls huser hleft hflag =>
    refine h.goOn ⟨rfl, rfl, rfl, rfl, rfl, rfl⟩ (by rw [huser]; rfl) (fun x hx => ?_)
      (by simp [huser]) (callsOk_nil hcalls)
    cases hx
    exact hflag
  | waitSelf id hcalls huser hleft hflag hsrc =>
    refine h.goOn ⟨rfl, rfl, rfl, rfl, rfl, rfl⟩ (by rw [huser]; rfl) (by simp) (by simp [huser])
      ⟨⟨?_, rfl⟩, by simp⟩
    have hmem : id ∈ s.handles.map Prod.fst := h.user id (by rw [huser]; rfl)
    rcases h.flags id hmem with hr | h1 | h3
    · exact hr
    · exact absurd h1 hflag
    · rcases h.pushed id hmem h3 with ⟨-, hdone⟩ | ⟨c, hc⟩
      · exact absurd hdone hleft
      · exact absurd (huser.symm.trans hc) (by simp)
  | waitBlock id hcalls huser hleft hflag hsrc =>
    exact h.goOn ⟨rfl, rfl, rfl, rfl, rfl, rfl⟩ (by rw [huser]; rfl) (by simp) (by simp [huser])
      (callsOk_nil hcalls)
  | blockDone id hcalls huser hdone =>
    exact h.goOn ⟨rfl, rfl, rfl, rfl, rfl, rfl⟩ (by rw [huser]; rfl) (by simp) (by simp [huser])
      (callsOk_nil hcalls)
  | push id a hcalls huser ha => exact h.push hcalls huser
  | leave id c hcalls huser => exact h.leave hcalls huser
  | asend id cs hcalls =>
    obtain ⟨⟨hflag, hdest⟩, hserv⟩ := h.head hcalls
    refine h.frame (frame_asend h hdest) (callsOk_ite (fun _ => callsOk_of_service hserv) ?_)
    exact fun _ => ⟨trivial, hserv⟩
  | sendToQ id a cs hcalls ha => exact h.sendToQ ha hcalls
  | arecvFound id cs t p stale hcalls hp =>
    obtain ⟨hid, hserv⟩ := h.head hcalls
    have hf := h.found hcond stale ((found_arecv hcalls).trans hp) hid
    exact h.frame (hf.setCalls cs) (callsOk_of_service hserv)
  | arecvPost id cs hcalls hp =>
    obtain ⟨hid, hserv⟩ := h.head hcalls
    refine h.frame (frame_postRecv h hid) (callsOk_ite (fun _ => ?_) fun _ => ?_)
    · refine callsOk_of_service fun c hc => ?_
      rcases List.mem_append.mp hc with hc | hc
      · exact service_handlerCalls nprocs myproc c hc
      · exact hserv c hc
    · exact callsOk_ite (fun _ => callsOk_of_service hserv) fun _ => ⟨trivial, hserv⟩
  | selfFound id cs t p stale hcalls hp =>
    obtain ⟨⟨hid, huser⟩, hserv⟩ := h.head hcalls
    have hf := h.found hcond stale ((found_recvFromSelf hcalls).trans hp) hid
    refine (h.frame (hf.setCalls cs) (callsOk_of_service hserv)).goOn
      ⟨rfl, rfl, rfl, rfl, rfl, rfl⟩ ?_ (by simp) ?_ (callsOk_of_service hserv)
    · show some id = s.user.entry
      rw [huser]
      rfl
    · show ∀ _ _, s.user ≠ _
      simp [huser]
  | selfEmpty id cs hcalls hsrc hp =>
    obtain ⟨⟨hid, huser⟩, hserv⟩ := h.head hcalls
    exact h.goOn ⟨rfl, rfl, rfl, rfl, rfl, rfl⟩ (by rw [huser]; rfl) (by simp) (by simp [huser])
      (callsOk_of_service hserv)
  | serviceSend node cs hcalls =>
    obtain ⟨-, hserv⟩ := h.head hcalls
    exact h.quiet ⟨rfl, rfl, rfl, rfl, rfl, rfl⟩ rfl
      (callsOk_ite (fun _ => ⟨trivial, hserv⟩) fun _ => callsOk_of_service hserv)
  | serviceRecv node cs hcalls =>
    obtain ⟨-, hserv⟩ := h.head hcalls
    exact h.quiet ⟨rfl, rfl, rfl, rfl, rfl, rfl⟩ rfl
      (callsOk_ite (fun _ => ⟨trivial, hserv⟩) fun _ => callsOk_of_service hserv)
  | peekNothing node cs hcalls hp =>
    exact h.quiet ⟨rfl, rfl, rfl, rfl, rfl, rfl⟩ rfl (callsOk_of_service (h.head hcalls).2)
  | peekFound node p cs hcalls hactive hsock hp hnbytes =>
    refine h.frame (frame_takeAnySource h (List.mem_of_find?_eq_some hp)) ⟨trivial, ?_⟩
    simpa [Call.IsService] using (h.head hcalls).2
  | peekBuffer node new a cs hcalls hrecv hactive hsock hp hnbytes ha hnew =>
    refine h.frame (frame_bufferAnySource h (hcond.new new hnew) (findEntry_free hnew)) ⟨trivial, ?_⟩
    simpa [Call.IsService] using (h.head hcalls).2
  | doSend dest id cs hcalls hid =>
    exact h.quiet ⟨rfl, rfl, rfl, rfl, rfl, rfl⟩ rfl ⟨hid, (h.head hcalls).2⟩
  | sendPass dest id m cat_nap k k' cs hcalls hgo =>
    obtain ⟨hid, hserv⟩ := h.head hcalls
    refine h.frame (frame_sendPass h (List.mem_of_head? hid)) ⟨?_, hserv⟩
    split_ifs
    · exact hid
    · exact hid
  | finishSend dest id m cat_nap cs hcalls hstop =>
    obtain ⟨-, hserv⟩ := h.head hcalls
    refine h.frame (frame_finishSend h hcalls hcond.buffered) ?_
    rw [finishSend]
    split_ifs with hpos
    · exact callsOk_of_service hserv
    · exact callsOk_ite (fun _ => callsOk_of_service hserv) fun _ => ⟨trivial, hserv⟩
  | doRecvFound src id cs t p stale hcalls hid hhdr hflag hp =>
    have hmem := List.mem_of_head? hid
    have hp' : s.found nprocs = some (t, p) := (found_doRecv hcalls hid hhdr hflag).trans hp
    have hf := h.found hcond stale hp' (h.recvs src id hmem)
    refine h.frame (hf.setCalls _) ⟨?_, (h.head hcalls).2⟩
    by_cases hleft : (s.msg_list p).nleft = 0
    · show id ∈ (if _ then s.recv_q else _) src
      rwa [if_pos hleft]
    · obtain ⟨-, id', cs', hcalls'⟩ := hcond.unfinished t p hp' hleft
      cases hcalls.symm.trans hcalls'
  | doRecv src id cs hcalls hid hp =>
    exact h.quiet ⟨rfl, rfl, rfl, rfl, rfl, rfl⟩ rfl ⟨List.mem_of_head? hid, (h.head hcalls).2⟩
  | readHeader src id m cs hcalls hgo hhdr =>
    obtain ⟨hid, hserv⟩ := h.head hcalls
    refine h.frame (frame_readHeader h hid) ⟨?_, hserv⟩
    split_ifs
    · exact hid
    · exact hid
  | gotHeader src id m cs hcalls hgo hhdr =>
    obtain ⟨hid, hserv⟩ := h.head hcalls
    exact h.quiet ⟨rfl, rfl, rfl, rfl, rfl, rfl⟩ rfl ⟨⟨hid, hid⟩, hserv⟩
  | matchHeader src id n cs hcalls hfits =>
    obtain ⟨hid, hserv⟩ := h.head hcalls
    exact h.frame (frame_matchHeader h hid) ⟨⟨hid, hid⟩, hserv⟩
  | redirect src id p n cs hcalls hfits hp =>
    obtain ⟨hid, hserv⟩ := h.head hcalls
    have hp' := List.mem_of_find?_eq_some hp
    refine h.frame (frame_redirect h hid hp') ⟨⟨?_, ?_⟩, hserv⟩
    · exact mem_update_self ((List.perm_cons_erase hp').mem_iff.mp hid)
    · exact mem_update_self (List.mem_cons_self ..)
  | pushUnexpected src id new a n cs hcalls hfits hp hnbytes ha hnew =>
    obtain ⟨hid, hserv⟩ := h.head hcalls
    have hfree := findEntry_free hnew
    have hnot := hcond.new new hnew
    refine h.frame (frame_pushUnexpected h hnot hid hfree) ?_
    rw [pushUnexpected_eq hnot]
    refine ⟨⟨?_, ?_⟩, hserv⟩
    · exact mem_update_self (List.mem_cons_of_mem _ hid)
    · exact mem_update_self (List.mem_cons_self ..)
  | readBody src id cur n cs hcalls =>
    obtain ⟨⟨hid, hcur⟩, hserv⟩ := h.head hcalls
    refine h.frame (frame_readBody h hcur) ?_
    rw [readBody]
    split_ifs
    · exact ⟨hid, hserv⟩
    · exact ⟨hid, hserv⟩
  | finishRecv src id m stale cs hcalls hstop =>
    obtain ⟨hid, hserv⟩ := h.head hcalls
    refine h.frame (frame_finishRecv h hid) ?_
    rw [finishRecv]
    split_ifs with hpos
    · exact callsOk_of_service hserv
    · exact callsOk_ite (fun _ => callsOk_of_service hserv) fun _ => ⟨trivial, hserv⟩
    · exact callsOk_ite (fun _ => callsOk_of_service hserv) fun _ => ⟨trivial, hserv⟩

/-- `MP_Wait` ends when its message is complete. -/
def WaitsComplete (s : Engine) : Prop :=
  s.user ≠ .aborted ∧ ∀ id c, s.user = .leaving id c → c = true

lemma findBuffered_none {msg : MsgEntry} (hsrc : 0 ≤ msg.src) (h : s.msg_q msg.src = []) :
    findBuffered nprocs s msg = none := by
  simp [findBuffered, sources, not_lt.mpr hsrc, h]

lemma WaitsComplete.step (hw : s.WaitsComplete) (h : s.HandleInv myproc)
    (hcond : s.HandlesKept nprocs) (hstep : Step nprocs maxMsgs myproc s s') :
    s'.WaitsComplete := by
  cases hstep with
  | waitNull id hcalls huser hid hbuf => exact absurd hbuf (h.inUse id hid)
  | wait | waitPush | waitSelf | waitBlock => exact ⟨by simp, by simp⟩
  | waitDone | blockDone | push => exact ⟨by simp, fun _ _ hc => by cases hc; rfl⟩
  | leave => exact ⟨by simp [leaveWait], by simp [leaveWait]⟩
  | selfFound id cs t p stale hcalls hp =>
    obtain ⟨x, hx, hleft⟩ := hcond.served id cs hcalls
    cases ((found_recvFromSelf hcalls).trans hp).symm.trans hx
    refine ⟨by simp, fun _ _ hc => ?_⟩
    cases hc
    simpa using hleft
  | selfEmpty id cs hcalls hsrc hp =>
    obtain ⟨x, hx, -⟩ := hcond.served id cs hcalls
    rw [found_recvFromSelf hcalls, findBuffered_none hsrc hp] at hx
    cases hx
  | finishSend =>
    rw [Engine.finishSend]
    split_ifs <;> exact hw
  | readBody =>
    rw [Engine.readBody]
    split_ifs <;> exact hw
  | finishRecv =>
    rw [Engine.finishRecv]
    split_ifs <;> exact hw
  | _ => exact hw

/-- Let no linked entry be free, no receive take a message to the process itself that is not waited
for, no run of the signal handler finish a buffered message that `MP_Wait` still reads, no
unfinished message be taken from behind the head of its queue, and each receive from the process
itself find its message. Then an entry stays in use and is not handed out again until `MP_Wait` has
ended, and `MP_Wait` completes its message. -/
theorem handles_kept {mem : ℕ → UInt8}
    (h : Run nprocs maxMsgs myproc (HandlesKept nprocs) (init mem) s) :
    (∀ x ∈ s.handles, s.gen x.1 = x.2 ∧ (s.msg_list x.1).buf ≠ 0) ∧
    (∀ id, s.user.entry = some id → id ∈ s.handles.map Prod.fst) ∧
    s.user ≠ .aborted ∧ ∀ id c, s.user = .leaving id c → c = true := by
  have hinv : s.HandleInv myproc ∧ s.WaitsComplete := by
    induction h with
    | refl => exact ⟨.init mem, by simp [WaitsComplete, Engine.init]⟩
    | tail _ hs ih => exact ⟨ih.1.step hs.2.toEntriesKept.fresh hs.1, ih.2.step ih.1 hs.2 hs.1⟩
  obtain ⟨hinv, hwait⟩ := hinv
  exact ⟨fun x hx => ⟨hinv.gen x hx, hinv.inUse x.1 (List.mem_map_of_mem hx)⟩, hinv.user, hwait⟩

/-- No queue holds an entry. -/
lemma linkedInUse_of_empty (hsend : ∀ i, s.send_q i = []) (hrecv : ∀ i, s.recv_q i = [])
    (hmsg : ∀ i, s.msg_q i = []) : s.LinkedInUse := by
  rintro id ⟨i, h | h | h⟩
  · simp [hsend] at h
  · simp [hrecv] at h
  · simp [hmsg] at h

/-- At most a send to the process itself is under way. -/
lemma HandlesKept.of_linked (h : s.LinkedInUse) (hcalls : ∀ c ∈ s.calls, ∃ id, c = .sendToQ id) :
    s.HandlesKept nprocs := by
  have hcall : ∀ {c : Call} {cs : List Call}, s.calls = c :: cs → ∃ id, c = .sendToQ id :=
    fun hc => hcalls _ (hc ▸ List.mem_cons_self ..)
  have hfound : s.found nprocs = none := by
    rw [found]
    split <;> simp_all
  refine ⟨⟨h, fun t p hp => ?_, fun dest id m c cs hc => ?_, fun t p hp => ?_⟩,
    fun id cs hc => ?_⟩
  · simp [hfound] at hp
  · simpa using hcall hc
  · simp [hfound] at hp
  · simpa using hcall hc

/-- The process sends a message to itself and waits for it. -/
theorem handles_kept_self : ∃ s : Engine,
    Run 2 10 0 (HandlesKept 2) (init fun _ => 7) s ∧ s.handles = [(1, 1)] ∧
      s.user = .leaving 1 true ∧ s.gen 1 = 1 ∧ (s.msg_list 1).buf ≠ 0 := by
  let s₀ : Engine := init fun _ => 7
  let s₁ := (s₀.create 0 1 100 1 0 0 5).start 1 [.sendToQ 1]
  let s₂ := s₁.sendToQ 1 200 []
  let s₃ : Engine := { s₂ with user := .testing 1 }
  let s₄ : Engine := { s₃ with user := .leaving 1 true }
  have h₁ : Step 2 10 0 s₀ s₁ :=
    .userSend s₀ 1 100 1 0 5 rfl rfl (by simp) ⟨le_refl _, by simp⟩ (by decide)
  have h₂ : Step 2 10 0 s₁ s₂ := .sendToQ s₁ 1 200 [] rfl (by simp)
  have h₃ : Step 2 10 0 s₂ s₃ := .wait s₂ 1 rfl rfl (by decide) (by decide)
  have h₄ : Step 2 10 0 s₃ s₄ := .waitDone s₃ 1 rfl rfl (by decide)
  have hlink : s₂.LinkedInUse := by
    rintro id ⟨i, hi | hi | hi⟩
    · exact absurd hi (List.not_mem_nil)
    · exact absurd hi (List.not_mem_nil)
    · rcases mem_update hi with ⟨-, hi⟩ | ⟨-, hi⟩
      · rw [List.mem_singleton.mp hi]
        decide
      · exact absurd hi (List.not_mem_nil)
  have hcond₀ : s₀.HandlesKept 2 :=
    .of_linked (linkedInUse_of_empty (fun _ => rfl) (fun _ => rfl) fun _ => rfl)
      (by simp [s₀, Engine.init])
  have hcond₁ : s₁.HandlesKept 2 :=
    .of_linked (linkedInUse_of_empty (fun _ => rfl) (fun _ => rfl) fun _ => rfl)
      (by simp [s₁, start])
  have hcond₂ : s₂.HandlesKept 2 := .of_linked hlink (by simp [s₂, sendToQ])
  have hcond₃ : s₃.HandlesKept 2 := .of_linked hlink (by simp [s₃, s₂, sendToQ])
  have hrun : Run 2 10 0 (HandlesKept 2) s₀ s₄ :=
    (((Relation.ReflTransGen.single ⟨h₁, hcond₀⟩).tail ⟨h₂, hcond₁⟩).tail ⟨h₃, hcond₂⟩).tail
      ⟨h₄, hcond₃⟩
  obtain ⟨hgen, hbuf⟩ := (handles_kept hrun).1 (1, 1) (by decide)
  exact ⟨s₄, hrun, rfl, rfl, hgen, hbuf⟩

/-- A receive takes the message that the process has sent to itself, and marks its entry as free.
`MP_Wait` for the send then stops the program. -/
theorem handles_kept_fails : ∃ s : Engine,
    Run 2 10 0 (fun _ => True) (init fun _ => 7) s ∧ s.user = .aborted := by
  let s₀ : Engine := init fun _ => 7
  let s₁ := (s₀.create 0 1 100 1 0 0 5).start 1 [.sendToQ 1]
  let s₂ := s₁.sendToQ 1 200 []
  let s₃ := (s₂.create 0 2 300 1 0 (-1) 5).start 2 []
  let s₄ : Engine := { s₃ with user := .testing 2 }
  let s₅ : Engine := { s₄ with user := .receiving 2, calls := [.recvFromSelf 2] }
  let s₆ : Engine := { s₅.takeBuffered 2 0 1 [] with calls := [], user := .leaving 2 true }
  let s₇ := s₆.leaveWait 2
  let s₈ : Engine := { s₇ with user := .aborted }
  have h₁ : Step 2 10 0 s₀ s₁ :=
    .userSend s₀ 1 100 1 0 5 rfl rfl (by simp) ⟨le_refl _, by simp⟩ (by decide)
  have h₂ : Step 2 10 0 s₁ s₂ := .sendToQ s₁ 1 200 [] rfl (by simp)
  have h₃ : Step 2 10 0 s₂ s₃ :=
    .userRecv s₂ 2 300 1 0 5 rfl rfl (by simp) ⟨by simp, by simp⟩ (by decide)
  have h₄ : Step 2 10 0 s₃ s₄ := .wait s₃ 2 rfl rfl (by decide) (by decide)
  have h₅ : Step 2 10 0 s₄ s₅ := .waitSelf s₄ 2 rfl rfl (by decide) (by decide) (by decide)
  have h₆ : Step 2 10 0 s₅ s₆ := .selfFound s₅ 2 [] 0 1 [] rfl (by decide)
  have h₇ : Step 2 10 0 s₆ s₇ := .leave s₆ 2 true rfl rfl
  have h₈ : Step 2 10 0 s₇ s₈ := .waitNull s₇ 1 (by decide) (by decide) (by decide) (by decide)
  have hrun : Relation.ReflTransGen (Step 2 10 0) s₀ s₈ :=
    (((((((Relation.ReflTransGen.single h₁).tail h₂).tail h₃).tail h₄).tail h₅).tail h₆).tail
      h₇).tail h₈
  exact ⟨s₈, hrun.lift id fun _ _ h => ⟨h, trivial⟩, rfl⟩

end Engine

end NetPipe.MpLite
