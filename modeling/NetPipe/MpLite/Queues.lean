import NetPipe.MpLite.Handles

/-!
# The queues of the engine

Each queue holds different entries, and each entry is in the queues of its source or destination, as
long as `create_msg_entry` takes no entry that is still in a queue.
-/

namespace NetPipe.MpLite

namespace Engine

variable {nprocs maxMsgs : ℕ} {myproc : ℤ} {s s' s'' : Engine} {id : ℕ} {cs : List Call}

/-- The queues hold different entries, each in the queue of its source. -/
structure Queues (myproc : ℤ) (s : Engine) : Prop where
  sendNodup : ∀ i, (s.send_q i).Nodup
  recvNodup : ∀ i, (s.recv_q i).Nodup
  msgNodup : ∀ i, (s.msg_q i).Nodup
  recvSrc : ∀ i, ∀ id ∈ s.recv_q i, (s.msg_list id).src = i
  msgSrc : ∀ i, ∀ id ∈ s.msg_q i, (s.msg_list id).src = i ∧ (s.msg_list id).dest = myproc
  /-- a message of `msg_q` that the user has to wait for is one to the process itself -/
  msgFlag : ∀ i, ∀ id ∈ s.msg_q i, id ∈ s.handles.map Prod.fst → (s.msg_list id).send_flag = 3
  recvSelf : s.recv_q myproc = []
  msgAny : s.msg_q (-1) = []

/-- What a step keeps of an entry in a queue. -/
structure Held (msg msg' : MsgEntry) : Prop where
  src : msg'.src = msg.src
  dest : msg'.dest = msg.dest
  flag : msg.send_flag = 3 → msg'.send_flag = 3

namespace Held

variable {msg msg' : MsgEntry}

lemma refl (msg : MsgEntry) : Held msg msg := ⟨rfl, rfl, fun h => h⟩

lemma trans {msg'' : MsgEntry} (h : Held msg msg') (h' : Held msg' msg'') : Held msg msg'' :=
  ⟨h'.src.trans h.src, h'.dest.trans h.dest, fun h3 => h'.flag (h.flag h3)⟩

lemma updateProgress (msg : MsgEntry) (n : ℕ) : Held msg (msg.updateProgress n) := by
  constructor <;> simp

lemma write (msg : MsgEntry) (k k' : ℕ) : Held msg (msg.write k k').1 := by
  rw [MsgEntry.write]
  split_ifs <;> constructor <;> simp

lemma setMessage {src : ℤ} (h : msg.src = src) (nbytes tag : ℤ) :
    Held msg (msg.setMessage nbytes src tag) := ⟨h.symm, rfl, fun h3 => h3⟩

lemma takeOver {src : ℤ} (h : msg.src = src) (p : MsgEntry) : Held msg (msg.takeOver src p) := by
  rw [MsgEntry.takeOver]
  split_ifs <;> exact ⟨h.symm, rfl, fun h3 => h3⟩

lemma update {f : ℕ → MsgEntry} (h : Held (f id) msg) (x : ℕ) :
    Held (f x) (Function.update f id msg x) := by
  rcases eq_or_ne x id with rfl | hne
  · rw [Function.update_self]
    exact h
  · rw [Function.update_of_ne hne]
    exact refl _

end Held

namespace Queues

/-- A queue loses entries. -/
lemma sublist_update {q : ℤ → List ℕ} {i : ℤ} {l : List ℕ} (h : l.Sublist (q i)) (j : ℤ) :
    (Function.update q i l j).Sublist (q j) := by
  rcases eq_or_ne j i with rfl | hne
  · rwa [Function.update_self]
  · rw [Function.update_of_ne hne]

/-- A step that takes entries out of the queues and keeps those in them. -/
lemma frame (h : s.Queues myproc) (hsend : ∀ i, (s'.send_q i).Sublist (s.send_q i))
    (hrecv : ∀ i, (s'.recv_q i).Sublist (s.recv_q i))
    (hmsg : ∀ i, (s'.msg_q i).Sublist (s.msg_q i))
    (hhandles : ∀ id, s'.Linked id → id ∈ s'.handles.map Prod.fst → id ∈ s.handles.map Prod.fst)
    (hentries : ∀ id, s'.Linked id → Held (s.msg_list id) (s'.msg_list id)) : s'.Queues myproc := by
  refine ⟨fun i => (h.sendNodup i).sublist (hsend i),
    fun i => (h.recvNodup i).sublist (hrecv i), fun i => (h.msgNodup i).sublist (hmsg i),
    fun i id hid => ?_, fun i id hid => ?_, fun i id hid hmem => ?_, ?_, ?_⟩
  · rw [(hentries id (.of_recv hid)).src]
    exact h.recvSrc i id ((hrecv i).subset hid)
  · rw [(hentries id (.of_msg hid)).src, (hentries id (.of_msg hid)).dest]
    exact h.msgSrc i id ((hmsg i).subset hid)
  · exact (hentries id (.of_msg hid)).flag
      (h.msgFlag i id ((hmsg i).subset hid) (hhandles id (.of_msg hid) hmem))
  · exact List.sublist_nil.mp (h.recvSelf ▸ hrecv myproc)
  · exact List.sublist_nil.mp (h.msgAny ▸ hmsg (-1))

lemma linked_congr (hsend : s'.send_q = s.send_q) (hrecv : s'.recv_q = s.recv_q)
    (hmsg : s'.msg_q = s.msg_q) (id : ℕ) : s'.Linked id ↔ s.Linked id := by
  rw [Linked, hsend, hrecv, hmsg, Linked]

/-- A step that changes entries only. -/
lemma entries (h : s.Queues myproc) (hsend : s'.send_q = s.send_q) (hrecv : s'.recv_q = s.recv_q)
    (hmsg : s'.msg_q = s.msg_q)
    (hhandles : ∀ id, s.Linked id → id ∈ s'.handles.map Prod.fst → id ∈ s.handles.map Prod.fst)
    (hentries : ∀ id, s.Linked id → Held (s.msg_list id) (s'.msg_list id)) : s'.Queues myproc := by
  have hlinked := fun id => (linked_congr hsend hrecv hmsg id).mp
  refine h.frame (fun i => ?_) (fun i => ?_) (fun i => ?_) (fun id hid => hhandles id (hlinked id hid))
    fun id hid => hentries id (hlinked id hid)
  · rw [hsend]
  · rw [hrecv]
  · rw [hmsg]

/-- The entry `id`, which is in no queue, changes. -/
lemma setUnlinked (h : s.Queues myproc) (hid : ¬ s.Linked id) {msg : MsgEntry}
    (hlist : s'.msg_list = Function.update s.msg_list id msg) (hsend : s'.send_q = s.send_q)
    (hrecv : s'.recv_q = s.recv_q) (hmsg : s'.msg_q = s.msg_q)
    (hhandles : ∀ x, s.Linked x → x ∈ s'.handles.map Prod.fst → x ∈ s.handles.map Prod.fst) :
    s'.Queues myproc := by
  refine h.entries hsend hrecv hmsg hhandles fun x hx => ?_
  have hne : x ≠ id := by
    rintro rfl
    exact hid hx
  rw [hlist, Function.update_of_ne hne]
  exact .refl _

lemma quiet (h : s.Queues myproc) (hq : Quiet s s') : s'.Queues myproc := by
  refine h.entries hq.send_q hq.recv_q hq.msg_q (fun id _ hid => ?_) fun id _ => ?_
  · rwa [hq.handles] at hid
  · rw [hq.msg_list]
    exact .refl _

lemma nodup_update {q : ℤ → List ℕ} (h : ∀ i, (q i).Nodup) {i : ℤ} {l : List ℕ} (hl : l.Nodup)
    (j : ℤ) : (Function.update q i l j).Nodup := by
  rcases eq_or_ne j i with rfl | hne
  · rwa [Function.update_self]
  · rw [Function.update_of_ne hne]
    exact h j

lemma ne_self (h : s.Queues myproc) {i : ℤ} (hid : id ∈ s.recv_q i) : i ≠ myproc := by
  rintro rfl
  rw [h.recvSelf] at hid
  cases hid

/-- An entry is put into `send_q`. -/
lemma linkSend (h : s.Queues myproc) {i : ℤ} (hid : id ∉ s.send_q i)
    (hlist : s'.msg_list = s.msg_list)
    (hsend : s'.send_q = Function.update s.send_q i (s.send_q i ++ [id]))
    (hrecv : s'.recv_q = s.recv_q) (hmsg : s'.msg_q = s.msg_q) (hhandles : s'.handles = s.handles) :
    s'.Queues myproc := by
  refine ⟨?_, ?_, ?_, ?_, ?_, ?_, ?_, ?_⟩
  · rw [hsend]
    refine nodup_update h.sendNodup ?_
    rw [← List.concat_eq_append]
    exact (h.sendNodup i).concat hid
  · rw [hrecv]
    exact h.recvNodup
  · rw [hmsg]
    exact h.msgNodup
  · rw [hrecv, hlist]
    exact h.recvSrc
  · rw [hmsg, hlist]
    exact h.msgSrc
  · rw [hmsg, hlist, hhandles]
    exact h.msgFlag
  · rw [hrecv]
    exact h.recvSelf
  · rw [hmsg]
    exact h.msgAny

/-- An entry is put into `recv_q`. -/
lemma linkRecv (h : s.Queues myproc) {i : ℤ} {l : List ℕ} (hid : id ∉ s.recv_q i)
    (hsrc : (s.msg_list id).src = i) (hi : i ≠ myproc) (hl : l.Perm (id :: s.recv_q i))
    (hlist : s'.msg_list = s.msg_list) (hsend : s'.send_q = s.send_q)
    (hrecv : s'.recv_q = Function.update s.recv_q i l) (hmsg : s'.msg_q = s.msg_q)
    (hhandles : s'.handles = s.handles) : s'.Queues myproc := by
  have hmem : ∀ {x}, x ∈ l → x = id ∨ x ∈ s.recv_q i := fun hx =>
    List.mem_cons.mp (hl.mem_iff.mp hx)
  refine ⟨?_, ?_, ?_, ?_, ?_, ?_, ?_, ?_⟩
  · rw [hsend]
    exact h.sendNodup
  · rw [hrecv]
    exact nodup_update h.recvNodup (hl.nodup_iff.mpr (List.nodup_cons.mpr ⟨hid, h.recvNodup i⟩))
  · rw [hmsg]
    exact h.msgNodup
  · rw [hrecv, hlist]
    intro j x hx
    rcases mem_update hx with ⟨rfl, hx'⟩ | ⟨-, hx'⟩
    · rcases hmem hx' with rfl | hx'
      · exact hsrc
      · exact h.recvSrc _ x hx'
    · exact h.recvSrc j x hx'
  · rw [hmsg, hlist]
    exact h.msgSrc
  · rw [hmsg, hlist, hhandles]
    exact h.msgFlag
  · rw [hrecv, Function.update_of_ne hi.symm]
    exact h.recvSelf
  · rw [hmsg]
    exact h.msgAny

/-- An entry is put into `msg_q`. -/
lemma linkMsg (h : s.Queues myproc) {i : ℤ} (hid : id ∉ s.msg_q i)
    (hsrc : (s.msg_list id).src = i) (hdest : (s.msg_list id).dest = myproc) (hi : i ≠ -1)
    (hflag : id ∈ s.handles.map Prod.fst → (s.msg_list id).send_flag = 3)
    (hlist : s'.msg_list = s.msg_list) (hsend : s'.send_q = s.send_q) (hrecv : s'.recv_q = s.recv_q)
    (hmsg : s'.msg_q = Function.update s.msg_q i (s.msg_q i ++ [id]))
    (hhandles : s'.handles = s.handles) : s'.Queues myproc := by
  have hmem : ∀ {j x}, x ∈ s'.msg_q j → x = id ∧ j = i ∨ x ∈ s.msg_q j := by
    intro j x hx
    rw [hmsg] at hx
    rcases mem_update hx with ⟨rfl, hx⟩ | ⟨-, hx⟩
    · rw [List.mem_append, List.mem_singleton] at hx
      rcases hx with hx | rfl
      · exact Or.inr hx
      · exact Or.inl ⟨rfl, rfl⟩
    · exact Or.inr hx
  refine ⟨?_, ?_, ?_, ?_, ?_, ?_, ?_, ?_⟩
  · rw [hsend]
    exact h.sendNodup
  · rw [hrecv]
    exact h.recvNodup
  · rw [hmsg]
    refine nodup_update h.msgNodup ?_
    rw [← List.concat_eq_append]
    exact (h.msgNodup i).concat hid
  · rw [hrecv, hlist]
    exact h.recvSrc
  · rw [hlist]
    intro j x hx
    rcases hmem hx with ⟨rfl, rfl⟩ | hx
    · exact ⟨hsrc, hdest⟩
    · exact h.msgSrc j x hx
  · rw [hlist, hhandles]
    intro j x hx hx'
    rcases hmem hx with ⟨rfl, -⟩ | hx
    · exact hflag hx'
    · exact h.msgFlag j x hx hx'
  · rw [hrecv]
    exact h.recvSelf
  · rw [hmsg, Function.update_of_ne hi.symm]
    exact h.msgAny

end Queues

/-! ### Calls -/

/-- The loop of `do_recv` that runs, with its message. -/
def receiving (s : Engine) : Option (ℤ × ℕ) :=
  match s.calls with
  | .recvLoop src id _ :: _ | .checkHeader src id _ :: _ | .readBody src id _ _ :: _ => some (src, id)
  | _ => none

/-- What is known of a call, in addition to `CallOk`. -/
def CallNew (myproc : ℤ) (s : Engine) : Call → Prop
  | .arecv id => ¬ s.Linked id ∧ (s.msg_list id).buf ≠ 0 ∧ (s.msg_list id).src ≠ myproc ∧
    0 < (s.msg_list id).nleft ∧ s.user = .outside
  | .asend id => ¬ s.Linked id ∧ (s.msg_list id).buf ≠ 0 ∧ 0 < (s.msg_list id).nleft ∧
    s.user = .outside
  | .sendToQ id => ¬ s.Linked id ∧ (s.msg_list id).src ≠ -1
  | .recvFromSelf id => ¬ s.Linked id ∧ (s.msg_list id).src = myproc
  | .serviceRecv node | .peek node | .doRecv node => 0 ≤ node ∧ node ≠ myproc
  | .recvLoop src _ _ | .checkHeader src _ _ => 0 ≤ src
  | .readBody src id cur _ => 0 ≤ src ∧ cur ∉ next id (s.recv_q src) []
  | _ => True

/-- A header that was read names the process it comes from. -/
def HeaderNamesSource (s : Engine) : Prop :=
  ∀ src id n cs, s.calls = .checkHeader src id n :: cs → (parseHeader (s.hdr src)).src = src

/-- The states from which a step keeps the order of the queues. -/
structure QueuesFresh (nprocs maxMsgs : ℕ) (s : Engine) : Prop
    extends EntriesFresh nprocs maxMsgs s where
  headers : s.HeaderNamesSource

/-- The invariants of the entries and queues. -/
structure Sound (myproc : ℤ) (s : Engine) : Prop where
  handles : s.HandleInv myproc
  queues : s.Queues myproc
  calls : ∀ c ∈ s.calls, s.CallNew myproc c

lemma next_append {l l' stale : List ℕ} (h : id ∉ l) : next id (l ++ id :: l') stale = l' := by
  have hdrop : (l ++ id :: l').dropWhile (· ≠ id) = id :: l' := by
    rw [List.dropWhile_append_of_pos fun x hx => by simpa using ne_of_mem_of_not_mem hx h]
    simp
  rw [next, if_pos (by simp), hdrop, List.tail_cons]

lemma next_subset (id : ℕ) (l : List ℕ) {x : ℕ} (h : x ∈ next id l []) : x ∈ l := by
  rw [next] at h
  split_ifs at h with hid
  · exact List.dropWhile_subset _ (List.mem_of_mem_tail h)
  · simp at h

lemma not_mem_next_self {l : List ℕ} (h : l.Nodup) : id ∉ next id l [] := by
  intro hid
  obtain ⟨a, b, rfl, ha⟩ := List.eq_append_cons_of_mem (next_subset id l hid)
  rw [next_append ha] at hid
  exact (List.nodup_cons.mp (List.nodup_append.mp h).2.1).1 hid

lemma next_cons {l stale : List ℕ} {p : ℕ} (hp : p ≠ id) :
    next id (p :: l) stale = next id l stale := by
  simp [next, hp, hp.symm]

/-- Moving another entry to the head. -/
lemma next_moved {l : List ℕ} {p : ℕ} (hp : p ≠ id) (hid : id ∈ l) (hl : l.Nodup) {x : ℕ}
    (hx : x ∈ next id (p :: l.erase p) []) : x ∈ next id l [] ∧ x ≠ p := by
  rw [next_cons hp] at hx
  refine ⟨?_, (hl.mem_erase_iff.mp (next_subset _ _ hx)).1⟩
  obtain ⟨a, b, rfl, ha⟩ := List.eq_append_cons_of_mem hid
  rw [next_append ha]
  by_cases hpa : p ∈ a
  · rw [List.erase_append_left _ hpa, next_append] at hx
    · exact hx
    · exact fun h => ha (List.mem_of_mem_erase h)
  · rw [List.erase_append_right _ hpa, List.erase_cons_tail (by simpa using hp.symm),
      next_append ha] at hx
    exact List.mem_of_mem_erase hx

lemma Sound.call (h : s.Sound myproc) {c : Call} (hcalls : s.calls = c :: cs) :
    s.CallOk myproc c ∧ s.CallNew myproc c :=
  ⟨(h.handles.head hcalls).1, h.calls c (hcalls ▸ List.mem_cons_self ..)⟩

/-- Only a new receive takes a message before it is complete. -/
lemma EntriesFresh.complete (h : s.EntriesFresh nprocs maxMsgs) {t : ℤ} {p : ℕ}
    (hp : s.found nprocs = some (t, p)) (hcalls : ∀ id cs, s.calls ≠ .arecv id :: cs) :
    (s.msg_list p).nleft = 0 := by
  by_contra hleft
  obtain ⟨-, id, cs, hc⟩ := h.unfinished t p hp hleft
  exact hcalls id cs hc

/-- A receive of the process from itself is in no queue. -/
lemma Sound.self_unlinked (h : s.Sound myproc) (hid : (s.msg_list id).IsRecv myproc)
    (hsrc : (s.msg_list id).src = myproc) (hmem : id ∈ s.handles.map Prod.fst) : ¬ s.Linked id := by
  rintro ⟨i, hi | hi | hi⟩
  · obtain ⟨hdest, hne⟩ := h.handles.sends i id hi
    exact hne (hdest.symm.trans hid.2)
  · have hmy := (h.queues.recvSrc i id hi).symm.trans hsrc
    rw [hmy, h.queues.recvSelf] at hi
    cases hi
  · exact absurd (hid.1.symm.trans (h.queues.msgFlag i id hi hmem)) (by simp)

lemma findBuffered_src {msg : MsgEntry} {t : ℤ} {p : ℕ} (hsrc : 0 ≤ msg.src)
    (h : findBuffered nprocs s msg = some (t, p)) : t = msg.src := by
  rw [findBuffered, sources, if_neg (not_lt.mpr hsrc)] at h
  obtain ⟨i, hi, hi'⟩ := List.exists_of_findSome?_eq_some h
  obtain ⟨p', -, heq⟩ := Option.map_eq_some_iff.mp hi'
  rw [Prod.mk.injEq] at heq
  exact heq.1.symm.trans (List.mem_singleton.mp hi)

/-! ### What a step does to the queues -/

section

variable {src node dest t : ℤ} {p n m a new cur : ℕ} {stale : List ℕ} {hd : Header} {c : Call}

lemma queues_create (h : s.Queues myproc) (hid : ¬ s.Linked id) (buf : ℕ)
    (nbytes src dest tag : ℤ) (cs : List Call) :
    ((s.create myproc id buf nbytes src dest tag).start id cs).Queues myproc := by
  rw [create_eq hid]
  refine h.setUnlinked hid rfl rfl rfl rfl fun x hx hmem => ?_
  simp only [start, List.map_append, List.map_cons, List.map_nil, List.mem_append,
    List.mem_singleton] at hmem
  refine hmem.resolve_right ?_
  rintro rfl
  exact hid hx

lemma queues_push (h : s.Queues myproc) {user : WaitPoint} :
    Queues myproc { s.pushToBuffer id a with user := user } := by
  refine h.entries rfl rfl rfl (fun _ _ hmem => hmem) fun x _ => Held.update ?_ x
  split_ifs <;> exact ⟨rfl, rfl, fun _ => rfl⟩

lemma queues_leave (h : s.Queues myproc) : (s.leaveWait id).Queues myproc := by
  have hmem : ∀ x, x ∈ (s.handles.eraseP (·.1 = id)).map Prod.fst → x ∈ s.handles.map Prod.fst :=
    fun x hx => (List.eraseP_sublist.map _).subset hx
  rw [leaveWait]
  split_ifs with h3
  · refine h.entries rfl rfl rfl (fun x _ => hmem x) fun x _ => Held.update ?_ x
    exact ⟨rfl, rfl, fun h3 => h3⟩
  · exact h.entries rfl rfl rfl (fun x _ => hmem x) fun x _ => .refl _

lemma queues_asend (h : s.Queues myproc) (hid : ¬ s.Linked id) : (s.asend id cs).Queues myproc :=
  h.linkSend (fun hmem => hid (.of_send hmem)) rfl rfl rfl rfl rfl

lemma queues_sendToQ (h : s.Queues myproc) (hid : ¬ s.Linked id)
    (hdest : (s.msg_list id).dest = myproc) (hsrc : (s.msg_list id).src ≠ -1) :
    (s.sendToQ id a cs).Queues myproc := by
  let s₁ := s.setEntry id { s.msg_list id with buf := a, nleft := 0, nhdr := 0, send_flag := 3 }
  have h₁ : s₁.Queues myproc := h.setUnlinked hid rfl rfl rfl rfl fun _ _ hmem => hmem
  have hid' : s₁.msg_list id =
      { s.msg_list id with buf := a, nleft := 0, nhdr := 0, send_flag := 3 } :=
    Function.update_self ..
  have hnot : id ∉ s₁.msg_q (s.msg_list id).src := fun hmem => hid (.of_msg hmem)
  refine h₁.linkMsg hnot ?_ ?_ hsrc ?_ rfl rfl rfl rfl rfl <;> rw [hid']
  · exact hdest
  · exact fun _ => rfl

lemma queues_postRecv (h : s.Queues myproc) (hid : ¬ s.Linked id)
    (hsrc : (s.msg_list id).src ≠ myproc) : (s.postRecv nprocs myproc id cs).Queues myproc :=
  h.linkRecv (fun hmem => hid (.of_recv hmem)) rfl hsrc (List.perm_append_singleton ..) rfl rfl rfl
    rfl rfl

/-- The message `p` leaves `msg_q` and its entry is given back, and the entry `id` may change. -/
lemma Queues.takeMsg (h : s.Queues myproc) {msg : MsgEntry}
    (hmsg : s.Linked id → Held (s.msg_list id) msg)
    (hlist : s'.msg_list = Function.update (Function.update s.msg_list id msg) p
      { s.msg_list p with buf := 0 })
    (hsend : s'.send_q = s.send_q) (hrecv : ∀ i, (s'.recv_q i).Sublist (s.recv_q i))
    (hmsgq : s'.msg_q = Function.update s.msg_q t ((s.msg_q t).erase p))
    (hhandles : s'.handles = s.handles) : s'.Queues myproc := by
  have hsub : ∀ i, (s'.msg_q i).Sublist (s.msg_q i) := by
    rw [hmsgq]
    exact sublist_update List.erase_sublist
  have hlinked : ∀ x, s'.Linked x → s.Linked x := by
    rintro x ⟨i, hx | hx | hx⟩
    · rw [hsend] at hx
      exact .of_send hx
    · exact .of_recv ((hrecv i).subset hx)
    · exact .of_msg ((hsub i).subset hx)
  refine h.frame (fun i => ?_) hrecv hsub (fun x _ hmem => ?_) fun x hx => ?_
  · rw [hsend]
  · rwa [hhandles] at hmem
  · rw [hlist]
    rcases eq_or_ne x p with rfl | hxp
    · rw [Function.update_self]
      exact ⟨rfl, rfl, fun h3 => h3⟩
    · rw [Function.update_of_ne hxp]
      rcases eq_or_ne x id with rfl | hxid
      · rw [Function.update_self]
        exact hmsg (hlinked x hx)
      · rw [Function.update_of_ne hxid]
        exact .refl _

lemma queues_takeComplete (h : s.Queues myproc) (hdone : (s.msg_list p).nleft = 0)
    (hid : s.Linked id → (s.msg_list id).src = t) {user : WaitPoint} :
    Queues myproc { s.takeBuffered id t p stale with calls := cs, user := user } := by
  refine h.takeMsg (fun hx => .takeOver (hid hx) _) (takeBuffered_msg_list s id t p stale) rfl
    (fun i => ?_) rfl rfl
  show ((s.takeBuffered id t p stale).recv_q i).Sublist _
  rw [show (s.takeBuffered id t p stale).recv_q = s.recv_q from if_pos hdone]

lemma takeOver_kept (t : ℤ) (msg p : MsgEntry) :
    (msg.takeOver t p).buf = msg.buf ∧ (msg.takeOver t p).src = t := by
  rw [MsgEntry.takeOver]
  split_ifs <;> exact ⟨rfl, rfl⟩

/-- The receive takes the place of `p` at the head of `recv_q`. -/
lemma queues_takeUnfinished (h : s.Queues myproc) (hp : p ∈ s.msg_q t)
    (hleft : (s.msg_list p).nleft ≠ 0) (hhead : (s.recv_q t).head? = some p)
    (hid : ¬ s.Linked id) : Queues myproc { s.takeBuffered id t p stale with calls := cs } := by
  obtain ⟨l, hl⟩ := List.head?_eq_some_iff.mp hhead
  have hpid : p ≠ id := by
    rintro rfl
    exact hid (.of_msg hp)
  -- `p` leaves both queues, and then the receive comes in
  let s₁ : Engine := { s.takeBuffered id t p stale with recv_q := Function.update s.recv_q t l }
  have h₁ : s₁.Queues myproc := by
    refine h.takeMsg (fun hx => absurd hx hid) (takeBuffered_msg_list s id t p stale) rfl
      (Queues.sublist_update ?_) rfl rfl
    rw [hl]
    exact List.sublist_cons_self p l
  have hlist : s₁.msg_list id = (s.msg_list id).takeOver t (s.msg_list p) := by
    show (s.takeBuffered id t p stale).msg_list id = _
    rw [takeBuffered_msg_list, Function.update_of_ne hpid.symm, Function.update_self]
  have hrecv : (s.takeBuffered id t p stale).recv_q = Function.update s.recv_q t (id :: l) := by
    rw [show (s.takeBuffered id t p stale).recv_q = _ from if_neg hleft, next_head hhead, hl,
      List.tail_cons]
  have htail : s₁.recv_q t = l := Function.update_self ..
  have hnot : id ∉ s₁.recv_q t := by
    rw [htail]
    exact fun hx => hid (.of_recv (hl ▸ List.mem_cons_of_mem p hx))
  refine h₁.linkRecv (l := id :: l) hnot ?_ ?_ ?_ rfl rfl ?_ rfl rfl
  · rw [hlist]
    exact (takeOver_kept t (s.msg_list id) (s.msg_list p)).2
  · rintro rfl
    rw [h.recvSelf] at hl
    cases hl
  · rw [htail]
  · rw [show s₁.recv_q = Function.update s.recv_q t l from rfl, Function.update_idem]
    exact hrecv

/-- A receive from any source is in no other queue. -/
lemma Sound.anySource_linked (h : s.Sound myproc) (hp : p ∈ s.recv_q (-1)) :
    (∀ i, p ∉ s.send_q i) ∧ (∀ i, i ≠ -1 → p ∉ s.recv_q i) ∧ ∀ i, p ∉ s.msg_q i := by
  have hsrc := h.queues.recvSrc _ p hp
  refine ⟨fun i hx => ?_, fun i hi hx => ?_, fun i hx => ?_⟩
  · obtain ⟨hdest, hi⟩ := h.handles.sends i p hx
    exact hi (hdest.symm.trans (h.handles.recvs _ p hp).2)
  · exact hi ((h.queues.recvSrc i p hx).symm.trans hsrc)
  · rw [(h.queues.msgSrc i p hx).1.symm.trans hsrc, h.queues.msgAny] at hx
    cases hx

lemma queues_peekFound (h : s.Sound myproc) (hp : p ∈ s.recv_q (-1)) (hnode : 0 ≤ node)
    (hself : node ≠ myproc) : (s.takeAnySource node p hd cs).Queues myproc := by
  obtain ⟨hsend, hrecv, hmsg⟩ := h.anySource_linked hp
  have hne : node ≠ -1 := by omega
  -- `p` leaves its queue, and then it goes to the other one
  let s₁ : Engine := { s.setEntry p ((s.msg_list p).setMessage hd.nbytes node hd.tag) with
    recv_q := Function.update s.recv_q (-1) ((s.recv_q (-1)).erase p) }
  have hlinked : ∀ x, s₁.Linked x → x ≠ p := by
    rintro x ⟨i, hx | hx | hx⟩ rfl
    · exact hsend i hx
    · rcases mem_update hx with ⟨rfl, hx'⟩ | ⟨hi, hx'⟩
      · exact ((h.queues.recvNodup _).mem_erase_iff.mp hx').1 rfl
      · exact hrecv i hi hx'
    · exact hmsg i hx
  have h₁ : s₁.Queues myproc := by
    refine h.queues.frame (fun _ => .refl _) (Queues.sublist_update List.erase_sublist)
      (fun _ => .refl _) (fun _ _ hm => hm) fun x hx => ?_
    rw [show s₁.msg_list x = s.msg_list x from Function.update_of_ne (hlinked x hx) _ _]
    exact .refl _
  have hnot : p ∉ s₁.recv_q node := fun hx => hlinked p (.of_recv hx) rfl
  have hlist : s₁.msg_list p = (s.msg_list p).setMessage hd.nbytes node hd.tag :=
    Function.update_self ..
  have hnode' : s₁.recv_q node = s.recv_q node := Function.update_of_ne hne _ _
  refine h₁.linkRecv (l := p :: s.recv_q node) hnot ?_ hself ?_ rfl rfl rfl rfl rfl
  · rw [hlist]
    rfl
  · rw [hnode']

lemma queues_peekBuffer (h : s.Queues myproc) (hnew : ¬ s.Linked new) (hnode : 0 ≤ node)
    (hself : node ≠ myproc) (hhandles : new ∉ s.handles.map Prod.fst) :
    (s.bufferAnySource myproc node new a hd cs).Queues myproc := by
  rw [bufferAnySource_eq hnew]
  let msg : MsgEntry := { MsgEntry.create myproc a hd.nbytes node (-1) hd.tag with recv_flag := 2 }
  let s₁ := s.setEntry new msg
  have h₁ : s₁.Queues myproc := h.setUnlinked hnew rfl rfl rfl rfl fun _ _ hm => hm
  have hlist : s₁.msg_list new = msg := Function.update_self ..
  let s₂ : Engine := { s₁ with recv_q := Function.update s.recv_q node (s.recv_q node ++ [new]) }
  have h₂ : s₂.Queues myproc := by
    refine h₁.linkRecv (fun hx => hnew (.of_recv hx)) ?_ hself (List.perm_append_singleton ..)
      rfl rfl rfl rfl rfl
    rw [hlist]
    rfl
  have hnot : new ∉ s₂.msg_q node := fun hx => hnew (.of_msg hx)
  refine h₂.linkMsg hnot ?_ ?_ (by omega) (fun hm => absurd hm hhandles) rfl rfl rfl rfl rfl
  · rw [show s₂.msg_list new = msg from hlist]
    rfl
  · rw [show s₂.msg_list new = msg from hlist]
    rfl

lemma queues_readHeader (h : s.Queues myproc) : (s.readHeader src id cs).Queues myproc :=
  h.entries rfl rfl rfl (fun _ _ hm => hm) fun x _ => Held.update (.updateProgress _ _) x

lemma queues_matchHeader (h : s.Queues myproc) (hid : id ∈ s.recv_q src)
    (hsrc : (parseHeader (s.hdr src)).src = src) : (s.matchHeader src id n cs).Queues myproc := by
  refine h.entries rfl rfl rfl (fun _ _ hm => hm) fun x _ => Held.update ?_ x
  exact ⟨hsrc.trans (h.recvSrc src id hid).symm, rfl, fun h3 => h3⟩

lemma queues_redirect (h : s.Queues myproc) (hp : p ∈ s.recv_q src) :
    (s.redirect src id p n cs).Queues myproc := by
  have hentries : ∀ x, Held (s.msg_list x) ((s.redirect src id p n cs).msg_list x) := by
    intro x
    have hreset : Held (s.msg_list id) (s.msg_list id).resetHeader := ⟨rfl, rfl, fun h3 => h3⟩
    have hskip : ∀ msg : MsgEntry, Held msg msg.skipHeader := fun _ => ⟨rfl, rfl, fun h3 => h3⟩
    exact (hreset.update x).trans ((hskip _).update x)
  let s₁ : Engine := { s with msg_list := (s.redirect src id p n cs).msg_list }
  have h₁ : s₁.Queues myproc := h.entries rfl rfl rfl (fun _ _ hm => hm) fun x _ => hentries x
  let s₂ : Engine := { s₁ with recv_q := Function.update s.recv_q src ((s.recv_q src).erase p) }
  have hrecv : s₂.recv_q src = (s.recv_q src).erase p := Function.update_self ..
  have h₂ : s₂.Queues myproc :=
    h₁.frame (fun _ => .refl _) (Queues.sublist_update List.erase_sublist) (fun _ => .refl _)
      (fun _ _ hm => hm) fun _ _ => .refl _
  have hnot : p ∉ s₂.recv_q src := by
    rw [hrecv]
    exact (h.recvNodup src).not_mem_erase
  refine h₂.linkRecv (l := p :: (s.recv_q src).erase p) hnot ?_ ?_ ?_ rfl rfl ?_ rfl rfl
  · rw [show (s₂.msg_list p).src = _ from (hentries p).src]
    exact h.recvSrc src p hp
  · exact h.ne_self hp
  · rw [hrecv]
  · show Function.update s.recv_q src _ = Function.update (Function.update s.recv_q src _) src _
    rw [Function.update_idem]
    rfl

lemma queues_pushUnexpected (h : s.Queues myproc) (hid : id ∈ s.recv_q src)
    (hnew : ¬ s.Linked new) (hsrc : (parseHeader (s.hdr src)).src = src) (hpos : 0 ≤ src)
    (hhandles : new ∉ s.handles.map Prod.fst) :
    (s.pushUnexpected myproc src id new a n cs).Queues myproc := by
  rw [pushUnexpected_eq hnew]
  have hself : src ≠ myproc := h.ne_self hid
  let hd := parseHeader (s.hdr src)
  let msg := (MsgEntry.create myproc a hd.nbytes hd.src (-1) hd.tag).skipHeader
  let s₁ := s.setEntry id (s.msg_list id).resetHeader
  have h₁ : s₁.Queues myproc := by
    refine h.entries rfl rfl rfl (fun _ _ hm => hm) fun x _ => Held.update ?_ x
    exact ⟨rfl, rfl, fun h3 => h3⟩
  let s₂ := s₁.setEntry new msg
  have h₂ : s₂.Queues myproc := h₁.setUnlinked hnew rfl rfl rfl rfl fun _ _ hm => hm
  have hlist : s₂.msg_list new = msg := Function.update_self ..
  let s₃ : Engine := { s₂ with recv_q := Function.update s.recv_q src (new :: s.recv_q src) }
  have h₃ : s₃.Queues myproc := by
    refine h₂.linkRecv (fun hx => hnew (.of_recv hx)) ?_ hself (.refl _) rfl rfl rfl rfl rfl
    rw [hlist]
    exact hsrc
  have hnot : new ∉ s₃.msg_q hd.src := fun hx => hnew (.of_msg hx)
  refine h₃.linkMsg hnot ?_ ?_ ?_ (fun hm => absurd hm hhandles) rfl rfl rfl rfl rfl
  · rw [show s₃.msg_list new = msg from hlist]
    rfl
  · rw [show s₃.msg_list new = msg from hlist]
    rfl
  · rw [show hd.src = src from hsrc]
    omega

lemma queues_readBody (h : s.Queues myproc) : (s.readBody src id cur n cs).Queues myproc := by
  rw [readBody]
  split_ifs
  · exact h.entries rfl rfl rfl (fun _ _ hm => hm) fun x _ => Held.update (.updateProgress _ _) x
  · exact h.quiet ⟨rfl, rfl, rfl, rfl, rfl, rfl⟩

lemma next_sublist {l : List ℕ} (hid : id ∈ l) : (next id l stale).Sublist l := by
  rw [next, if_pos hid]
  exact (List.tail_sublist _).trans (List.dropWhile_sublist _)

lemma queues_finishRecv (h : s.Queues myproc) (hid : id ∈ s.recv_q src) :
    (s.finishRecv src id stale cs).Queues myproc := by
  rw [finishRecv]
  split_ifs
  · exact h.quiet ⟨rfl, rfl, rfl, rfl, rfl, rfl⟩
  · exact h.frame (fun _ => .refl _) (Queues.sublist_update (next_sublist hid)) (fun _ => .refl _)
      (fun _ _ hm => hm) fun _ _ => .refl _
  · exact h.frame (fun _ => .refl _) (Queues.sublist_update (.refl _)) (fun _ => .refl _)
      (fun _ _ hm => hm) fun _ _ => .refl _

lemma queues_sendPass (h : s.Queues myproc) {k k' : ℕ} {cat_nap : Bool} :
    (s.sendPass dest id cat_nap k k' cs).Queues myproc :=
  h.entries rfl rfl rfl (fun _ _ hm => hm) fun x _ => Held.update (.write _ k k') x

lemma queues_finishSend (h : s.Queues myproc) : (s.finishSend dest id cs).Queues myproc := by
  rw [finishSend]
  split_ifs with hpos
  · exact h.quiet ⟨rfl, rfl, rfl, rfl, rfl, rfl⟩
  · refine h.frame (Queues.sublist_update (List.tail_sublist _)) (fun _ => .refl _)
      (fun _ => .refl _) (fun _ _ hm => hm) fun x _ => Held.update ?_ x
    rw [MsgEntry.detach]
    split_ifs <;> exact ⟨rfl, rfl, fun h3 => h3⟩

end

lemma Queues.step (h : s.Sound myproc) (hcond : s.QueuesFresh nprocs maxMsgs)
    (hstep : Step nprocs maxMsgs myproc s s') : s'.Queues myproc := by
  have hq := h.queues
  cases hstep with
  | arrive | signal | wait | waitNull | waitDone | waitPush | waitSelf | waitBlock | blockDone
  | selfEmpty | serviceSend | serviceRecv | peekNothing | doSend | doRecv | gotHeader =>
    exact hq.quiet ⟨rfl, rfl, rfl, rfl, rfl, rfl⟩
  | userSend id buf nbytes dest tag hcalls huser hbuf hdest hid =>
    exact queues_create hq (hcond.new id hid) ..
  | userRecv id buf nbytes src tag hcalls huser hbuf hsrc hid =>
    exact queues_create hq (hcond.new id hid) ..
  | push id a hcalls huser ha => exact queues_push hq
  | leave id c hcalls huser => exact queues_leave hq
  | asend id cs hcalls => exact queues_asend hq (h.call hcalls).2.1
  | sendToQ id a cs hcalls ha =>
    obtain ⟨⟨-, hdest, -⟩, hid, hsrc⟩ := h.call hcalls
    exact queues_sendToQ hq hid hdest hsrc
  | arecvFound id cs t p stale hcalls hp =>
    obtain ⟨-, hid, -⟩ := h.call hcalls
    by_cases hdone : (s.msg_list p).nleft = 0
    · exact queues_takeComplete hq hdone fun hx => absurd hx hid
    · have hhead := (hcond.unfinished t p ((found_arecv hcalls).trans hp) hdone).1
      exact queues_takeUnfinished hq (findBuffered_mem hp) hdone hhead hid
  | arecvPost id cs hcalls hp =>
    obtain ⟨-, hid, -, hsrc, -⟩ := h.call hcalls
    exact queues_postRecv hq hid hsrc
  | selfFound id cs t p stale hcalls hp =>
    obtain ⟨-, hid, -⟩ := h.call hcalls
    have hdone := hcond.complete ((found_recvFromSelf hcalls).trans hp) (by simp [hcalls])
    exact queues_takeComplete hq hdone fun hx => absurd hx hid
  | peekFound node p cs hcalls hactive hsock hp hnbytes =>
    obtain ⟨-, hnode, hself⟩ := h.call hcalls
    exact queues_peekFound h (List.mem_of_find?_eq_some hp) hnode hself
  | peekBuffer node new a cs hcalls hrecv hactive hsock hp hnbytes ha hnew =>
    obtain ⟨-, hnode, hself⟩ := h.call hcalls
    exact queues_peekBuffer hq (hcond.new new hnew) hnode hself
      (not_handle h.handles (findEntry_free hnew))
  | sendPass dest id m cat_nap k k' cs hcalls hgo => exact queues_sendPass hq
  | finishSend dest id m cat_nap cs hcalls hstop => exact queues_finishSend hq
  | doRecvFound src id cs t p stale hcalls hid hhdr hflag hp =>
    obtain ⟨-, hsrc, -⟩ := h.call hcalls
    have hdone := hcond.complete ((found_doRecv hcalls hid hhdr hflag).trans hp) (by simp [hcalls])
    refine queues_takeComplete hq hdone fun _ => ?_
    have hsrc' := hq.recvSrc src id (List.mem_of_head? hid)
    exact (findBuffered_src (hsrc'.symm ▸ hsrc) hp).symm
  | readHeader src id m cs hcalls hgo hhdr => exact queues_readHeader hq
  | matchHeader src id n cs hcalls hfits =>
    exact queues_matchHeader hq (h.call hcalls).1 (hcond.headers src id n cs hcalls)
  | redirect src id p n cs hcalls hfits hp =>
    exact queues_redirect hq (List.mem_of_find?_eq_some hp)
  | pushUnexpected src id new a n cs hcalls hfits hp hnbytes ha hnew =>
    obtain ⟨hid, hsrc⟩ := h.call hcalls
    exact queues_pushUnexpected hq hid (hcond.new new hnew) (hcond.headers src id n cs hcalls) hsrc
      (not_handle h.handles (findEntry_free hnew))
  | readBody src id cur n cs hcalls => exact queues_readBody hq
  | finishRecv src id m stale cs hcalls hstop => exact queues_finishRecv hq (h.call hcalls).1

/-! ### The next calls -/

lemma create_src (buf : ℕ) (nbytes src dest tag : ℤ) :
    (MsgEntry.create myproc buf nbytes src dest tag).src = src := by
  rw [MsgEntry.create]
  split_ifs <;> rfl

/-- A message is not complete before its header was read. -/
lemma nleft_setMessage {nbytes : ℤ} (h : 0 ≤ nbytes) (src tag : ℤ) (msg : MsgEntry) :
    0 < (msg.setMessage nbytes src tag).nleft :=
  Int.add_pos_of_nonneg_of_pos h (by simp [hdrSize])

lemma nleft_create {nbytes : ℤ} (h : 0 ≤ nbytes) (buf : ℕ) (src dest tag : ℤ) :
    0 < (MsgEntry.create myproc buf nbytes src dest tag).nleft := by
  rw [MsgEntry.create]
  split_ifs <;> exact nleft_setMessage h src tag { msgNull with buf := buf, ptr := buf }

section

variable {src : ℤ} {p n a new : ℕ} {c : Call}

/-- The calls of the signal handler do not look at the entries. -/
lemma Sound.tail (h : s.Sound myproc) (hcalls : s.calls = c :: cs) :
    ∀ c' ∈ cs, s'.CallNew myproc c' := by
  intro c' hc'
  have hserv := (h.handles.head hcalls).2 c' hc'
  have hnew := h.calls c' (hcalls ▸ List.mem_cons_of_mem c hc')
  cases c' with
  | serviceSend => trivial
  | serviceRecv | peek => exact hnew
  | _ => exact hserv.elim

lemma callNew_cons {c' : Call} (hc : s'.CallNew myproc c') (hcs : ∀ c ∈ cs, s'.CallNew myproc c) :
    ∀ c ∈ c' :: cs, s'.CallNew myproc c := by
  intro c hc'
  rcases List.mem_cons.mp hc' with rfl | hc'
  · exact hc
  · exact hcs c hc'

lemma callNew_ite {b : Prop} [Decidable b] {cs' : List Call} (h : ∀ c ∈ cs, s'.CallNew myproc c)
    (h' : ¬ b → ∀ c ∈ cs', s'.CallNew myproc c) :
    ∀ c ∈ if b then cs else cs', s'.CallNew myproc c := by
  split_ifs with hb
  · exact h
  · exact h' hb

lemma callNew_handlerCalls : ∀ c ∈ handlerCalls nprocs myproc, s.CallNew myproc c := by
  intro c hc
  simp only [handlerCalls, List.mem_append, List.mem_map, List.mem_filter, List.mem_range] at hc
  rcases hc with (⟨i, -, rfl⟩ | ⟨i, ⟨⟨k, -, rfl⟩, hne⟩, rfl⟩) | ⟨i, ⟨⟨k, -, rfl⟩, hne⟩, rfl⟩
  · trivial
  · exact ⟨Int.natCast_nonneg k, by simpa using hne⟩
  · exact ⟨Int.natCast_nonneg k, by simpa using hne⟩

lemma calls_postRecv (h : s.Sound myproc) (hcalls : s.calls = .arecv id :: cs) :
    ∀ c ∈ (s.postRecv nprocs myproc id cs).calls,
      (s.postRecv nprocs myproc id cs).CallNew myproc c := by
  obtain ⟨-, -, -, hsrc, -⟩ := h.call hcalls
  rw [postRecv]
  dsimp only
  split_ifs with hneg
  · intro c hc
    rcases List.mem_append.mp hc with hc | hc
    · exact callNew_handlerCalls c hc
    · exact h.tail hcalls c hc
  · exact h.tail hcalls
  · exact callNew_cons ⟨not_lt.mp hneg, hsrc⟩ (h.tail hcalls)

/-- The message that goes on is not among those which the loop has still to come to. -/
lemma calls_redirect (h : s.Sound myproc) (hcalls : s.calls = .checkHeader src id n :: cs)
    (hne : p ≠ id) : ∀ c ∈ (s.redirect src id p n cs).calls,
      (s.redirect src id p n cs).CallNew myproc c := by
  obtain ⟨hid, hsrc⟩ := h.call hcalls
  refine callNew_cons ⟨hsrc, ?_⟩ (h.tail hcalls)
  rw [show (s.redirect src id p n cs).recv_q src = _ from Function.update_self ..]
  exact fun hx => (next_moved hne hid (h.queues.recvNodup src) hx).2 rfl

lemma calls_pushUnexpected (h : s.Sound myproc) (hcalls : s.calls = .checkHeader src id n :: cs)
    (hnew : ¬ s.Linked new) : ∀ c ∈ (s.pushUnexpected myproc src id new a n cs).calls,
      (s.pushUnexpected myproc src id new a n cs).CallNew myproc c := by
  obtain ⟨hid, hsrc⟩ := h.call hcalls
  have hne : new ≠ id := by
    rintro rfl
    exact hnew (.of_recv hid)
  refine callNew_cons ⟨hsrc, ?_⟩ (h.tail hcalls)
  rw [pushUnexpected_eq hnew]
  dsimp only
  rw [Function.update_self, next_cons hne]
  exact fun hx => hnew (.of_recv (next_subset _ _ hx))

end

lemma Sound.calls_step (h : s.Sound myproc) (hcond : s.QueuesFresh nprocs maxMsgs)
    (hmy : 0 ≤ myproc) (hstep : Step nprocs maxMsgs myproc s s') :
    ∀ c ∈ s'.calls, s'.CallNew myproc c := by
  cases hstep with
  | arrive => exact h.calls
  | signal => exact callNew_handlerCalls
  | userSend id buf nbytes dest tag hcalls huser hbuf hdest hid =>
    have hnot := hcond.new id hid
    rw [create_eq hnot]
    intro c hc
    rw [List.mem_singleton.mp hc]
    split_ifs
    · refine ⟨hnot, ?_⟩
      simp only [start, Function.update_self, create_src]
      omega
    · refine ⟨hnot, ?_, ?_, huser⟩
      · simpa only [start, Function.update_self, create_buf] using hbuf
      · simpa only [start, Function.update_self] using nleft_create (Int.natCast_nonneg nbytes) ..
  | userRecv id buf nbytes src tag hcalls huser hbuf hsrc hid =>
    have hnot := hcond.new id hid
    rw [create_eq hnot]
    intro c hc
    simp only [start] at hc
    split_ifs at hc with hself
    · cases hc
    rw [List.mem_singleton.mp hc]
    refine ⟨hnot, ?_, ?_, ?_, huser⟩
    · simpa only [start, Function.update_self, create_buf] using hbuf
    · simpa only [start, Function.update_self, create_src] using hself
    · simpa only [start, Function.update_self] using nleft_create (Int.natCast_nonneg nbytes) ..
  | wait id hcalls | waitNull id hcalls | waitDone id hcalls | waitPush id hcalls
  | waitBlock id hcalls | blockDone id hcalls => simp [hcalls]
  | push id a hcalls => simp [show (s.pushToBuffer id a).calls = [] from hcalls]
  | leave id c hcalls =>
    have hcalls' : (s.leaveWait id).calls = [] := by
      rw [leaveWait]
      split_ifs <;> exact hcalls
    simp [hcalls']
  | waitSelf id hcalls huser hleft hflag hsrc =>
    have hstep : Step nprocs maxMsgs myproc s _ := .waitSelf s id hcalls huser hleft hflag hsrc
    have hid : (s.msg_list id).IsRecv myproc :=
      ((h.handles.step hcond.toEntriesFresh hstep).head rfl).1.1
    have hmem : id ∈ s.handles.map Prod.fst := h.handles.user id (by rw [huser]; rfl)
    exact callNew_cons ⟨h.self_unlinked hid hsrc hmem, hsrc⟩ (by simp)
  | asend id cs hcalls => exact callNew_ite (h.tail hcalls) fun _ => callNew_cons trivial (h.tail hcalls)
  | sendToQ id a cs hcalls | arecvFound id cs t p stale hcalls | selfFound id cs t p stale hcalls
  | selfEmpty id cs hcalls | peekNothing node cs hcalls => exact h.tail hcalls
  | arecvPost id cs hcalls hp => exact calls_postRecv h hcalls
  | serviceSend node cs hcalls =>
    dsimp only
    split_ifs
    · exact callNew_cons trivial (h.tail hcalls)
    · exact h.tail hcalls
  | serviceRecv node cs hcalls =>
    dsimp only
    split_ifs
    · exact callNew_cons (h.call hcalls).2 (h.tail hcalls)
    · exact h.tail hcalls
  | peekFound node p cs hcalls | peekBuffer node new a cs hcalls =>
    have hnode := (h.call hcalls).2
    exact callNew_cons hnode (callNew_cons hnode (h.tail hcalls))
  | doSend dest id cs hcalls => exact callNew_cons trivial (h.tail hcalls)
  | sendPass dest id m cat_nap k k' cs hcalls =>
    refine callNew_cons ?_ (h.tail hcalls)
    split_ifs <;> trivial
  | finishSend dest id m cat_nap cs hcalls hstop =>
    rw [finishSend]
    split_ifs
    · exact h.tail hcalls
    · exact callNew_ite (h.tail hcalls) fun _ => callNew_cons trivial (h.tail hcalls)
  | doRecvFound src id cs t p stale hcalls | doRecv src id cs hcalls =>
    exact callNew_cons (h.call hcalls).2.1 (h.tail hcalls)
  | readHeader src id m cs hcalls hgo hhdr =>
    refine callNew_cons ?_ (h.tail hcalls)
    split_ifs <;> exact (h.call hcalls).2
  | gotHeader src id m cs hcalls hgo hhdr =>
    exact callNew_cons ⟨(h.call hcalls).2, not_mem_next_self (h.queues.recvNodup src)⟩ (h.tail hcalls)
  | matchHeader src id n cs hcalls hfits =>
    exact callNew_cons ⟨(h.call hcalls).2, not_mem_next_self (h.queues.recvNodup src)⟩ (h.tail hcalls)
  | redirect src id p n cs hcalls hfits hp =>
    refine calls_redirect h hcalls ?_
    rintro rfl
    exact hfits (by simpa using List.find?_some hp)
  | pushUnexpected src id new a n cs hcalls hfits hp hnbytes ha hnew =>
    exact calls_pushUnexpected h hcalls (hcond.new new hnew)
  | readBody src id cur n cs hcalls =>
    rw [readBody]
    dsimp only
    split_ifs <;> exact callNew_cons (h.call hcalls).2.1 (h.tail hcalls)
  | finishRecv src id m stale cs hcalls hstop =>
    obtain ⟨hid, hsrc⟩ := h.call hcalls
    have hself : src ≠ myproc := h.queues.ne_self hid
    rw [finishRecv]
    split_ifs
    · exact h.tail hcalls
    · exact callNew_ite (h.tail hcalls) fun _ => callNew_cons ⟨hsrc, hself⟩ (h.tail hcalls)
    · exact callNew_ite (h.tail hcalls) fun _ => callNew_cons ⟨hsrc, hself⟩ (h.tail hcalls)

lemma Sound.step (h : s.Sound myproc) (hcond : s.QueuesFresh nprocs maxMsgs) (hmy : 0 ≤ myproc)
    (hstep : Step nprocs maxMsgs myproc s s') : s'.Sound myproc :=
  ⟨h.handles.step hcond.toEntriesFresh hstep, .step h hcond hstep, h.calls_step hcond hmy hstep⟩

lemma Sound.init (mem : ℕ → UInt8) : (init mem).Sound myproc := by
  refine ⟨.init mem, ⟨?_, ?_, ?_, ?_, ?_, ?_, rfl, rfl⟩, ?_⟩ <;> simp [Engine.init]

end Engine

end NetPipe.MpLite
