import NetPipe.MpLite.Queues

/-!
# Receives and buffered messages

No receive waits for a message that is buffered in `msg_q`: an arriving header is compared with the
posted receives, and a new receive with the buffered messages. Only receives from any source are left
out when `check_header` or `send_to_q` buffers a message.
-/

namespace NetPipe.MpLite

/-- The first bytes of a socket are its header. -/
lemma parseHeader_append {l : List UInt8} (h : hdrSize ≤ l.length) (l' : List UInt8) :
    parseHeader (l ++ l') = parseHeader l := by
  rw [hdrSize] at h
  have h₁ : (l ++ l').take 4 = l.take 4 := List.take_append_of_le_length (by omega)
  have h₂ : ((l ++ l').drop 4).take 4 = (l.drop 4).take 4 := by
    rw [List.drop_append_of_le_length (by omega), List.take_append_of_le_length (by simp; omega)]
  have h₃ : ((l ++ l').drop 8).take 4 = (l.drop 8).take 4 := by
    rw [List.drop_append_of_le_length (by omega), List.take_append_of_le_length (by simp; omega)]
  rw [parseHeader, parseHeader, h₁, h₂, h₃]

lemma parseHeader_take {l : List UInt8} (h : hdrSize ≤ l.length) :
    parseHeader (l.take hdrSize) = parseHeader l := by
  conv_rhs => rw [← List.take_append_drop hdrSize l]
  rw [parseHeader_append]
  rw [List.length_take, min_eq_left h]

namespace Engine

variable {nprocs maxMsgs : ℕ} {myproc : ℤ} {s s' : Engine} {id : ℕ} {cs : List Call}

/-- The message whose header is compared now. -/
def checking (s : Engine) : Option ℕ :=
  match s.calls with
  | .checkHeader _ id _ :: _ => some id
  | _ => none

/-- The queue that the next call works on. -/
def serving (s : Engine) : Option ℤ :=
  match s.calls with
  | .doRecv src :: _ | .recvLoop src _ _ :: _ | .checkHeader src _ _ :: _
  | .readBody src _ _ _ :: _ => some src
  | _ => none

/-- A receive of `recv_q[i]` that has no message yet. -/
def Open (s : Engine) (i : ℤ) (r : ℕ) : Prop :=
  i = -1 ∨ ((s.msg_list r).nhdr ≠ 0 ∨ s.checking = some r) ∧ (s.msg_list r).recv_flag ≠ 2

/-- A header names this size and tag. -/
def Names (h : Header) (msg : MsgEntry) : Prop := h.nbytes = msg.nbytes ∧ h.tag = msg.tag

/-- The signal handler has put a message into `msg_q` of which it has seen the header only. Now
`do_recv` reads it. -/
inductive Peeked (s : Engine) (b : ℕ) : Prop where
  | unread (node : ℤ) (cs : List Call)
      (hcalls : s.calls = .doRecv node :: cs ∧ (s.recv_q node).head? = some b ∨
        s.calls = .recvLoop node b 1 :: cs)
      (hcount : (s.msg_list b).nhdr = hdrSize ∧ (s.msg_list b).phdr = 0 ∧ 0 < (s.msg_list b).nleft)
      (hsock : hdrSize ≤ (s.sock node).length)
      (hnames : Names (parseHeader (s.sock node)) (s.msg_list b))
  | read (node : ℤ) (n : ℕ) (cs : List Call) (hcalls : s.calls = .checkHeader node b n :: cs)
      (hnames : Names (parseHeader (s.hdr node)) (s.msg_list b))

/-- The queues that a call may put an entry into are those of the processes. -/
def CallInRange (nprocs : ℕ) (myproc : ℤ) (s : Engine) : Call → Prop
  | .arecv id => -1 ≤ (s.msg_list id).src ∧ (s.msg_list id).src < nprocs
  | .sendToQ id => (s.msg_list id).src = myproc ∧ myproc < nprocs
  | .peek node => node < nprocs
  | _ => True

/-- The invariant of matching. -/
structure Matching (nprocs : ℕ) (myproc : ℤ) (s : Engine) : Prop where
  /-- no receive accepts a message of `msg_q` -/
  unmatched : ∀ i, ∀ r ∈ s.recv_q i, s.Open i r → ∀ j, i = j ∨ i = -1 → ∀ b ∈ s.msg_q j,
    ¬ (s.msg_list r).Fits (s.msg_list b).nbytes (s.msg_list b).tag
  peeked : ∀ j, ∀ b ∈ s.msg_q j, (s.msg_list b).nhdr ≠ 0 ∨ s.checking = some b →
    (s.msg_list b).recv_flag = 2 ∧ s.Peeked b
  idle : ∀ i, i ≠ -1 → s.ractive i = false → s.recv_q i = [] ∨ s.serving = some i
  range : ∀ i, i ≠ -1 → ∀ x, x ∈ s.msg_q i ∨ x ∈ s.recv_q i → 0 ≤ i ∧ i < nprocs
  calls : ∀ c ∈ s.calls, s.CallInRange nprocs myproc c

/-- No receive from any source accepts a message that is put into `msg_q` without a look at them. -/
def AnySourceUnmatched (s : Engine) : Prop :=
  (∀ src id n cs, s.calls = .checkHeader src id n :: cs →
    ¬ (s.msg_list id).Fits (parseHeader (s.hdr src)).nbytes (parseHeader (s.hdr src)).tag →
    (∀ r ∈ s.recv_q src, ¬ (s.msg_list r).Fits (parseHeader (s.hdr src)).nbytes
      (parseHeader (s.hdr src)).tag) →
    ∀ r ∈ s.recv_q (-1), ¬ (s.msg_list r).Fits (parseHeader (s.hdr src)).nbytes
      (parseHeader (s.hdr src)).tag) ∧
  ∀ id cs, s.calls = .sendToQ id :: cs →
    ∀ r ∈ s.recv_q (-1), ¬ (s.msg_list r).Fits (s.msg_list id).nbytes (s.msg_list id).tag

/-- What matching sees of an entry. -/
structure Alike (msg msg' : MsgEntry) : Prop where
  nbytes : msg'.nbytes = msg.nbytes
  tag : msg'.tag = msg.tag
  nhdr : msg'.nhdr = msg.nhdr
  recv_flag : msg'.recv_flag = msg.recv_flag

namespace Alike

variable {msg msg' : MsgEntry}

lemma refl (msg : MsgEntry) : Alike msg msg := ⟨rfl, rfl, rfl, rfl⟩

lemma fits (h : Alike msg msg') (n t : ℤ) : msg'.Fits n t ↔ msg.Fits n t := by
  rw [MsgEntry.Fits, MsgEntry.Fits, h.nbytes, h.tag]

/-- The entry `id`, which does not matter here, changes. -/
lemma update_ne {f : ℕ → MsgEntry} {x : ℕ} (h : x ≠ id) : Alike (f x) (Function.update f id msg x) := by
  rw [Function.update_of_ne h]
  exact refl _

lemma update {f : ℕ → MsgEntry} (h : Alike (f id) msg) (x : ℕ) :
    Alike (f x) (Function.update f id msg x) := by
  rcases eq_or_ne x id with rfl | hne
  · rw [Function.update_self]
    exact h
  · exact update_ne hne

end Alike

namespace Matching

/-- No header of a message of `msg_q` is still to be read. -/
lemma closed (h : s.Matching nprocs myproc) (hp : ∀ b, ¬ s.Peeked b) {j : ℤ} {b : ℕ}
    (hb : b ∈ s.msg_q j) : (s.msg_list b).nhdr = 0 ∧ s.checking ≠ some b := by
  by_contra hcon
  rw [not_and_or, not_not] at hcon
  exact hp b (h.peeked j b hb hcon).2

lemma not_peeked (hs : s.serving = none) (b : ℕ) : ¬ s.Peeked b := by
  rintro (⟨node, cs, hcalls | hcalls, -, -, -⟩ | ⟨node, n, cs, hcalls, -⟩)
  · simp [serving, hcalls.1] at hs
  · simp [serving, hcalls] at hs
  · simp [serving, hcalls] at hs

/-- A step after which no header of a message of `msg_q` has still to be read. -/
lemma frame (h : s.Matching nprocs myproc)
    (hrecv : ∀ i, ∀ r ∈ s'.recv_q i, s'.Open i r → ∃ i', (i' = i ∨ i' = -1) ∧ r ∈ s.recv_q i' ∧
      s.Open i' r ∧ ∀ n t, (s'.msg_list r).Fits n t → (s.msg_list r).Fits n t)
    (hmsg : ∀ j, ∀ b ∈ s'.msg_q j, b ∈ s.msg_q j ∧ (s'.msg_list b).nbytes = (s.msg_list b).nbytes ∧
      (s'.msg_list b).tag = (s.msg_list b).tag)
    (hpeeked : ∀ j, ∀ b ∈ s'.msg_q j, (s'.msg_list b).nhdr ≠ 0 ∨ s'.checking = some b →
      (s'.msg_list b).recv_flag = 2 ∧ s'.Peeked b)
    (hidle : ∀ i, i ≠ -1 → s'.ractive i = false → s'.recv_q i = [] ∨ s'.serving = some i)
    (hrange : ∀ i, i ≠ -1 → ∀ x ∈ s'.recv_q i, 0 ≤ i ∧ i < nprocs)
    (hcalls : ∀ c ∈ s'.calls, s'.CallInRange nprocs myproc c) : s'.Matching nprocs myproc := by
  refine ⟨fun i r hr hopen j hij b hb => ?_, hpeeked, hidle, fun i hi x hx => ?_, hcalls⟩
  · obtain ⟨i', hi', hr', hopen', hfits⟩ := hrecv i r hr hopen
    obtain ⟨hb', hnbytes, htag⟩ := hmsg j b hb
    rw [hnbytes, htag]
    refine fun hf => h.unmatched i' r hr' hopen' j ?_ b hb' (hfits _ _ hf)
    rcases hi' with rfl | rfl
    · exact hij
    · exact Or.inr rfl
  · rcases hx with hx | hx
    · exact h.range i hi x (Or.inl (hmsg i x hx).1)
    · exact hrange i hi x hx

/-- A step outside the loops that keeps the queues of receives and messages. -/
lemma still (h : s.Matching nprocs myproc) (hs : s.serving = none) (hs' : s'.checking = none)
    (hrecv : s'.recv_q = s.recv_q) (hmsg : s'.msg_q = s.msg_q) (hractive : s'.ractive = s.ractive)
    (hentries : ∀ i x, x ∈ s.recv_q i ∨ x ∈ s.msg_q i → Alike (s.msg_list x) (s'.msg_list x))
    (hcalls : ∀ c ∈ s'.calls, s'.CallInRange nprocs myproc c) : s'.Matching nprocs myproc := by
  refine h.frame (fun i r hr hopen => ?_) (fun j b hb => ?_) (fun j b hb hcon => ?_)
    (fun i hi hidle => ?_) (fun i hi x hx => ?_) hcalls
  · rw [hrecv] at hr
    have halike := hentries i r (Or.inl hr)
    refine ⟨i, Or.inl rfl, hr, hopen.imp_right fun ho => ⟨Or.inl ?_, ?_⟩, fun n t =>
      (halike.fits n t).mp⟩
    · rw [← halike.nhdr]
      exact ho.1.resolve_right (by simp [hs'])
    · rw [← halike.recv_flag]
      exact ho.2
  · rw [hmsg] at hb
    have halike := hentries j b (Or.inr hb)
    exact ⟨hb, halike.nbytes, halike.tag⟩
  · rw [hmsg] at hb
    rw [hs', (hentries j b (Or.inr hb)).nhdr, (h.closed (not_peeked hs) hb).1] at hcon
    simp at hcon
  · rw [hractive] at hidle
    rw [hrecv]
    exact Or.inl ((h.idle i hi hidle).resolve_right (by simp [hs]))
  · rw [hrecv] at hx
    exact h.range i hi x (Or.inr hx)

end Matching

/-! ### Steps of the user and of sends -/

section

variable {src node dest t : ℤ} {p n m a new cur : ℕ} {stale : List ℕ} {hd : Header} {c : Call}

/-- The calls of the signal handler stay in range. -/
lemma Matching.tail (h : s.Matching nprocs myproc) (hs : s.Sound myproc)
    (hcalls : s.calls = c :: cs) : ∀ c' ∈ cs, s'.CallInRange nprocs myproc c' := by
  intro c' hc'
  have hserv := (hs.handles.head hcalls).2 c' hc'
  have hin := h.calls c' (hcalls ▸ List.mem_cons_of_mem c hc')
  cases c' with
  | serviceSend | serviceRecv => trivial
  | peek => exact hin
  | _ => exact hserv.elim

lemma inRange_cons {c' : Call} (hc : s'.CallInRange nprocs myproc c')
    (hcs : ∀ c ∈ cs, s'.CallInRange nprocs myproc c) :
    ∀ c ∈ c' :: cs, s'.CallInRange nprocs myproc c := by
  intro c hc'
  rcases List.mem_cons.mp hc' with rfl | hc'
  · exact hc
  · exact hcs c hc'

lemma inRange_handlerCalls : ∀ c ∈ handlerCalls nprocs myproc, s.CallInRange nprocs myproc c := by
  intro c hc
  simp only [handlerCalls, List.mem_append, List.mem_map, List.mem_filter, List.mem_range] at hc
  rcases hc with (⟨i, -, rfl⟩ | ⟨i, -, rfl⟩) | ⟨i, ⟨⟨k, hk, rfl⟩, -⟩, rfl⟩
  · trivial
  · trivial
  · exact Int.ofNat_lt.mpr hk

lemma checking_service (hserv : ∀ c ∈ cs, c.IsService) (hcalls : s.calls = cs) :
    s.checking = none := by
  rw [checking, hcalls]
  cases cs with
  | nil => rfl
  | cons c cs =>
    have hc := hserv c (List.mem_cons_self ..)
    cases c <;> first | rfl | exact hc.elim

lemma serving_service (hserv : ∀ c ∈ cs, c.IsService) (hcalls : s.calls = cs) :
    s.serving = none := by
  rw [serving, hcalls]
  cases cs with
  | nil => rfl
  | cons c cs =>
    have hc := hserv c (List.mem_cons_self ..)
    cases c <;> first | rfl | exact hc.elim

lemma checking_of_serving (hs : s.serving = none) : s.checking = none := by
  rw [checking]
  split
  · rename_i hcalls
    simp [serving, hcalls] at hs
  · rfl

/-- Bytes that arrive leave the header in the socket as it is. -/
lemma matching_arrive (h : s.Matching nprocs myproc) (src : ℤ) (bytes : List UInt8) :
    Matching nprocs myproc { s with
      sock := Function.update s.sock src (s.sock src ++ bytes)
      arrived := Function.update s.arrived src (s.arrived src ++ bytes) } := by
  refine ⟨h.unmatched, fun j b hb hcon => ?_, h.idle, h.range, h.calls⟩
  obtain ⟨h2, hp⟩ := h.peeked j b hb hcon
  refine ⟨h2, ?_⟩
  cases hp with
  | unread node cs hcalls hcount hsock hnames =>
    refine .unread node cs hcalls hcount ?_ ?_
    · rcases eq_or_ne node src with rfl | hne
      · simpa using Nat.le_add_right_of_le hsock
      · simpa [hne] using hsock
    · rcases eq_or_ne node src with rfl | hne
      · simpa [parseHeader_append hsock] using hnames
      · simpa [hne] using hnames
  | read node n cs hcalls hnames => exact .read node n cs hcalls hnames

lemma matching_create (h : s.Matching nprocs myproc) (hcalls : s.calls = [])
    (hid : ¬ s.Linked id) (buf : ℕ) (nbytes src dest tag : ℤ)
    (hserving : ((s.create myproc id buf nbytes src dest tag).start id cs).serving = none)
    (hnew : ∀ c ∈ cs, ((s.create myproc id buf nbytes src dest tag).start id cs).CallInRange nprocs
      myproc c) : ((s.create myproc id buf nbytes src dest tag).start id cs).Matching nprocs myproc := by
  rw [create_eq hid] at hserving hnew ⊢
  refine h.still (by simp [serving, hcalls]) (checking_of_serving hserving) rfl rfl rfl
    (fun i x hx => Alike.update_ne ?_) hnew
  rintro rfl
  rcases hx with hx | hx
  · exact hid (.of_recv hx)
  · exact hid (.of_msg hx)

/-- The user's part of a step changes no entry that matching sees. -/
lemma matching_user (h : s.Matching nprocs myproc) (hcalls : s.calls = [])
    (hcalls' : s'.calls = [] ∨ ∃ id, s'.calls = [.recvFromSelf id])
    (hrecv : s'.recv_q = s.recv_q) (hmsg : s'.msg_q = s.msg_q) (hractive : s'.ractive = s.ractive)
    (hentries : ∀ x, Alike (s.msg_list x) (s'.msg_list x)) : s'.Matching nprocs myproc := by
  refine h.still (by simp [serving, hcalls]) ?_ hrecv hmsg hractive (fun _ x _ => hentries x) ?_
  · rcases hcalls' with hc | ⟨id, hc⟩ <;> simp [checking, hc]
  · rcases hcalls' with hc | ⟨id, hc⟩ <;> simp [hc, CallInRange]

lemma matching_push (h : s.Matching nprocs myproc) (hcalls : s.calls = []) {user : WaitPoint} :
    Matching nprocs myproc { s.pushToBuffer id a with user := user } := by
  refine matching_user h hcalls (Or.inl hcalls) rfl rfl rfl (Alike.update ?_)
  split_ifs <;> exact ⟨rfl, rfl, rfl, rfl⟩

lemma matching_leave (h : s.Matching nprocs myproc) (hcalls : s.calls = []) :
    (s.leaveWait id).Matching nprocs myproc := by
  rw [leaveWait]
  split_ifs
  · exact matching_user h hcalls (Or.inl hcalls) rfl rfl rfl (Alike.update ⟨rfl, rfl, rfl, rfl⟩)
  · exact matching_user h hcalls (Or.inl hcalls) rfl rfl rfl fun _ => .refl _

/-- The entries of sends do not matter. -/
lemma Sound.ne_send (h : s.Sound myproc) (hid : id ∈ s.send_q dest) {i : ℤ} {x : ℕ}
    (hx : x ∈ s.recv_q i ∨ x ∈ s.msg_q i) : x ≠ id := by
  rintro rfl
  obtain ⟨hdest, hself⟩ := h.handles.sends dest x hid
  rcases hx with hx | hx
  · exact hself (hdest.symm.trans (h.handles.recvs i x hx).2)
  · exact hself (hdest.symm.trans (h.queues.msgSrc i x hx).2)

/-- The signal handler calls `do_send` if a send is active. -/
lemma matching_serviceSend (h : s.Matching nprocs myproc) (hs : s.Sound myproc)
    (hcalls : s.calls = .serviceSend node :: cs) :
    Matching nprocs myproc { s with calls := if s.wactive node then .doSend node :: cs else cs } := by
  have hserv := (hs.handles.head hcalls).2
  refine h.still (by simp [serving, hcalls]) ?_ rfl rfl rfl (fun _ _ _ => .refl _) ?_
  · by_cases hw : s.wactive node
    · simp [checking, hw]
    · exact checking_service hserv (if_neg hw)
  · dsimp only
    split_ifs
    · exact inRange_cons trivial (h.tail hs hcalls)
    · exact h.tail hs hcalls

lemma matching_serviceRecv (h : s.Matching nprocs myproc) (hs : s.Sound myproc)
    (hcalls : s.calls = .serviceRecv node :: cs) :
    Matching nprocs myproc { s with calls := if s.ractive node then .doRecv node :: cs else cs } := by
  have hserv := (hs.handles.head hcalls).2
  refine h.still (by simp [serving, hcalls]) ?_ rfl rfl rfl (fun _ _ _ => .refl _) ?_
  · by_cases hw : s.ractive node
    · simp [checking, hw]
    · exact checking_service hserv (if_neg hw)
  · dsimp only
    split_ifs
    · exact inRange_cons trivial (h.tail hs hcalls)
    · exact h.tail hs hcalls

lemma matching_asend (h : s.Matching nprocs myproc) (hs : s.Sound myproc)
    (hcalls : s.calls = .asend id :: cs) : (s.asend id cs).Matching nprocs myproc := by
  have hserv := (hs.handles.head hcalls).2
  refine h.still (by simp [serving, hcalls]) ?_ rfl rfl rfl (fun _ _ _ => .refl _) ?_
  · by_cases hw : s.wactive (s.msg_list id).dest
    · exact checking_service hserv (if_pos hw)
    · rw [checking, show (s.asend id cs).calls = _ from if_neg hw]
  · rw [Engine.asend]
    dsimp only
    split_ifs
    · exact h.tail hs hcalls
    · exact inRange_cons trivial (h.tail hs hcalls)

lemma matching_sendPass (h : s.Matching nprocs myproc) (hs : s.Sound myproc) {cat_nap : Bool}
    {k k' : ℕ} (hcalls : s.calls = .sendLoop dest id m cat_nap :: cs) :
    (s.sendPass dest id cat_nap k k' cs).Matching nprocs myproc := by
  have hid := List.mem_of_head? (hs.call hcalls).1
  refine h.still (by simp [serving, hcalls]) ?_ rfl rfl rfl
    (fun i x hx => Alike.update_ne (hs.ne_send hid hx)) ?_
  · rw [Engine.sendPass, checking]
    dsimp only
    split_ifs <;> rfl
  · rw [Engine.sendPass]
    refine inRange_cons ?_ (h.tail hs hcalls)
    split_ifs <;> trivial

lemma matching_finishSend (h : s.Matching nprocs myproc) (hs : s.Sound myproc) {cat_nap : Bool}
    (hcalls : s.calls = .sendLoop dest id m cat_nap :: cs) :
    (s.finishSend dest id cs).Matching nprocs myproc := by
  have hid := List.mem_of_head? (hs.call hcalls).1
  have hserv := (hs.handles.head hcalls).2
  have hserving : s.serving = none := by simp [serving, hcalls]
  rw [Engine.finishSend]
  dsimp only
  split_ifs
  · exact h.still hserving (checking_service hserv rfl) rfl rfl rfl (fun _ _ _ => .refl _)
      (h.tail hs hcalls)
  · exact h.still hserving (checking_service hserv rfl) rfl rfl rfl
      (fun i x hx => Alike.update_ne (hs.ne_send hid hx)) (h.tail hs hcalls)
  · exact h.still hserving rfl rfl rfl rfl (fun i x hx => Alike.update_ne (hs.ne_send hid hx))
      (inRange_cons trivial (h.tail hs hcalls))

/-- A message of the process to itself is put into `msg_q`. -/
lemma matching_sendToQ (h : s.Matching nprocs myproc) (hs : s.Sound myproc) (hmy : 0 ≤ myproc)
    (hcond : s.AnySourceUnmatched) (hcalls : s.calls = .sendToQ id :: cs) :
    (s.sendToQ id a cs).Matching nprocs myproc := by
  obtain ⟨-, hid, -⟩ := hs.call hcalls
  obtain ⟨hsrc, hlt⟩ := h.calls _ (hcalls ▸ List.mem_cons_self ..)
  have hserv := (hs.handles.head hcalls).2
  have hserving : s.serving = none := by simp [serving, hcalls]
  have hchecking : (s.sendToQ id a cs).checking = none := checking_service hserv rfl
  have hne : ∀ x, s.Linked x → (s.sendToQ id a cs).msg_list x = s.msg_list x := by
    intro x hx
    refine Function.update_of_ne ?_ _ _
    rintro rfl
    exact hid hx
  have hlist : (s.sendToQ id a cs).msg_list id =
      { s.msg_list id with buf := a, nleft := 0, nhdr := 0, send_flag := 3 } :=
    Function.update_self ..
  have hmsg : ∀ j, ∀ b ∈ (s.sendToQ id a cs).msg_q j, b = id ∧ j = myproc ∨ b ∈ s.msg_q j := by
    intro j b hb
    rcases mem_update hb with ⟨rfl, hb'⟩ | ⟨-, hb'⟩
    · rw [List.mem_append, List.mem_singleton] at hb'
      rcases hb' with hb' | rfl
      · exact Or.inr hb'
      · exact Or.inl ⟨rfl, hsrc⟩
    · exact Or.inr hb'
  refine ⟨fun i r hr hopen j hij b hb => ?_, fun j b hb hcon => ?_, fun i hi hidle => ?_,
    fun i hi x hx => ?_, h.tail hs hcalls⟩
  · replace hr : r ∈ s.recv_q i := hr
    rw [hne r (.of_recv hr)]
    rcases hmsg j b hb with ⟨rfl, rfl⟩ | hb
    · rw [hlist]
      rcases hij with rfl | rfl
      · exact absurd rfl (hs.queues.ne_self hr)
      · exact hcond.2 b cs hcalls r hr
    · rw [hne b (.of_msg hb)]
      refine h.unmatched i r hr (hopen.imp_right fun ho => ?_) j hij b hb
      rw [hne r (.of_recv hr), hchecking] at ho
      exact ⟨Or.inl (ho.1.resolve_right (by simp)), ho.2⟩
  · rw [hchecking] at hcon
    rcases hmsg j b hb with ⟨rfl, rfl⟩ | hb
    · rw [hlist] at hcon
      simp at hcon
    · rw [hne b (.of_msg hb), (h.closed (Matching.not_peeked hserving) hb).1] at hcon
      simp at hcon
  · exact Or.inl ((h.idle i hi hidle).resolve_right (by simp [hserving]))
  · rcases hx with hx | hx
    · rcases hmsg i x hx with ⟨rfl, rfl⟩ | hx
      · exact ⟨hmy, hlt⟩
      · exact h.range i hi x (Or.inl hx)
    · exact h.range i hi x (Or.inr hx)

/-! ### Buffered messages -/

lemma nhdr_takeOver (t : ℤ) (msg p : MsgEntry) : (msg.takeOver t p).nhdr = 0 := by
  rw [MsgEntry.takeOver]
  split_ifs <;> rfl

/-- A receive takes a message of `msg_q`. -/
lemma matching_take (h : s.Matching nprocs myproc) (hs : s.Sound myproc)
    (hclosed : ∀ j, ∀ b ∈ s.msg_q j, (s.msg_list b).nhdr = 0) (hp : p ∈ s.msg_q t)
    (hfirst : (s.msg_list p).nleft ≠ 0 → (s.recv_q t).head? = some p)
    (hid : ∀ j, id ∉ s.msg_q j) (hany : id ∉ s.recv_q (-1)) {user : WaitPoint} {cs : List Call}
    (hs' : s' = { s.takeBuffered id t p stale with calls := cs, user := user })
    (hchecking : s'.checking = none)
    (hidle : ∀ i, i ≠ -1 → s.ractive i = false → s'.recv_q i = [] ∨ s'.serving = some i)
    (hcalls : ∀ c ∈ cs, s'.CallInRange nprocs myproc c) : s'.Matching nprocs myproc := by
  subst hs'
  have htany : t ≠ -1 := by
    rintro rfl
    rw [hs.queues.msgAny] at hp
    cases hp
  have hmsg : ∀ j, ∀ b ∈ (s.takeBuffered id t p stale).msg_q j, b ∈ s.msg_q j ∧ b ≠ p := by
    intro j b hb
    rcases mem_update hb with ⟨rfl, hb'⟩ | ⟨hne, hb'⟩
    · have hb'' := (hs.queues.msgNodup j).mem_erase_iff.mp hb'
      exact ⟨hb''.2, hb''.1⟩
    · refine ⟨hb', ?_⟩
      rintro rfl
      exact hne ((hs.queues.msgSrc j b hb').1.symm.trans (hs.queues.msgSrc t b hp).1)
  have hrecv : ∀ i, ∀ r ∈ (s.takeBuffered id t p stale).recv_q i,
      r = id ∧ i ≠ -1 ∨ r ∈ s.recv_q i := by
    intro i r hr
    by_cases hdone : (s.msg_list p).nleft = 0
    · rw [show (s.takeBuffered id t p stale).recv_q = s.recv_q from if_pos hdone] at hr
      exact Or.inr hr
    · rw [show (s.takeBuffered id t p stale).recv_q = _ from if_neg hdone,
        next_head (hfirst hdone)] at hr
      rcases mem_update hr with ⟨rfl, hr'⟩ | ⟨-, hr'⟩
      · rcases List.mem_cons.mp hr' with rfl | hr'
        · exact Or.inl ⟨rfl, htany⟩
        · exact Or.inr (List.mem_of_mem_tail hr')
      · exact Or.inr hr'
  have hlist : ∀ x, x ≠ id → Alike (s.msg_list x) ((s.takeBuffered id t p stale).msg_list x) := by
    intro x hx
    rw [takeBuffered_msg_list]
    rcases eq_or_ne x p with rfl | hxp
    · rw [Function.update_self]
      exact ⟨rfl, rfl, rfl, rfl⟩
    · rw [Function.update_of_ne hxp]
      exact Alike.update_ne hx
  have hne : ∀ {j x}, x ∈ s.msg_q j → x ≠ id := by
    rintro j x hx rfl
    exact hid j hx
  have hpid := hne hp
  have hnhdr : ((s.takeBuffered id t p stale).msg_list id).nhdr = 0 := by
    rw [takeBuffered_msg_list, Function.update_of_ne hpid.symm, Function.update_self, nhdr_takeOver]
  refine h.frame (fun i r hr hopen => ?_) (fun j b hb => ?_) (fun j b hb hcon => ?_) hidle
    (fun i hi x hx => ?_) hcalls
  · have hopen' : i = -1 ∨ ((s.takeBuffered id t p stale).msg_list r).nhdr ≠ 0 ∧
        ((s.takeBuffered id t p stale).msg_list r).recv_flag ≠ 2 := by
      refine hopen.imp_right fun ho => ⟨ho.1.resolve_right ?_, ho.2⟩
      simp [hchecking]
    have hr' := hrecv i r hr
    have hrid : r ≠ id := by
      rintro rfl
      rcases hopen' with rfl | ho
      · exact hany (hr'.resolve_left fun h => h.2 rfl)
      · exact ho.1 hnhdr
    have halike := hlist r hrid
    refine ⟨i, Or.inl rfl, hr'.resolve_left fun h => hrid h.1, ?_, fun n k => (halike.fits n k).mp⟩
    rw [halike.nhdr, halike.recv_flag] at hopen'
    exact hopen'.imp_right fun ho => ⟨Or.inl ho.1, ho.2⟩
  · have hb' := (hmsg j b hb).1
    exact ⟨hb', (hlist b (hne hb')).nbytes, (hlist b (hne hb')).tag⟩
  · have hb' := (hmsg j b hb).1
    rw [hchecking] at hcon
    replace hcon : ((s.takeBuffered id t p stale).msg_list b).nhdr ≠ 0 := by simpa using hcon
    rw [(hlist b (hne hb')).nhdr] at hcon
    exact absurd (hclosed j b hb') hcon
  · rcases hrecv i x hx with ⟨rfl, -⟩ | hx'
    · by_cases hdone : (s.msg_list p).nleft = 0
      · replace hx : x ∈ (s.takeBuffered x t p stale).recv_q i := hx
        rw [show (s.takeBuffered x t p stale).recv_q = s.recv_q from if_pos hdone] at hx
        exact h.range i hi x (Or.inr hx)
      · replace hx : x ∈ (s.takeBuffered x t p stale).recv_q i := hx
        rw [show (s.takeBuffered x t p stale).recv_q = _ from if_neg hdone] at hx
        rcases mem_update hx with ⟨rfl, -⟩ | ⟨-, hx'⟩
        · exact h.range i hi p (Or.inl hp)
        · exact h.range i hi x (Or.inr hx')
    · exact h.range i hi x (Or.inr hx')

lemma matching_arecvFound (h : s.Matching nprocs myproc) (hs : s.Sound myproc)
    (hcond : s.QueuesFresh nprocs maxMsgs) (hcalls : s.calls = .arecv id :: cs)
    (hp : findBuffered nprocs s (s.msg_list id) = some (t, p)) :
    Matching nprocs myproc { s.takeBuffered id t p stale with calls := cs } := by
  obtain ⟨-, hid, -⟩ := hs.call hcalls
  have hserv := (hs.handles.head hcalls).2
  have hserving : s.serving = none := by simp [serving, hcalls]
  have hmem := findBuffered_mem hp
  have hfirst : (s.msg_list p).nleft ≠ 0 → (s.recv_q t).head? = some p := fun hdone =>
    (hcond.unfinished t p ((found_arecv hcalls).trans hp) hdone).1
  refine matching_take h hs (fun j b hb => (h.closed (Matching.not_peeked hserving) hb).1) hmem
    hfirst (fun j hx => hid (.of_msg hx)) (fun hx => hid (.of_recv hx)) rfl
    (checking_service hserv rfl) (fun i hi hactive => Or.inl ?_) (h.tail hs hcalls)
  have hempty := (h.idle i hi hactive).resolve_right (by simp [hserving])
  show (s.takeBuffered id t p stale).recv_q i = []
  by_cases hdone : (s.msg_list p).nleft = 0
  · rwa [show (s.takeBuffered id t p stale).recv_q = s.recv_q from if_pos hdone]
  · have hit : i ≠ t := by
      rintro rfl
      rw [hempty] at hfirst
      simpa using hfirst hdone
    rw [show (s.takeBuffered id t p stale).recv_q = _ from if_neg hdone, Function.update_of_ne hit]
    exact hempty

lemma matching_selfFound (h : s.Matching nprocs myproc) (hs : s.Sound myproc)
    (hcond : s.QueuesFresh nprocs maxMsgs) (hcalls : s.calls = .recvFromSelf id :: cs)
    (hp : findBuffered nprocs s (s.msg_list id) = some (t, p)) {user : WaitPoint} :
    Matching nprocs myproc { s.takeBuffered id t p stale with calls := cs, user := user } := by
  obtain ⟨-, hid, -⟩ := hs.call hcalls
  have hserv := (hs.handles.head hcalls).2
  have hserving : s.serving = none := by simp [serving, hcalls]
  have hdone := hcond.complete ((found_recvFromSelf hcalls).trans hp) (by simp [hcalls])
  refine matching_take h hs (fun j b hb => (h.closed (Matching.not_peeked hserving) hb).1)
    (findBuffered_mem hp) (fun hleft => absurd hdone hleft) (fun j hx => hid (.of_msg hx))
    (fun hx => hid (.of_recv hx)) rfl (checking_service hserv rfl) (fun i hi hactive => Or.inl ?_)
    (h.tail hs hcalls)
  show (s.takeBuffered id t p stale).recv_q i = []
  rw [show (s.takeBuffered id t p stale).recv_q = s.recv_q from if_pos hdone]
  exact (h.idle i hi hactive).resolve_right (by simp [hserving])

/-- The header of the head of the queue is the only one of a message of `msg_q` that may have still
to be read. -/
lemma Matching.closed_doRecv (h : s.Matching nprocs myproc) (hcalls : s.calls = .doRecv src :: cs)
    (hid : (s.recv_q src).head? = some id) {j : ℤ} {b : ℕ} (hb : b ∈ s.msg_q j)
    (hne : (s.msg_list b).nhdr ≠ 0) : b = id ∧ (s.msg_list b).recv_flag = 2 := by
  obtain ⟨hflag, hpeeked⟩ := h.peeked j b hb (Or.inl hne)
  refine ⟨?_, hflag⟩
  cases hpeeked with
  | unread node cs' hcalls' hcount hsock hnames =>
    rw [hcalls] at hcalls'
    rcases hcalls' with ⟨heq, hhead⟩ | heq
    · cases heq
      exact Option.some.inj (hhead.symm.trans hid)
    · cases heq
  | read node n cs' hcalls' hnames =>
    rw [hcalls] at hcalls'
    cases hcalls'

lemma matching_doRecvFound (h : s.Matching nprocs myproc) (hs : s.Sound myproc)
    (hcond : s.QueuesFresh nprocs maxMsgs) (hcalls : s.calls = .doRecv src :: cs)
    (hid : (s.recv_q src).head? = some id) (hhdr : (s.msg_list id).nhdr ≠ 0)
    (hflag : (s.msg_list id).recv_flag ≠ 2)
    (hp : findBuffered nprocs s (s.msg_list id) = some (t, p)) :
    Matching nprocs myproc { s.takeBuffered id t p stale with calls := .recvLoop src id m :: cs } := by
  have hmem := List.mem_of_head? hid
  obtain ⟨-, hpos, -⟩ := hs.call hcalls
  have hdone := hcond.complete ((found_doRecv hcalls hid hhdr hflag).trans hp) (by simp [hcalls])
  refine matching_take h hs (fun j b hb => ?_) (findBuffered_mem hp)
    (fun hleft => absurd hdone hleft) (fun j hx => ?_) (fun hx => ?_) rfl rfl (fun i hi hactive => ?_)
    (inRange_cons trivial (h.tail hs hcalls))
  · by_contra hne
    obtain ⟨rfl, h2⟩ := h.closed_doRecv hcalls hid hb hne
    exact hflag h2
  · exact hflag (h.closed_doRecv hcalls hid hx hhdr).2
  · have hsrc := (hs.queues.recvSrc _ id hx).symm.trans (hs.queues.recvSrc _ id hmem)
    omega
  · refine (h.idle i hi hactive).imp (fun hempty => ?_) fun hserving => ?_
    · show (s.takeBuffered id t p stale).recv_q i = []
      rwa [show (s.takeBuffered id t p stale).recv_q = s.recv_q from if_pos hdone]
    · rw [serving, hcalls] at hserving
      exact hserving

/-! ### New receives -/

lemma findBuffered_eq_none {msg : MsgEntry} (h : findBuffered nprocs s msg = none) {i : ℤ}
    (hi : i ∈ sources nprocs msg.src) {b : ℕ} (hb : b ∈ s.msg_q i) (hhdr : (s.msg_list b).nhdr = 0) :
    ¬ msg.Fits (s.msg_list b).nbytes (s.msg_list b).tag := by
  rw [findBuffered, List.findSome?_eq_none_iff] at h
  have hnone := Option.map_eq_none_iff.mp (h i hi)
  rw [List.find?_eq_none] at hnone
  have hb' := hnone b hb
  simpa [hhdr] using hb'

lemma mem_sources {i src : ℤ} (h : i = src ∨ src < 0 ∧ 0 ≤ i ∧ i < nprocs) (hsrc : i = src → 0 ≤ src) :
    i ∈ sources nprocs src := by
  rw [sources]
  split_ifs with hneg
  · rcases h with rfl | ⟨-, h0, hlt⟩
    · exact absurd (hsrc rfl) (not_le.mpr hneg)
    · exact List.mem_map.mpr ⟨i.toNat, List.mem_range.mpr (by omega), by omega⟩
  · rcases h with rfl | ⟨hneg', -, -⟩
    · exact List.mem_singleton.mpr rfl
    · exact absurd hneg' hneg

lemma matching_postRecv (h : s.Matching nprocs myproc) (hs : s.Sound myproc)
    (hcalls : s.calls = .arecv id :: cs) (hp : findBuffered nprocs s (s.msg_list id) = none) :
    (s.postRecv nprocs myproc id cs).Matching nprocs myproc := by
  obtain ⟨-, hid, -⟩ := hs.call hcalls
  obtain ⟨hlow, hlt⟩ := h.calls _ (hcalls ▸ List.mem_cons_self ..)
  have hserv := (hs.handles.head hcalls).2
  have hserving : s.serving = none := by simp [serving, hcalls]
  have hclosed := fun {j b} => h.closed (Matching.not_peeked hserving) (j := j) (b := b)
  have hchecking : (s.postRecv nprocs myproc id cs).checking = none := by
    rw [Engine.postRecv, checking]
    dsimp only
    split_ifs
    · refine checking_service (s := { s with calls := _ }) (fun c hc => ?_) rfl
      rcases List.mem_append.mp hc with hc | hc
      · exact service_handlerCalls nprocs myproc c hc
      · exact hserv c hc
    · exact checking_service (s := { s with calls := cs }) hserv rfl
    · rfl
  have hrecv : ∀ i, ∀ r ∈ (s.postRecv nprocs myproc id cs).recv_q i,
      r = id ∧ i = (s.msg_list id).src ∨ r ∈ s.recv_q i := by
    intro i r hr
    rcases mem_update hr with ⟨rfl, hr'⟩ | ⟨-, hr'⟩
    · rw [List.mem_append, List.mem_singleton] at hr'
      rcases hr' with hr' | rfl
      · exact Or.inr hr'
      · exact Or.inl ⟨rfl, rfl⟩
    · exact Or.inr hr'
  refine ⟨fun i r hr hopen j hij b hb => ?_, fun j b hb hcon => ?_, fun i hi hidle => ?_,
    fun i hi x hx => ?_, ?_⟩
  · replace hb : b ∈ s.msg_q j := hb
    have hjany : j ≠ -1 := by
      rintro rfl
      rw [hs.queues.msgAny] at hb
      cases hb
    have hj := h.range j hjany b (Or.inl hb)
    rcases hrecv i r hr with ⟨rfl, rfl⟩ | hr'
    · refine findBuffered_eq_none hp (mem_sources ?_ fun heq => heq ▸ hj.1) hb (hclosed hb).1
      rcases hij with hij | hij
      · exact Or.inl hij.symm
      · exact Or.inr ⟨by omega, hj⟩
    · refine h.unmatched i r hr' (hopen.imp_right fun ho => ⟨Or.inl ?_, ho.2⟩) j hij b hb
      exact ho.1.resolve_right (by simp [hchecking])
  · rw [hchecking] at hcon
    exact absurd (hclosed hb).1 (hcon.resolve_right (by simp))
  · rcases eq_or_ne i (s.msg_list id).src with rfl | hne
    · refine Or.inr ?_
      replace hidle : s.ractive (s.msg_list id).src = false := hidle
      have hpos : ¬ (s.msg_list id).src < 0 := by omega
      rw [Engine.postRecv, serving]
      simp [hpos, hidle]
    · refine Or.inl ?_
      show Function.update s.recv_q (s.msg_list id).src _ i = []
      rw [Function.update_of_ne hne]
      exact (h.idle i hi hidle).resolve_right (by simp [hserving])
  · rcases hx with hx | hx
    · exact h.range i hi x (Or.inl hx)
    · rcases hrecv i x hx with ⟨rfl, rfl⟩ | hx'
      · exact ⟨by omega, hlt⟩
      · exact h.range i hi x (Or.inr hx')
  · rw [Engine.postRecv]
    dsimp only
    split_ifs
    · intro c hc
      rcases List.mem_append.mp hc with hc | hc
      · exact inRange_handlerCalls c hc
      · exact h.tail hs hcalls c hc
    · exact h.tail hs hcalls
    · exact inRange_cons trivial (h.tail hs hcalls)

/-! ### The signal handler -/

/-- The signal handler gives a message to a receive from any source. -/
lemma matching_peekFound (h : s.Matching nprocs myproc) (hs : s.Sound myproc)
    (hcalls : s.calls = .peek node :: cs) (hp : p ∈ s.recv_q (-1))
    (hfits : (s.msg_list p).Fits hd.nbytes hd.tag) :
    (s.takeAnySource node p hd cs).Matching nprocs myproc := by
  obtain ⟨-, hpos, hself⟩ := hs.call hcalls
  have hlt : node < nprocs := h.calls (.peek node) (hcalls ▸ List.mem_cons_self ..)
  have hserving : s.serving = none := by simp [serving, hcalls]
  have hclosed := fun {j b} => h.closed (Matching.not_peeked hserving) (j := j) (b := b)
  have hany : node ≠ -1 := by omega
  have hpmsg : ∀ j, p ∉ s.msg_q j := by
    intro j hx
    have hj := (hs.queues.msgSrc j p hx).1.symm.trans (hs.queues.recvSrc _ p hp)
    rw [hj, hs.queues.msgAny] at hx
    cases hx
  have hlist : ∀ x, x ≠ p → (s.takeAnySource node p hd cs).msg_list x = s.msg_list x :=
    fun x hx => Function.update_of_ne hx _ _
  have hp' : (s.takeAnySource node p hd cs).msg_list p =
      (s.msg_list p).setMessage hd.nbytes node hd.tag := Function.update_self ..
  have hrecv : ∀ i, ∀ r ∈ (s.takeAnySource node p hd cs).recv_q i, r = p ∧ i = node ∨
      r ≠ p ∧ r ∈ s.recv_q i := by
    intro i r hr
    rcases eq_or_ne r p with rfl | hne
    · refine Or.inl ⟨rfl, ?_⟩
      by_contra hi
      rcases mem_update hr with ⟨hi', -⟩ | ⟨-, hr'⟩
      · exact hi hi'
      · rcases mem_update hr' with ⟨rfl, hr'⟩ | ⟨hi', hr'⟩
        · exact (hs.queues.recvNodup _).not_mem_erase hr'
        · exact hi' ((hs.queues.recvSrc i r hr').symm.trans (hs.queues.recvSrc _ r hp))
    · refine Or.inr ⟨hne, ?_⟩
      rcases mem_update hr with ⟨rfl, hr'⟩ | ⟨-, hr'⟩
      · exact (List.mem_cons.mp hr').resolve_left hne
      · rcases mem_update hr' with ⟨rfl, hr'⟩ | ⟨-, hr'⟩
        · exact List.mem_of_mem_erase hr'
        · exact hr'
  refine h.frame (fun i r hr hopen => ?_) (fun j b hb => ?_) (fun j b hb hcon => ?_)
    (fun i hi hidle => ?_) (fun i hi x hx => ?_)
    (inRange_cons trivial (inRange_cons hlt (h.tail hs hcalls)))
  · rcases hrecv i r hr with ⟨rfl, rfl⟩ | ⟨hne, hr'⟩
    · refine ⟨-1, Or.inr rfl, hp, Or.inl rfl, fun n k hf => ?_⟩
      rw [hp'] at hf
      obtain ⟨hn, hk⟩ := hf
      replace hn : n ≤ hd.nbytes := hn
      replace hk : hd.tag < 0 ∨ k = hd.tag := hk
      have htag := hfits.2
      exact ⟨hn.trans hfits.1, by omega⟩
    · rw [hlist r hne]
      refine ⟨i, Or.inl rfl, hr', hopen.imp_right fun ho => ?_, fun _ _ hf => hf⟩
      rw [hlist r hne] at ho
      exact ⟨Or.inl (ho.1.resolve_right (by simp [checking, takeAnySource])), ho.2⟩
  · have hne : b ≠ p := fun heq => hpmsg j (heq ▸ hb)
    rw [hlist b hne]
    exact ⟨hb, rfl, rfl⟩
  · have hne : b ≠ p := fun heq => hpmsg j (heq ▸ hb)
    rw [hlist b hne] at hcon
    exact absurd (hclosed hb).1 (hcon.resolve_right (by simp [checking, takeAnySource]))
  · rcases eq_or_ne i node with rfl | hne
    · exact Or.inr rfl
    · refine Or.inl ?_
      show Function.update (Function.update s.recv_q (-1) _) node _ i = []
      rw [Function.update_of_ne hne, Function.update_of_ne hi]
      replace hidle : Function.update s.ractive node true i = false := hidle
      rw [Function.update_of_ne hne] at hidle
      exact (h.idle i hi hidle).resolve_right (by simp [hserving])
  · rcases hrecv i x hx with ⟨rfl, rfl⟩ | ⟨-, hx'⟩
    · exact ⟨hpos, hlt⟩
    · exact h.range i hi x (Or.inr hx')

/-- The signal handler buffers a message that no receive from any source accepts. -/
lemma matching_peekBuffer (h : s.Matching nprocs myproc) (hs : s.Sound myproc)
    (hcalls : s.calls = .peek node :: cs) (hactive : s.ractive node = false)
    (hsock : hdrSize ≤ (s.sock node).length)
    (hnone : ∀ r ∈ s.recv_q (-1), ¬ (s.msg_list r).Fits (parseHeader (s.sock node)).nbytes
      (parseHeader (s.sock node)).tag) (hnbytes : 0 ≤ (parseHeader (s.sock node)).nbytes)
    (hnew : ¬ s.Linked new) :
    (s.bufferAnySource myproc node new a (parseHeader (s.sock node)) cs).Matching nprocs myproc := by
  obtain ⟨-, hpos, hself⟩ := hs.call hcalls
  have hlt : node < nprocs := h.calls (.peek node) (hcalls ▸ List.mem_cons_self ..)
  have hserving : s.serving = none := by simp [serving, hcalls]
  have hclosed := fun {j b} => h.closed (Matching.not_peeked hserving) (j := j) (b := b)
  have hany : node ≠ -1 := by omega
  have hempty : s.recv_q node = [] := (h.idle node hany hactive).resolve_right (by simp [hserving])
  have hne : ∀ x, s.Linked x → x ≠ new := by
    rintro x hx rfl
    exact hnew hx
  rw [bufferAnySource_eq hnew]
  set hd := parseHeader (s.sock node) with hhd
  set msg : MsgEntry := { MsgEntry.create myproc a hd.nbytes node (-1) hd.tag with recv_flag := 2 }
    with hmsg
  have hrecv : ∀ i, ∀ r ∈ Function.update s.recv_q node (s.recv_q node ++ [new]) i,
      r = new ∧ i = node ∨ r ≠ new ∧ r ∈ s.recv_q i := by
    intro i r hr
    rcases mem_update hr with ⟨rfl, hr'⟩ | ⟨-, hr'⟩
    · rw [List.mem_append, List.mem_singleton] at hr'
      rcases hr' with hr' | rfl
      · exact Or.inr ⟨hne r (.of_recv hr'), hr'⟩
      · exact Or.inl ⟨rfl, rfl⟩
    · exact Or.inr ⟨hne r (.of_recv hr'), hr'⟩
  have hmsgq : ∀ j, ∀ b ∈ Function.update s.msg_q node (s.msg_q node ++ [new]) j,
      b = new ∧ j = node ∨ b ≠ new ∧ b ∈ s.msg_q j := by
    intro j b hb
    rcases mem_update hb with ⟨rfl, hb'⟩ | ⟨-, hb'⟩
    · rw [List.mem_append, List.mem_singleton] at hb'
      rcases hb' with hb' | rfl
      · exact Or.inr ⟨hne b (.of_msg hb'), hb'⟩
      · exact Or.inl ⟨rfl, rfl⟩
    · exact Or.inr ⟨hne b (.of_msg hb'), hb'⟩
  refine ⟨fun i r hr hopen j hij b hb => ?_, fun j b hb hcon => ?_, fun i hi hidle => ?_,
    fun i hi x hx => ?_, inRange_cons trivial (inRange_cons hlt (h.tail hs hcalls))⟩
  · rcases hrecv i r hr with ⟨rfl, rfl⟩ | ⟨hr', hri⟩
    · rcases hopen with hi | ⟨-, h2⟩
      · exact absurd hi hany
      · simp [hmsg] at h2
    simp only [Function.update_of_ne hr']
    rcases hmsgq j b hb with ⟨rfl, rfl⟩ | ⟨hb', hbj⟩
    · simp only [Function.update_self]
      rcases hij with rfl | rfl
      · rw [hempty] at hri
        cases hri
      · exact hnone r hri
    · simp only [Function.update_of_ne hb']
      refine h.unmatched i r hri (hopen.imp_right fun ho => ?_) j hij b hbj
      simp only [Function.update_of_ne hr'] at ho
      exact ⟨Or.inl (ho.1.resolve_right (by simp [checking])), ho.2⟩
  · rcases hmsgq j b hb with ⟨rfl, rfl⟩ | ⟨hb', hbj⟩
    · refine ⟨by simp [hmsg], .unread j (.peek j :: cs) (Or.inl ⟨rfl, ?_⟩) ?_ hsock ?_⟩
      · simp [hempty]
      · simp only [Function.update_self]
        exact ⟨rfl, rfl, nleft_setMessage hnbytes j hd.tag msgNull⟩
      · simp only [Function.update_self]
        exact ⟨rfl, rfl⟩
    · simp only [Function.update_of_ne hb'] at hcon
      exact absurd (hclosed hbj).1 (hcon.resolve_right (by simp [checking]))
  · rcases eq_or_ne i node with rfl | hne
    · exact Or.inr rfl
    · refine Or.inl ?_
      simp only [Function.update_of_ne hne]
      exact (h.idle i hi hidle).resolve_right (by simp [hserving])
  · rcases hx with hx | hx
    · rcases hmsgq i x hx with ⟨-, rfl⟩ | ⟨-, hx'⟩
      · exact ⟨hpos, hlt⟩
      · exact h.range i hi x (Or.inl hx')
    · rcases hrecv i x hx with ⟨-, rfl⟩ | ⟨-, hx'⟩
      · exact ⟨hpos, hlt⟩
      · exact h.range i hi x (Or.inr hx')

/-! ### The loop of `do_recv` -/

/-- In the loop only the header of its message may have still to be read. -/
lemma Matching.closed_loop (h : s.Matching nprocs myproc)
    (hr : s.receiving = some (src, id)) {j : ℤ} {b : ℕ} (hb : b ∈ s.msg_q j) (hne : b ≠ id) :
    (s.msg_list b).nhdr = 0 := by
  by_contra hhdr
  cases (h.peeked j b hb (Or.inl hhdr)).2 with
  | unread node cs' hcalls hcount hsock hnames =>
    rcases hcalls with ⟨hcalls, -⟩ | hcalls
    · simp [receiving, hcalls] at hr
    · simp only [receiving, hcalls, Option.some.injEq, Prod.mk.injEq] at hr
      exact hne hr.2
  | read node n cs' hcalls hnames =>
    simp only [receiving, hcalls, Option.some.injEq, Prod.mk.injEq] at hr
    exact hne hr.2

/-- The loop serves its queue. -/
lemma serving_of_receiving (hr : s.receiving = some (src, id)) : s.serving = some src := by
  rw [receiving] at hr
  rw [serving]
  split at hr <;> simp_all

/-- A step of the loop that changes only the entry `cur`. -/
lemma Matching.loop (h : s.Matching nprocs myproc) (hs : s.Sound myproc) (hpos : 0 ≤ src)
    (hserving : s.serving = some src) (hserving' : s'.serving = some src)
    (hrecv : s'.recv_q = s.recv_q) (hmsg : s'.msg_q = s.msg_q) (hractive : s'.ractive = s.ractive)
    (hcur : cur ∈ s.recv_q src) (hother : ∀ x, x ≠ cur → s'.msg_list x = s.msg_list x)
    (hopen : (s'.msg_list cur).nhdr ≠ 0 ∨ s'.checking = some cur →
      ((s.msg_list cur).nhdr ≠ 0 ∨ s.checking = some cur) ∧
      (s'.msg_list cur).recv_flag = (s.msg_list cur).recv_flag ∧
      ∀ n k, (s'.msg_list cur).Fits n k → (s.msg_list cur).Fits n k)
    (hnames : ∀ j, cur ∈ s.msg_q j → (s'.msg_list cur).nbytes = (s.msg_list cur).nbytes ∧
      (s'.msg_list cur).tag = (s.msg_list cur).tag)
    (hclosed : ∀ j, ∀ b ∈ s.msg_q j, b ≠ cur → (s.msg_list b).nhdr = 0)
    (hchecking : ∀ x, x ≠ cur → s'.checking ≠ some x)
    (hpeeked : ∀ j, cur ∈ s.msg_q j → (s'.msg_list cur).nhdr ≠ 0 ∨ s'.checking = some cur →
      (s'.msg_list cur).recv_flag = 2 ∧ s'.Peeked cur)
    (hcalls : ∀ c ∈ s'.calls, s'.CallInRange nprocs myproc c) : s'.Matching nprocs myproc := by
  refine h.frame (fun i r hr ho => ?_) (fun j b hb => ?_) (fun j b hb hcon => ?_)
    (fun i hi hidle => ?_) (fun i hi x hx => ?_) hcalls
  · rw [hrecv] at hr
    refine ⟨i, Or.inl rfl, hr, ?_⟩
    rcases eq_or_ne r cur with rfl | hne
    · have hi := (hs.queues.recvSrc i r hr).symm.trans (hs.queues.recvSrc src r hcur)
      obtain ⟨ho, h2⟩ := ho.resolve_left (by omega)
      obtain ⟨ho', hflag, hfits⟩ := hopen ho
      rw [hflag] at h2
      exact ⟨Or.inr ⟨ho', h2⟩, hfits⟩
    · rw [hother r hne]
      refine ⟨ho.imp_right fun ho => ?_, fun _ _ hf => hf⟩
      rw [hother r hne] at ho
      exact ⟨Or.inl (ho.1.resolve_right (hchecking r hne)), ho.2⟩
  · rw [hmsg] at hb
    rcases eq_or_ne b cur with rfl | hne
    · exact ⟨hb, hnames j hb⟩
    · rw [hother b hne]
      exact ⟨hb, rfl, rfl⟩
  · rw [hmsg] at hb
    rcases eq_or_ne b cur with rfl | hne
    · exact hpeeked j hb hcon
    · rw [hother b hne] at hcon
      exact absurd (hclosed j b hb hne) (hcon.resolve_right (hchecking b hne))
  · rw [hractive] at hidle
    rw [hrecv, hserving', ← hserving]
    exact h.idle i hi hidle
  · rw [hrecv] at hx
    exact h.range i hi x (Or.inr hx)

lemma matching_readHeader (h : s.Matching nprocs myproc) (hs : s.Sound myproc)
    (hcalls : s.calls = .recvLoop src id m :: cs) (hhdr : (s.msg_list id).nhdr ≠ 0) :
    (s.readHeader src id cs).Matching nprocs myproc := by
  have hid : id ∈ s.recv_q src := (hs.call hcalls).1
  have hpos : 0 ≤ src := (hs.call hcalls).2
  have hr : s.receiving = some (src, id) := by simp [receiving, hcalls]
  have hlist : (s.readHeader src id cs).msg_list id = (s.msg_list id).updateProgress
      ((s.sock src).take (s.msg_list id).nhdr).length := Function.update_self ..
  refine h.loop hs hpos (serving_of_receiving hr) ?_ rfl rfl rfl hid
    (fun x hx => Function.update_of_ne hx _ _) (fun _ => ⟨Or.inl hhdr, ?_⟩) (fun j hj => ?_)
    (fun j b hb hne => h.closed_loop hr hb hne) (fun x hx => ?_) (fun j hj _ => ?_)
    (inRange_cons ?_ (h.tail hs hcalls))
  · rw [Engine.readHeader, serving]
    dsimp only
    split_ifs <;> rfl
  · rw [hlist]
    exact ⟨MsgEntry.updateProgress_recv_flag, fun n k hf => by simpa [MsgEntry.Fits] using hf⟩
  · rw [hlist]
    exact ⟨MsgEntry.updateProgress_nbytes, MsgEntry.updateProgress_tag⟩
  · rw [Engine.readHeader, checking]
    dsimp only
    split_ifs
    · simpa using hx.symm
    · simp
  · obtain ⟨h2, hp⟩ := h.peeked j id hj (Or.inl hhdr)
    refine ⟨by rw [hlist, MsgEntry.updateProgress_recv_flag, h2], ?_⟩
    cases hp with
    | unread node cs' hcalls' hcount hsock hnames =>
      rw [hcalls] at hcalls'
      rcases hcalls' with ⟨heq, -⟩ | heq
      · cases heq
      cases heq
      obtain ⟨hn, hph, -⟩ := hcount
      have hlen : ((s.sock src).take hdrSize).length = hdrSize := by
        rw [List.length_take, min_eq_left hsock]
      refine .read src hdrSize cs ?_ ?_
      · rw [Engine.readHeader]
        dsimp only
        rw [if_pos, hn, hlen]
        rw [MsgEntry.updateProgress_header (Nat.pos_of_ne_zero hhdr), hn, hlen]
        exact Nat.sub_self _
      · rw [hlist]
        have hhdr' : (s.readHeader src id cs).hdr src = (s.sock src).take hdrSize := by
          rw [show (s.readHeader src id cs).hdr src = _ from Function.update_self .., hph, hn]
          simp
        rw [hhdr', parseHeader_take hsock]
        exact ⟨hnames.1.trans MsgEntry.updateProgress_nbytes.symm,
          hnames.2.trans MsgEntry.updateProgress_tag.symm⟩
    | read node n cs' hcalls' hnames =>
      rw [hcalls] at hcalls'
      cases hcalls'
  · split_ifs <;> trivial

/-- The loop begins, or goes on to the body. -/
lemma matching_doRecv (h : s.Matching nprocs myproc) (hs : s.Sound myproc)
    (hcalls : s.calls = .doRecv src :: cs) (hid : (s.recv_q src).head? = some id) :
    Matching nprocs myproc { s with calls := .recvLoop src id 1 :: cs } := by
  refine h.frame (fun i r hr ho => ?_) (fun j b hb => ⟨hb, rfl, rfl⟩) (fun j b hb hcon => ?_)
    (fun i hi hidle => ?_) (fun i hi x hx => h.range i hi x (Or.inr hx))
    (inRange_cons trivial (h.tail hs hcalls))
  · refine ⟨i, Or.inl rfl, hr, ho.imp_right fun ho => ⟨Or.inl ?_, ho.2⟩, fun _ _ hf => hf⟩
    exact ho.1.resolve_right (by simp [checking])
  · obtain ⟨h2, hp⟩ := h.peeked j b hb (Or.inl (hcon.resolve_right (by simp [checking])))
    refine ⟨h2, ?_⟩
    cases hp with
    | unread node cs' hcalls' hcount hsock hnames =>
      rw [hcalls] at hcalls'
      rcases hcalls' with ⟨heq, hhead⟩ | heq
      · cases heq
        cases hhead.symm.trans hid
        exact .unread src cs (Or.inr rfl) hcount hsock hnames
      · cases heq
    | read node n cs' hcalls' hnames =>
      rw [hcalls] at hcalls'
      cases hcalls'
  · refine (h.idle i hi hidle).imp_right fun hserving => ?_
    rw [serving, hcalls] at hserving
    exact hserving

/-- Only the next call changes, and no header has still to be read. -/
lemma Matching.goOn (h : s.Matching nprocs myproc) (hs : s.Sound myproc)
    (hcalls : s.calls = c :: cs) (hclosed : ∀ j, ∀ b ∈ s.msg_q j, (s.msg_list b).nhdr = 0)
    {c' : Call} (hc : s.CallInRange nprocs myproc c')
    (hserving : Engine.serving { s with calls := c' :: cs } = s.serving)
    (hchecking : Engine.checking { s with calls := c' :: cs } = none) :
    Matching nprocs myproc { s with calls := c' :: cs } := by
  have hc' : Engine.CallInRange nprocs myproc { s with calls := c' :: cs } c' := by
    cases c' <;> exact hc
  refine h.frame (fun i r hr ho => ?_) (fun j b hb => ⟨hb, rfl, rfl⟩) (fun j b hb hcon => ?_)
    (fun i hi hidle => ?_) (fun i hi x hx => h.range i hi x (Or.inr hx))
    (inRange_cons hc' (h.tail hs hcalls))
  · refine ⟨i, Or.inl rfl, hr, ho.imp_right fun ho => ⟨Or.inl ?_, ho.2⟩, fun _ _ hf => hf⟩
    exact ho.1.resolve_right (by simp [hchecking])
  · exact absurd (hclosed j b hb) (hcon.resolve_right (by simp [hchecking]))
  · rw [hserving]
    exact h.idle i hi hidle

lemma matching_gotHeader (h : s.Matching nprocs myproc) (hs : s.Sound myproc)
    (hcalls : s.calls = .recvLoop src id m :: cs) (hhdr : (s.msg_list id).nhdr = 0) :
    Matching nprocs myproc { s with calls := .readBody src id id 0 :: cs } := by
  refine h.goOn hs hcalls (fun j b hb => ?_) trivial (by simp [serving, hcalls]) rfl
  rcases eq_or_ne b id with rfl | hne
  · exact hhdr
  · have hr : s.receiving = some (src, id) := by simp [receiving, hcalls]
    exact h.closed_loop hr hb hne

lemma matching_readBody (h : s.Matching nprocs myproc) (hs : s.Sound myproc)
    (hcalls : s.calls = .readBody src id cur n :: cs) :
    (s.readBody src id cur n cs).Matching nprocs myproc := by
  obtain ⟨hid, hcur⟩ : id ∈ s.recv_q src ∧ cur ∈ s.recv_q src := (hs.call hcalls).1
  have hpos : 0 ≤ src := (hs.call hcalls).2.1
  have hnot : ∀ b, ¬ s.Peeked b := by
    rintro b (⟨node, cs', hc | hc, -, -, -⟩ | ⟨node, n', cs', hc, -⟩)
    · simp [hcalls] at hc
    · simp [hcalls] at hc
    · simp [hcalls] at hc
  have hclosed : ∀ j, ∀ b ∈ s.msg_q j, (s.msg_list b).nhdr = 0 := fun j b hb =>
    (h.closed hnot hb).1
  rw [Engine.readBody]
  dsimp only
  split_ifs with hbody
  · have hnhdr : ∀ k, ((s.msg_list cur).updateProgress k).nhdr = 0 := by
      intro k
      rw [MsgEntry.updateProgress_body hbody.1]
      exact hbody.1
    refine h.loop hs hpos (by simp [serving, hcalls]) rfl rfl rfl rfl hcur
      (fun x hx => Function.update_of_ne hx _ _) (fun hcon => absurd hcon ?_) (fun j hj => ?_)
      (fun j b hb _ => hclosed j b hb) (fun x _ => by simp [checking]) (fun j hj hcon => absurd hcon ?_)
      (inRange_cons trivial (h.tail hs hcalls))
    · simp [setEntry, hnhdr, checking]
    · simp [setEntry]
    · simp [setEntry, hnhdr, checking]
  · exact h.goOn hs hcalls hclosed trivial (by simp [serving, hcalls]) rfl

/-- The header is that of the message for which it was read. -/
lemma matching_matchHeader (h : s.Matching nprocs myproc) (hs : s.Sound myproc)
    (hcalls : s.calls = .checkHeader src id n :: cs) :
    (s.matchHeader src id n cs).Matching nprocs myproc := by
  have hid : id ∈ s.recv_q src := (hs.call hcalls).1
  have hpos : 0 ≤ src := (hs.call hcalls).2
  have hr : s.receiving = some (src, id) := by simp [receiving, hcalls]
  have hlist : (s.matchHeader src id n cs).msg_list id =
      ((s.msg_list id).setMessage (parseHeader (s.hdr src)).nbytes (parseHeader (s.hdr src)).src
        (parseHeader (s.hdr src)).tag).skipHeader := Function.update_self ..
  refine h.loop hs hpos (serving_of_receiving hr) rfl rfl rfl rfl hid
    (fun x hx => Function.update_of_ne hx _ _) (fun hcon => absurd hcon ?_) (fun j hj => ?_)
    (fun j b hb hne => h.closed_loop hr hb hne) (fun x _ => by simp [checking, matchHeader])
    (fun j hj hcon => absurd hcon ?_) (inRange_cons trivial (h.tail hs hcalls))
  · rw [hlist]
    simp [checking, matchHeader, MsgEntry.skipHeader]
  · rw [hlist]
    cases (h.peeked j id hj (Or.inr (by simp [checking, hcalls]))).2 with
    | unread node cs' hcalls' hcount hsock hnames => simp [hcalls] at hcalls'
    | read node n' cs' hcalls' hnames =>
      rw [hcalls] at hcalls'
      cases hcalls'
      exact ⟨hnames.1, hnames.2⟩
  · rw [hlist]
    simp [checking, matchHeader, MsgEntry.skipHeader]

/-- A message of `msg_q` gets its own header. -/
lemma Matching.not_buffered (h : s.Matching nprocs myproc)
    (hcalls : s.calls = .checkHeader src id n :: cs)
    (hfits : ¬ (s.msg_list id).Fits (parseHeader (s.hdr src)).nbytes (parseHeader (s.hdr src)).tag)
    (j : ℤ) : id ∉ s.msg_q j := by
  intro hj
  cases (h.peeked j id hj (Or.inr (by simp [checking, hcalls]))).2 with
  | unread node cs' hcalls' hcount hsock hnames => simp [hcalls] at hcalls'
  | read node n' cs' hcalls' hnames =>
    rw [hcalls] at hcalls'
    cases hcalls'
    exact hfits ⟨hnames.1.le, Or.inr hnames.2⟩

lemma matching_redirect (h : s.Matching nprocs myproc) (hs : s.Sound myproc)
    (hcalls : s.calls = .checkHeader src id n :: cs)
    (hfits : ¬ (s.msg_list id).Fits (parseHeader (s.hdr src)).nbytes (parseHeader (s.hdr src)).tag)
    (hp : p ∈ s.recv_q src) (hne : p ≠ id) : (s.redirect src id p n cs).Matching nprocs myproc := by
  have hid : id ∈ s.recv_q src := (hs.call hcalls).1
  have hpos : 0 ≤ src := (hs.call hcalls).2
  have hr : s.receiving = some (src, id) := by simp [receiving, hcalls]
  have hnot := h.not_buffered hcalls hfits
  have hlist : ∀ x, x ≠ id → x ≠ p → (s.redirect src id p n cs).msg_list x = s.msg_list x := by
    intro x hxid hxp
    rw [show (s.redirect src id p n cs).msg_list x = _ from Function.update_of_ne hxp ..]
    exact Function.update_of_ne hxid ..
  have hid' : (s.redirect src id p n cs).msg_list id = (s.msg_list id).resetHeader := by
    rw [show (s.redirect src id p n cs).msg_list id = _ from Function.update_of_ne hne.symm ..]
    exact Function.update_self ..
  have hp' : (s.redirect src id p n cs).msg_list p = (s.msg_list p).skipHeader := by
    rw [show (s.redirect src id p n cs).msg_list p = _ from Function.update_self ..]
    rw [show (s.setEntry id _).msg_list p = _ from Function.update_of_ne hne ..]
  have hchecking : (s.redirect src id p n cs).checking = none := rfl
  have hrecv : ∀ i, ∀ x ∈ (s.redirect src id p n cs).recv_q i, x ∈ s.recv_q i := by
    intro i x hx
    rcases mem_update hx with ⟨rfl, hx'⟩ | ⟨-, hx'⟩
    · exact (List.perm_cons_erase hp).mem_iff.mpr hx'
    · exact hx'
  have hmsg : ∀ j, ∀ b ∈ s.msg_q j, b ≠ id := by
    rintro j b hb rfl
    exact hnot j hb
  refine h.frame (fun i r hx hopen => ?_) (fun j b hb => ?_) (fun j b hb hcon => ?_)
    (fun i hi hidle => ?_) (fun i hi x hx => h.range i hi x (Or.inr (hrecv i x hx)))
    (inRange_cons trivial (h.tail hs hcalls))
  · have hx' := hrecv i r hx
    refine ⟨i, Or.inl rfl, hx', ?_⟩
    rcases eq_or_ne r id with rfl | hrid
    · rw [hid']
      refine ⟨hopen.imp_right fun ho => ⟨Or.inr (by simp [checking, hcalls]), ?_⟩, fun _ _ hf => hf⟩
      rw [hid'] at ho
      exact ho.2
    · rcases eq_or_ne r p with rfl | hrp
      · have hi := (hs.queues.recvSrc i r hx').symm.trans (hs.queues.recvSrc src r hp)
        have ho := hopen.resolve_left (by omega)
        rw [hp', hchecking] at ho
        simp [MsgEntry.skipHeader] at ho
      · rw [hlist r hrid hrp]
        refine ⟨hopen.imp_right fun ho => ?_, fun _ _ hf => hf⟩
        rw [hlist r hrid hrp, hchecking] at ho
        exact ⟨Or.inl (ho.1.resolve_right (by simp)), ho.2⟩
  · refine ⟨hb, ?_⟩
    rcases eq_or_ne b p with rfl | hbp
    · rw [hp']
      exact ⟨rfl, rfl⟩
    · rw [hlist b (hmsg j b hb) hbp]
      exact ⟨rfl, rfl⟩
  · rw [hchecking] at hcon
    replace hcon := hcon.resolve_right (by simp)
    rcases eq_or_ne b p with rfl | hbp
    · rw [hp'] at hcon
      exact absurd rfl hcon
    · rw [hlist b (hmsg j b hb) hbp] at hcon
      exact absurd (h.closed_loop hr hb (hmsg j b hb)) hcon
  · rcases eq_or_ne i src with rfl | hne'
    · exact Or.inr rfl
    · refine Or.inl ?_
      show Function.update s.recv_q src _ i = []
      rw [Function.update_of_ne hne']
      refine (h.idle i hi hidle).resolve_right ?_
      rw [serving_of_receiving hr]
      simpa using hne'.symm

/-- The header of an unexpected message has been compared with all receives. -/
lemma matching_pushUnexpected (h : s.Matching nprocs myproc) (hs : s.Sound myproc)
    (hany : s.AnySourceUnmatched) (hheaders : s.HeaderNamesSource)
    (hcalls : s.calls = .checkHeader src id n :: cs)
    (hfits : ¬ (s.msg_list id).Fits (parseHeader (s.hdr src)).nbytes (parseHeader (s.hdr src)).tag)
    (hnone : ∀ r ∈ s.recv_q src, ¬ (s.msg_list r).Fits (parseHeader (s.hdr src)).nbytes
      (parseHeader (s.hdr src)).tag) (hnew : ¬ s.Linked new) :
    (s.pushUnexpected myproc src id new a n cs).Matching nprocs myproc := by
  have hid : id ∈ s.recv_q src := (hs.call hcalls).1
  have hpos : 0 ≤ src := (hs.call hcalls).2
  have hr : s.receiving = some (src, id) := by simp [receiving, hcalls]
  have hsrcany : src ≠ -1 := by omega
  have hrange := h.range src hsrcany id (Or.inr hid)
  have hbuffered := h.not_buffered hcalls hfits
  have hne : ∀ x, s.Linked x → x ≠ new := by
    rintro x hx rfl
    exact hnew hx
  have hheader := hheaders src id n cs hcalls
  set s' := s.pushUnexpected myproc src id new a n cs with hs'
  have heq := @pushUnexpected_eq myproc s id cs src new a n hnew
  have hchecking : s'.checking = none := rfl
  have hrecv : ∀ i, ∀ r ∈ s'.recv_q i, r = new ∧ i = src ∨ r ≠ new ∧ r ∈ s.recv_q i := by
    intro i r hx
    rw [hs', heq] at hx
    rcases mem_update hx with ⟨rfl, hx'⟩ | ⟨-, hx'⟩
    · rcases List.mem_cons.mp hx' with rfl | hx'
      · exact Or.inl ⟨rfl, rfl⟩
      · exact Or.inr ⟨hne r (.of_recv hx'), hx'⟩
    · exact Or.inr ⟨hne r (.of_recv hx'), hx'⟩
  have hmsg : ∀ j, ∀ b ∈ s'.msg_q j, b = new ∧ j = src ∨ b ≠ new ∧ b ≠ id ∧ b ∈ s.msg_q j := by
    intro j b hb
    have hold : b ∈ s.msg_q j → b ≠ new ∧ b ≠ id ∧ b ∈ s.msg_q j := by
      refine fun hb' => ⟨hne b (.of_msg hb'), ?_, hb'⟩
      rintro rfl
      exact hbuffered j hb'
    rw [hs', heq] at hb
    dsimp only at hb
    rw [hheader] at hb
    rcases mem_update hb with ⟨rfl, hb'⟩ | ⟨-, hb'⟩
    · rw [List.mem_append, List.mem_singleton] at hb'
      rcases hb' with hb' | rfl
      · exact Or.inr (hold hb')
      · exact Or.inl ⟨rfl, rfl⟩
    · exact Or.inr (hold hb')
  have hlistnew : s'.msg_list new = (MsgEntry.create myproc a (parseHeader (s.hdr src)).nbytes
      (parseHeader (s.hdr src)).src (-1) (parseHeader (s.hdr src)).tag).skipHeader := by
    rw [hs', heq]
    exact Function.update_self ..
  have hlistid : s'.msg_list id = (s.msg_list id).resetHeader := by
    rw [hs', heq]
    show Function.update (Function.update s.msg_list id _) new _ id = _
    rw [Function.update_of_ne (hne id (.of_recv hid)), Function.update_self]
  have hlist : ∀ x, x ≠ new → x ≠ id → s'.msg_list x = s.msg_list x := by
    intro x hxn hxid
    rw [hs', heq]
    simp only [Function.update_of_ne hxn, Function.update_of_ne hxid]
  have hfit : ∀ x, x ≠ new → ∀ n t, (s'.msg_list x).Fits n t → (s.msg_list x).Fits n t := by
    intro x hx n t hf
    rcases eq_or_ne x id with rfl | hxid
    · rw [hlistid] at hf
      exact hf
    · rwa [hlist x hx hxid] at hf
  refine ⟨fun i r hx hopen j hij b hb => ?_, fun j b hb hcon => ?_, fun i hi hidle => ?_,
    fun i hi x hx => ?_, inRange_cons trivial (h.tail hs hcalls)⟩
  · rcases hrecv i r hx with ⟨rfl, rfl⟩ | ⟨hrn, hx'⟩
    · have ho := (hopen.resolve_left hsrcany).1.resolve_right (by simp [hchecking])
      rw [hlistnew] at ho
      exact absurd rfl ho
    refine fun hf => ?_
    replace hf := hfit r hrn _ _ hf
    rcases hmsg j b hb with ⟨rfl, rfl⟩ | ⟨hbn, hbid, hb'⟩
    · rw [hlistnew] at hf
      rcases hij with rfl | rfl
      · exact hnone r hx' hf
      · exact hany.1 j id n cs hcalls hfits hnone r hx' hf
    · rw [hlist b hbn hbid] at hf
      refine h.unmatched i r hx' (hopen.imp_right fun ho => ?_) j hij b hb' hf
      rcases eq_or_ne r id with rfl | hrid
      · rw [hlistid] at ho
        exact ⟨Or.inr (by simp [checking, hcalls]), ho.2⟩
      · rw [hlist r hrn hrid, hchecking] at ho
        exact ⟨Or.inl (ho.1.resolve_right (by simp)), ho.2⟩
  · rw [hchecking] at hcon
    replace hcon := hcon.resolve_right (by simp)
    rcases hmsg j b hb with ⟨rfl, rfl⟩ | ⟨hbn, hbid, hb'⟩
    · rw [hlistnew] at hcon
      exact absurd rfl hcon
    · rw [hlist b hbn hbid] at hcon
      exact absurd (h.closed_loop hr hb' hbid) hcon
  · rcases eq_or_ne i src with rfl | hne
    · exact Or.inr rfl
    · have hidle' : s.ractive i = false := by
        rw [hs', heq] at hidle
        exact hidle
      refine Or.inl ?_
      rw [hs', heq]
      show Function.update s.recv_q src _ i = []
      rw [Function.update_of_ne hne]
      refine (h.idle i hi hidle').resolve_right ?_
      rw [serving_of_receiving hr]
      simpa using hne.symm
  · rcases hx with hx | hx
    · rcases hmsg i x hx with ⟨-, rfl⟩ | ⟨-, -, hx'⟩
      · exact hrange
      · exact h.range i hi x (Or.inl hx')
    · rcases hrecv i x hx with ⟨-, rfl⟩ | ⟨-, hx'⟩
      · exact hrange
      · exact h.range i hi x (Or.inr hx')

lemma matching_finishRecv (h : s.Matching nprocs myproc) (hs : s.Sound myproc)
    (hcalls : s.calls = .recvLoop src id m :: cs) (hstop : ¬ s.Continues id m) :
    (s.finishRecv src id stale cs).Matching nprocs myproc := by
  have hid : id ∈ s.recv_q src := (hs.call hcalls).1
  have hr : s.receiving = some (src, id) := by simp [receiving, hcalls]
  have hserv := (hs.handles.head hcalls).2
  -- the loop does not stop before it has read the header of a message of `msg_q`
  have hnot : ∀ b, ¬ s.Peeked b := by
    rintro b (⟨node, cs', hc | hc, hcount, -, -⟩ | ⟨node, n, cs', hc, -⟩)
    · simp [hcalls] at hc
    · rw [hcalls] at hc
      cases hc
      exact hstop ⟨one_pos, hcount.2.2⟩
    · simp [hcalls] at hc
  have hclosed : ∀ j, ∀ b ∈ s.msg_q j, (s.msg_list b).nhdr = 0 := fun j b hb =>
    (h.closed hnot hb).1
  have hidle : ∀ i, i ≠ -1 → i ≠ src → s.ractive i = false → s.recv_q i = [] := by
    intro i hi hne hactive
    refine (h.idle i hi hactive).resolve_right ?_
    rw [serving_of_receiving hr]
    simpa using hne.symm
  rw [Engine.finishRecv]
  dsimp only
  by_cases hpos : (s.msg_list id).nleft > 0
  · rw [if_pos hpos]
    have hchecking : Engine.checking { s with
        ractive := Function.update s.ractive src true, calls := cs } = none :=
      checking_service hserv rfl
    refine h.frame (fun i r hx ho => ?_) (fun j b hb => ⟨hb, rfl, rfl⟩) (fun j b hb hcon => ?_)
      (fun i hi hactive => ?_) (fun i hi x hx => h.range i hi x (Or.inr hx)) (h.tail hs hcalls)
    · refine ⟨i, Or.inl rfl, hx, ho.imp_right fun ho => ⟨Or.inl ?_, ho.2⟩, fun _ _ hf => hf⟩
      exact ho.1.resolve_right (by simp [hchecking])
    · exact absurd (hclosed j b hb) (hcon.resolve_right (by simp [hchecking]))
    · rcases eq_or_ne i src with rfl | hne
      · simp at hactive
      · simp only [Function.update_of_ne hne] at hactive
        exact Or.inl (hidle i hi hne hactive)
  · rw [if_neg hpos]
    set q := if (s.msg_list id).nleft = 0 then next id (s.recv_q src) stale else s.recv_q src
    have hq : ∀ x ∈ q, x ∈ s.recv_q src := by
      intro x hx
      simp only [q] at hx
      split_ifs at hx
      · exact mem_next hid hx
      · exact hx
    have hrecv : ∀ i, ∀ x ∈ Function.update s.recv_q src q i, x ∈ s.recv_q i := by
      intro i x hx
      rcases mem_update hx with ⟨rfl, hx'⟩ | ⟨-, hx'⟩
      · exact hq x hx'
      · exact hx'
    have hchecking : ∀ t ra, Engine.checking { s with
        recv_q := t, ractive := ra, calls := if q = [] then cs else .doRecv src :: cs } = none := by
      intro t ra
      by_cases hempty : q = []
      · exact checking_service hserv (if_pos hempty)
      · simp [checking, if_neg hempty]
    refine h.frame (fun i r hx ho => ?_) (fun j b hb => ⟨hb, rfl, rfl⟩) (fun j b hb hcon => ?_)
      (fun i hi hactive => ?_) (fun i hi x hx => h.range i hi x (Or.inr (hrecv i x hx))) ?_
    · refine ⟨i, Or.inl rfl, hrecv i r hx, ho.imp_right fun ho => ⟨Or.inl ?_, ho.2⟩,
        fun _ _ hf => hf⟩
      exact ho.1.resolve_right (by simp [hchecking])
    · exact absurd (hclosed j b hb) (hcon.resolve_right (by simp [hchecking]))
    · rcases eq_or_ne i src with rfl | hne
      · by_cases hempty : q = []
        · exact Or.inl ((Function.update_self ..).trans hempty)
        · refine Or.inr ?_
          simp [serving, if_neg hempty]
      · refine Or.inl ?_
        have hactive' : s.ractive i = false := by
          dsimp only at hactive
          split_ifs at hactive
          · rwa [Function.update_of_ne hne] at hactive
          · exact hactive
        show Function.update s.recv_q src q i = []
        rw [Function.update_of_ne hne]
        exact hidle i hi hne hactive'
    · dsimp only
      split_ifs
      · exact h.tail hs hcalls
      · exact inRange_cons trivial (h.tail hs hcalls)

end

/-! ### Runs -/

/-- The states from which a step leaves no message in `msg_q` that a receive waits for. -/
structure MatchingKept (nprocs maxMsgs : ℕ) (s : Engine) : Prop
    extends QueuesFresh nprocs maxMsgs s where
  anySource : s.AnySourceUnmatched

lemma Matching.step (h : s.Matching nprocs myproc) (hs : s.Sound myproc) (hmy : 0 ≤ myproc)
    (hcond : s.MatchingKept nprocs maxMsgs) (hstep : Step nprocs maxMsgs myproc s s') :
    s'.Matching nprocs myproc := by
  have hfresh := hcond.toQueuesFresh
  cases hstep with
  | arrive src bytes => exact matching_arrive h src bytes
  | signal hcalls huser =>
    refine h.still (by simp [serving, hcalls]) ?_ rfl rfl rfl (fun _ _ _ => .refl _)
      inRange_handlerCalls
    exact checking_service (service_handlerCalls nprocs myproc) rfl
  | userSend id buf nbytes dest tag hcalls huser hbuf hdest hid =>
    have hnew := hcond.new id hid
    refine matching_create h hcalls hnew _ _ _ _ _ ?_ ?_
    · rw [serving, start]
      dsimp only
      split_ifs <;> rfl
    · rw [create_eq hnew]
      refine inRange_cons ?_ (by simp)
      split_ifs with hself
      · simp only [CallInRange, start, Function.update_self, create_src]
        exact ⟨trivial, hself ▸ hdest.2⟩
      · trivial
  | userRecv id buf nbytes src tag hcalls huser hbuf hsrc hid =>
    have hnew := hcond.new id hid
    refine matching_create h hcalls hnew _ _ _ _ _ ?_ ?_
    · rw [serving, start]
      dsimp only
      split_ifs <;> rfl
    · rw [create_eq hnew]
      split_ifs
      · simp
      · refine inRange_cons ?_ (by simp)
        simpa only [CallInRange, start, Function.update_self, create_src] using hsrc
  | wait id hcalls | waitNull id hcalls | waitDone id hcalls | waitPush id hcalls
  | waitBlock id hcalls | blockDone id hcalls =>
    exact matching_user h hcalls (Or.inl hcalls) rfl rfl rfl fun _ => .refl _
  | waitSelf id hcalls =>
    exact matching_user h hcalls (Or.inr ⟨id, rfl⟩) rfl rfl rfl fun _ => .refl _
  | push id a hcalls huser ha => exact matching_push h hcalls
  | leave id c hcalls huser => exact matching_leave h hcalls
  | asend id cs hcalls => exact matching_asend h hs hcalls
  | sendToQ id a cs hcalls ha => exact matching_sendToQ h hs hmy hcond.anySource hcalls
  | arecvFound id cs t p stale hcalls hp => exact matching_arecvFound h hs hfresh hcalls hp
  | arecvPost id cs hcalls hp => exact matching_postRecv h hs hcalls hp
  | selfFound id cs t p stale hcalls hp => exact matching_selfFound h hs hfresh hcalls hp
  | selfEmpty id cs hcalls hsrc hp =>
    exact h.still (by simp [serving, hcalls]) (checking_service (hs.handles.head hcalls).2 rfl)
      rfl rfl rfl (fun _ _ _ => .refl _) (h.tail hs hcalls)
  | serviceSend node cs hcalls => exact matching_serviceSend h hs hcalls
  | serviceRecv node cs hcalls => exact matching_serviceRecv h hs hcalls
  | peekNothing node cs hcalls hp =>
    exact h.still (by simp [serving, hcalls]) (checking_service (hs.handles.head hcalls).2 rfl)
      rfl rfl rfl (fun _ _ _ => .refl _) (h.tail hs hcalls)
  | peekFound node p cs hcalls hactive hsock hp hnbytes =>
    refine matching_peekFound h hs hcalls (List.mem_of_find?_eq_some hp) ?_
    simpa using List.find?_some hp
  | peekBuffer node new a cs hcalls hrecv hactive hsock hp hnbytes ha hnew =>
    refine matching_peekBuffer h hs hcalls (by simpa using hactive) hsock (fun r hr => ?_) hnbytes
      (hcond.new new hnew)
    simpa using List.find?_eq_none.mp hp r hr
  | doSend dest id cs hcalls hid =>
    exact h.still (by simp [serving, hcalls]) rfl rfl rfl rfl (fun _ _ _ => .refl _)
      (inRange_cons trivial (h.tail hs hcalls))
  | sendPass dest id m cat_nap k k' cs hcalls hgo => exact matching_sendPass h hs hcalls
  | finishSend dest id m cat_nap cs hcalls hstop => exact matching_finishSend h hs hcalls
  | doRecvFound src id cs t p stale hcalls hid hhdr hflag hp =>
    exact matching_doRecvFound h hs hfresh hcalls hid hhdr hflag hp
  | doRecv src id cs hcalls hid hp => exact matching_doRecv h hs hcalls hid
  | readHeader src id m cs hcalls hgo hhdr => exact matching_readHeader h hs hcalls hhdr
  | gotHeader src id m cs hcalls hgo hhdr => exact matching_gotHeader h hs hcalls hhdr
  | matchHeader src id n cs hcalls hfits => exact matching_matchHeader h hs hcalls
  | redirect src id p n cs hcalls hfits hp =>
    refine matching_redirect h hs hcalls hfits (List.mem_of_find?_eq_some hp) ?_
    rintro rfl
    exact hfits (by simpa using List.find?_some hp)
  | pushUnexpected src id new a n cs hcalls hfits hp hnbytes ha hnew =>
    refine matching_pushUnexpected h hs hcond.anySource hcond.headers hcalls hfits (fun r hr => ?_)
      (hcond.new new hnew)
    simpa using List.find?_eq_none.mp hp r hr
  | readBody src id cur n cs hcalls => exact matching_readBody h hs hcalls
  | finishRecv src id m stale cs hcalls hstop => exact matching_finishRecv h hs hcalls hstop

lemma Matching.init (mem : ℕ → UInt8) : (Engine.init mem).Matching nprocs myproc := by
  constructor <;> simp [Engine.init]

lemma Matching.of_run {mem : ℕ → UInt8} (hmy : 0 ≤ myproc)
    (h : Run nprocs maxMsgs myproc (MatchingKept nprocs maxMsgs) (Engine.init mem) s) :
    s.Sound myproc ∧ s.Matching nprocs myproc := by
  induction h with
  | refl => exact ⟨.init mem, .init mem⟩
  | tail _ hs ih =>
    exact ⟨ih.1.step hs.2.toQueuesFresh hmy hs.1, ih.2.step ih.1 hmy hs.2 hs.1⟩

/-- Let headers name the process they come from, no new entry be one that is still in a queue, the
entries of the user be kept as in `Handles`, and no receive from any source accept a message that
`check_header` or `send_to_q` buffers. Then no receive that has no message yet accepts a message of
`msg_q`. -/
theorem no_match_left {myproc : ℕ} {mem : ℕ → UInt8}
    (h : Run nprocs maxMsgs myproc (MatchingKept nprocs maxMsgs) (Engine.init mem) s)
    {i : ℤ} {r : ℕ} (hr : r ∈ s.recv_q i)
    (hopen : i = -1 ∨ (s.msg_list r).nhdr ≠ 0 ∧ (s.msg_list r).recv_flag ≠ 2) {j : ℤ}
    (hij : i = j ∨ i = -1) {b : ℕ} (hb : b ∈ s.msg_q j) :
    ¬ (s.msg_list r).Fits (s.msg_list b).nbytes (s.msg_list b).tag := by
  obtain ⟨-, hinv⟩ := Matching.of_run (Int.natCast_nonneg myproc) h
  exact hinv.unmatched i r hr (hopen.imp_right fun ho => ⟨Or.inl ho.1, ho.2⟩) j hij b hb

/-- New entries come after those in the queues. -/
lemma NewUnlinked.of_mid (h : ∀ x, s.Linked x → x ≤ s.mid)
    (hnext : findEntry maxMsgs s.mid s.msg_list = some (s.mid + 1)) : s.NewUnlinked maxMsgs := by
  intro id hid hl
  rw [hnext, Option.some.injEq] at hid
  exact absurd (h id hl) (by omega)

/-- Nothing is found or sent, and no receive from any source is posted. -/
lemma MatchingKept.of_found (hnew : s.NewUnlinked maxMsgs) (hfound : s.found nprocs = none)
    (hsend : ∀ dest id m c cs, s.calls ≠ .sendLoop dest id m c :: cs)
    (hself : ∀ id cs, s.calls ≠ .sendToQ id :: cs) (hany : s.recv_q (-1) = [])
    (hheaders : s.HeaderNamesSource) : s.MatchingKept nprocs maxMsgs := by
  refine ⟨⟨⟨hnew, fun t p hp => ?_, fun dest id m c cs hc => ?_, fun t p hp => ?_⟩, hheaders⟩,
    fun src id n cs _ _ _ r hr => ?_, fun id cs hc => ?_⟩
  · simp [hfound] at hp
  · exact absurd hc (hsend _ _ _ _ _)
  · simp [hfound] at hp
  · simp [hany] at hr
  · exact absurd hc (hself _ _)

/-- The header of an unexpected message was read, and a receive with another tag is posted. -/
theorem no_match_left_tag : ∃ s : Engine,
    Run 2 10 (0 : ℕ) (MatchingKept 2 10) (Engine.init fun _ => 0) s ∧ s.calls = [] ∧
      1 ∈ s.recv_q 1 ∧ 2 ∈ s.msg_q 1 ∧
      ¬ (s.msg_list 1).Fits (s.msg_list 2).nbytes (s.msg_list 2).tag := by
  let s₀ : Engine := Engine.init fun _ => 0
  let s₁ : Engine := { s₀ with
    sock := Function.update s₀.sock 1 (s₀.sock 1 ++ headerBytes 1 1 2)
    arrived := Function.update s₀.arrived 1 (s₀.arrived 1 ++ headerBytes 1 1 2) }
  let s₂ := (s₁.create 0 1 100 1 1 (-1) 1).start 1 [.arecv 1]
  let s₃ := s₂.postRecv 2 0 1 []
  let s₄ : Engine := { s₃ with calls := [.recvLoop 1 1 1] }
  let s₅ := s₄.readHeader 1 1 []
  let s₆ := s₅.pushUnexpected 0 1 1 2 200 24 []
  let s₇ := s₆.readBody 1 1 2 24 []
  let s₈ := s₇.finishRecv 1 1 [] []
  have h₁ : Step 2 10 0 s₀ s₁ := .arrive s₀ 1 (headerBytes 1 1 2)
  have h₂ : Step 2 10 0 s₁ s₂ :=
    .userRecv s₁ 1 100 1 1 1 rfl rfl (by simp) ⟨by simp, by simp⟩ (by decide)
  have h₃ : Step 2 10 0 s₂ s₃ := .arecvPost s₂ 1 [] rfl (by decide)
  have h₄ : Step 2 10 0 s₃ s₄ := .doRecv s₃ 1 1 [] rfl (by decide) fun _ _ => by decide
  have h₅ : Step 2 10 0 s₄ s₅ := .readHeader s₄ 1 1 1 [] rfl (by decide) (by decide)
  have h₆ : Step 2 10 0 s₅ s₆ := .pushUnexpected s₅ 1 1 2 200 24 [] (by decide) (by decide)
    (by decide) (by decide) (by simp) (by decide)
  have h₇ : Step 2 10 0 s₆ s₇ := .readBody s₆ 1 1 2 24 [] rfl
  have h₈ : Step 2 10 0 s₇ s₈ := .finishRecv s₇ 1 1 0 [] [] (by decide) (by decide)
  have hempty : ∀ {s : Engine}, s.send_q = s₀.send_q → s.recv_q = s₀.recv_q → s.msg_q = s₀.msg_q →
      ∀ x, s.Linked x → x ≤ s.mid := by
    rintro s hsend hrecv hmsg x ⟨i, hx | hx | hx⟩
    · simp [hsend, s₀, Engine.init] at hx
    · simp [hrecv, s₀, Engine.init] at hx
    · simp [hmsg, s₀, Engine.init] at hx
  have hone : ∀ x, s₃.Linked x → x ≤ 1 := by
    rintro x ⟨i, hx | hx | hx⟩
    · cases hx
    · rcases mem_update hx with ⟨-, hx'⟩ | ⟨-, hx'⟩
      · exact (List.mem_singleton.mp hx').le
      · cases hx'
    · cases hx
  have hboth : ∀ x, s₆.Linked x → x ≤ 2 := by
    rintro x ⟨i, hx | hx | hx⟩
    · cases hx
    · rcases mem_update hx with ⟨-, hx'⟩ | ⟨hi, hx'⟩
      · exact (show ∀ y ∈ [2, 1], y ≤ 2 by decide) x hx'
      · replace hx' : x ∈ cut 2 (s₃.recv_q i) := hx'
        rw [show s₃.recv_q i = [] from Function.update_of_ne hi ..] at hx'
        cases hx'
    · rcases mem_update hx with ⟨-, hx'⟩ | ⟨-, hx'⟩
      · exact (List.mem_singleton.mp hx').le
      · cases hx'
  have hcond₀ : s₀.MatchingKept 2 10 := .of_found (.of_mid (hempty rfl rfl rfl) (by decide))
    (by decide) (by simp [s₀, Engine.init]) (by simp [s₀, Engine.init]) rfl
    (by simp [HeaderNamesSource, s₀, Engine.init])
  have hcond₁ : s₁.MatchingKept 2 10 := .of_found (.of_mid (hempty rfl rfl rfl) (by decide))
    (by decide) (by simp [s₁, s₀, Engine.init]) (by simp [s₁, s₀, Engine.init]) rfl
    (by simp [HeaderNamesSource, s₁, s₀, Engine.init])
  have hcond₂ : s₂.MatchingKept 2 10 := .of_found (.of_mid (hempty rfl rfl rfl) (by decide))
    (by decide) (by simp [s₂, start]) (by simp [s₂, start]) rfl
    (by simp [HeaderNamesSource, s₂, start])
  have hcond₃ : s₃.MatchingKept 2 10 := .of_found (.of_mid hone (by decide)) (by decide)
    (fun _ _ _ _ _ h => by cases h) (fun _ _ h => by cases h) (by decide)
    (fun _ _ _ _ h => by cases h)
  have hcond₄ : s₄.MatchingKept 2 10 := .of_found (.of_mid hone (by decide)) (by decide)
    (fun _ _ _ _ _ h => by cases h) (fun _ _ h => by cases h) (by decide)
    (fun _ _ _ _ h => by cases h)
  have hcond₅ : s₅.MatchingKept 2 10 := .of_found (.of_mid hone (by decide)) (by decide)
    (fun _ _ _ _ _ h => by cases h) (fun _ _ h => by cases h) (by decide)
    (fun _ _ _ _ h => by cases h; decide)
  have hcond₆ : s₆.MatchingKept 2 10 := .of_found (.of_mid hboth (by decide)) (by decide)
    (fun _ _ _ _ _ h => by cases h) (fun _ _ h => by cases h) (by decide)
    (fun _ _ _ _ h => by cases h)
  have hcond₇ : s₇.MatchingKept 2 10 := .of_found (.of_mid hboth (by decide)) (by decide)
    (fun _ _ _ _ _ h => by cases h) (fun _ _ h => by cases h) (by decide)
    (fun _ _ _ _ h => by cases h)
  have hrun : Run 2 10 (0 : ℕ) (MatchingKept 2 10) s₀ s₈ :=
    (((((((Relation.ReflTransGen.single ⟨h₁, hcond₀⟩).tail ⟨h₂, hcond₁⟩).tail ⟨h₃, hcond₂⟩).tail
      ⟨h₄, hcond₃⟩).tail ⟨h₅, hcond₄⟩).tail ⟨h₆, hcond₅⟩).tail ⟨h₇, hcond₆⟩).tail ⟨h₈, hcond₇⟩
  have hr : 1 ∈ s₈.recv_q 1 := by decide
  have hb : 2 ∈ s₈.msg_q 1 := by decide
  exact ⟨s₈, hrun, by decide, hr, hb,
    no_match_left hrun hr (Or.inr ⟨by decide, by decide⟩) (Or.inl rfl) hb⟩

/-- A receive from any source is posted beside one from process 1, and a message for it comes while
`do_recv` reads for the other one. `check_header` looks at `recv_q[src]` only and buffers the
message. -/
theorem no_match_left_fails : ∃ s : Engine,
    Run 2 10 0 (fun _ => True) (Engine.init fun _ => 0) s ∧ s.calls = [] ∧ 2 ∈ s.recv_q (-1) ∧
      3 ∈ s.msg_q 1 ∧ (s.msg_list 3).nleft = 0 ∧
      (s.msg_list 2).Fits (s.msg_list 3).nbytes (s.msg_list 3).tag := by
  let s₀ : Engine := Engine.init fun _ => 0
  let s₁ := (s₀.create 0 1 100 1 1 (-1) 1).start 1 [.arecv 1]
  let s₂ := s₁.postRecv 2 0 1 []
  let s₃ : Engine := { s₂ with calls := [.recvLoop 1 1 1] }
  let s₄ := s₃.readHeader 1 1 []
  let s₅ := s₄.finishRecv 1 1 [] []
  let s₆ := (s₅.create 0 2 200 1 (-1) (-1) 2).start 2 [.arecv 2]
  let s₇ : Engine := { s₆ with
    sock := Function.update s₆.sock 1 (s₆.sock 1 ++ (headerBytes 1 1 2 ++ [7]))
    arrived := Function.update s₆.arrived 1 (s₆.arrived 1 ++ (headerBytes 1 1 2 ++ [7])) }
  let s₈ := s₇.postRecv 2 0 2 []
  let s₉ : Engine := { s₈ with calls := [.serviceRecv 1, .peek 1] }
  let s₁₀ : Engine := { s₈ with calls := [.doRecv 1, .peek 1] }
  let s₁₁ : Engine := { s₈ with calls := [.recvLoop 1 1 1, .peek 1] }
  let s₁₂ := s₁₁.readHeader 1 1 [.peek 1]
  let s₁₃ := s₁₂.pushUnexpected 0 1 1 3 300 24 [.peek 1]
  let s₁₄ := s₁₃.readBody 1 1 3 24 [.peek 1]
  let s₁₅ := s₁₄.readHeader 1 1 [.peek 1]
  let s₁₆ := s₁₅.finishRecv 1 1 [] [.peek 1]
  let s₁₇ : Engine := { s₁₆ with calls := [] }
  have h₁ : Step 2 10 0 s₀ s₁ :=
    .userRecv s₀ 1 100 1 1 1 rfl rfl (by simp) ⟨by simp, by simp⟩ (by decide)
  have h₂ : Step 2 10 0 s₁ s₂ := .arecvPost s₁ 1 [] rfl (by decide)
  have h₃ : Step 2 10 0 s₂ s₃ := .doRecv s₂ 1 1 [] rfl (by decide) fun _ _ => by decide
  have h₄ : Step 2 10 0 s₃ s₄ := .readHeader s₃ 1 1 1 [] rfl (by decide) (by decide)
  have h₅ : Step 2 10 0 s₄ s₅ := .finishRecv s₄ 1 1 0 [] [] (by decide) (by decide)
  have h₆ : Step 2 10 0 s₅ s₆ :=
    .userRecv s₅ 2 200 1 (-1) 2 (by decide) (by decide) (by simp) ⟨by simp, by simp⟩ (by decide)
  have h₇ : Step 2 10 0 s₆ s₇ := .arrive s₆ 1 (headerBytes 1 1 2 ++ [7])
  have h₈ : Step 2 10 0 s₇ s₈ := .arecvPost s₇ 2 [] (by decide) (by decide)
  have h₉ : Step 2 10 0 s₈ s₉ := .serviceSend s₈ 1 [.serviceRecv 1, .peek 1] (by decide)
  have h₁₀ : Step 2 10 0 s₉ s₁₀ := .serviceRecv s₉ 1 [.peek 1] rfl
  have h₁₁ : Step 2 10 0 s₁₀ s₁₁ :=
    .doRecv s₁₀ 1 1 [.peek 1] rfl (by decide) fun _ _ => by decide
  have h₁₂ : Step 2 10 0 s₁₁ s₁₂ := .readHeader s₁₁ 1 1 1 [.peek 1] rfl (by decide) (by decide)
  have h₁₃ : Step 2 10 0 s₁₂ s₁₃ := .pushUnexpected s₁₂ 1 1 3 300 24 [.peek 1] (by decide)
    (by decide) (by decide) (by decide) (by simp) (by decide)
  have h₁₄ : Step 2 10 0 s₁₃ s₁₄ := .readBody s₁₃ 1 1 3 24 [.peek 1] rfl
  have h₁₅ : Step 2 10 0 s₁₄ s₁₅ :=
    .readHeader s₁₄ 1 1 1 [.peek 1] (by decide) (by decide) (by decide)
  have h₁₆ : Step 2 10 0 s₁₅ s₁₆ := .finishRecv s₁₅ 1 1 0 [] [.peek 1] (by decide) (by decide)
  have h₁₇ : Step 2 10 0 s₁₆ s₁₇ :=
    .peekNothing s₁₆ 1 [] (by decide) (Or.inr (Or.inl (by decide)))
  have hrun : Relation.ReflTransGen (Step 2 10 0) s₀ s₁₇ :=
    ((((((((((((((((Relation.ReflTransGen.single h₁).tail h₂).tail h₃).tail h₄).tail h₅).tail
      h₆).tail h₇).tail h₈).tail h₉).tail h₁₀).tail h₁₁).tail h₁₂).tail h₁₃).tail h₁₄).tail
      h₁₅).tail h₁₆).tail h₁₇
  exact ⟨s₁₇, hrun.lift (fun s => s) fun _ _ h => ⟨h, trivial⟩, rfl, by decide, by decide,
    by decide, by decide⟩

end Engine

end NetPipe.MpLite
