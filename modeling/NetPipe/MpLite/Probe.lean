import Mathlib.Data.List.TakeWhile
import NetPipe.Library.LinkedList
import NetPipe.MpLite.Engine

/-!
# `MP_AProbe`

A test for messages that have come, in `msg_q` and in the sockets, which deliver whole messages. The
entries of a queue `msg_q` are linked by `mnext`, those of `recv_q` by `next`, which is left as it was
when an entry leaves `recv_q`. A message that does not fit is received into `msg_q`.
-/

namespace NetPipe.MpLite

/-- A message in a socket. -/
structure WholeMsg extends Header where
  data : List UInt8
  deriving DecidableEq, Repr

/-- `MP_AProbe(nbytes, source, tag)` -/
structure Pattern where
  nbytes : ℤ
  source : ℤ
  tag : ℤ
  deriving DecidableEq, Repr

/-- The messages that are asked for. -/
def Pattern.Matches (pat : Pattern) (nbytes tag : ℤ) : Prop :=
  nbytes ≤ pat.nbytes ∧ (pat.tag < 0 ∨ tag = pat.tag)

instance (pat : Pattern) (nbytes tag : ℤ) : Decidable (pat.Matches nbytes tag) :=
  inferInstanceAs (Decidable (_ ∧ _))

/-- The queues and sockets of a process. A queue is the list of its entries. -/
structure ProbeState where
  msg_list : ℕ → MsgEntry
  /-- the field `next` of each entry -/
  next : ℕ → Option ℕ
  /-- what is in the buffer of each entry -/
  data : ℕ → List UInt8
  mid : ℕ
  /-- the end of the memory that `malloc` has given out -/
  heap : ℕ
  recv_q : ℤ → List ℕ
  msg_q : ℤ → List ℕ
  ractive : ℤ → Bool
  /-- the messages that have come and are not read -/
  sock : ℤ → List WholeMsg
  flag : Bool
  last_src : ℤ
  last_size : ℤ
  last_tag : ℤ

/-- The bytes of a whole message are read into an entry: `read_msg` with `check_header`, if the header
is that of the entry. -/
def MsgEntry.readWhole (m : WholeMsg) (msg : MsgEntry) : MsgEntry :=
  (((msg.updateProgress hdrSize).setMessage m.nbytes m.src m.tag).skipHeader).updateProgress
    m.data.length

namespace ProbeState

/-- `malloc`, `create_msg_entry` and `msg->recv_flag = 2` for a message. -/
def create (maxMsgs : ℕ) (myproc : ℤ) (m : WholeMsg) (s : ProbeState) : Option (ℕ × ProbeState) :=
  (findEntry maxMsgs s.mid s.msg_list).map fun id => (id, { s with
    msg_list := Function.update s.msg_list id
      { MsgEntry.create myproc (s.heap + 1) m.nbytes m.src (-1) m.tag with recv_flag := 2 }
    next := Function.update s.next id none
    mid := id
    heap := s.heap + 1 + m.nbytes.toNat })

/-- `post(msg, msg_q)` -/
def postMsg (id : ℕ) (s : ProbeState) : ProbeState :=
  let src := (s.msg_list id).src
  { s with msg_q := Function.update s.msg_q src (s.msg_q src ++ [id]) }

/-- `post(msg, recv_q)` -/
def postRecv (id : ℕ) (s : ProbeState) : ProbeState :=
  let src := (s.msg_list id).src
  { s with
    next := match (s.recv_q src).getLast? with
      | none => s.next
      | some p => Function.update s.next p (some id)
    recv_q := Function.update s.recv_q src (s.recv_q src ++ [id]) }

/-- `do_recv`, for a queue of one entry that gets the message that is first in the socket. In the other
cases, to which `MP_AProbe` does not come, the model has no result. -/
def doRecv (src : ℤ) (s : ProbeState) : Option ProbeState :=
  match s.recv_q src, s.sock src with
  | [id], m :: ms =>
    if (s.msg_list id).recv_flag = 2 ∧ (s.msg_list id).Fits m.nbytes m.tag then
      some { s with
        msg_list := Function.update s.msg_list id ((s.msg_list id).readWhole m)
        data := Function.update s.data id m.data
        sock := Function.update s.sock src ms
        recv_q := Function.update s.recv_q src []
        ractive := Function.update s.ractive src false }
    else none
  | _, _ => none

/-- What `MP_AProbe` does with a message that does not match. -/
def buffer (maxMsgs : ℕ) (myproc : ℤ) (m : WholeMsg) (s : ProbeState) : Option (ℕ × ProbeState) :=
  (s.create maxMsgs myproc m).bind fun r =>
    (((r.2.postMsg r.1).postRecv r.1).doRecv m.src).map fun s => (r.1, s)

/-- The entries with their pointers `next`. -/
def links (s : ProbeState) : Heap MsgEntry := fun id => some ⟨s.msg_list id, s.next id⟩

/-- An entry has the size and the tag that are asked for. -/
def fits (pat : Pattern) (msg : MsgEntry) : Bool := pat.Matches msg.nbytes msg.tag

/-- The first loop of `MP_AProbe`, over `num_qs` queues from `tsrc` on: the entry found and its queue.
`n` limits the entries of a queue. -/
def queueLoop (pat : Pattern) (n : ℕ) (s : ProbeState) : ℕ → ℤ → Option (Option (ℤ × ℕ))
  | 0, _ => some none
  | num_qs + 1, tsrc =>
    (s.links.find (fits pat) n none (s.msg_q tsrc).head?).bind fun r => match r.2 with
      | some p => some (some (tsrc, p))
      | none => queueLoop pat n s num_qs (tsrc + 1)

/-- The `do` loop of `MP_AProbe` over the messages in a socket: the message found. -/
def peekLoop (maxMsgs : ℕ) (myproc : ℤ) (pat : Pattern) (tsrc : ℤ) :
    ℕ → ProbeState → Option (Option WholeMsg × ProbeState)
  | 0, _ => none
  | n + 1, s => match s.sock tsrc with
    | [] => some (none, s)
    | m :: _ =>
      if pat.Matches m.nbytes m.tag then some (some m, s)
      else (s.buffer maxMsgs myproc m).bind fun r =>
        if (r.2.msg_list r.1).nleft ≠ 0 then some (none, r.2)
        else peekLoop maxMsgs myproc pat tsrc n r.2

/-- The second loop of `MP_AProbe`. `tsrc` is counted in the branch for the other processes. -/
def sockLoop (maxMsgs : ℕ) (myproc : ℤ) (pat : Pattern) (n : ℕ) :
    ℕ → ℤ → ProbeState → Option (Option WholeMsg × ProbeState)
  | 0, _, s => some (none, s)
  | num_qs + 1, tsrc, s =>
    if tsrc ≠ myproc then
      if s.ractive tsrc ≠ true then
        (peekLoop maxMsgs myproc pat tsrc n s).bind fun r => match r.1 with
          | some m => some (some m, r.2)
          | none => sockLoop maxMsgs myproc pat n num_qs (tsrc + 1) r.2
      else sockLoop maxMsgs myproc pat n num_qs (tsrc + 1) s
    else sockLoop maxMsgs myproc pat n num_qs tsrc s

/-- The results of `MP_AProbe` if a message is found. -/
def report (src nbytes tag : ℤ) (s : ProbeState) : ProbeState :=
  { s with flag := true, last_src := src, last_size := nbytes, last_tag := tag }

/-- The results of `MP_AProbe` after the second loop. -/
def answer (r : Option WholeMsg) (s : ProbeState) : ProbeState :=
  match r with
  | some m => s.report m.src m.nbytes m.tag
  | none => { s with flag := false }

/-- `MP_AProbe`, with loops of at most `n` steps. It has no result if a loop has not ended then, or if
there is no entry for a message. -/
def mpAProbe (nprocs maxMsgs : ℕ) (myproc : ℤ) (pat : Pattern) (n : ℕ) (s : ProbeState) :
    Option ProbeState :=
  let num_qs := if pat.source < 0 then nprocs else 1
  let tsrc := if pat.source < 0 then 0 else pat.source
  let found := if ¬ (pat.source ≥ 0 ∧ s.msg_q pat.source = []) then queueLoop pat n s num_qs tsrc
    else some none
  found.bind fun r => match r with
    | some (src, p) => some (s.report src (s.msg_list p).nbytes (s.msg_list p).tag)
    | none => (sockLoop maxMsgs myproc pat n num_qs tsrc s).map fun r => r.2.answer r.1

/-! ### Messages -/

/-- The message in an entry. -/
def message (s : ProbeState) (id : ℕ) : WholeMsg :=
  ⟨⟨(s.msg_list id).nbytes, (s.msg_list id).src, (s.msg_list id).tag⟩, s.data id⟩

/-- The messages in `msg_q[src]`. -/
def queued (s : ProbeState) (src : ℤ) : List WholeMsg := (s.msg_q src).map s.message

/-- The messages in the socket of a source with no active receive. -/
def waiting (s : ProbeState) (src : ℤ) : List WholeMsg := if s.ractive src then [] else s.sock src

/-- The number of free entries. -/
def free (maxMsgs : ℕ) (s : ProbeState) : ℕ :=
  ((Finset.range maxMsgs).filter fun id => (s.msg_list id).buf = 0).card

/-- The entries of `msg_q` are in use, an inactive source has no receive, and the messages are whole. -/
structure Sound (s : ProbeState) : Prop where
  used : ∀ src, ∀ id ∈ s.msg_q src, (s.msg_list id).buf ≠ 0
  src : ∀ src, ∀ id ∈ s.msg_q src, (s.msg_list id).src = src
  inactive : ∀ src, s.ractive src = false → s.recv_q src = []
  sock : ∀ src, ∀ m ∈ s.sock src, m.src = src ∧ m.nbytes = m.data.length

/-- Messages from the sockets were put into the queues in their order. -/
structure Moved (s s' : ProbeState) : Prop where
  sound : s'.Sound
  ractive : s'.ractive = s.ractive
  order : ∀ src, ∃ ms, s'.queued src = s.queued src ++ ms ∧ s.sock src = ms ++ s'.sock src

section

variable {s s' s'' : ProbeState} {maxMsgs n : ℕ} {myproc tsrc : ℤ} {m : WholeMsg}
  {ms : List WholeMsg} {id : ℕ} {pat : Pattern}

lemma Moved.refl (h : s.Sound) : s.Moved s :=
  ⟨h, rfl, fun _ => ⟨[], (List.append_nil _).symm, rfl⟩⟩

lemma Moved.trans (h : s.Moved s') (h' : s'.Moved s'') : s.Moved s'' := by
  refine ⟨h'.sound, h'.ractive.trans h.ractive, fun src => ?_⟩
  obtain ⟨ms, hqueued, hsock⟩ := h.order src
  obtain ⟨ms', hqueued', hsock'⟩ := h'.order src
  refine ⟨ms ++ ms', ?_, ?_⟩
  · rw [hqueued', hqueued, List.append_assoc]
  · rw [hsock, hsock', List.append_assoc]

/-! ### A message that does not match -/

/-- The entry of a whole message that was read. -/
lemma readWhole_create (hm : m.nbytes = m.data.length) (buf : ℕ) :
    (({ MsgEntry.create myproc buf m.nbytes m.src (-1) m.tag with recv_flag := 2 } :
      MsgEntry).readWhole m).nleft = 0 := by
  have hhdr : ∀ msg : MsgEntry, (msg.setMessage m.nbytes m.src m.tag).skipHeader.nleft = m.nbytes :=
    fun msg => add_sub_cancel_right _ _
  have hbody : ∀ msg : MsgEntry, msg.nhdr = 0 → (msg.updateProgress m.data.length).nleft =
      msg.nleft - m.data.length := by
    intro msg h
    rw [MsgEntry.updateProgress_body h]
  rw [MsgEntry.readWhole, hbody _ rfl, hhdr, hm, sub_self]

/-- The state with the message in `msg_q`. -/
def buffered (myproc : ℤ) (id : ℕ) (m : WholeMsg) (ms : List WholeMsg) (s : ProbeState) : ProbeState :=
  { s with
    msg_list := Function.update s.msg_list id
      (({ MsgEntry.create myproc (s.heap + 1) m.nbytes m.src (-1) m.tag with recv_flag := 2 } :
        MsgEntry).readWhole m)
    next := Function.update s.next id none
    data := Function.update s.data id m.data
    mid := id
    heap := s.heap + 1 + m.nbytes.toNat
    msg_q := Function.update s.msg_q m.src (s.msg_q m.src ++ [id])
    sock := Function.update s.sock m.src ms }

/-- The message is received at once. -/
lemma buffer_eq (h : s.Sound) (hinactive : s.ractive m.src = false) (hsock : s.sock m.src = m :: ms) :
    s.buffer maxMsgs myproc m = (findEntry maxMsgs s.mid s.msg_list).map fun id =>
      (id, s.buffered myproc id m ms) := by
  have hrecv := h.inactive m.src hinactive
  cases hid : findEntry maxMsgs s.mid s.msg_list with
  | none => simp [buffer, create, hid]
  | some id =>
    have hfits : m.nbytes ≤ (MsgEntry.create myproc (s.heap + 1) m.nbytes m.src (-1) m.tag).nbytes :=
      le_refl _
    have hrecv_q : Function.update s.recv_q m.src [] = s.recv_q := by
      rw [← hrecv, Function.update_eq_self]
    have hractive : Function.update s.ractive m.src false = s.ractive := by
      rw [← hinactive, Function.update_eq_self]
    have hsrc : (MsgEntry.create myproc (s.heap + 1) m.nbytes m.src (-1) m.tag).src = m.src := rfl
    have htag : (MsgEntry.create myproc (s.heap + 1) m.nbytes m.src (-1) m.tag).tag = m.tag := rfl
    simp [buffer, create, hid, postMsg, postRecv, doRecv, hsrc, htag, hrecv, hsock, hfits, MsgEntry.Fits,
      buffered, hrecv_q, hractive]

lemma buffered_self (s : ProbeState) (myproc : ℤ) (id : ℕ) (m : WholeMsg) (ms : List WholeMsg) :
    (s.buffered myproc id m ms).msg_list id =
      (({ MsgEntry.create myproc (s.heap + 1) m.nbytes m.src (-1) m.tag with recv_flag := 2 } :
        MsgEntry).readWhole m) :=
  Function.update_self ..

/-- The fields of the entry. -/
lemma buffered_entry (s : ProbeState) (myproc : ℤ) (id : ℕ) (m : WholeMsg) (ms : List WholeMsg) :
    ((s.buffered myproc id m ms).msg_list id).nbytes = m.nbytes ∧
    ((s.buffered myproc id m ms).msg_list id).src = m.src ∧
    ((s.buffered myproc id m ms).msg_list id).tag = m.tag ∧
    ((s.buffered myproc id m ms).msg_list id).buf ≠ 0 := by
  rw [buffered_self]
  simp [MsgEntry.readWhole, MsgEntry.skipHeader, MsgEntry.setMessage, MsgEntry.create]

lemma buffered_nleft (myproc : ℤ) (id : ℕ) (ms : List WholeMsg) (hm : m.nbytes = m.data.length) :
    ((s.buffered myproc id m ms).msg_list id).nleft = 0 := by
  rw [buffered_self]
  exact readWhole_create hm _

/-- The entries of the other messages stay as they are. -/
lemma buffered_of_ne {a : ℕ} (ha : a ≠ id) :
    (s.buffered myproc id m ms).msg_list a = s.msg_list a ∧
      (s.buffered myproc id m ms).message a = s.message a := by
  have hlist : (s.buffered myproc id m ms).msg_list a = s.msg_list a := Function.update_of_ne ha _ _
  have hdata : (s.buffered myproc id m ms).data a = s.data a := Function.update_of_ne ha _ _
  refine ⟨hlist, ?_⟩
  rw [message, message, hlist, hdata]

lemma buffered_message : (s.buffered myproc id m ms).message id = m := by
  obtain ⟨hnbytes, hsrc, htag, -⟩ := s.buffered_entry myproc id m ms
  have hdata : (s.buffered myproc id m ms).data id = m.data := Function.update_self ..
  rw [message, hnbytes, hsrc, htag, hdata]

/-- A free entry is in no queue. -/
lemma Sound.ne_of_free (h : s.Sound) (hid : (s.msg_list id).buf = 0) {src : ℤ} {a : ℕ}
    (ha : a ∈ s.msg_q src) : a ≠ id := by
  rintro rfl
  exact h.used src a ha hid

lemma queued_buffered (h : s.Sound) (hid : (s.msg_list id).buf = 0) (src : ℤ) :
    (s.buffered myproc id m ms).queued src = s.queued src ++ if src = m.src then [m] else [] := by
  have hold : (s.msg_q src).map (s.buffered myproc id m ms).message = s.queued src :=
    List.map_congr_left fun a ha => (buffered_of_ne (h.ne_of_free hid ha)).2
  rw [queued]
  rcases eq_or_ne src m.src with rfl | hsrc
  · have hq : (s.buffered myproc id m ms).msg_q m.src = s.msg_q m.src ++ [id] :=
      Function.update_self ..
    rw [hq, List.map_append, hold, List.map_singleton, buffered_message, if_pos rfl]
  · have hq : (s.buffered myproc id m ms).msg_q src = s.msg_q src := Function.update_of_ne hsrc _ _
    rw [hq, hold, if_neg hsrc, List.append_nil]

lemma sock_buffered (src : ℤ) : (s.buffered myproc id m ms).sock src =
    if src = m.src then ms else s.sock src :=
  Function.update_apply ..

lemma mem_msg_q_buffered {src : ℤ} {a : ℕ} (ha : a ∈ (s.buffered myproc id m ms).msg_q src) :
    a ∈ s.msg_q src ∨ a = id ∧ src = m.src := by
  have hq : (s.buffered myproc id m ms).msg_q src =
      if src = m.src then s.msg_q m.src ++ [id] else s.msg_q src := Function.update_apply ..
  rw [hq] at ha
  split_ifs at ha with hsrc
  · subst hsrc
    exact (List.mem_append.mp ha).imp_right fun ha => ⟨List.mem_singleton.mp ha, rfl⟩
  · exact Or.inl ha

lemma sound_buffered (h : s.Sound) (hid : (s.msg_list id).buf = 0) (hsock : s.sock m.src = m :: ms) :
    (s.buffered myproc id m ms).Sound := by
  obtain ⟨hnbytes, hsrc, htag, hbuf⟩ := s.buffered_entry myproc id m ms
  refine ⟨fun src a ha => ?_, fun src a ha => ?_, h.inactive, fun src m' hm' => ?_⟩
  · rcases eq_or_ne a id with rfl | hne
    · exact hbuf
    · rw [(buffered_of_ne hne).1]
      exact h.used src a ((mem_msg_q_buffered ha).resolve_right fun heq => hne heq.1)
  · rcases mem_msg_q_buffered ha with hmem | ⟨rfl, rfl⟩
    · rw [(buffered_of_ne (h.ne_of_free hid hmem)).1]
      exact h.src src a hmem
    · exact hsrc
  · rw [sock_buffered] at hm'
    split_ifs at hm' with heq
    · refine h.sock src m' ?_
      rw [heq, hsock]
      exact List.mem_cons_of_mem m hm'
    · exact h.sock src m' hm'

lemma moved_buffered (myproc : ℤ) (h : s.Sound) (hid : (s.msg_list id).buf = 0) (hsock : s.sock m.src = m :: ms) :
    s.Moved (s.buffered myproc id m ms) := by
  refine ⟨sound_buffered h hid hsock, rfl, fun src => ⟨if src = m.src then [m] else [], ?_, ?_⟩⟩
  · exact queued_buffered h hid src
  · rw [sock_buffered]
    split_ifs with hsrc
    · rw [hsrc, hsock]
      rfl
    · rfl

/-- One entry less is free. -/
lemma free_buffered (myproc : ℤ) (m : WholeMsg) (ms : List WholeMsg)
    (hid : findEntry maxMsgs s.mid s.msg_list = some id) :
    (s.buffered myproc id m ms).free maxMsgs + 1 = s.free maxMsgs := by
  have hbuf := (s.buffered_entry myproc id m ms).2.2.2
  have hfree := findEntry_free hid
  have herase : (Finset.range maxMsgs).filter
      (fun a => ((s.buffered myproc id m ms).msg_list a).buf = 0) =
      ((Finset.range maxMsgs).filter fun a => (s.msg_list a).buf = 0).erase id := by
    ext a
    rw [Finset.mem_erase, Finset.mem_filter, Finset.mem_filter]
    rcases eq_or_ne a id with rfl | hne
    · simp [hbuf]
    · rw [(buffered_of_ne hne).1]
      simp [hne]
  rw [free, herase]
  refine Finset.card_erase_add_one (Finset.mem_filter.mpr ⟨?_, hfree⟩)
  exact Finset.mem_range.mpr (findEntry_lt hid)

/-- With an entry left one is found. -/
lemma findEntry_isSome (h : 0 < s.free maxMsgs) :
    (findEntry maxMsgs s.mid s.msg_list).isSome := by
  obtain ⟨a, ha⟩ := Finset.card_pos.mp h
  obtain ⟨hlt, hfree⟩ := Finset.mem_filter.mp ha
  rw [Option.isSome_iff_ne_none]
  exact fun hnone => findEntry_none hnone (Finset.mem_range.mp hlt) hfree

/-! ### The sockets -/

/-- A message in a socket is one of those that are asked for. -/
def wanted (pat : Pattern) (m : WholeMsg) : Bool := pat.Matches m.nbytes m.tag

/-- The messages of `ms` were looked at, up to the first that matches. -/
structure Looked (maxMsgs : ℕ) (pat : Pattern) (s s' : ProbeState) (ms : List WholeMsg)
    (r : Option WholeMsg) : Prop where
  found : r = ms.find? (wanted pat)
  moved : s.Moved s'
  free : s'.free maxMsgs + (ms.takeWhile fun m => !wanted pat m).length = s.free maxMsgs

/-- A message that does not match is looked at before those behind it. -/
lemma Looked.cons {r : Option WholeMsg} (hm : wanted pat m = false)
    (hmoved : s.Moved s') (hfree : s'.free maxMsgs + 1 = s.free maxMsgs)
    (h : Looked maxMsgs pat s' s'' ms r) : Looked maxMsgs pat s s'' (m :: ms) r := by
  refine ⟨?_, hmoved.trans h.moved, ?_⟩
  · rw [List.find?_cons_of_neg (by simp [hm])]
    exact h.found
  · rw [List.takeWhile_cons_of_pos (by simp [hm]), List.length_cons, ← Nat.add_assoc, h.free, hfree]

/-- Behind a message that matches nothing is looked at. -/
lemma Looked.stop (h : Looked maxMsgs pat s s' ms (some m)) (ms' : List WholeMsg) :
    Looked maxMsgs pat s s' (ms ++ ms') (some m) := by
  obtain ⟨hm, ms₁, ms₂, rfl, hms₁⟩ := List.find?_eq_some_iff_append.mp h.found.symm
  have htake : ∀ ms₃, ((ms₁ ++ m :: ms₃).takeWhile fun m => !wanted pat m) = ms₁ := by
    intro ms₃
    rw [List.takeWhile_append_of_pos hms₁, List.takeWhile_cons_of_neg (by simp [hm]), List.append_nil]
  refine ⟨?_, h.moved, ?_⟩
  · rw [List.find?_append, ← h.found]
    rfl
  · have hfree := h.free
    rw [htake] at hfree
    rw [List.append_assoc, List.cons_append, htake]
    exact hfree

lemma Looked.none_wanted (h : Looked maxMsgs pat s s' ms none) :
    ∀ m ∈ ms, (!wanted pat m) = true := by
  intro m hm
  simpa using List.find?_eq_none.mp h.found.symm m hm

/-- The messages of two sockets. -/
lemma Looked.append {ms' : List WholeMsg} {r : Option WholeMsg}
    (h : Looked maxMsgs pat s s' ms none) (h' : Looked maxMsgs pat s' s'' ms' r) :
    Looked maxMsgs pat s s'' (ms ++ ms') r := by
  have hnone := h.none_wanted
  refine ⟨?_, h.moved.trans h'.moved, ?_⟩
  · rw [List.find?_append, ← h.found, h'.found]
    rfl
  · have hall : (ms.takeWhile fun m => !wanted pat m) = ms := List.takeWhile_eq_self_iff.mpr hnone
    have hfree := h.free
    have hfree' := h'.free
    rw [hall] at hfree
    rw [List.takeWhile_append_of_pos hnone, List.length_append]
    omega

/-- The result of the `do` loop. -/
lemma peekLoop_looked {r : Option WholeMsg} (h : s.Sound) (hinactive : s.ractive tsrc = false)
    (hr : peekLoop maxMsgs myproc pat tsrc n s = some (r, s')) :
    Looked maxMsgs pat s s' (s.sock tsrc) r ∧ ∀ src, src ≠ tsrc → s'.sock src = s.sock src := by
  induction n generalizing s with
  | zero => cases hr
  | succ n ih =>
    cases hsock : s.sock tsrc with
    | nil =>
      rw [peekLoop, hsock] at hr
      cases hr
      exact ⟨⟨rfl, Moved.refl h, rfl⟩, fun _ _ => rfl⟩
    | cons m ms =>
      obtain ⟨hsrc, hlength⟩ := h.sock tsrc m (hsock ▸ List.mem_cons_self)
      rw [peekLoop, hsock] at hr
      dsimp only at hr
      split_ifs at hr with hmatches
      · cases hr
        have hwanted : wanted pat m = true := decide_eq_true hmatches
        refine ⟨⟨?_, Moved.refl h, ?_⟩, fun _ _ => rfl⟩
        · rw [List.find?_cons_of_pos hwanted]
        · rw [List.takeWhile_cons_of_neg (by simp [hwanted])]
          rfl
      · have hwanted : wanted pat m = false := decide_eq_false hmatches
        subst hsrc
        obtain ⟨⟨id, s₁⟩, hbuffer, hr⟩ := Option.bind_eq_some_iff.mp hr
        rw [buffer_eq h hinactive hsock] at hbuffer
        obtain ⟨id, hid, heq⟩ := Option.map_eq_some_iff.mp hbuffer
        cases heq
        have hmoved := moved_buffered myproc h (findEntry_free hid) hsock
        have hnleft := buffered_nleft (s := s) myproc id ms hlength
        rw [if_neg (not_not.mpr hnleft)] at hr
        obtain ⟨hlooked, hothers⟩ := ih hmoved.sound hinactive hr
        rw [sock_buffered, if_pos rfl] at hlooked
        refine ⟨hlooked.cons hwanted hmoved (free_buffered myproc m ms hid), fun src hsrc => ?_⟩
        rw [hothers src hsrc, sock_buffered, if_neg hsrc]

/-- With enough entries and steps the `do` loop ends. -/
lemma peekLoop_isSome (myproc : ℤ) (h : s.Sound) (hinactive : s.ractive tsrc = false)
    (hfree : ((s.sock tsrc).takeWhile fun m => !wanted pat m).length ≤ s.free maxMsgs)
    (hn : (s.sock tsrc).length < n) : (peekLoop maxMsgs myproc pat tsrc n s).isSome := by
  induction n generalizing s with
  | zero => cases hn
  | succ n ih =>
    cases hsock : s.sock tsrc with
    | nil =>
      rw [peekLoop, hsock]
      rfl
    | cons m ms =>
      obtain ⟨hsrc, hlength⟩ := h.sock tsrc m (hsock ▸ List.mem_cons_self)
      rw [peekLoop, hsock]
      dsimp only
      split_ifs with hmatches
      · rfl
      · have hwanted : wanted pat m = false := decide_eq_false hmatches
        subst hsrc
        rw [hsock, List.takeWhile_cons_of_pos (by simp [hwanted]), List.length_cons] at hfree
        obtain ⟨id, hid⟩ := Option.isSome_iff_exists.mp
          (findEntry_isSome (Nat.lt_of_lt_of_le (Nat.zero_lt_succ _) hfree))
        have hmoved := moved_buffered myproc h (findEntry_free hid) hsock
        have hcount := free_buffered myproc m ms hid
        have hnleft := buffered_nleft (s := s) myproc id ms hlength
        rw [buffer_eq h hinactive hsock, hid, Option.map_some, Option.bind_some,
          if_neg (not_not.mpr hnleft)]
        dsimp only
        have hrest : (s.buffered myproc id m ms).sock m.src = ms := by
          rw [sock_buffered, if_pos rfl]
        refine ih hmoved.sound hinactive ?_ ?_
        · rw [hrest]
          omega
        · rw [hsock, List.length_cons] at hn
          rw [hrest]
          omega

/-- The sources to whose sockets the second loop comes. -/
def probed (myproc : ℤ) : ℕ → ℤ → List ℤ
  | 0, _ => []
  | num_qs + 1, tsrc => if tsrc = myproc then [] else tsrc :: probed myproc num_qs (tsrc + 1)

/-- At its own number the loop stays. -/
lemma sockLoop_myproc (num_qs : ℕ) :
    sockLoop maxMsgs myproc pat n num_qs myproc s = some (none, s) := by
  induction num_qs with
  | zero => rfl
  | succ num_qs ih =>
    rw [sockLoop, if_neg (not_not.mpr rfl)]
    exact ih

lemma le_of_mem_probed {num_qs : ℕ} {src : ℤ} (h : src ∈ probed myproc num_qs tsrc) : tsrc ≤ src := by
  induction num_qs generalizing tsrc with
  | zero => cases h
  | succ num_qs ih =>
    rw [probed] at h
    split_ifs at h with hmy
    · cases h
    · rcases List.mem_cons.mp h with rfl | h
      · exact le_refl _
      · exact (Int.le_add_one (le_refl _)).trans (ih h)

/-- The messages at which the second loop looks. -/
def probedMsgs (myproc : ℤ) (num_qs : ℕ) (tsrc : ℤ) (s : ProbeState) : List WholeMsg :=
  (probed myproc num_qs tsrc).flatMap s.waiting

lemma probedMsgs_succ {num_qs : ℕ} (hmy : tsrc ≠ myproc) : s.probedMsgs myproc (num_qs + 1) tsrc =
    s.waiting tsrc ++ s.probedMsgs myproc num_qs (tsrc + 1) := by
  rw [probedMsgs, probed, if_neg hmy, List.flatMap_cons]
  rfl

lemma probedMsgs_myproc {num_qs : ℕ} : s.probedMsgs myproc num_qs myproc = [] := by
  cases num_qs with
  | zero => rfl
  | succ num_qs =>
    rw [probedMsgs, probed, if_pos rfl]
    rfl

/-- The messages of the sources behind `tsrc` are still there. -/
lemma probedMsgs_congr {num_qs : ℕ} (hractive : s'.ractive = s.ractive)
    (hsock : ∀ src, src ≠ tsrc → s'.sock src = s.sock src) :
    s'.probedMsgs myproc num_qs (tsrc + 1) = s.probedMsgs myproc num_qs (tsrc + 1) := by
  refine List.flatMap_congr fun src hsrc => ?_
  have hne : src ≠ tsrc := by
    have hle := le_of_mem_probed hsrc
    omega
  rw [waiting, waiting, hractive, hsock src hne]

lemma waiting_inactive (h : s.ractive tsrc = false) : s.waiting tsrc = s.sock tsrc := by
  rw [waiting, h]
  rfl

lemma waiting_active (h : s.ractive tsrc = true) : s.waiting tsrc = [] :=
  if_pos h

/-- The result of the second loop. -/
lemma sockLoop_looked {num_qs : ℕ} {r : Option WholeMsg} (h : s.Sound)
    (hr : sockLoop maxMsgs myproc pat n num_qs tsrc s = some (r, s')) :
    Looked maxMsgs pat s s' (s.probedMsgs myproc num_qs tsrc) r := by
  induction num_qs generalizing tsrc s with
  | zero =>
    cases hr
    exact ⟨rfl, Moved.refl h, rfl⟩
  | succ num_qs ih =>
    rcases eq_or_ne tsrc myproc with rfl | hmy
    · rw [sockLoop_myproc] at hr
      cases hr
      rw [probedMsgs_myproc]
      exact ⟨rfl, Moved.refl h, rfl⟩
    · rw [sockLoop, if_pos hmy] at hr
      rw [probedMsgs_succ hmy]
      cases hactive : s.ractive tsrc with
      | true =>
        rw [if_neg (not_not.mpr hactive)] at hr
        rw [waiting_active hactive]
        exact ih h hr
      | false =>
        rw [if_pos (by simp [hactive])] at hr
        obtain ⟨⟨r₁, s₁⟩, hpeek, hr⟩ := Option.bind_eq_some_iff.mp hr
        obtain ⟨hlooked, hothers⟩ := peekLoop_looked h hactive hpeek
        rw [waiting_inactive hactive]
        cases r₁ with
        | some m =>
          cases hr
          exact hlooked.stop _
        | none =>
          rw [← probedMsgs_congr hlooked.moved.ractive hothers]
          exact hlooked.append (ih hlooked.moved.sound hr)

/-- With enough entries and steps the second loop ends. -/
lemma sockLoop_isSome {num_qs : ℕ} (h : s.Sound)
    (hfree : ((s.probedMsgs myproc num_qs tsrc).takeWhile fun m => !wanted pat m).length ≤
      s.free maxMsgs)
    (hn : (s.probedMsgs myproc num_qs tsrc).length < n) :
    (sockLoop maxMsgs myproc pat n num_qs tsrc s).isSome := by
  induction num_qs generalizing tsrc s with
  | zero => rfl
  | succ num_qs ih =>
    rcases eq_or_ne tsrc myproc with rfl | hmy
    · rw [sockLoop_myproc]
      rfl
    · rw [sockLoop, if_pos hmy]
      rw [probedMsgs_succ hmy] at hfree hn
      cases hactive : s.ractive tsrc with
      | true =>
        rw [waiting_active hactive] at hfree hn
        rw [if_neg (not_not.mpr rfl)]
        exact ih h hfree hn
      | false =>
        rw [waiting_inactive hactive] at hfree hn
        rw [List.length_append] at hn
        have hle : ((s.sock tsrc).takeWhile fun m => !wanted pat m).length ≤ s.free maxMsgs := by
          refine le_trans ?_ hfree
          rw [List.takeWhile_append]
          split_ifs with hall
          · rw [hall, List.length_append]
            exact Nat.le_add_right _ _
          · exact le_refl _
        have hsome := peekLoop_isSome (n := n) myproc h hactive hle (by omega)
        obtain ⟨⟨r, s₁⟩, hpeek⟩ := Option.isSome_iff_exists.mp hsome
        obtain ⟨hlooked, hothers⟩ := peekLoop_looked h hactive hpeek
        rw [if_pos (by simp), hpeek, Option.bind_some]
        cases r with
        | some m => rfl
        | none =>
          have hnone := hlooked.none_wanted
          have hcount := hlooked.free
          rw [List.takeWhile_eq_self_iff.mpr hnone] at hcount
          rw [List.takeWhile_append_of_pos hnone, List.length_append] at hfree
          dsimp only
          refine ih hlooked.moved.sound ?_ ?_
          · rw [probedMsgs_congr hlooked.moved.ractive hothers]
            omega
          · rw [probedMsgs_congr hlooked.moved.ractive hothers]
            omega

/-! ### The queues -/

/-- From the head of `msg_q[src]` the pointers `next` lead to the entry `a`, the first one that fits. -/
def Hits (s : ProbeState) (pat : Pattern) (src : ℤ) (a : ℕ) : Prop :=
  ∃ l, s.links.Segment (s.msg_q src).head? l (some a) ∧
    (∀ msg ∈ l.map Prod.snd, fits pat msg = false) ∧ fits pat (s.msg_list a) = true

/-- From the head of `msg_q[src]` the pointers `next` lead to no entry that fits, and come to an end. -/
def Misses (s : ProbeState) (pat : Pattern) (src : ℤ) : Prop :=
  ∃ l, s.links.Segment (s.msg_q src).head? l none ∧ ∀ msg ∈ l.map Prod.snd, fits pat msg = false

lemma Hits.find {src : ℤ} {a : ℕ} (h : s.Hits pat src a) :
    ∃ N, ∀ n ≥ N, ∃ last, s.links.find (fits pat) n none (s.msg_q src).head? = some (last, some a) := by
  obtain ⟨l, hl, hfalse, htrue⟩ := h
  have hpath : s.links.Segment (s.msg_q src).head? (l ++ [(a, s.msg_list a)]) (s.next a) :=
    Heap.segment_append.mpr ⟨some a, hl, rfl, s.next a, rfl, rfl⟩
  exact ⟨l.length + 1, fun n hn => ⟨_, hpath.find hfalse htrue hn⟩⟩

lemma Misses.find {src : ℤ} (h : s.Misses pat src) :
    ∃ N, ∀ n ≥ N, ∃ last, s.links.find (fits pat) n none (s.msg_q src).head? = some (last, none) := by
  obtain ⟨l, hl, hfalse⟩ := h
  exact ⟨l.length, fun n hn => hl.find_none hfalse hn⟩

/-- What the first loop has found. -/
lemma queueLoop_cases {num_qs : ℕ} {r : Option (ℤ × ℕ)} (h : queueLoop pat n s num_qs tsrc = some r) :
    (r = none ∧ ∀ src, tsrc ≤ src → src < tsrc + num_qs → s.Misses pat src) ∨
      ∃ src a, r = some (src, a) ∧ tsrc ≤ src ∧ src < tsrc + num_qs ∧ s.Hits pat src a ∧
        ∀ src', tsrc ≤ src' → src' < src → s.Misses pat src' := by
  induction num_qs generalizing tsrc with
  | zero =>
    cases h
    refine Or.inl ⟨rfl, fun src hle hlt => ?_⟩
    omega
  | succ num_qs ih =>
    obtain ⟨⟨last, q⟩, hfind, h⟩ := Option.bind_eq_some_iff.mp h
    obtain ⟨l, hl, hfalse, hq⟩ := Heap.find_cases hfind
    cases q with
    | some a =>
      cases h
      obtain ⟨x, next, hnode, hx⟩ := hq a rfl
      cases hnode
      refine Or.inr ⟨tsrc, a, rfl, le_refl _, by omega, ⟨l, hl, hfalse, hx⟩, fun src hle hlt => ?_⟩
      omega
    | none =>
      have hfirst : s.Misses pat tsrc := ⟨l, hl, hfalse⟩
      have hmisses : ∀ src, tsrc ≤ src → (tsrc + 1 ≤ src → s.Misses pat src) → s.Misses pat src := by
        intro src hle hrest
        rcases hle.eq_or_lt with rfl | hlt
        · exact hfirst
        · exact hrest hlt
      rcases ih h with ⟨rfl, hrest⟩ | ⟨src, a, rfl, hle, hlt, hhits, hrest⟩
      · refine Or.inl ⟨rfl, fun src hle hlt => hmisses src hle fun hle' => hrest src hle' ?_⟩
        omega
      · refine Or.inr ⟨src, a, rfl, by omega, by omega, hhits, fun src' hle' hlt' => ?_⟩
        exact hmisses src' hle' fun hle' => hrest src' hle' hlt'

/-- With enough steps the first loop finds no entry if there is none. -/
lemma queueLoop_misses {num_qs : ℕ}
    (h : ∀ src, tsrc ≤ src → src < tsrc + num_qs → s.Misses pat src) :
    ∃ N, ∀ n ≥ N, queueLoop pat n s num_qs tsrc = some none := by
  induction num_qs generalizing tsrc with
  | zero => exact ⟨0, fun n _ => rfl⟩
  | succ num_qs ih =>
    obtain ⟨N, hN⟩ := (h tsrc (le_refl _) (by omega)).find
    obtain ⟨N', hN'⟩ := @ih (tsrc + 1) fun src hle hlt => h src (by omega) (by omega)
    refine ⟨max N N', fun n hn => ?_⟩
    obtain ⟨last, hfind⟩ := hN n ((le_max_left _ _).trans hn)
    rw [queueLoop, hfind, Option.bind_some]
    exact hN' n ((le_max_right _ _).trans hn)

/-- With enough steps it finds the entry that there is. -/
lemma queueLoop_hits {num_qs : ℕ} {src : ℤ} {a : ℕ} (hle : tsrc ≤ src) (hlt : src < tsrc + num_qs)
    (hhits : s.Hits pat src a) (h : ∀ src', tsrc ≤ src' → src' < src → s.Misses pat src') :
    ∃ N, ∀ n ≥ N, queueLoop pat n s num_qs tsrc = some (some (src, a)) := by
  induction num_qs generalizing tsrc with
  | zero => omega
  | succ num_qs ih =>
    rcases hle.eq_or_lt with rfl | hlt'
    · obtain ⟨N, hN⟩ := hhits.find
      refine ⟨N, fun n hn => ?_⟩
      obtain ⟨last, hfind⟩ := hN n hn
      rw [queueLoop, hfind, Option.bind_some]
    · obtain ⟨N, hN⟩ := (h tsrc (le_refl _) hlt').find
      obtain ⟨N', hN'⟩ := @ih (tsrc + 1) hlt' (by omega) fun src' hle' => h src' (by omega)
      refine ⟨max N N', fun n hn => ?_⟩
      obtain ⟨last, hfind⟩ := hN n ((le_max_left _ _).trans hn)
      rw [queueLoop, hfind, Option.bind_some]
      exact hN' n ((le_max_right _ _).trans hn)

end

end ProbeState

/-! ### Calls -/

/-- A call of `MP_AProbe`, for a source that is not the caller or for any source. -/
structure ProbeCall where
  nprocs : ℕ
  maxMsgs : ℕ
  myproc : ℤ
  myproc_mem : 0 ≤ myproc ∧ myproc < nprocs
  pat : Pattern
  source_mem : pat.source = -1 ∨ 0 ≤ pat.source ∧ pat.source < nprocs ∧ pat.source ≠ myproc
  state : ProbeState
  sound : state.Sound

namespace ProbeCall

/-- A message may come from this source. -/
def Admissible (c : ProbeCall) (src : ℤ) : Prop :=
  0 ≤ src ∧ src < c.nprocs ∧ (c.pat.source < 0 ∨ src = c.pat.source)

/-- A message is in the queue of an admissible source or waits in its socket. -/
def Available (c : ProbeCall) (m : WholeMsg) : Prop :=
  ∃ src, c.Admissible src ∧
    (m ∈ c.state.queued src ∨ src ≠ c.myproc ∧ m ∈ c.state.waiting src)

/-- `MP_AProbe` returns with the right results. -/
structure Right (c : ProbeCall) (s' : ProbeState) : Prop where
  flag : s'.flag = true ↔ ∃ m, c.Available m ∧ c.pat.Matches m.nbytes m.tag
  report : s'.flag = true → ∃ m, c.Available m ∧ c.pat.Matches m.nbytes m.tag ∧
    s'.last_src = m.src ∧ s'.last_size = m.nbytes ∧ s'.last_tag = m.tag
  order : ∀ src, ∃ ms, s'.queued src = c.state.queued src ++ ms ∧
    c.state.sock src = ms ++ s'.sock src

/-- The call returns with the right results. -/
def Exact (c : ProbeCall) : Prop :=
  ∃ n s', c.state.mpAProbe c.nprocs c.maxMsgs c.myproc c.pat n = some s' ∧ c.Right s'

/-- The sockets at which the code looks. If the source may be any, these are those of the processes
before the caller. -/
def probed (c : ProbeCall) : List WholeMsg :=
  (if c.pat.source < 0 then (List.range c.myproc.toNat).map (fun i : ℕ => (i : ℤ))
    else [c.pat.source]).flatMap c.state.waiting

/-- The messages of which the code knows only what `next` shows. -/
def Hidden (c : ProbeCall) (m : WholeMsg) : Prop :=
  (∃ src, c.Admissible src ∧ m ∈ c.state.queued src) ∨
    c.pat.source < 0 ∧ ∃ src, c.myproc < src ∧ src < c.nprocs ∧ m ∈ c.state.waiting src

/-- What the code looks at is enough: either the pointers `next` lead to an entry that fits, and the
first of these is as some message of this source, or they come to their end, there are entries for the
messages to be received, and no hidden message matches if none of those in the sockets does. -/
def Suffices (c : ProbeCall) : Prop :=
  (∃ src a, c.Admissible src ∧ c.state.Hits c.pat src a ∧
    (∀ src', c.Admissible src' → src' < src → c.state.Misses c.pat src') ∧
    ∃ m, c.Available m ∧ m.src = src ∧ m.nbytes = (c.state.msg_list a).nbytes ∧
      m.tag = (c.state.msg_list a).tag) ∨
  (∀ src, c.Admissible src → c.state.Misses c.pat src) ∧
    (c.probed.takeWhile fun m => !ProbeState.wanted c.pat m).length ≤ c.state.free c.maxMsgs ∧
    ((∀ m ∈ c.probed, ¬ c.pat.Matches m.nbytes m.tag) →
      ∀ m, c.Hidden m → ¬ c.pat.Matches m.nbytes m.tag)

section

variable {c : ProbeCall} {src : ℤ} {m : WholeMsg}

/-- The number of queues of the loops. -/
def numQs (c : ProbeCall) : ℕ := if c.pat.source < 0 then c.nprocs else 1

/-- The first source of the loops. -/
def first (c : ProbeCall) : ℤ := if c.pat.source < 0 then 0 else c.pat.source

lemma admissible_iff : c.Admissible src ↔ c.first ≤ src ∧ src < c.first + c.numQs := by
  have hsource := c.source_mem
  rw [Admissible, first, numQs]
  split_ifs with hany
  · simp only [hany, true_or, and_true, zero_add]
  · rw [Nat.cast_one]
    omega

/-- The sources to which the second loop comes. -/
lemma probed_range (k : ℕ) : ∀ (num_qs : ℕ) (tsrc : ℤ), tsrc + k = c.myproc → k < num_qs →
    ProbeState.probed c.myproc num_qs tsrc = (List.range k).map fun i : ℕ => tsrc + i := by
  induction k with
  | zero =>
    intro num_qs tsrc htsrc hlt
    obtain ⟨num_qs, rfl⟩ := Nat.exists_eq_succ_of_ne_zero (Nat.ne_of_gt hlt)
    rw [ProbeState.probed, if_pos (by simpa using htsrc)]
    rfl
  | succ k ih =>
    intro num_qs tsrc htsrc hlt
    obtain ⟨num_qs, rfl⟩ := Nat.exists_eq_succ_of_ne_zero (Nat.ne_of_gt (Nat.zero_lt_of_lt hlt))
    rw [Nat.cast_succ] at htsrc
    rw [ProbeState.probed, if_neg (by omega), ih num_qs (tsrc + 1) (by omega) (by omega),
      List.range_succ_eq_map, List.map_cons, List.map_map, Nat.cast_zero, add_zero]
    refine congrArg _ (List.map_congr_left fun i _ => ?_)
    rw [Function.comp, Nat.cast_succ]
    ring

lemma probedMsgs_eq (c : ProbeCall) :
    c.state.probedMsgs c.myproc c.numQs c.first = c.probed := by
  obtain ⟨hmy, hmy'⟩ := c.myproc_mem
  have hsource := c.source_mem
  rw [ProbeState.probedMsgs, probed, numQs, first]
  split_ifs with hany
  · rw [probed_range c.myproc.toNat c.nprocs 0 (by omega) (by omega)]
    simp only [zero_add]
  · rw [ProbeState.probed, if_neg (by omega)]
    rfl

/-- A message is available if the code looks at it or it is hidden. -/
lemma available_iff : c.Available m ↔ m ∈ c.probed ∨ c.Hidden m := by
  have hsource := c.source_mem
  obtain ⟨hmy, hmy'⟩ := c.myproc_mem
  rw [probed, List.mem_flatMap]
  constructor
  · rintro ⟨src, hadm, hqueued | ⟨hne, hwaiting⟩⟩
    · exact Or.inr (Or.inl ⟨src, hadm, hqueued⟩)
    · obtain ⟨hle, hlt, hany | heq⟩ := hadm
      · rcases lt_or_gt_of_ne hne with hbefore | hbehind
        · refine Or.inl ⟨src, ?_, hwaiting⟩
          rw [if_pos hany, List.mem_map]
          exact ⟨src.toNat, List.mem_range.mpr (by omega), by omega⟩
        · exact Or.inr (Or.inr ⟨hany, src, hbehind, hlt, hwaiting⟩)
      · refine Or.inl ⟨src, ?_, hwaiting⟩
        rw [if_neg (by omega), heq]
        exact List.mem_singleton.mpr rfl
  · rintro (⟨src, hsrc, hwaiting⟩ | ⟨src, hadm, hqueued⟩ | ⟨hany, src, hbehind, hlt, hwaiting⟩)
    · split_ifs at hsrc with hany
      · obtain ⟨i, hi, rfl⟩ := List.mem_map.mp hsrc
        have hlt := List.mem_range.mp hi
        exact ⟨i, ⟨by omega, by omega, Or.inl hany⟩, Or.inr ⟨by omega, hwaiting⟩⟩
      · rw [List.mem_singleton.mp hsrc] at hwaiting
        exact ⟨c.pat.source, ⟨by omega, by omega, Or.inr rfl⟩, Or.inr ⟨by omega, hwaiting⟩⟩
    · exact ⟨src, hadm, Or.inl hqueued⟩
    · exact ⟨src, ⟨by omega, hlt, Or.inl hany⟩, Or.inr ⟨by omega, hwaiting⟩⟩

/-! ### The whole call -/

/-- An empty queue is passed over. -/
lemma mpAProbe_eq (c : ProbeCall) (n : ℕ) :
    c.state.mpAProbe c.nprocs c.maxMsgs c.myproc c.pat n =
      (ProbeState.queueLoop c.pat n c.state c.numQs c.first).bind fun r => match r with
        | some (src, p) =>
          some (c.state.report src (c.state.msg_list p).nbytes (c.state.msg_list p).tag)
        | none => (ProbeState.sockLoop c.maxMsgs c.myproc c.pat n c.numQs c.first c.state).map
          fun r => r.2.answer r.1 := by
  rw [ProbeState.mpAProbe, ← numQs, ← first]
  by_cases hempty : c.pat.source ≥ 0 ∧ c.state.msg_q c.pat.source = []
  · have hany : ¬ c.pat.source < 0 := not_lt.mpr hempty.1
    have hloop : ProbeState.queueLoop c.pat n c.state c.numQs c.first = some none := by
      rw [numQs, first, if_neg hany, if_neg hany, ProbeState.queueLoop, hempty.2]
      cases n <;> rfl
    rw [if_neg (not_not.mpr hempty), hloop]
  · rw [if_pos hempty]

lemma matches_of_wanted (h : ProbeState.wanted c.pat m = true) : c.pat.Matches m.nbytes m.tag :=
  of_decide_eq_true h

/-- The first loop finds an entry. -/
lemma exact_of_hits {a : ℕ} (hadm : c.Admissible src) (hhits : c.state.Hits c.pat src a)
    (hmisses : ∀ src', c.Admissible src' → src' < src → c.state.Misses c.pat src')
    (hm : c.Available m) (hsrc : m.src = src) (hnbytes : m.nbytes = (c.state.msg_list a).nbytes)
    (htag : m.tag = (c.state.msg_list a).tag) : c.Exact := by
  obtain ⟨hle, hlt⟩ := admissible_iff.mp hadm
  obtain ⟨N, hN⟩ := ProbeState.queueLoop_hits hle hlt hhits fun src' hle' hlt' =>
    hmisses src' (admissible_iff.mpr ⟨hle', hlt'.trans hlt⟩) hlt'
  have hmatches : c.pat.Matches m.nbytes m.tag := by
    obtain ⟨l, -, -, hfits⟩ := hhits
    rw [hnbytes, htag]
    exact of_decide_eq_true hfits
  refine ⟨N, c.state.report src (c.state.msg_list a).nbytes (c.state.msg_list a).tag, ?_, ?_, ?_, ?_⟩
  · rw [mpAProbe_eq, hN N (le_refl N), Option.bind_some]
  · exact iff_of_true rfl ⟨m, hm, hmatches⟩
  · exact fun _ => ⟨m, hm, hmatches, hsrc.symm, hnbytes.symm, htag.symm⟩
  · exact (ProbeState.Moved.refl c.sound).order

/-- The results after the second loop. -/
lemma right_of_looked {s' : ProbeState} {r : Option WholeMsg}
    (hlooked : ProbeState.Looked c.maxMsgs c.pat c.state s' c.probed r)
    (hhidden : (∀ m ∈ c.probed, ¬ c.pat.Matches m.nbytes m.tag) →
      ∀ m, c.Hidden m → ¬ c.pat.Matches m.nbytes m.tag) :
    c.Right (s'.answer r) := by
  cases r with
  | some m =>
    have hm : c.Available m := available_iff.mpr (Or.inl (List.mem_of_find?_eq_some hlooked.found.symm))
    have hmatches := matches_of_wanted (List.find?_some hlooked.found.symm)
    refine ⟨iff_of_true rfl ⟨m, hm, hmatches⟩, fun _ => ⟨m, hm, hmatches, rfl, rfl, rfl⟩, ?_⟩
    exact hlooked.moved.order
  | none =>
    have hprobed : ∀ m ∈ c.probed, ¬ c.pat.Matches m.nbytes m.tag := by
      intro m hm hmatches
      have hwanted : ProbeState.wanted c.pat m = true := decide_eq_true hmatches
      have hnot := hlooked.none_wanted m hm
      rw [hwanted] at hnot
      cases hnot
    refine ⟨iff_of_false Bool.false_ne_true ?_, fun h => absurd h Bool.false_ne_true,
      hlooked.moved.order⟩
    rintro ⟨m, hm, hmatches⟩
    rcases available_iff.mp hm with hm | hm
    · exact hprobed m hm hmatches
    · exact hhidden hprobed m hm hmatches

/-- The second loop decides. -/
lemma exact_of_misses (hmisses : ∀ src, c.Admissible src → c.state.Misses c.pat src)
    (hfree : (c.probed.takeWhile fun m => !ProbeState.wanted c.pat m).length ≤ c.state.free c.maxMsgs)
    (hhidden : (∀ m ∈ c.probed, ¬ c.pat.Matches m.nbytes m.tag) →
      ∀ m, c.Hidden m → ¬ c.pat.Matches m.nbytes m.tag) : c.Exact := by
  obtain ⟨N, hN⟩ := ProbeState.queueLoop_misses fun src hle hlt =>
    hmisses src (admissible_iff.mpr ⟨hle, hlt⟩)
  rw [← probedMsgs_eq] at hfree
  have hsome := ProbeState.sockLoop_isSome (n := max N (c.probed.length + 1)) c.sound hfree (by
    rw [probedMsgs_eq]
    exact (Nat.lt_succ_self _).trans_le (le_max_right _ _))
  obtain ⟨⟨r, s'⟩, hsock⟩ := Option.isSome_iff_exists.mp hsome
  have hlooked := ProbeState.sockLoop_looked c.sound hsock
  rw [probedMsgs_eq] at hlooked
  refine ⟨max N (c.probed.length + 1), s'.answer r, ?_, right_of_looked hlooked hhidden⟩
  rw [mpAProbe_eq, hN _ (le_max_left N (c.probed.length + 1)), Option.bind_some]
  dsimp only
  rw [hsock, Option.map_some]

/-- With one source and no message in its queue the probe is exact. -/
theorem exact_of_queue_nil (hsource : 0 ≤ c.pat.source) (hq : c.state.msg_q c.pat.source = [])
    (hfree : (c.state.sock c.pat.source).length ≤ c.state.free c.maxMsgs) : c.Exact := by
  have hone : ∀ src, c.Admissible src → src = c.pat.source := fun src hadm =>
    hadm.2.2.resolve_left (not_lt.mpr hsource)
  have hprobed : c.probed = c.state.waiting c.pat.source := by
    rw [probed, if_neg (not_lt.mpr hsource), List.flatMap_singleton]
  refine exact_of_misses (fun src hadm => ⟨[], ?_, by simp⟩) ?_ ?_
  · rw [hone src hadm, hq]
    rfl
  · have hle : (c.state.waiting c.pat.source).length ≤ (c.state.sock c.pat.source).length := by
      rw [ProbeState.waiting]
      split_ifs
      · exact Nat.zero_le _
      · exact le_refl _
    rw [hprobed]
    exact (List.takeWhile_sublist _).length_le.trans (hle.trans hfree)
  · rintro - m (⟨src, hadm, hm⟩ | ⟨hany, -⟩)
    · rw [hone src hadm, ProbeState.queued, hq] at hm
      cases hm
    · exact absurd hany (not_lt.mpr hsource)

/-- If the probe is exact, what it looks at is enough. -/
lemma Exact.suffices (h : c.Exact) : c.Suffices := by
  obtain ⟨n, s', hresult, hright⟩ := h
  rw [mpAProbe_eq] at hresult
  obtain ⟨r, hqueue, hresult⟩ := Option.bind_eq_some_iff.mp hresult
  rcases ProbeState.queueLoop_cases hqueue with ⟨rfl, hmisses⟩ | ⟨src, a, rfl, hle, hlt, hhits, hmisses⟩
  · obtain ⟨⟨r, s₁⟩, hsock, rfl⟩ := Option.map_eq_some_iff.mp hresult
    have hlooked := ProbeState.sockLoop_looked c.sound hsock
    rw [probedMsgs_eq] at hlooked
    refine Or.inr ⟨fun src hadm => ?_, ?_, fun hprobed m hm hmatches => ?_⟩
    · obtain ⟨hle, hlt⟩ := admissible_iff.mp hadm
      exact hmisses src hle hlt
    · rw [← hlooked.free]
      exact Nat.le_add_left _ _
    · cases r with
      | some m' =>
        refine hprobed m' (List.mem_of_find?_eq_some hlooked.found.symm) ?_
        exact matches_of_wanted (List.find?_some hlooked.found.symm)
      | none =>
        have hflag := hright.flag.mpr ⟨m, available_iff.mpr (Or.inr hm), hmatches⟩
        cases hflag
  · cases hresult
    obtain ⟨m, hm, -, hsrc, hnbytes, htag⟩ := hright.report rfl
    refine Or.inl ⟨src, a, admissible_iff.mpr ⟨hle, hlt⟩, hhits, fun src' hadm hbefore => ?_,
      m, hm, hsrc.symm, hnbytes.symm, htag.symm⟩
    exact hmisses src' (admissible_iff.mp hadm).1 hbefore

/-- The probe is exact if and only if what it looks at is enough. -/
theorem exact_iff_suffices (c : ProbeCall) : c.Exact ↔ c.Suffices := by
  constructor
  · exact Exact.suffices
  · rintro (⟨src, a, hadm, hhits, hmisses, m, hm, hsrc, hnbytes, htag⟩ | ⟨hmisses, hfree, hhidden⟩)
    · exact exact_of_hits hadm hhits hmisses hm hsrc hnbytes htag
    · exact exact_of_misses hmisses hfree hhidden

end

/-! ### A message from a process above -/

/-- No message was received or asked for yet. -/
def untouched (sock : ℤ → List WholeMsg) : ProbeState where
  msg_list _ := msgNull
  next _ := none
  data _ := []
  mid := 0
  heap := 0
  recv_q _ := []
  msg_q _ := []
  ractive _ := false
  sock := sock
  flag := false
  last_src := -1
  last_size := -1
  last_tag := -1

/-- Process 0 of two asks for any message, and one from process 1 waits in its socket. -/
def fromAbove : ProbeCall where
  nprocs := 2
  maxMsgs := 10000
  myproc := 0
  myproc_mem := by decide
  pat := ⟨8, -1, -1⟩
  source_mem := by decide
  state := untouched fun src => if src = 1 then [⟨⟨4, 1, 7⟩, [1, 2, 3, 4]⟩] else []
  sound := by
    refine ⟨fun src id hid => ?_, fun src id hid => ?_, fun _ _ => rfl, fun src m hm => ?_⟩
    · cases hid
    · cases hid
    · dsimp only [untouched] at hm
      split_ifs at hm with hsrc
      · rw [List.mem_singleton.mp hm]
        exact ⟨hsrc.symm, rfl⟩
      · cases hm

/-- The loop stays at process 0 and does not find it. -/
theorem not_exact_fromAbove : ¬ fromAbove.Exact := by
  intro h
  rcases h.suffices with ⟨src, a, -, ⟨l, hl, -⟩, -⟩ | ⟨-, -, hhidden⟩
  · cases l with
    | nil => cases hl
    | cons x l => cases hl.1
  · refine hhidden ?_ ⟨⟨4, 1, 7⟩, [1, 2, 3, 4]⟩ (Or.inr ⟨by decide, 1, by decide, by decide, ?_⟩) ?_
    · intro m hm
      cases hm
    · exact List.mem_singleton.mpr rfl
    · decide

end ProbeCall

end NetPipe.MpLite
