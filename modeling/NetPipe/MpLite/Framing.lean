import Mathlib
import NetPipe.Library.Frames
import NetPipe.MpLite.Matching

/-!
# The stream of messages from a source

What `do_recv`, `read_msg` and `check_header` read the bytes of a socket as, when the process at the
other end sends one message after the other.
-/

namespace NetPipe.MpLite

/-! ### Messages on the socket -/

/-- An `int` is read as it was written. -/
lemma int32_le32 {x : ℤ} (h : -2 ^ 31 ≤ x ∧ x < 2 ^ 31) : int32 (le32 x) = x := by
  have hfold : (le32 x).foldr (fun b y => b.toNat + 256 * y) 0 = (x % 2 ^ 32).toNat := by
    simp only [le32, List.range, List.range.loop, List.map_cons, List.map_nil, List.foldr_cons,
      List.foldr_nil, UInt8.toNat_ofNat', Nat.mod_mod]
    omega
  rw [int32, hfold]
  split_ifs with hsmall
  · omega
  · omega

/-- A header is read as it was written. -/
lemma parseHeader_headerBytes {n src tag : ℤ} (hn : -2 ^ 31 ≤ n ∧ n < 2 ^ 31)
    (hsrc : -2 ^ 31 ≤ src ∧ src < 2 ^ 31) (htag : -2 ^ 31 ≤ tag ∧ tag < 2 ^ 31) :
    parseHeader (headerBytes n src tag) = ⟨n, src, tag⟩ := by
  have h₁ : (headerBytes n src tag).take 4 = le32 n := by
    rw [headerBytes, List.append_assoc, List.append_assoc]
    exact List.take_left' (length_le32 n)
  have h₂ : ((headerBytes n src tag).drop 4).take 4 = le32 src := by
    rw [headerBytes, List.append_assoc, List.append_assoc, List.drop_left' (length_le32 n)]
    exact List.take_left' (length_le32 src)
  have h₃ : ((headerBytes n src tag).drop 8).take 4 = le32 tag := by
    rw [headerBytes, List.append_assoc, List.drop_left' (by simp)]
    exact List.take_left' (length_le32 tag)
  rw [parseHeader, h₁, h₂, h₃, int32_le32 hn, int32_le32 hsrc, int32_le32 htag]

/-- The byte itself. -/
def Role.byte : Role → UInt8
  | .header _ b | .body _ b => b

/-- A message that a process sends. -/
structure SentMessage where
  tag : ℤ
  body : List UInt8
  deriving DecidableEq, Repr

namespace SentMessage

/-- The header, from the process `src`. -/
def header (src : ℤ) (m : SentMessage) : List UInt8 := headerBytes m.body.length src m.tag

/-- The bytes on the socket. -/
def bytes (src : ℤ) (m : SentMessage) : List UInt8 := m.header src ++ m.body

/-- What the bytes are. -/
def roles (src : ℤ) (m : SentMessage) : List Role :=
  (m.header src).mapIdx Role.header ++ m.body.mapIdx Role.body

/-- The fields of the header are `int`s. -/
structure WellFormed (src : ℤ) (m : SentMessage) : Prop where
  nbytes : m.body.length < 2 ^ 31
  src : -2 ^ 31 ≤ src ∧ src < 2 ^ 31
  tag : -2 ^ 31 ≤ m.tag ∧ m.tag < 2 ^ 31

variable {src : ℤ} {m : SentMessage}

@[simp] lemma length_header (src : ℤ) (m : SentMessage) : (m.header src).length = hdrSize :=
  length_headerBytes _ _ _

@[simp] lemma length_roles (src : ℤ) (m : SentMessage) :
    (m.roles src).length = hdrSize + m.body.length := by
  simp [roles]

@[simp] lemma map_byte_roles (src : ℤ) (m : SentMessage) :
    (m.roles src).map Role.byte = m.bytes src := by
  have hheader : ((m.header src).mapIdx Role.header).map Role.byte = m.header src :=
    List.ext_getElem (by simp) fun i _ _ => by simp [Role.byte]
  have hbody : (m.body.mapIdx Role.body).map Role.byte = m.body :=
    List.ext_getElem (by simp) fun i _ _ => by simp [Role.byte]
  rw [roles, List.map_append, hheader, hbody, bytes]

lemma WellFormed.parseHeader (h : m.WellFormed src) :
    parseHeader (m.header src) = ⟨m.body.length, src, m.tag⟩ :=
  parseHeader_headerBytes ⟨by omega, by exact_mod_cast h.nbytes⟩ h.src h.tag

/-- Bytes of the header that are read next. -/
lemma take_header {l : List UInt8} {tl : List SentMessage} {k n : ℕ}
    (h : l <+: ((m :: tl).flatMap (bytes src)).drop k) (hn : n + k ≤ hdrSize) :
    l.take n <+: (m.header src).drop k := by
  rw [List.flatMap_cons, bytes, List.append_assoc] at h
  exact Frames.take_isPrefix_drop h (by rwa [length_header])

lemma roles_header {l : List UInt8} {k : ℕ} (h : l <+: (m.header src).drop k) (hk : k ≤ hdrSize)
    (tl : List SentMessage) :
    (l.mapIdx fun i => Role.header (k + i)) <+: ((m :: tl).flatMap (roles src)).drop k := by
  rw [List.flatMap_cons, roles, List.append_assoc, List.drop_append_of_le_length (by simpa using hk)]
  exact (Frames.mapIdx_isPrefix_drop Role.header h).trans (List.prefix_append _ _)

/-- Bytes of the body that are read next. -/
lemma take_body {l : List UInt8} {tl : List SentMessage} {j n : ℕ}
    (h : l <+: ((m :: tl).flatMap (bytes src)).drop (hdrSize + j)) (hn : n + j ≤ m.body.length) :
    l.take n <+: m.body.drop j := by
  rw [List.flatMap_cons, bytes] at h
  have htake := Frames.take_isPrefix_drop (n := n) h (by
    rw [List.length_append, length_header]
    omega)
  rwa [← length_header src m, List.drop_length_add_append] at htake

lemma roles_body {l : List UInt8} {j : ℕ} (h : l <+: m.body.drop j) (hj : j ≤ m.body.length)
    (tl : List SentMessage) :
    (l.mapIdx fun i => Role.body (j + i)) <+: ((m :: tl).flatMap (roles src)).drop (hdrSize + j) := by
  have hlen : ((m.header src).mapIdx Role.header).length = hdrSize := by simp
  rw [List.flatMap_cons, roles, List.append_assoc, ← hlen, List.drop_length_add_append,
    List.drop_append_of_le_length (by simpa using hj)]
  exact (Frames.mapIdx_isPrefix_drop Role.body h).trans (List.prefix_append _ _)

end SentMessage

/-! ### Entries -/

namespace MsgEntry

variable {msg p : MsgEntry} {i j k n : ℕ}

/-- `k` bytes of the header were read for this receive. -/
structure InHeader (k : ℕ) (msg : MsgEntry) : Prop where
  nhdr : msg.nhdr + k = hdrSize
  phdr : msg.phdr = k
  nbl : msg.nbl = msg.nbytes
  nleft : msg.nleft = msg.nbytes + msg.nhdr
  ptr : msg.ptr = msg.buf
  nbytes : 0 ≤ msg.nbytes

/-- `j` bytes of its body of `n` bytes were read. -/
structure InBody (n j : ℕ) (msg : MsgEntry) : Prop where
  nhdr : msg.nhdr = 0
  phdr : msg.phdr = 0
  nbytes : msg.nbytes = n
  nbl : msg.nbl + j = n
  nleft : msg.nleft + j = n
  ptr : msg.ptr = msg.buf + j

/-- The message was read to its end. -/
structure Complete (msg : MsgEntry) : Prop where
  nhdr : msg.nhdr = 0
  phdr : msg.phdr = 0
  nbl : msg.nbl = 0
  nleft : msg.nleft = 0

@[simp] lemma updateProgress_zero (msg : MsgEntry) : msg.updateProgress 0 = msg := by
  simp [updateProgress]

lemma InHeader.create {nbytes : ℤ} (h : 0 ≤ nbytes) (myproc : ℤ) (buf : ℕ) (src dest tag : ℤ) :
    (MsgEntry.create myproc buf nbytes src dest tag).InHeader 0 := by
  rw [MsgEntry.create]
  split_ifs <;> exact ⟨rfl, rfl, rfl, rfl, rfl, h⟩

lemma InHeader.read (h : msg.InHeader k) (hn : n + k ≤ hdrSize) (hk : k < hdrSize) :
    (msg.updateProgress n).InHeader (k + n) := by
  obtain ⟨hnhdr, hphdr, hnbl, hnleft, hptr, hnbytes⟩ := h
  rw [updateProgress_header (by omega)]
  refine ⟨?_, ?_, hnbl, ?_, hptr, hnbytes⟩
  · show msg.nhdr - n + (k + n) = hdrSize
    omega
  · show msg.phdr + n = k + n
    omega
  · show msg.nleft - n = msg.nbytes + ((msg.nhdr - n : ℕ) : ℤ)
    omega

lemma InHeader.pos (h : msg.InHeader k) (hk : k < hdrSize) : msg.nhdr ≠ 0 ∧ 0 < msg.nleft := by
  obtain ⟨hnhdr, -, -, hnleft, -, hnbytes⟩ := h
  omega

lemma InHeader.reset (h : msg.InHeader k) : msg.resetHeader.InHeader 0 :=
  ⟨rfl, rfl, h.nbl, rfl, h.ptr, h.nbytes⟩

/-- An entry whose header is about to be checked is not complete. -/
lemma InHeader.not_complete (h : msg.InHeader hdrSize) : ¬ msg.Complete := by
  intro hc
  have hphdr := h.phdr
  rw [hc.phdr] at hphdr
  simp [hdrSize] at hphdr

/-- The header was that of a message of the size that was posted. -/
lemma InHeader.skip (h : msg.InHeader 0) (hn : msg.nbytes = n) : msg.skipHeader.InBody n 0 := by
  obtain ⟨hnhdr, hphdr, hnbl, hnleft, hptr, -⟩ := h
  refine ⟨rfl, hphdr, hn, ?_, ?_, hptr⟩
  · show msg.nbl + (0 : ℕ) = n
    omega
  · show msg.nleft - hdrSize + (0 : ℕ) = n
    omega

lemma InBody.set (msg : MsgEntry) (n : ℕ) (src tag : ℤ) :
    (msg.setMessage n src tag).skipHeader.InBody n 0 := by
  refine ⟨rfl, rfl, rfl, ?_, ?_, rfl⟩
  · show (n : ℤ) + (0 : ℕ) = n
    simp
  · show (n : ℤ) + hdrSize - hdrSize + (0 : ℕ) = n
    simp

lemma InBody.read (h : msg.InBody n j) (i : ℕ) : (msg.updateProgress i).InBody n (j + i) := by
  obtain ⟨hnhdr, hphdr, hnbytes, hnbl, hnleft, hptr⟩ := h
  rw [updateProgress_body hnhdr]
  refine ⟨hnhdr, hphdr, hnbytes, ?_, ?_, ?_⟩
  · show msg.nbl - i + ((j + i : ℕ) : ℤ) = n
    omega
  · show msg.nleft - i + ((j + i : ℕ) : ℤ) = n
    omega
  · show msg.ptr + i = msg.buf + (j + i)
    omega

lemma InBody.complete (h : msg.InBody n n) : msg.Complete := by
  obtain ⟨hnhdr, hphdr, -, hnbl, hnleft, -⟩ := h
  exact ⟨hnhdr, hphdr, by omega, by omega⟩

/-- A receive takes the place of an entry of `msg_q` in the middle of the body. -/
lemma InBody.takeOver (h : p.InBody n j) (hj : j < n) (src : ℤ) (msg : MsgEntry) :
    (msg.takeOver src p).InBody n j := by
  obtain ⟨hnhdr, -, hnbytes, hnbl, hnleft, -⟩ := h
  rw [MsgEntry.takeOver, if_neg (by omega)]
  refine ⟨rfl, rfl, hnbytes, hnbl, hnleft, ?_⟩
  show msg.buf + (p.nbytes - p.nbl).toNat = msg.buf + j
  omega

end MsgEntry

/-! ### The invariant -/

/-- How far the next message of a stream was read, and for which entry. -/
inductive Place where
  | between
  | header (x k : ℕ)
  /-- `check_header` comes now -/
  | checked (x : ℕ)
  | body (x j : ℕ)
  deriving DecidableEq, Repr

namespace Place

/-- The number of its bytes. -/
def offset : Place → ℕ
  | between => 0
  | header _ k => k
  | checked _ => hdrSize
  | body _ j => hdrSize + j

def entry : Place → Option ℕ
  | between => none
  | header x _ | checked x | body x _ => some x

end Place

namespace Engine

variable {nprocs maxMsgs : ℕ} {myproc : ℤ} {s s' : Engine} {id : ℕ} {cs : List Call}

/-- The entries before `id`. -/
def before (id : ℕ) (l : List ℕ) : List ℕ := l.takeWhile (· ≠ id)

/-- The counters of the entry, and the header, agree with what was read. -/
def Reads (src : ℤ) (rest : List SentMessage) (s : Engine) : Place → Prop
  | .between => True
  | .header x k => 0 < k ∧ k < hdrSize ∧ x ∈ s.recv_q src ∧ (s.msg_list x).InHeader k ∧
    ∃ m tl, rest = m :: tl ∧ s.hdr src = (m.header src).take k
  | .checked x => (∃ n cs, s.calls = .checkHeader src x n :: cs) ∧ x ∈ s.recv_q src ∧
    (s.msg_list x).InHeader hdrSize ∧ ∃ m tl, rest = m :: tl ∧ s.hdr src = m.header src
  | .body x j => x ∈ s.recv_q src ∧
    ∃ m tl, rest = m :: tl ∧ j < m.body.length ∧ (s.msg_list x).InBody m.body.length j

/-- An entry before that of the loop is complete, or its body is being read, and no header byte was
read for the entry of the loop. -/
def Passed (s : Engine) (pr : Place) (id x : ℕ) : Prop :=
  (s.msg_list x).Complete ∨ (∃ j, pr = .body x j) ∧ (s.msg_list id).InHeader 0

/-- What the loop of `do_recv` knows. -/
def LoopOk (src : ℤ) (pr : Place) (s : Engine) : Prop :=
  match s.calls with
  | .recvLoop i id _ :: _ => i = src → ∀ x ∈ before id (s.recv_q src), s.Passed pr id x
  | .checkHeader i id _ :: _ => i = src → pr = .checked id
  | .readBody i id cur _ :: _ => i = src →
    (∀ x ∈ before id (s.recv_q src), s.Passed pr id x) ∧
      ((∃ j, pr = .body cur j) ∨ pr = .between ∧ (s.msg_list cur).Complete) ∧
      (cur = id ∨ (s.msg_list id).InHeader 0)
  | _ => True

/-- All messages before `rest` were read, and `pr` of the next one. -/
structure Framed (frames : List SentMessage) (src : ℤ) (rest : List SentMessage) (pr : Place)
    (s : Engine) : Prop where
  readTo : Frames.ReadTo (SentMessage.roles src) frames (s.log src) pr.offset rest
  reads : s.Reads src rest pr
  others : ∀ x ∈ s.recv_q src, pr.entry ≠ some x →
    (s.msg_list x).InHeader 0 ∨ (s.msg_list x).Complete
  first : ∀ x, pr.entry = some x → ∀ y ∈ before x (s.recv_q src), (s.msg_list y).Complete
  loop : s.LoopOk src pr

/-! ### The entries before another one -/

section

variable {l l' stale : List ℕ} {p x y : ℕ}

lemma before_subset (h : x ∈ before id l) : x ∈ l := List.takeWhile_subset _ h

lemma before_ne (h : x ∈ before id l) : x ≠ id := by
  simpa using List.all_eq_true.mp List.all_takeWhile x h

lemma before_head (h : l.head? = some id) : before id l = [] := by
  obtain ⟨l', rfl⟩ := List.head?_eq_some_iff.mp h
  simp [before]

lemma before_split (l' : List ℕ) (h : id ∉ l) : before id (l ++ id :: l') = l := by
  rw [before, List.takeWhile_append_of_pos fun x hx => by
    simpa using ne_of_mem_of_not_mem hx h]
  simp

lemma before_append (h : id ∈ l) (l' : List ℕ) : before id (l ++ l') = before id l := by
  obtain ⟨a, b, rfl, ha⟩ := List.eq_append_cons_of_mem h
  rw [List.append_assoc, List.cons_append, before_split _ ha, before_split _ ha]

lemma before_cons (h : p ≠ id) (l : List ℕ) : before id (p :: l) = p :: before id l := by
  simp [before, h]

/-- Moving another entry to the head. -/
lemma before_moved (hp : p ≠ id) (hid : id ∈ l) (hx : x ∈ before id (p :: l.erase p)) :
    x = p ∨ x ∈ before id l := by
  rw [before_cons hp, List.mem_cons] at hx
  refine hx.imp_right fun hx => ?_
  obtain ⟨a, b, rfl, ha⟩ := List.eq_append_cons_of_mem hid
  rw [before_split _ ha]
  by_cases hpa : p ∈ a
  · rw [List.erase_append_left _ hpa, before_split _ fun h => ha (List.mem_of_mem_erase h)] at hx
    exact List.mem_of_mem_erase hx
  · rwa [List.erase_append_right _ hpa, List.erase_cons_tail (by simpa using hp.symm),
      before_split _ ha] at hx

/-- Of two entries one is before the other. -/
lemma before_total (hx : x ∈ l) (hid : id ∈ l) (hne : x ≠ id) : x ∈ before id l ∨ id ∈ before x l := by
  obtain ⟨a, b, rfl, ha⟩ := List.eq_append_cons_of_mem hid
  rw [before_split _ ha]
  refine or_iff_not_imp_left.mpr fun hxa => ?_
  rw [before, List.takeWhile_append_of_pos fun y hy => by
    simpa using ne_of_mem_of_not_mem hy hxa]
  simp [hne.symm]

/-- What comes after `id` keeps its order. -/
lemma mem_next_of_not_before (hid : id ∈ l) (hx : x ∈ l) (hne : x ≠ id)
    (hbefore : x ∉ before id l) :
    x ∈ next id l stale ∧ ∀ y ∈ before x (next id l stale), y ∈ before x l := by
  obtain ⟨a, b, rfl, ha⟩ := List.eq_append_cons_of_mem hid
  rw [before_split _ ha] at hbefore
  have hxb : x ∈ b := by
    rcases List.mem_append.mp hx with hx | hx
    · exact absurd hx hbefore
    · exact (List.mem_cons.mp hx).resolve_left hne
  rw [next_append ha]
  refine ⟨hxb, fun y hy => ?_⟩
  rw [before, List.takeWhile_append_of_pos fun z hz => by
    simpa using ne_of_mem_of_not_mem hz hbefore, List.takeWhile_cons_of_pos (by simpa using hne.symm)]
  exact List.mem_append_right _ (List.mem_cons_of_mem _ hy)

end

/-! ### Steps that do not read from the source -/

section

variable {src : ℤ} {frames rest : List SentMessage} {pr : Place} {l : List ℕ}

/-- No loop of `do_recv` runs for the source. -/
def Idle (src : ℤ) (s : Engine) : Prop := ∀ id, s.receiving ≠ some (src, id)

lemma loopOk_of_idle (h : s.Idle src) (pr : Place) : s.LoopOk src pr := by
  rw [LoopOk]
  split
  · rename_i i x n cs' hcalls
    rintro rfl
    exact absurd (by simp [receiving, hcalls]) (h x)
  · rename_i i x n cs' hcalls
    rintro rfl
    exact absurd (by simp [receiving, hcalls]) (h x)
  · rename_i i x cur n cs' hcalls
    rintro rfl
    exact absurd (by simp [receiving, hcalls]) (h x)
  · trivial

/-- The entry that is read for is not complete. -/
lemma Framed.not_complete (h : s.Framed frames src rest pr) {x : ℕ} (hx : pr.entry = some x) :
    ¬ (s.msg_list x).Complete := by
  intro hc
  have hreads := h.reads
  cases pr with
  | between => cases hx
  | header y k =>
    cases hx
    exact (hreads.2.2.2.1.pos hreads.2.1).1 hc.nhdr
  | checked y =>
    cases hx
    exact hreads.2.2.1.not_complete hc
  | body y j =>
    cases hx
    obtain ⟨-, m', tl, -, hj, hmsg⟩ := hreads
    have hleft := hmsg.nleft
    rw [hc.nleft] at hleft
    omega

lemma Framed.mem_recv (h : s.Framed frames src rest pr) {x : ℕ} (hx : pr.entry = some x) :
    x ∈ s.recv_q src := by
  have hreads := h.reads
  cases pr with
  | between => cases hx
  | header y k =>
    cases hx
    exact hreads.2.2.1
  | checked y =>
    cases hx
    exact hreads.2.1
  | body y j =>
    cases hx
    exact hreads.1

/-- A step that leaves the source alone, but may post receives, and change entries that are
complete. -/
lemma Framed.still (h : s.Framed frames src rest pr) (hs : s.Sound myproc)
    (hlog : s'.log src = s.log src) (hhdr : s'.hdr src = s.hdr src)
    (hrecv : s'.recv_q src = s.recv_q src ++ l) (hnew : ∀ x ∈ l, (s'.msg_list x).InHeader 0)
    (hentries : ∀ x ∈ s.recv_q src, s'.msg_list x = s.msg_list x ∨
      (s.msg_list x).Complete ∧ (s'.msg_list x).Complete)
    (hcalls : s'.calls = s.calls ∧ l = [] ∨ s.Idle src ∧ s'.Idle src) :
    s'.Framed frames src rest pr := by
  have hmem : ∀ {x}, x ∈ s.recv_q src → x ∈ s'.recv_q src := fun hx => by
    rw [hrecv]
    exact List.mem_append_left l hx
  have hsame : ∀ {x}, pr.entry = some x → s'.msg_list x = s.msg_list x := fun hx =>
    (hentries _ (h.mem_recv hx)).resolve_right fun hcon => h.not_complete hx hcon.1
  have hcomplete : ∀ {x}, x ∈ s.recv_q src → (s.msg_list x).Complete → (s'.msg_list x).Complete := by
    intro x hx hc
    rcases hentries x hx with heq | ⟨-, hc'⟩
    · rwa [heq]
    · exact hc'
  have hfresh : ∀ {x}, x ∈ s.recv_q src → (s.msg_list x).InHeader 0 → (s'.msg_list x).InHeader 0 := by
    intro x hx hi
    rcases hentries x hx with heq | ⟨hc, -⟩
    · rwa [heq]
    · exact absurd hc.nhdr (hi.pos (by simp [hdrSize])).1
  refine ⟨by rw [hlog]; exact h.readTo, ?_, fun x hx hne => ?_, fun x hx y hy => ?_, ?_⟩
  · have hreads := h.reads
    cases pr with
    | between => trivial
    | header x k =>
      obtain ⟨h₀, hk, hx, hmsg, hm⟩ := hreads
      exact ⟨h₀, hk, hmem hx, by rwa [hsame rfl], by rwa [hhdr]⟩
    | checked x =>
      obtain ⟨⟨n, cs', hc⟩, hx, hmsg, hm⟩ := hreads
      refine ⟨?_, hmem hx, by rwa [hsame rfl], by rwa [hhdr]⟩
      rcases hcalls with ⟨hcalls, -⟩ | ⟨hidle, -⟩
      · exact ⟨n, cs', hcalls.trans hc⟩
      · exact absurd (by simp [receiving, hc]) (hidle x)
    | body x j =>
      obtain ⟨hx, hm⟩ := hreads
      exact ⟨hmem hx, by rwa [hsame rfl]⟩
  · rw [hrecv] at hx
    rcases List.mem_append.mp hx with hx | hx
    · exact (h.others x hx hne).imp (hfresh hx) (hcomplete hx)
    · exact Or.inl (hnew x hx)
  · have hx' := h.mem_recv hx
    rw [hrecv, before_append hx'] at hy
    exact hcomplete (before_subset hy) (h.first x hx y hy)
  · rcases hcalls with ⟨hcalls, rfl⟩ | ⟨-, hidle⟩
    · rw [List.append_nil] at hrecv
      have hloop := h.loop
      rw [LoopOk] at hloop ⊢
      rw [hcalls, hrecv]
      have hpassed : ∀ {y x}, y ∈ s.recv_q src → x ∈ s.recv_q src → s.Passed pr y x →
          s'.Passed pr y x := fun hy hx hp =>
        hp.imp (hcomplete hx) (And.imp_right (hfresh hy))
      split
      · rename_i i y n cs' hc
        rintro rfl
        rw [hc] at hloop
        exact fun x hx => hpassed (hs.call hc).1 (before_subset hx) (hloop rfl x hx)
      · rename_i i y n cs' hc
        rw [hc] at hloop
        exact hloop
      · rename_i i y cur n cs' hc
        rintro rfl
        rw [hc] at hloop
        obtain ⟨hpass, hcur, hother⟩ := hloop rfl
        obtain ⟨⟨hy, hc'⟩, -⟩ := hs.call hc
        exact ⟨fun x hx => hpassed hy (before_subset hx) (hpass x hx),
          hcur.imp_right (And.imp_right (hcomplete hc')), hother.imp_right (hfresh hy)⟩
      · trivial
    · exact loopOk_of_idle hidle pr

/-! ### Steps of the loop -/

variable {m n i : ℕ}

/-- The entry of a loop whose header is still to be read. -/
lemma Framed.unread (h : s.Framed frames src rest pr) (hs : s.Sound myproc)
    (hcalls : s.calls = .recvLoop src id m :: cs) (hhdr : (s.msg_list id).nhdr ≠ 0) :
    (∃ k, pr = .header id k) ∨ (pr = .between ∨ ∃ x j, pr = .body x j ∧ x ≠ id) ∧
      (s.msg_list id).InHeader 0 := by
  have hid : id ∈ s.recv_q src := (hs.call hcalls).1
  have hfresh : pr.entry ≠ some id → (s.msg_list id).InHeader 0 := fun hne =>
    (h.others id hid hne).resolve_right fun hc => hhdr hc.nhdr
  have hreads := h.reads
  cases pr with
  | between => exact Or.inr ⟨Or.inl rfl, hfresh (by simp [Place.entry])⟩
  | header x k =>
    rcases eq_or_ne x id with rfl | hne
    · exact Or.inl ⟨k, rfl⟩
    · obtain ⟨-, hk, hx, hmsg, -⟩ := hreads
      rcases before_total hx hid hne with hbefore | hbefore
      · have hloop := h.loop
        rw [LoopOk, hcalls] at hloop
        rcases hloop rfl x hbefore with hc | ⟨⟨j, hj⟩, -⟩
        · exact absurd hc.nhdr (hmsg.pos hk).1
        · cases hj
      · exact absurd (h.first x rfl id hbefore).nhdr hhdr
  | checked x =>
    obtain ⟨⟨n, cs', hc⟩, -⟩ := hreads
    rw [hcalls] at hc
    cases hc
  | body x j =>
    have hne : x ≠ id := by
      rintro rfl
      obtain ⟨-, msg, tl, -, -, hmsg⟩ := hreads
      exact hhdr hmsg.nhdr
    exact Or.inr ⟨Or.inr ⟨x, j, rfl, hne⟩, hfresh (by simpa [Place.entry] using hne)⟩

/-- All that is before the entry of the loop is complete, unless a body is being read. -/
lemma Framed.passed (h : s.Framed frames src rest pr) (hcalls : s.calls = .recvLoop src id m :: cs)
    (hbody : ∀ x j, pr ≠ .body x j) : ∀ x ∈ before id (s.recv_q src), (s.msg_list x).Complete := by
  intro x hx
  have hloop := h.loop
  rw [LoopOk, hcalls] at hloop
  refine (hloop rfl x hx).resolve_right ?_
  rintro ⟨⟨j, hj⟩, -⟩
  exact hbody x j hj

/-- A step of the loop that leaves all entries of the source but one as they are. -/
lemma Framed.others_update (h : s.Framed frames src rest pr) {msg : MsgEntry} {pr' : Place}
    (hlist : s'.msg_list = Function.update s.msg_list id msg) (hrecv : s'.recv_q = s.recv_q)
    (hpr : pr'.entry = some id) (hold : ∀ x, pr.entry = some x → x = id) :
    ∀ x ∈ s'.recv_q src, pr'.entry ≠ some x →
      (s'.msg_list x).InHeader 0 ∨ (s'.msg_list x).Complete := by
  intro x hx hne
  have hxid : x ≠ id := by
    rintro rfl
    exact hne hpr
  rw [hlist, Function.update_of_ne hxid]
  rw [hrecv] at hx
  exact h.others x hx fun hcon => hxid (hold x hcon)

/-- Bytes of the header are read for `id`. -/
lemma framed_header (h : s.Framed frames src rest pr) (hs : s.Sound myproc)
    (hcalls : s.calls = .recvLoop src id m :: cs) {k : ℕ} (hk : k < hdrSize)
    (hpr : pr = .header id k ∨ pr = .between ∧ k = 0) (hmsg : (s.msg_list id).InHeader k)
    (hhdr : ∀ m tl, rest = m :: tl → (s.hdr src).take k = (m.header src).take k)
    (hsock : s.sock src <+: (rest.flatMap (SentMessage.bytes src)).drop k)
    (hne : s.sock src ≠ []) :
    ∃ pr', (s.readHeader src id cs).Framed frames src rest pr' := by
  have hid : id ∈ s.recv_q src := (hs.call hcalls).1
  cases rest with
  | nil =>
    rw [List.flatMap_nil, List.drop_nil, List.prefix_nil] at hsock
    exact absurd hsock hne
  | cons msg tl =>
    set bytes := (s.sock src).take (s.msg_list id).nhdr with hbytes
    have hnhdr := hmsg.nhdr
    have hlen : bytes.length + k ≤ hdrSize := by
      rw [hbytes, List.length_take]
      omega
    have hnext : bytes <+: (msg.header src).drop k := SentMessage.take_header hsock (by omega)
    have hpos : 0 < bytes.length := by
      rw [hbytes, List.length_take, lt_min_iff]
      exact ⟨by omega, List.length_pos_of_ne_nil hne⟩
    have hread := hmsg.read hlen hk
    have hoffset : pr.offset = k := by
      rcases hpr with rfl | ⟨rfl, rfl⟩ <;> rfl
    have hlog : Frames.ReadTo (SentMessage.roles src) frames ((s.readHeader src id cs).log src)
        (k + bytes.length) (msg :: tl) := by
      have happend := h.readTo.append (hoffset ▸ SentMessage.roles_header hnext hk.le tl)
      rw [List.length_mapIdx, hoffset] at happend
      rw [readHeader, hmsg.phdr]
      simpa using happend
    have hhdr' : (s.readHeader src id cs).hdr src = (msg.header src).take (k + bytes.length) := by
      rw [show (s.readHeader src id cs).hdr src = (s.hdr src).take (s.msg_list id).phdr ++ bytes from
        Function.update_self .., hmsg.phdr, hhdr msg tl rfl, List.take_add]
      congr 1
      exact List.prefix_iff_eq_take.mp hnext
    have hold : ∀ x, pr.entry = some x → x = id := by
      rcases hpr with rfl | ⟨rfl, -⟩
      · rintro x ⟨⟩
        rfl
      · intro x hx
        cases hx
    have hbefore : ∀ x ∈ before id (s.recv_q src),
        ((s.readHeader src id cs).msg_list x).Complete := by
      intro x hx
      rw [show (s.readHeader src id cs).msg_list x = s.msg_list x from
        Function.update_of_ne (before_ne hx) ..]
      refine h.passed hcalls (fun x j hj => ?_) x hx
      rcases hpr with rfl | ⟨rfl, -⟩ <;> cases hj
    have hself : (s.readHeader src id cs).msg_list id = (s.msg_list id).updateProgress bytes.length :=
      Function.update_self ..
    rcases eq_or_ne (k + bytes.length) hdrSize with hall | hmore
    · have hcalls' : (s.readHeader src id cs).calls = .checkHeader src id bytes.length :: cs := by
        have hzero : ((s.msg_list id).updateProgress bytes.length).nhdr = 0 := by
          have hleft := hread.nhdr
          omega
        exact congrArg (· :: cs) (if_pos hzero)
      refine ⟨.checked id, by rwa [hall] at hlog, ⟨⟨_, _, hcalls'⟩, hid, ?_, msg, tl, rfl, ?_⟩,
        h.others_update rfl rfl rfl hold, ?_, ?_⟩
      · rw [hself, ← hall]
        exact hread
      · rw [hhdr', hall, ← SentMessage.length_header src msg, List.take_length]
      · rintro x ⟨⟩
        exact hbefore
      · rw [LoopOk, hcalls']
        exact fun _ => rfl
    · have hcalls' : (s.readHeader src id cs).calls = .recvLoop src id bytes.length :: cs := by
        have hzero : ((s.msg_list id).updateProgress bytes.length).nhdr ≠ 0 := by
          have hleft := hread.nhdr
          omega
        exact congrArg (· :: cs) (if_neg hzero)
      refine ⟨.header id (k + bytes.length), hlog, ⟨by omega, by omega, hid, ?_, msg, tl, rfl, hhdr'⟩,
        h.others_update rfl rfl rfl hold, ?_, ?_⟩
      · rw [hself]
        exact hread
      · rintro x ⟨⟩
        exact hbefore
      · rw [LoopOk, hcalls']
        exact fun _ x hx => Or.inl (hbefore x hx)

/-- A `read` of the header finds nothing. -/
lemma framed_readNothing (h : s.Framed frames src rest pr) (hs : s.Sound myproc)
    (hcalls : s.calls = .recvLoop src id m :: cs) (hhdr : (s.msg_list id).nhdr ≠ 0)
    (hsock : s.sock src = []) : (s.readHeader src id cs).Framed frames src rest pr := by
  have hlist : (s.readHeader src id cs).msg_list = s.msg_list := by
    rw [readHeader, hsock]
    simp [setEntry]
  have hlog : (s.readHeader src id cs).log src = s.log src := by
    rw [readHeader, hsock]
    simp
  have hhdr' : (s.readHeader src id cs).hdr src = (s.hdr src).take (s.msg_list id).phdr := by
    rw [readHeader, hsock]
    simp
  have hcalls' : (s.readHeader src id cs).calls = .recvLoop src id 0 :: cs := by
    have hzero : ((s.msg_list id).updateProgress ((s.sock src).take (s.msg_list id).nhdr).length).nhdr
        ≠ 0 := by
      rw [hsock]
      simpa using hhdr
    rw [show (s.readHeader src id cs).calls = _ from congrArg (· :: cs) (if_neg hzero), hsock]
    simp
  have hunread := h.unread hs hcalls hhdr
  refine ⟨by rw [hlog]; exact h.readTo, ?_, ?_, ?_, ?_⟩
  · have hreads := h.reads
    cases pr with
    | between => trivial
    | header x k =>
      obtain ⟨h₀, hk, hx, hmsg, m', tl, hrest, hread⟩ := hreads
      have hxid : x = id := by
        rcases hunread with ⟨k', hk'⟩ | ⟨hcon | ⟨x', j, hcon, -⟩, -⟩
        · cases hk'
          rfl
        · cases hcon
        · cases hcon
      refine ⟨h₀, hk, hx, by rwa [hlist], m', tl, hrest, ?_⟩
      rw [hhdr', ← hxid, hmsg.phdr, hread, List.take_take, min_self]
    | checked x =>
      obtain ⟨⟨n, cs', hc⟩, -⟩ := hreads
      rw [hcalls] at hc
      cases hc
    | body x j =>
      obtain ⟨hx, m', tl, hrest, hj, hmsg⟩ := hreads
      exact ⟨hx, m', tl, hrest, hj, by rwa [hlist]⟩
  · rw [hlist]
    exact h.others
  · rw [hlist]
    exact h.first
  · have hloop := h.loop
    rw [LoopOk, hcalls] at hloop
    rw [LoopOk, hcalls']
    intro hsrc x hx
    have hpassed := hloop hsrc x hx
    rw [Passed] at hpassed ⊢
    rwa [hlist]

/-- The header of the next message is read only when the message before it is complete. -/
lemma framed_readHeader (h : s.Framed frames src rest pr) (hs : s.Sound myproc)
    (hcalls : s.calls = .recvLoop src id m :: cs) (hhdr : (s.msg_list id).nhdr ≠ 0)
    (hsock : s.sock src <+: (rest.flatMap (SentMessage.bytes src)).drop pr.offset)
    (hturn : s.sock src ≠ [] → ∀ x ∈ s.recv_q src, (s.msg_list x).nhdr = 0 →
      (s.msg_list x).nleft ≤ 0) :
    ∃ pr', (s.readHeader src id cs).Framed frames src rest pr' := by
  by_cases hne : s.sock src = []
  · exact ⟨pr, framed_readNothing h hs hcalls hhdr hne⟩
  rcases h.unread hs hcalls hhdr with ⟨k, rfl⟩ | ⟨rfl | ⟨x, j, rfl, -⟩, hmsg⟩
  · obtain ⟨-, hk, -, hmsg, m', tl, hrest, hread⟩ := h.reads
    refine framed_header h hs hcalls hk (Or.inl rfl) hmsg (fun m'' tl' heq => ?_) hsock hne
    rw [hrest, List.cons.injEq] at heq
    rw [hread, ← heq.1, List.take_take, min_self]
  · exact framed_header h hs hcalls (by simp [hdrSize]) (Or.inr ⟨rfl, rfl⟩) hmsg
      (fun m' tl _ => rfl) hsock hne
  · -- the bytes of a body would be taken for a header
    obtain ⟨hx, m', tl, -, hj, hmsg⟩ := h.reads
    have hleft := hmsg.nleft
    have hturn' := hturn hne x hx hmsg.nhdr
    omega

/-- A step of the loop that changes only what runs next. -/
lemma Framed.goOn (h : s.Framed frames src rest pr) {c : List Call} (hpr : ∀ x, pr ≠ .checked x)
    (hloop : Engine.LoopOk src pr { s with calls := c }) :
    Engine.Framed frames src rest pr { s with calls := c } := by
  refine ⟨h.readTo, ?_, h.others, h.first, hloop⟩
  have hreads := h.reads
  cases pr with
  | checked x => exact absurd rfl (hpr x)
  | between | header | body => exact hreads

lemma Framed.not_checked (h : s.Framed frames src rest pr)
    (hcalls : ∀ x n cs, s.calls ≠ .checkHeader src x n :: cs) (x : ℕ) : pr ≠ .checked x := by
  rintro rfl
  obtain ⟨⟨n, cs', hc⟩, -⟩ := h.reads
  exact hcalls x n cs' hc

/-- An entry of the source has a number of bytes left that is not negative, and none only if it is
complete. -/
lemma Framed.nleft (h : s.Framed frames src rest pr) (hpr : ∀ x, pr ≠ .checked x)
    (hid : id ∈ s.recv_q src) :
    0 < (s.msg_list id).nleft ∨ (s.msg_list id).Complete := by
  have hfresh : (s.msg_list id).InHeader 0 → 0 < (s.msg_list id).nleft := fun hi =>
    (hi.pos (by simp [hdrSize])).2
  have hreads := h.reads
  by_cases hentry : pr.entry = some id
  · left
    cases pr with
    | between => cases hentry
    | header x k =>
      cases hentry
      exact (hreads.2.2.2.1.pos hreads.2.1).2
    | checked x => exact absurd rfl (hpr x)
    | body x j =>
      cases hentry
      obtain ⟨-, m', tl, -, hj, hmsg⟩ := hreads
      have hleft := hmsg.nleft
      omega
  · exact (h.others id hid hentry).imp_left hfresh

/-- An entry that has its header and is not complete is the one that is read for. -/
lemma Framed.body_of_nhdr {p : ℕ} (h : s.Framed frames src rest pr) (hpr : ∀ x, pr ≠ .checked x) (hp : p ∈ s.recv_q src)
    (hhdr : (s.msg_list p).nhdr = 0) (hleft : (s.msg_list p).nleft ≠ 0) : ∃ j, pr = .body p j := by
  have hentry : pr.entry = some p := by
    by_contra hne
    rcases h.others p hp hne with hi | hc
    · exact (hi.pos (by simp [hdrSize])).1 hhdr
    · exact hleft hc.nleft
  have hreads := h.reads
  cases pr with
  | between => cases hentry
  | header x k =>
    cases hentry
    exact absurd hhdr (hreads.2.2.2.1.pos hreads.2.1).1
  | checked x => exact absurd rfl (hpr x)
  | body x j =>
    cases hentry
    exact ⟨j, rfl⟩

/-- The body goes on. -/
lemma framed_gotHeader (h : s.Framed frames src rest pr) (hs : s.Sound myproc)
    (hcalls : s.calls = .recvLoop src id m :: cs) (hgo : s.Continues id m)
    (hhdr : (s.msg_list id).nhdr = 0) :
    Engine.Framed frames src rest pr { s with calls := .readBody src id id 0 :: cs } := by
  have hid : id ∈ s.recv_q src := (hs.call hcalls).1
  have hpr := h.not_checked (by simp [hcalls])
  obtain ⟨j, rfl⟩ := h.body_of_nhdr hpr hid hhdr hgo.2.ne'
  exact h.goOn hpr fun _ => ⟨fun x hx => Or.inl (h.first id rfl x hx), Or.inl ⟨j, rfl⟩, Or.inl rfl⟩

/-- The loop begins with the head of the queue. -/
lemma framed_doRecv (h : s.Framed frames src rest pr) (hcalls : s.calls = .doRecv src :: cs)
    (hid : (s.recv_q src).head? = some id) :
    Engine.Framed frames src rest pr { s with calls := .recvLoop src id 1 :: cs } := by
  refine h.goOn (h.not_checked (by simp [hcalls])) fun _ x hx => ?_
  rw [before_head hid] at hx
  cases hx

/-- The header of a message, and maybe some of its body, was read for `cur`. -/
lemma framed_body (msg : SentMessage) (tl : List SentMessage) (cur j : ℕ)
    (hread : Frames.ReadTo (SentMessage.roles src) frames (s.log src) (hdrSize + j) (msg :: tl))
    (hcur : cur ∈ s.recv_q src) (hmsg : (s.msg_list cur).InBody msg.body.length j)
    (hj : j ≤ msg.body.length)
    (hothers : ∀ x ∈ s.recv_q src, x ≠ cur → (s.msg_list x).InHeader 0 ∨ (s.msg_list x).Complete)
    (hfirst : ∀ y ∈ before cur (s.recv_q src), (s.msg_list y).Complete)
    (hloop : ∀ pr, pr = .body cur j ∨ pr = .between ∧ (s.msg_list cur).Complete → s.LoopOk src pr) :
    ∃ rest pr, s.Framed frames src rest pr := by
  rcases hj.eq_or_lt with rfl | hlt
  · have hc := hmsg.complete
    rw [← SentMessage.length_roles src] at hread
    refine ⟨tl, .between, hread.next, trivial, fun x hx _ => ?_, nofun, hloop _ (Or.inr ⟨rfl, hc⟩)⟩
    rcases eq_or_ne x cur with rfl | hne
    · exact Or.inr hc
    · exact hothers x hx hne
  · refine ⟨msg :: tl, .body cur j, hread, ⟨hcur, msg, tl, rfl, hlt, hmsg⟩, fun x hx hne => ?_, ?_,
      hloop _ (Or.inl rfl)⟩
    · refine hothers x hx ?_
      rintro rfl
      exact hne rfl
    · rintro x ⟨⟩
      exact hfirst

/-- What is known when `check_header` runs. -/
structure Checking (frames : List SentMessage) (src : ℤ) (id : ℕ) (msg : SentMessage)
    (tl : List SentMessage) (s : Engine) : Prop where
  readTo : Frames.ReadTo (SentMessage.roles src) frames (s.log src) hdrSize (msg :: tl)
  header : parseHeader (s.hdr src) = ⟨msg.body.length, src, msg.tag⟩
  entry : (s.msg_list id).InHeader hdrSize
  others : ∀ x ∈ s.recv_q src, x ≠ id → (s.msg_list x).InHeader 0 ∨ (s.msg_list x).Complete
  first : ∀ x ∈ before id (s.recv_q src), (s.msg_list x).Complete

lemma Framed.checking (h : s.Framed frames src rest pr)
    (hcalls : s.calls = .checkHeader src id n :: cs) (hwell : ∀ m ∈ frames, m.WellFormed src) :
    ∃ msg tl, s.Checking frames src id msg tl := by
  have hloop := h.loop
  rw [LoopOk, hcalls] at hloop
  obtain rfl := hloop rfl
  obtain ⟨-, -, hentry, msg, tl, rfl, hhdr⟩ := h.reads
  refine ⟨msg, tl, h.readTo, ?_, hentry, fun x hx hne => h.others x hx ?_, h.first id rfl⟩
  · rw [hhdr]
    exact (hwell msg (h.readTo.subset List.mem_cons_self)).parseHeader
  · rintro ⟨⟩
    exact hne rfl

lemma framed_matchHeader {msg : SentMessage} {tl : List SentMessage}
    (h : s.Checking frames src id msg tl) (hid : id ∈ s.recv_q src) :
    ∃ rest pr, (s.matchHeader src id n cs).Framed frames src rest pr := by
  have hne : ∀ {x}, x ≠ id → (s.matchHeader src id n cs).msg_list x = s.msg_list x := fun hx =>
    Function.update_of_ne hx ..
  have hfirst : ∀ x ∈ before id (s.recv_q src), ((s.matchHeader src id n cs).msg_list x).Complete := by
    intro x hx
    rw [hne (before_ne hx)]
    exact h.first x hx
  refine framed_body msg tl id 0 h.readTo hid ?_ (Nat.zero_le _) (fun x hx hxid => ?_) hfirst fun pr hpr _ => ?_
  · rw [show (s.matchHeader src id n cs).msg_list id = _ from Function.update_self .., h.header]
    exact .set _ _ _ _
  · rw [hne hxid]
    exact h.others x hx hxid
  · exact ⟨fun x hx => Or.inl (hfirst x hx), hpr.imp_left fun heq => ⟨0, heq⟩, Or.inl rfl⟩

/-- The message goes to the posted receive `p`, which has its size and no message yet. -/
lemma framed_redirect {msg : SentMessage} {tl : List SentMessage} {p : ℕ}
    (h : s.Checking frames src id msg tl) (hid : id ∈ s.recv_q src)
    (hp : p ∈ s.recv_q src) (hne : p ≠ id) (hunread : (s.msg_list p).nhdr ≠ 0)
    (hsize : (s.msg_list p).nbytes = msg.body.length) :
    ∃ rest pr, (s.redirect src id p n cs).Framed frames src rest pr := by
  have hrecv : (s.redirect src id p n cs).recv_q src = p :: (s.recv_q src).erase p :=
    Function.update_self ..
  have hself : (s.redirect src id p n cs).msg_list p = (s.msg_list p).skipHeader := by
    rw [show (s.redirect src id p n cs).msg_list p = _ from Function.update_self ..]
    exact congrArg _ (Function.update_of_ne hne ..)
  have hreset : (s.redirect src id p n cs).msg_list id = (s.msg_list id).resetHeader :=
    (Function.update_of_ne hne.symm ..).trans (Function.update_self ..)
  have hother : ∀ {x}, x ≠ p → x ≠ id → (s.redirect src id p n cs).msg_list x = s.msg_list x :=
    fun hxp hxid => (Function.update_of_ne hxp ..).trans (Function.update_of_ne hxid ..)
  have hfresh : (s.msg_list p).InHeader 0 := (h.others p hp hne).resolve_right fun hc =>
    hunread hc.nhdr
  refine framed_body msg tl p 0 h.readTo ?_ ?_ (Nat.zero_le _) (fun x hx hxp => ?_) (fun x hx => ?_)
    fun pr hpr _ => ⟨fun x hx => ?_, hpr.imp_left fun heq => ⟨0, heq⟩, Or.inr ?_⟩
  · rw [hrecv]
    exact List.mem_cons_self
  · rw [hself]
    exact hfresh.skip hsize
  · rw [hrecv] at hx
    have hxq : x ∈ s.recv_q src := List.mem_of_mem_erase ((List.mem_cons.mp hx).resolve_left hxp)
    rcases eq_or_ne x id with rfl | hxid
    · rw [hreset]
      exact Or.inl h.entry.reset
    · rw [hother hxp hxid]
      exact h.others x hxq hxid
  · rw [hrecv, before_head rfl] at hx
    cases hx
  · rw [hrecv] at hx
    rcases eq_or_ne x p with rfl | hxp
    · refine hpr.symm.imp And.right fun heq => ⟨⟨0, heq⟩, ?_⟩
      rw [hreset]
      exact h.entry.reset
    · have hbefore := (before_moved hne hid hx).resolve_left hxp
      left
      rw [hother hxp (before_ne hbefore)]
      exact h.first x hbefore
  · rw [hreset]
    exact h.entry.reset

/-- Nobody waits for the message, and it goes to a new entry. -/
lemma framed_pushUnexpected {msg : SentMessage} {tl : List SentMessage} {new a : ℕ}
    (h : s.Checking frames src id msg tl) (hid : id ∈ s.recv_q src) (hnew : ¬ s.Linked new) :
    ∃ rest pr, (s.pushUnexpected myproc src id new a n cs).Framed frames src rest pr := by
  have hne : ∀ {x}, x ∈ s.recv_q src → x ≠ new := by
    rintro x hx rfl
    exact hnew (.of_recv hx)
  rw [pushUnexpected_eq hnew, h.header]
  refine framed_body msg tl new 0 h.readTo ?_ ?_ (Nat.zero_le _) (fun x hx hxnew => ?_)
    (fun x hx => ?_) fun pr hpr _ => ⟨fun x hx => ?_, hpr.imp_left fun heq => ⟨0, heq⟩, Or.inr ?_⟩
  · dsimp only
    rw [Function.update_self]
    exact List.mem_cons_self
  · dsimp only
    rw [Function.update_self]
    refine (MsgEntry.InHeader.create (Int.natCast_nonneg _) ..).skip ?_
    rw [MsgEntry.create]
    split_ifs <;> rfl
  · dsimp only at hx ⊢
    rw [Function.update_self] at hx
    have hxq := (List.mem_cons.mp hx).resolve_left hxnew
    rw [Function.update_of_ne hxnew]
    rcases eq_or_ne x id with rfl | hxid
    · rw [Function.update_self]
      exact Or.inl h.entry.reset
    · rw [Function.update_of_ne hxid]
      exact h.others x hxq hxid
  · dsimp only at hx
    rw [Function.update_self, before_head rfl] at hx
    cases hx
  · dsimp only at hx
    rw [Function.update_self, before_cons (hne hid).symm, List.mem_cons] at hx
    rcases hx with rfl | hx
    · refine hpr.symm.imp And.right fun heq => ⟨⟨0, heq⟩, ?_⟩
      dsimp only
      rw [Function.update_of_ne (hne hid), Function.update_self]
      exact h.entry.reset
    · left
      dsimp only
      rw [Function.update_of_ne (hne (before_subset hx)), Function.update_of_ne (before_ne hx)]
      exact h.first x hx
  · dsimp only
    rw [Function.update_of_ne (hne hid), Function.update_self]
    exact h.entry.reset

/-- Bytes of the body are read for `cur`. -/
lemma framed_readBody {cur : ℕ} (h : s.Framed frames src rest pr) (hs : s.Sound myproc)
    (hcalls : s.calls = .readBody src id cur n :: cs)
    (hsock : s.sock src <+: (rest.flatMap (SentMessage.bytes src)).drop pr.offset) :
    ∃ rest pr, (s.readBody src id cur n cs).Framed frames src rest pr := by
  obtain ⟨-, hcur⟩ := (hs.call hcalls).1
  have hloop := h.loop
  rw [LoopOk, hcalls] at hloop
  obtain ⟨hpassed, hphase, hid⟩ := hloop rfl
  rcases hphase with ⟨j, rfl⟩ | ⟨rfl, hc⟩
  · obtain ⟨-, msg, tl, rfl, hj, hmsg⟩ := h.reads
    have hnbl := hmsg.nbl
    set bytes := (s.sock src).take (s.msg_list cur).nbl.toNat with hbytes
    have hlen : bytes.length + j ≤ msg.body.length := by
      rw [hbytes, List.length_take]
      omega
    have hnext : bytes <+: msg.body.drop j := SentMessage.take_body hsock (by omega)
    have hoffset : (s.msg_list cur).ptr - (s.msg_list cur).buf = j := by
      rw [hmsg.ptr, Nat.add_sub_cancel_left]
    have hlog := h.readTo.append (SentMessage.roles_body hnext hj.le tl)
    rw [List.length_mapIdx, Place.offset, Nat.add_assoc] at hlog
    rw [Engine.readBody]
    dsimp only
    rw [if_pos ⟨hmsg.nhdr, by omega⟩]
    have hend : j + bytes.length ≤ msg.body.length := by omega
    refine framed_body msg tl cur (j + bytes.length) ?_ hcur ?_ hend (fun x hx hne => ?_)
      (fun x hx => ?_) fun pr hpr _ x hx => ?_
    · dsimp only
      rw [Function.update_self, hoffset]
      exact hlog
    · simp only [setEntry, Function.update_self]
      exact hmsg.read _
    · simp only [setEntry, Function.update_of_ne hne]
      exact h.others x hx fun hcon => hne (Option.some.inj hcon).symm
    · simp only [setEntry, Function.update_of_ne (before_ne hx)]
      exact h.first cur rfl x hx
    · have hxid := before_ne hx
      rcases hpassed x hx with hc | ⟨⟨j', hj'⟩, hfresh⟩
      · have hne : x ≠ cur := by
          rintro rfl
          have hleft := hmsg.nleft
          rw [hc.nleft] at hleft
          omega
        left
        simpa only [setEntry, Function.update_of_ne hne] using hc
      · cases hj'
        refine hpr.symm.imp And.right fun heq => ⟨⟨_, heq⟩, ?_⟩
        simpa only [setEntry, Function.update_of_ne hxid.symm] using hfresh
  · rw [Engine.readBody]
    dsimp only
    rw [if_neg fun hcon => by simp [hc.nbl] at hcon]
    exact ⟨rest, .between, h.goOn (fun x hx => by cases hx) fun _ => hpassed⟩

/-- The loop ends. -/
lemma framed_finishRecv {stale : List ℕ} (h : s.Framed frames src rest pr) (hs : s.Sound myproc)
    (hcalls : s.calls = .recvLoop src id m :: cs)
    (hidle : (s.finishRecv src id stale cs).Idle src) :
    (s.finishRecv src id stale cs).Framed frames src rest pr := by
  have hid : id ∈ s.recv_q src := (hs.call hcalls).1
  have hpr := h.not_checked (by simp [hcalls])
  have hloop := h.loop
  rw [LoopOk, hcalls] at hloop
  rw [Engine.finishRecv] at hidle ⊢
  dsimp only at hidle ⊢
  rcases h.nleft hpr hid with hleft | hc
  · rw [if_pos hleft] at hidle ⊢
    have hgo := h.goOn hpr (c := cs) (loopOk_of_idle hidle pr)
    exact ⟨hgo.readTo, hgo.reads, hgo.others, hgo.first, loopOk_of_idle hidle pr⟩
  · have hzero := hc.nleft
    rw [if_neg (by omega), if_pos hzero] at hidle ⊢
    have hmem : ∀ {x}, x ∈ next id (s.recv_q src) stale → x ∈ s.recv_q src := mem_next hid
    have hkeep : ∀ x, pr.entry = some x → x ∈ next id (s.recv_q src) stale ∧
        ∀ y ∈ before x (next id (s.recv_q src) stale), y ∈ before x (s.recv_q src) := by
      intro x hx
      have hne : x ≠ id := by
        rintro rfl
        exact h.not_complete hx hc
      refine mem_next_of_not_before hid (h.mem_recv hx) hne fun hbefore => ?_
      rcases hloop rfl x hbefore with hcx | ⟨-, hfresh⟩
      · exact h.not_complete hx hcx
      · exact (hfresh.pos (by simp [hdrSize])).1 hc.nhdr
    refine ⟨h.readTo, ?_, fun x hx hne => ?_, fun x hx y hy => ?_, loopOk_of_idle hidle pr⟩
    · have hreads := h.reads
      cases pr with
      | between => trivial
      | header x k =>
        obtain ⟨h₀, hk, -, hmsg⟩ := hreads
        exact ⟨h₀, hk, mem_update_self (hkeep x rfl).1, hmsg⟩
      | checked x => exact absurd rfl (hpr x)
      | body x j => exact ⟨mem_update_self (hkeep x rfl).1, hreads.2⟩
    · dsimp only at hx
      rw [Function.update_self] at hx
      exact h.others x (hmem hx) hne
    · dsimp only at hy
      rw [Function.update_self] at hy
      exact h.first x hx y ((hkeep x hx).2 y hy)

end

end Engine

end NetPipe.MpLite
