import NetPipe.MpLite.OsHandler

/-!
# The streams of one-sided messages

However the bytes of a source are cut into reads, and whatever is read from other sources in between,
the handlers receive its messages one after the other, each with its own header and body.
-/

namespace NetPipe.MpLite

/-! ### Headers -/

@[simp] lemma length_leBytes (n x : ℕ) : (leBytes n x).length = n := by simp [leBytes]

lemma leBytes_succ (n x : ℕ) :
    leBytes (n + 1) x = UInt8.ofNat (x % 256) :: leBytes n (x / 256) := by
  simp only [leBytes, List.range_succ_eq_map, List.map_cons, List.map_map, pow_zero, Nat.div_one]
  congr 1
  apply List.map_congr_left
  intro i _
  simp [Nat.div_div_eq_div_mul, pow_succ']

lemma leNat_leBytes (n x : ℕ) : leNat (leBytes n x) = x % 256 ^ n := by
  induction n generalizing x with
  | zero => simp [leBytes, leNat, Nat.mod_one]
  | succ n ih =>
    have hfold : leNat (leBytes (n + 1) x) =
        (UInt8.ofNat (x % 256)).toNat + 256 * leNat (leBytes n (x / 256)) := by
      rw [leBytes_succ]
      rfl
    rw [hfold, ih, pow_succ', Nat.mod_mul]
    simp

lemma leNat_leBytes_of_lt {n x : ℕ} (h : x < 256 ^ n) : leNat (leBytes n x) = x := by
  rw [leNat_leBytes, Nat.mod_eq_of_lt h]

lemma drop_leBytes {n k : ℕ} (h : n ≤ k) (x : ℕ) : (leBytes n x).drop k = [] :=
  List.drop_of_length_le (by simpa using h)

lemma take_leBytes {n k : ℕ} (h : n ≤ k) (x : ℕ) : (leBytes n x).take k = leBytes n x :=
  List.take_of_length_le (by simpa using h)

namespace OsHeader

@[simp] lemma length_bytes (h : OsHeader) : h.bytes.length = hdrSize := by simp [bytes, hdrSize]

/-- The bytes of a header say what it was. -/
lemma parse_bytes {h : OsHeader} (h₁ : h.nbytes < 256 ^ 4) (h₂ : h.src < 256 ^ 4)
    (h₃ : h.tag < 256 ^ 4) (h₄ : h.dest_ptr < 256 ^ 8) : parseOsHeader h.bytes = h := by
  simp only [parseOsHeader, bytes]
  simp [List.drop_append, drop_leBytes, take_leBytes, leNat_leBytes_of_lt h₁,
    leNat_leBytes_of_lt h₂, leNat_leBytes_of_lt h₃, leNat_leBytes_of_lt h₄]

/-- The message is an accumulate. -/
def IsAccum (h : OsHeader) : Prop := 2 < h.tag ∧ h.tag < 15

instance (h : OsHeader) : Decidable h.IsAccum := inferInstanceAs (Decidable (_ ∧ _))

/-- The message is a request that is acted on as a whole. -/
def IsRequest (h : OsHeader) : Prop := h.tag = 1 ∨ h.tag = 15 ∨ h.tag = 16

instance (h : OsHeader) : Decidable h.IsRequest := inferInstanceAs (Decidable (_ ∨ _))

/-- How many bytes are read into the buffer of the message before it is used anew. -/
def unit (h : OsHeader) : ℕ := if h.IsAccum then accumSize (h.tag - 3) else h.nbytes

end OsHeader

lemma accumSize_pos (op : ℕ) : 0 < accumSize op := by
  unfold accumSize
  split_ifs <;> decide

namespace OsFrame.Valid

variable {b : ℕ} {f : OsFrame}

lemma parse (hf : f.Valid b) : parseOsHeader f.header.bytes = f.header := by
  apply OsHeader.parse_bytes hf.nbytes_lt (hf.src ▸ hf.src_lt) _ hf.dest_ptr_lt
  exact lt_of_le_of_lt hf.tag (by decide)

lemma unit_pos (hf : f.Valid b) : 0 < f.header.unit := by
  unfold OsHeader.unit
  split_ifs
  · exact accumSize_pos _
  · rw [hf.nbytes]
    exact hf.pos

/-- A message consists of units. -/
lemma unit_dvd (hf : f.Valid b) : f.header.unit ∣ f.body.length := by
  unfold OsHeader.unit
  split_ifs with h
  · exact hf.accum h.1 h.2
  · exact dvd_of_eq hf.nbytes

lemma unit_of_not_accum (hf : f.Valid b) (h : ¬f.header.IsAccum) :
    f.header.unit = f.body.length := by
  rw [OsHeader.unit, if_neg h, hf.nbytes]

/-- A unit that is begun lies in the message. -/
lemma unit_le (hf : f.Valid b) {q : ℕ} (hq : q < f.body.length) :
    q - q % f.header.unit + f.header.unit ≤ f.body.length := by
  obtain ⟨c, hc⟩ := hf.unit_dvd
  have hpos := hf.unit_pos
  have hdiv : q / f.header.unit < c := by
    rw [Nat.div_lt_iff_lt_mul hpos, mul_comm, ← hc]
    exact hq
  have hsub : q - q % f.header.unit = f.header.unit * (q / f.header.unit) := by
    have hmod := Nat.mod_add_div q f.header.unit
    omega
  rw [hsub, hc, ← Nat.mul_succ]
  exact Nat.mul_le_mul_left _ hdiv

end OsFrame.Valid

/-! ### One message -/

/-- The buffer that the message is read into. -/
structure Target (h : OsHeader) (buf : Storage × ℕ) : Prop where
  put : h.tag = 0 → buf = (.memory, h.dest_ptr)
  get : h.tag = 1 → buf = (.get_hdr, 0)
  reply : h.tag = 2 → buf.1 = .memory
  accum : h.IsAccum → buf = (accumStorage (h.tag - 3), 0)
  lock : h.tag = 15 → buf = (.lock_hdr, 0)
  sync : h.tag = 16 → ∃ call, buf = (.active_targ_hdr call, 0)

/-- Where the next byte goes, when `q` bytes of the body were read. -/
structure OsEntry.Place (h : OsHeader) (q : ℕ) (msg : OsEntry) : Prop where
  nbl : msg.nbl + q % h.unit = h.unit
  ptr : msg.ptr = (msg.buf.1, msg.buf.2 + q % h.unit)
  dest_ptr : msg.dest_ptr = h.dest_ptr + q / h.unit * h.unit

/-- The message `f` is being received, with `got` of its body and `rest` behind it. -/
structure Receiving (f : OsFrame) (rest : List UInt8) (msg : OsEntry) (hdr sock got : List UInt8) :
    Prop where
  hdr_eq : hdr = f.header.bytes
  phdr : msg.phdr + msg.nhdr = hdrSize
  sock_eq : sock = f.header.bytes.drop msg.phdr ++ f.body.drop got.length ++ rest
  begun : got <+: f.body
  first : 0 < msg.nhdr → got = []
  nbytes : msg.nbytes = f.header.nbytes
  tag : msg.tag = f.header.tag
  nleft : msg.nleft + got.length = f.body.length + msg.nhdr
  place : got.length < f.body.length → msg.Place f.header got.length
  target : Target f.header msg.buf

/-- The entry after a read of `k` bytes of the body: behind a unit it begins anew. -/
def OsEntry.next (unit k : ℕ) (msg : OsEntry) : OsEntry :=
  let msg := msg.updateProgress k
  if msg.nbl = 0 ∧ msg.nleft > 0 then
    { msg with nbl := unit, ptr := msg.buf, dest_ptr := msg.dest_ptr + unit }
  else msg

namespace Receiving

variable {b k : ℕ} {f : OsFrame} {rest hdr sock got : List UInt8} {msg : OsEntry}

lemma parse (h : Receiving f rest msg hdr sock got) (hf : f.Valid b) :
    parseOsHeader hdr = f.header := by
  rw [h.hdr_eq, hf.parse]

lemma length_le (h : Receiving f rest msg hdr sock got) : got.length ≤ f.body.length :=
  h.begun.length_le

/-- Bytes of the header are read. -/
lemma header (h : Receiving f rest msg hdr sock got) (hpos : 0 < msg.nhdr) (hk : k ≤ msg.nhdr) :
    Receiving f rest (msg.updateProgress k)
      (hdr.take msg.phdr ++ sock.take k ++ hdr.drop (msg.phdr + k)) (sock.drop k) got := by
  have hlen : k ≤ (f.header.bytes.drop msg.phdr).length := by
    have hp := h.phdr
    simp only [List.length_drop, OsHeader.length_bytes]
    omega
  have htake : sock.take k = (f.header.bytes.drop msg.phdr).take k := by
    rw [h.sock_eq, List.append_assoc, List.take_append_of_le_length hlen]
  have hnew : msg.updateProgress k =
      { msg with nleft := msg.nleft - k, nhdr := msg.nhdr - k, phdr := msg.phdr + k } :=
    if_pos hpos
  rw [hnew]
  have hp := h.phdr
  have hn := h.nleft
  have hle := h.length_le
  exact {
    hdr_eq := by
      rw [htake, h.hdr_eq, ← List.drop_drop, List.append_assoc, List.take_append_drop,
        List.take_append_drop]
    phdr := by
      show msg.phdr + k + (msg.nhdr - k) = hdrSize
      omega
    sock_eq := by
      rw [h.sock_eq, List.append_assoc, List.drop_append_of_le_length hlen, List.drop_drop,
        ← List.append_assoc]
    begun := h.begun
    first := fun _ => h.first hpos
    nbytes := h.nbytes
    tag := h.tag
    nleft := by
      show msg.nleft - k + got.length = f.body.length + (msg.nhdr - k)
      omega
    place := fun hq => ⟨(h.place hq).nbl, (h.place hq).ptr, (h.place hq).dest_ptr⟩
    target := h.target }

/-- With the header read, the next bytes are those of the body. -/
lemma sock_body (h : Receiving f rest msg hdr sock got) (hnhdr : msg.nhdr = 0) :
    sock = f.body.drop got.length ++ rest := by
  have hp := h.phdr
  rw [h.sock_eq, List.drop_of_length_le, List.nil_append]
  rw [OsHeader.length_bytes]
  omega

/-- What is left of the unit is part of the message. -/
lemma nbl_le (h : Receiving f rest msg hdr sock got) (hf : f.Valid b)
    (hq : got.length < f.body.length) : got.length + msg.nbl ≤ f.body.length := by
  have hunit := hf.unit_le hq
  have hnbl := (h.place hq).nbl
  have hmod := Nat.mod_le got.length f.header.unit
  omega

lemma take_body (h : Receiving f rest msg hdr sock got) (hf : f.Valid b) (hnhdr : msg.nhdr = 0)
    (hq : got.length < f.body.length) (hk : k ≤ msg.nbl) :
    sock.take k = (f.body.drop got.length).take k := by
  have hle := h.nbl_le hf hq
  rw [h.sock_body hnhdr, List.take_append_of_le_length]
  rw [List.length_drop]
  omega

lemma append_take (h : Receiving f rest msg hdr sock got) (hf : f.Valid b) (hnhdr : msg.nhdr = 0)
    (hq : got.length < f.body.length) (hk : k ≤ msg.nbl) :
    got ++ sock.take k = f.body.take (got.length + k) := by
  have hgot := List.prefix_iff_eq_take.mp h.begun
  rw [h.take_body hf hnhdr hq hk, List.take_add, ← hgot]

lemma unit_mod {u q : ℕ} (h : q % u + k < u) : (q + k) % u = q % u + k := by
  rw [Nat.add_mod, Nat.mod_eq_of_lt (a := k) (by omega), Nat.mod_eq_of_lt h]

lemma unit_div {u q : ℕ} (h : q % u + k < u) : (q + k) / u = q / u := by
  have hu : 0 < u := by omega
  have hq := Nat.div_add_mod q u
  rw [← hq, add_assoc, Nat.mul_add_div hu, Nat.mul_add_div hu, Nat.div_eq_of_lt h,
    Nat.div_eq_of_lt (Nat.mod_lt _ hu)]

lemma unit_full_mod {u q : ℕ} (h : q % u + k = u) : (q + k) % u = 0 := by
  have hq := Nat.div_add_mod q u
  rw [← hq, add_assoc, h]
  simp

lemma unit_full_div {u q : ℕ} (hu : 0 < u) (h : q % u + k = u) : (q + k) / u = q / u + 1 := by
  have hq := Nat.div_add_mod q u
  have hsum : q + k = u * (q / u + 1) := by
    rw [Nat.mul_succ]
    omega
  rw [hsum, Nat.mul_div_cancel_left _ hu]

/-- Bytes of the body are read. -/
lemma body (h : Receiving f rest msg hdr sock got) (hf : f.Valid b) (hnhdr : msg.nhdr = 0)
    (hleft : 0 < msg.nleft) (hk : k ≤ msg.nbl) :
    Receiving f rest (msg.next f.header.unit k) hdr (sock.drop k) (got ++ sock.take k) := by
  have hn := h.nleft
  have hq : got.length < f.body.length := by omega
  have hle := h.nbl_le hf hq
  obtain ⟨hnbl, hptr, hdest⟩ := h.place hq
  have hgot := h.append_take hf hnhdr hq hk
  have hlen : (got ++ sock.take k).length = got.length + k := by
    rw [hgot, List.length_take]
    omega
  have hnew : msg.updateProgress k =
      { msg with nleft := msg.nleft - k, nbl := msg.nbl - k, ptr := (msg.ptr.1, msg.ptr.2 + k) } :=
    if_neg (by rw [hnhdr]; exact lt_irrefl 0)
  have hsock : sock.drop k = f.body.drop (got.length + k) ++ rest := by
    rw [h.sock_body hnhdr, List.drop_append_of_le_length, List.drop_drop]
    rw [List.length_drop]
    omega
  have hnil : f.header.bytes.drop msg.phdr = [] := by
    apply List.drop_of_length_le
    have hp := h.phdr
    rw [OsHeader.length_bytes]
    omega
  have hplain : ∀ msg' : OsEntry, msg'.phdr = msg.phdr → msg'.nhdr = msg.nhdr →
      msg'.nbytes = msg.nbytes → msg'.tag = msg.tag → msg'.nleft = msg.nleft - k →
      msg'.buf = msg.buf →
      (got.length + k < f.body.length → msg'.Place f.header (got.length + k)) →
      Receiving f rest msg' hdr (sock.drop k) (got ++ sock.take k) := by
    intro msg' h₁ h₂ h₃ h₄ h₅ h₆ hplace
    exact {
      hdr_eq := h.hdr_eq
      phdr := by rw [h₁, h₂, h.phdr]
      sock_eq := by rw [hlen, h₁, hnil, hsock, List.nil_append]
      begun := hgot ▸ List.take_prefix _ _
      first := fun hpos => absurd hpos (by rw [h₂, hnhdr]; exact lt_irrefl 0)
      nbytes := h₃.trans h.nbytes
      tag := h₄.trans h.tag
      nleft := by
        rw [hlen, h₂, h₅]
        omega
      place := by rwa [hlen]
      target := h₆ ▸ h.target }
  unfold OsEntry.next
  rw [hnew]
  dsimp only
  split_ifs with hfull
  · obtain ⟨hzero, -⟩ := hfull
    have hunit : got.length % f.header.unit + k = f.header.unit := by omega
    refine hplain _ rfl rfl rfl rfl rfl rfl fun _ => ⟨?_, ?_, ?_⟩
    · simp [unit_full_mod hunit]
    · simp [unit_full_mod hunit]
    · show msg.dest_ptr + f.header.unit = _
      rw [hdest, unit_full_div hf.unit_pos hunit, Nat.succ_mul, add_assoc]
  · refine hplain _ rfl rfl rfl rfl rfl rfl fun hmore => ?_
    have hunit : got.length % f.header.unit + k < f.header.unit := by omega
    refine ⟨?_, ?_, ?_⟩
    · show msg.nbl - k + _ = _
      rw [unit_mod hunit]
      omega
    · show (msg.ptr.1, msg.ptr.2 + k) = _
      rw [hptr, unit_mod hunit, add_assoc]
    · rw [unit_div hunit]
      exact hdest

end Receiving

/-! ### New messages -/

/-- The entry of a new message. -/
def OsHeader.newEntry (h : OsHeader) (buf : Storage × ℕ) : OsEntry :=
  { createOsMsgEntry h.dest_ptr buf h.nbytes h.src h.tag with nbl := h.unit }

namespace OsFrame.Valid

variable {b : ℕ} {f : OsFrame}

lemma receiving (hf : f.Valid b) {buf : Storage × ℕ} (htarget : Target f.header buf)
    (rest : List UInt8) :
    Receiving f rest (f.header.newEntry buf) f.header.bytes (f.bytes ++ rest) [] where
  hdr_eq := rfl
  phdr := Nat.zero_add _
  sock_eq := rfl
  begun := List.nil_prefix
  first _ := rfl
  nbytes := rfl
  tag := rfl
  nleft := congrArg (· + hdrSize) hf.nbytes
  place _ := by
    constructor <;> simp [OsHeader.newEntry, createOsMsgEntry]
  target := htarget

lemma tag_cases (hf : f.Valid b) : f.header.tag = 0 ∨ f.header.tag = 1 ∨ f.header.tag = 2 ∨
    f.header.IsAccum ∨ f.header.tag = 15 ∨ f.header.tag = 16 := by
  have h := hf.tag
  unfold OsHeader.IsAccum
  omega

lemma unit_eq (hf : f.Valid b) (h : ¬f.header.IsAccum) : f.header.unit = f.header.nbytes := by
  rw [hf.unit_of_not_accum h, hf.nbytes]

lemma receiver_accum (h : f.header.IsAccum) :
    receiver f.header.tag = some recvAccumOperation := by
  obtain ⟨h₁, h₂⟩ := h
  unfold receiver
  rw [if_neg (by omega), if_neg (by omega), if_neg (by omega), if_pos ⟨h₁, h₂⟩]

/-- Each function accepts its messages and creates the entry of a new message. -/
lemma receiver_spec (hf : f.Valid b) (s : OsState) (hh : s.header b = f.header) :
    ∃ r buf, receiver f.header.tag = some r ∧ r.accepts f.header = true ∧
      Target f.header buf ∧ r.entry b s = f.header.newEntry buf ∧
      (f.header.tag = 16 → buf = (.active_targ_hdr s.calls, 0)) := by
  have hnot : ∀ n, f.header.tag = n → ¬(2 < n ∧ n < 15) → ¬f.header.IsAccum := by
    rintro n rfl h
    exact h
  rcases hf.tag_cases with h | h | h | h | h | h
  · refine ⟨recvPutData, (.memory, f.header.dest_ptr), by rw [h]; rfl, rfl, ?_, ?_, by simp [h]⟩
    · constructor <;> simp [h, OsHeader.IsAccum]
    · simp [recvPutData, hh, OsHeader.newEntry, createOsMsgEntry,
        hf.unit_eq (hnot _ h (by decide))]
  · refine ⟨recvGetRequest, (.get_hdr, 0), by rw [h]; rfl, ?_, ?_, ?_, by simp [h]⟩
    · simpa [recvGetRequest, hf.nbytes] using hf.get h
    · constructor <;> simp [h, OsHeader.IsAccum]
    · simp [recvGetRequest, hh, OsHeader.newEntry, createOsMsgEntry,
        hf.unit_eq (hnot _ h (by decide))]
  · refine ⟨recvGetReplyData, (.memory, (s.get_buf_addr_q f.header.src).headD 0), by rw [h]; rfl,
      rfl, ?_, ?_, by simp [h]⟩
    · constructor <;> simp [h, OsHeader.IsAccum]
    · simp [recvGetReplyData, hh, OsHeader.newEntry, createOsMsgEntry,
        hf.unit_eq (hnot _ h (by decide))]
  · have htag := h.1
    have htag' := h.2
    refine ⟨recvAccumOperation, (accumStorage (f.header.tag - 3), 0), receiver_accum h, rfl, ?_, ?_,
      by omega⟩
    · constructor <;> intros <;> first | rfl | omega
    · simp [recvAccumOperation, hh, OsHeader.newEntry, createOsMsgEntry, OsHeader.unit, h]
  · refine ⟨recvLockRequest, (.lock_hdr, 0), by rw [h]; rfl, rfl, ?_, ?_, by simp [h]⟩
    · constructor <;> simp [h, OsHeader.IsAccum]
    · simp [recvLockRequest, hh, OsHeader.newEntry, createOsMsgEntry,
        hf.unit_eq (hnot _ h (by decide)), (hf.lock h).2]
  · refine ⟨recvActiveTargetSync, (.active_targ_hdr s.calls, 0), by rw [h]; rfl, rfl, ?_, ?_,
      fun _ => rfl⟩
    · constructor <;> simp [h, OsHeader.IsAccum]
    · simp [recvActiveTargetSync, hh, OsHeader.newEntry, createOsMsgEntry,
        hf.unit_eq (hnot _ h (by decide)), (hf.sync h).2]

end OsFrame.Valid

/-! ### All sources -/

/-- What a source has to do with the state. -/
structure OsView where
  hdr : List UInt8
  sock : List UInt8
  got : List UInt8
  entry : Option OsEntry

/-- The messages `rest` are still to be received, the first of them perhaps in part. -/
def OsView.Streams (rest : List OsFrame) (v : OsView) : Prop :=
  match v.entry with
  | none => v.sock = rest.flatMap OsFrame.bytes ∧ v.got = []
  | some msg => ∃ f rest', rest = f :: rest' ∧
      Receiving f (rest'.flatMap OsFrame.bytes) msg v.hdr v.sock v.got

namespace OsState

/-- The source `b` in the state. -/
def view (b : ℕ) (s : OsState) : OsView := ⟨s.hdr b, s.sock b, s.got b, s.recv_q b⟩

/-- The messages received from `b`. -/
def receivedFrom (b : ℕ) (s : OsState) : List OsFrame :=
  (s.completed.map Prod.fst).filter fun f => f.header.src = b

/-- Every source is received message by message, and the program was not stopped. -/
structure Streamed (t : Traffic) (s : OsState) : Prop where
  stopped : s.stopped = false
  stream : ∀ b, ∃ rest, t.frames b = s.receivedFrom b ++ rest ∧ (s.view b).Streams rest

/-- The message `f` is being received from `b`. -/
structure Current (t : Traffic) (b : ℕ) (f : OsFrame) (rest : List OsFrame) (msg : OsEntry)
    (s : OsState) : Prop where
  frames : t.frames b = s.receivedFrom b ++ f :: rest
  valid : f.Valid b
  receiving : Receiving f (rest.flatMap OsFrame.bytes) msg (s.hdr b) (s.sock b) (s.got b)

variable {fl : FloatOps} {t : Traffic} {s s' : OsState} {act : OsAct} {a b k m : ℕ} {msg : OsEntry}
  {f : OsFrame} {rest : List OsFrame} {junk : ℕ → UInt8}

lemma Streamed.current (hs : s.Streamed t) (hmsg : s.recv_q b = some msg) :
    ∃ f rest, s.Current t b f rest msg := by
  obtain ⟨rest, hframes, hstream⟩ := hs.stream b
  simp only [OsView.Streams, view, hmsg] at hstream
  obtain ⟨f, rest, rfl, hreceiving⟩ := hstream
  refine ⟨f, rest, hframes, t.valid b f ?_, hreceiving⟩
  rw [hframes]
  exact List.mem_append_right _ List.mem_cons_self

lemma Current.header_eq (hc : s.Current t b f rest msg) : s.header b = f.header :=
  hc.receiving.parse hc.valid

/-- Only the source `b` is concerned. -/
lemma Streamed.of_view (hs : s.Streamed t) (hstop : s'.stopped = false)
    (hview : ∀ a, a ≠ b → s'.view a = s.view a)
    (hreceived : ∀ a, a ≠ b → s'.receivedFrom a = s.receivedFrom a)
    (h : ∃ rest, t.frames b = s'.receivedFrom b ++ rest ∧ (s'.view b).Streams rest) :
    s'.Streamed t where
  stopped := hstop
  stream a := by
    rcases eq_or_ne a b with rfl | hne
    · exact h
    · rw [hview a hne, hreceived a hne]
      exact hs.stream a

/-- The message that is being received from `b` goes on. -/
lemma Streamed.of_receiving (hs : s.Streamed t) (hstop : s'.stopped = false)
    (hview : ∀ a, a ≠ b → s'.view a = s.view a) (hcompleted : s'.completed = s.completed)
    (hframes : t.frames b = s.receivedFrom b ++ f :: rest) (hmsg : s'.recv_q b = some msg)
    (h : Receiving f (rest.flatMap OsFrame.bytes) msg (s'.hdr b) (s'.sock b) (s'.got b)) :
    s'.Streamed t := by
  have hreceived : ∀ a, s'.receivedFrom a = s.receivedFrom a := fun a => by
    rw [receivedFrom, hcompleted, receivedFrom]
  refine hs.of_view hstop hview (fun a _ => hreceived a) ⟨f :: rest, ?_, ?_⟩
  · rw [hreceived, hframes]
  · simp only [OsView.Streams, view, hmsg]
    exact ⟨f, rest, rfl, h⟩

/-! ### Steps -/

lemma Current.readHeader_eq (hc : s.Current t b f rest msg) (hpos : 0 < msg.nhdr)
    (hk : k ≤ msg.nhdr) : s.readHeader b k msg =
      { s with
        sock := Function.update s.sock b ((s.sock b).drop k)
        recv_q := Function.update s.recv_q b (some (msg.updateProgress k))
        running := some (b, k) } := by
  have hnew := hc.receiving.header hpos hk
  have hhdr : (s.hdr b).take msg.phdr ++ (s.sock b).take k ++ (s.hdr b).drop (msg.phdr + k) =
      s.hdr b := hnew.hdr_eq.trans hc.receiving.hdr_eq.symm
  have hq : (s.got b).length < f.body.length := by
    rw [hc.receiving.first hpos]
    exact hc.valid.pos
  have hdest := (hc.receiving.place hq).dest_ptr
  rw [hc.receiving.first hpos] at hdest
  have hprogress : msg.updateProgress k =
      { msg with nleft := msg.nleft - k, nhdr := msg.nhdr - k, phdr := msg.phdr + k } :=
    if_pos hpos
  unfold readHeader
  simp only [hhdr, Function.update_eq_self]
  split_ifs with hall
  · unfold checkOsHeader
    apply if_pos
    rw [hprogress]
    show msg.dest_ptr = (s.header b).dest_ptr ∧ msg.nbytes = (s.header b).nbytes ∧
      msg.tag = (s.header b).tag
    rw [hc.header_eq]
    exact ⟨by simpa using hdest, hc.receiving.nbytes, hc.receiving.tag⟩
  · rfl

/-- The memory after a `read` of `k` bytes of the body: `recv_accum_operation` combines a complete
element with it. -/
def memoryAfter (fl : FloatOps) (b k : ℕ) (msg : OsEntry) (s : OsState) : ℕ → UInt8 :=
  let h := s.header b
  let s := s.readBody b k msg
  if h.IsAccum ∧ k = msg.nbl then
    accumLoop fl (h.tag - 3) msg.dest_ptr (bytesAt (s.cells msg.buf.1) msg.buf.2 h.unit) 1
      (s.cells .memory)
  else s.cells .memory

/-- The state after the step that reads bytes of the body. -/
def bodyDone (fl : FloatOps) (b k : ℕ) (msg : OsEntry) (s : OsState) : OsState :=
  { s.readBody b k msg with
    recv_q := Function.update s.recv_q b (some (msg.next (s.header b).unit k))
    cells := Function.update (s.readBody b k msg).cells .memory (s.memoryAfter fl b k msg) }

lemma afterRead_of_not_accum (hf : f.Valid b) (hh : s.header b = f.header)
    (h : ¬f.header.IsAccum) : s.afterRead fl b = s := by
  unfold afterRead
  rw [hh]
  rcases hf.tag_cases with h' | h' | h' | h' | h' | h'
  · simp [h', receiver, recvPutData]
  · simp [h', receiver, recvGetRequest]
  · simp [h', receiver, recvGetReplyData]
  · exact absurd h' h
  · simp [h', receiver, recvLockRequest]
  · simp [h', receiver, recvActiveTargetSync]

lemma doAccumOp_element (h : f.header.IsAccum) (dest : ℕ) (new : List UInt8) (mem : ℕ → UInt8) :
    doAccumOp fl dest new (f.header.tag - 3) (accumSize (f.header.tag - 3)) mem =
      some (accumLoop fl (f.header.tag - 3) dest new 1 mem) := by
  have hop : ¬f.header.tag - 3 > 11 := by
    have htag := h.2
    omega
  unfold doAccumOp
  rw [if_neg (by simp), if_neg hop, Nat.div_self (accumSize_pos _)]

lemma Current.next_of_not_accum (hc : s.Current t b f rest msg) (hnhdr : msg.nhdr = 0)
    (hleft : 0 < msg.nleft) (h : ¬f.header.IsAccum) :
    msg.next f.header.unit k = msg.updateProgress k := by
  have hn := hc.receiving.nleft
  have hq : (s.got b).length < f.body.length := by omega
  have hnbl := (hc.receiving.place hq).nbl
  rw [hc.valid.unit_of_not_accum h, Nat.mod_eq_of_lt hq] at hnbl
  apply if_neg
  rw [OsEntry.updateProgress, if_neg (by simp [hnhdr])]
  simp only
  omega

lemma Current.body_eq (hc : s.Current t b f rest msg) (hnhdr : msg.nhdr = 0)
    (hleft : 0 < msg.nleft) (hk : k ≤ msg.nbl) :
    (s.readBody b k msg).afterRead fl b = s.bodyDone fl b k msg := by
  have hheader : (s.readBody b k msg).header b = f.header := hc.header_eq
  by_cases h : f.header.IsAccum
  · have hnew : msg.updateProgress k =
        { msg with nleft := msg.nleft - k, nbl := msg.nbl - k, ptr := (msg.ptr.1, msg.ptr.2 + k) } :=
      if_neg (by rw [hnhdr]; exact lt_irrefl 0)
    have hentry : (s.readBody b k msg).recv_q b = some (msg.updateProgress k) :=
      Function.update_self _ _ _
    have hunit : f.header.unit = accumSize (f.header.tag - 3) := if_pos h
    unfold afterRead bodyDone memoryAfter
    simp only [hheader, hc.header_eq, OsFrame.Valid.receiver_accum h, recvAccumOperation, hentry,
      doAccumOp_element h, OsEntry.next, hnew, hunit, h, true_and]
    have hfull : msg.nbl - k = 0 ↔ k = msg.nbl := by omega
    simp only [hfull]
    by_cases hall : k = msg.nbl
    · by_cases hmore : msg.nleft - k > 0
      · simp only [if_pos hall, if_pos hmore, if_pos (And.intro hall hmore)]
        simp [setEntry, setCells, readBody]
      · simp only [if_pos hall, if_neg hmore, if_neg fun h => hmore (And.right h)]
        simp [setCells, readBody, hnew]
    · simp only [if_neg hall, if_neg fun h => hall (And.left h)]
      simp [readBody, hnew]
  · rw [afterRead_of_not_accum hc.valid hheader h]
    unfold bodyDone memoryAfter
    rw [hc.header_eq, hc.next_of_not_accum hnhdr hleft h]
    simp only [h, false_and, if_false, Function.update_eq_self]
    rfl

lemma Current.service_eq (hc : s.Current t b f rest msg) (hmsg : s.recv_q b = some msg) :
    s.service b junk = { s.newCall junk with running := some (b, 1) } := by
  have hheader : (s.newCall junk).header b = f.header := hc.header_eq
  have hentry : (s.newCall junk).recv_q b = some msg := hmsg
  obtain ⟨r, buf, hr, haccepts, -⟩ := hc.valid.receiver_spec s hc.header_eq
  simp [service, hheader, hr, haccepts, hentry]

/-- A new message is begun. -/
def begin (b : ℕ) (junk : ℕ → UInt8) (h : OsHeader) (buf : Storage × ℕ) (s : OsState) : OsState :=
  { (s.newCall junk).setEntry b (some (h.newEntry buf)) with running := some (b, 1) }

lemma service_new (hf : f.Valid b) (hhdr : s.hdr b = f.header.bytes) (hmsg : s.recv_q b = none) :
    ∃ buf, Target f.header buf ∧
      (f.header.tag = 16 → buf = (.active_targ_hdr (s.calls + 1), 0)) ∧
      s.service b junk = s.begin b junk f.header buf := by
  have hheader : (s.newCall junk).header b = f.header := by
    show parseOsHeader (s.hdr b) = f.header
    rw [hhdr, hf.parse]
  have hentry : (s.newCall junk).recv_q b = none := hmsg
  obtain ⟨r, buf, hr, haccepts, htarget, hnew, hcall⟩ :=
    hf.receiver_spec (s.newCall junk) hheader
  refine ⟨buf, htarget, hcall, ?_⟩
  simp [service, begin, hheader, hr, haccepts, hentry, hnew]

/-- The message `f` is the next one from `b`, and its function is called. -/
structure Peeked (t : Traffic) (b : ℕ) (junk : ℕ → UInt8) (f : OsFrame) (rest : List OsFrame)
    (buf : Storage × ℕ) (s : OsState) : Prop where
  frames : t.frames b = s.receivedFrom b ++ f :: rest
  valid : f.Valid b
  hdr : (s.peek b).hdr b = f.header.bytes
  sock : s.sock b = f.bytes ++ rest.flatMap OsFrame.bytes
  got : s.got b = []
  target : Target f.header buf
  sync : f.header.tag = 16 → buf = (.active_targ_hdr (s.calls + 1), 0)
  service : (s.peek b).service b junk = (s.peek b).begin b junk f.header buf

lemma Streamed.peeked (hs : s.Streamed t) (hmsg : s.recv_q b = none)
    (hlen : hdrSize ≤ (s.sock b).length) (junk : ℕ → UInt8) :
    ∃ f rest buf, s.Peeked t b junk f rest buf := by
  obtain ⟨rest, hframes, hstream⟩ := hs.stream b
  simp only [OsView.Streams, view, hmsg] at hstream
  obtain ⟨hsock, hgot⟩ := hstream
  obtain ⟨f, rest, rfl⟩ : ∃ f rest', rest = f :: rest' := by
    cases rest with
    | nil => simp [hsock, hdrSize] at hlen
    | cons f rest' => exact ⟨f, rest', rfl⟩
  have hf : f.Valid b := t.valid b f (by rw [hframes]; simp)
  have hhdr : (s.peek b).hdr b = f.header.bytes := by
    simp [OsState.peek, hsock, OsFrame.bytes]
  obtain ⟨buf, htarget, hsync, hservice⟩ := service_new hf hhdr hmsg
  exact ⟨f, rest, buf, hframes, hf, hhdr, by simpa using hsock, hgot, htarget, hsync, hservice⟩

lemma receiver_finish {tag : ℕ} {r : Receiver} (hr : receiver tag = some r) (b : ℕ) (s : OsState) :
    ∃ acted q, r.finish b s = { s with acted := acted, get_buf_addr_q := q } := by
  unfold receiver at hr
  split_ifs at hr <;> cases hr <;> exact ⟨_, _, rfl⟩

lemma finish_eq (b : ℕ) (msg : OsEntry) (s : OsState) :
    ∃ acted q, s.finish b msg =
      { s with
        acted := acted
        get_buf_addr_q := q
        recv_q := Function.update s.recv_q b none
        running := none
        got := Function.update s.got b []
        completed := s.completed ++ [(⟨s.header b, s.got b⟩, msg.buf.2)] } := by
  cases hr : receiver (s.header b).tag with
  | none => exact ⟨s.acted, s.get_buf_addr_q, by simp [OsState.finish, hr]⟩
  | some r =>
    obtain ⟨acted, q, hfinish⟩ := receiver_finish hr b s
    refine ⟨acted, q, ?_⟩
    simp only [OsState.finish, hr]
    rw [hfinish]
    rfl

/-- A message that is finished was received. -/
lemma Current.finished (hc : s.Current t b f rest msg) (hleft : msg.nleft = 0) :
    s.got b = f.body ∧ s.sock b = rest.flatMap OsFrame.bytes := by
  have hn := hc.receiving.nleft
  have hle := hc.receiving.length_le
  have hnhdr : msg.nhdr = 0 := by omega
  have hgot : s.got b = f.body := hc.receiving.begun.eq_of_length (by omega)
  refine ⟨hgot, ?_⟩
  rw [hc.receiving.sock_body hnhdr, hgot, List.drop_length, List.nil_append]

lemma streamed_init : t.init.Streamed t where
  stopped := rfl
  stream b := ⟨t.frames b, rfl, rfl, rfl⟩

end OsState

open OsState

variable {fl : FloatOps} {t : Traffic} {s s' : OsState} {act : OsAct}

theorem OsStep.streamed (hs : s.Streamed t) (hstep : OsStep fl s act s') : s'.Streamed t := by
  cases hstep with
  | resume b msg junk hstop hrun hmsg =>
    obtain ⟨f, rest, hc⟩ := hs.current hmsg
    rw [hc.service_eq hmsg]
    exact ⟨hs.stopped, hs.stream⟩
  | peek b junk hstop hrun hmsg hlen =>
    obtain ⟨f, rest, buf, hp⟩ := hs.peeked hmsg hlen junk
    rw [hp.service]
    refine hs.of_receiving (b := b) hs.stopped (fun a hne => ?_) rfl hp.frames
      (Function.update_self _ _ _) ?_
    · simp [view, begin, setEntry, newCall, setCells, OsState.peek, hne]
    · have hnew := hp.valid.receiving hp.target (rest.flatMap OsFrame.bytes)
      rw [← hp.sock, ← hp.got, ← hp.hdr] at hnew
      exact hnew
  | header b k m msg hstop hrun hmsg hm hnhdr hk hlen =>
    obtain ⟨f, rest, hc⟩ := hs.current hmsg
    have hnew := hc.receiving.header hnhdr hk
    have hhdr := hnew.hdr_eq.trans hc.receiving.hdr_eq.symm
    rw [hhdr] at hnew
    rw [hc.readHeader_eq hnhdr hk]
    refine hs.of_receiving (b := b) hs.stopped (fun a hne => ?_) rfl hc.frames
      (Function.update_self _ _ _) ?_
    · simp [view, hne]
    · simpa using hnew
  | body b k m msg hstop hrun hmsg hm hleft hnhdr hk hlen =>
    obtain ⟨f, rest, hc⟩ := hs.current hmsg
    rw [hc.body_eq hnhdr hleft hk]
    refine hs.of_receiving (b := b) hs.stopped (fun a hne => ?_) rfl hc.frames
      (Function.update_self _ _ _) ?_
    · simp [view, bodyDone, readBody, hne]
    · simpa [bodyDone, readBody, hc.header_eq] using
        hc.receiving.body hc.valid hnhdr hleft hk
  | leave b msg hstop hrun hmsg hleft => exact ⟨hs.stopped, hs.stream⟩
  | finish b m msg hstop hrun hmsg hleft =>
    obtain ⟨f, rest, hc⟩ := hs.current hmsg
    obtain ⟨hgot, hsock⟩ := hc.finished hleft
    obtain ⟨acted, q, hfinish⟩ := finish_eq b msg s
    rw [hfinish]
    refine hs.of_view (b := b) hs.stopped (fun a hne => ?_) (fun a hne => ?_) ⟨rest, ?_, ?_⟩
    · simp [view, hne]
    · simp [receivedFrom, hc.header_eq, hc.valid.src, hne.symm]
    · simp [receivedFrom, hc.header_eq, hc.valid.src, hgot, hc.frames]
    · simp [OsView.Streams, view, hsock]
  | aget b addr hstop hrun => exact ⟨hs.stopped, hs.stream⟩

end NetPipe.MpLite
