import Mathlib
import NetPipe.MpLite.Message

/-!
# Channel bonding

With several network interfaces `set_message` splits a long message, and each interface has a pointer
and a counter of its own. Here are the entries with all counters, and what the functions of the TCP
engine do to them.
-/

namespace NetPipe.MpLite

/-- `MIN_SPLIT`. -/
def minSplit : ℤ := 1500

/-- The part of `struct MP_msg_entry` that two-sided messages use, with the arrays of all
interfaces. -/
structure BondEntry where
  nbytes : ℤ
  src : ℤ
  tag : ℤ
  dest : ℤ
  buf : ℕ
  buffer : ℕ → ℕ
  ptr : ℕ → ℕ
  phdr : ℕ
  nleft : ℤ
  nbl : ℕ → ℤ
  nhdr : ℕ
  mtu : ℤ
  send_flag : ℕ
  recv_flag : ℕ

namespace BondEntry

/-- `msg_null`. -/
def null : BondEntry :=
  ⟨0, -1, -1, -1, 0, fun _ => 0, fun _ => 0, 0, 0, fun _ => 0, 0, 0, 0, 0⟩

/-- The test of `set_message`. -/
def Splits (nics : ℕ) (nbytes : ℤ) : Prop := nbytes > minSplit ∧ nics > 1

instance (nics : ℕ) (nbytes : ℤ) : Decidable (Splits nics nbytes) :=
  inferInstanceAs (Decidable (_ ∧ _))

/-- The first loop of `set_message` and the counter of the last interface. -/
def splitNbl (nics : ℕ) (nbytes : ℤ) (nbl : ℕ → ℤ) : ℕ → ℤ :=
  let r := (List.range (nics - 1)).foldl
    (fun (r : (ℕ → ℤ) × ℤ) i =>
      (Function.update r.1 i (nbytes / 8 / nics * 8), r.2 + nbytes / 8 / nics * 8)) (nbl, 0)
  Function.update r.1 (nics - 1) (nbytes - r.2)

/-- The second loop of `set_message`. -/
def splitPtr (nics : ℕ) (nbl : ℕ → ℤ) (ptr : ℕ → ℕ) : ℕ → ℕ :=
  (List.range (nics - 1)).foldl
    (fun ptr i => Function.update ptr (i + 1) (ptr i + (nbl i).toNat)) ptr

/-- `set_message`. -/
def setMessage (nics : ℕ) (nbytes src tag : ℤ) (msg : BondEntry) : BondEntry :=
  let msg := { msg with
    src := src
    tag := tag
    nbytes := nbytes
    nbl := Function.update msg.nbl 0 nbytes
    nleft := nbytes + hdrSize
    ptr := Function.update msg.ptr 0 msg.buf
    phdr := 0
    nhdr := hdrSize }
  if Splits nics nbytes then
    { msg with
      nbl := splitNbl nics nbytes msg.nbl
      ptr := splitPtr nics (splitNbl nics nbytes msg.nbl) msg.ptr }
  else msg

/-- `update_msg_progress`, when `n` bytes were transferred on interface `nic`. -/
def updateProgress (nic n : ℕ) (msg : BondEntry) : BondEntry :=
  let msg := { msg with nleft := msg.nleft - n }
  if msg.nhdr > 0 then { msg with nhdr := msg.nhdr - n, phdr := msg.phdr + n }
  else { msg with
    nbl := Function.update msg.nbl nic (msg.nbl nic - n)
    ptr := Function.update msg.ptr nic (msg.ptr nic + n) }

/-- The entry that `create_msg_entry` sets up. A negative `dest` makes it a receive. -/
def create (nics : ℕ) (myproc : ℤ) (buf : ℕ) (nbytes src dest tag : ℤ) : BondEntry :=
  let msg := { null with buf := buf, ptr := Function.update null.ptr 0 buf }.setMessage nics
    nbytes src tag
  let msg := if dest < 0 then { msg with recv_flag := 1, dest := myproc }
    else { msg with dest := dest, send_flag := 1 }
  { msg with mtu := if nics > 1 then 8192 else 1000000 }

/-- The test of `check_header` and `recv_from_q`: a message fits a posted receive. -/
def Fits (nbytes tag : ℤ) (msg : BondEntry) : Prop :=
  nbytes ≤ msg.nbytes ∧ (msg.tag < 0 ∨ tag = msg.tag)

instance (nbytes tag : ℤ) (msg : BondEntry) : Decidable (msg.Fits nbytes tag) :=
  inferInstanceAs (Decidable (_ ∧ _))

/-- What `check_header` does to an entry after its header was read. -/
def skipHeader (msg : BondEntry) : BondEntry :=
  { msg with nhdr := 0, nleft := msg.nleft - hdrSize }

/-- What `check_header` does to an entry that the header does not fit. -/
def resetHeader (msg : BondEntry) : BondEntry :=
  { msg with nhdr := hdrSize, nleft := msg.nbytes + hdrSize, phdr := 0 }

/-- `recv_from_q` for a message of `msg_q[tsrc]` that is complete. -/
def copyComplete (nics : ℕ) (tsrc : ℤ) (msg p : BondEntry) : BondEntry :=
  { msg.setMessage nics p.nbytes tsrc p.tag with nleft := 0, nhdr := 0 }

/-- The loop of `recv_from_q` that copies what interface `nic` has received. -/
def copyNic (p msg : BondEntry) (nic : ℕ) : BondEntry :=
  let n := msg.nbl nic - p.nbl nic
  { msg with
    nbl := Function.update msg.nbl nic (msg.nbl nic - n)
    ptr := Function.update msg.ptr nic (msg.ptr nic + n.toNat) }

/-- `recv_from_q` for a message of `msg_q[tsrc]` of which a part has arrived. -/
def copyPart (nics : ℕ) (tsrc : ℤ) (msg p : BondEntry) : BondEntry :=
  (List.range nics).foldl (copyNic p)
    { msg.setMessage nics p.nbytes tsrc p.tag with nhdr := 0, nleft := p.nleft, mtu := p.mtu }

/-- The loop of `push_to_buffer`, where `malloc` returns `addr i` for interface `i`. -/
def pushNic (addr : ℕ → ℕ) (msg : BondEntry) (i : ℕ) : BondEntry :=
  if msg.nbl i > 0 then
    { msg with
      buffer := Function.update msg.buffer i (addr i)
      ptr := Function.update msg.ptr i (addr i) }
  else msg

/-- `push_to_buffer`. -/
def pushToBuffer (nics : ℕ) (addr : ℕ → ℕ) (msg : BondEntry) : BondEntry :=
  { (List.range nics).foldl (pushNic addr) msg with send_flag := 3 }

/-- `send_to_q`, where `malloc` returns `a`. -/
def sendToQ (a : ℕ) (msg : BondEntry) : BondEntry :=
  { msg with buf := a, nleft := 0, nhdr := 0, send_flag := 3 }

/-! ### One interface -/

/-- The entry with the first interface only. -/
def first (msg : BondEntry) : MsgEntry :=
  ⟨msg.nbytes, msg.src, msg.tag, msg.dest, msg.buf, msg.buffer 0, msg.ptr 0, msg.phdr, msg.nleft,
    msg.nbl 0, msg.nhdr, msg.mtu, msg.send_flag, msg.recv_flag⟩

/-- With one interface the entries are those of the other modules. -/
lemma first_setMessage (nbytes src tag : ℤ) (msg : BondEntry) :
    (msg.setMessage 1 nbytes src tag).first = msg.first.setMessage nbytes src tag := by
  simp [setMessage, Splits, first, MsgEntry.setMessage]

lemma first_updateProgress (n : ℕ) (msg : BondEntry) :
    (msg.updateProgress 0 n).first = msg.first.updateProgress n := by
  by_cases h : 0 < msg.nhdr <;> simp [updateProgress, MsgEntry.updateProgress, first, h]

lemma first_create (myproc : ℤ) (buf : ℕ) (nbytes src dest tag : ℤ) :
    (create 1 myproc buf nbytes src dest tag).first =
      MsgEntry.create myproc buf nbytes src dest tag := by
  simp only [create, MsgEntry.create, setMessage, MsgEntry.setMessage, Splits, first]
  split_ifs <;> simp_all [null, msgNull]

/-! ### The property -/

/-- The bytes that interface `i` has still to transfer. -/
def segment (msg : BondEntry) (i : ℕ) : Set ℕ := Set.Ico (msg.ptr i) (msg.ptr i + (msg.nbl i).toNat)

/-- The counters of an entry agree, and no byte is transferred twice. -/
structure Conserved (nics : ℕ) (msg : BondEntry) : Prop where
  nleft : msg.nleft = msg.nhdr + ∑ i ∈ Finset.range nics, msg.nbl i
  nbl : ∀ i < nics, 0 ≤ msg.nbl i
  apart : ∀ i < nics, ∀ j < nics, i ≠ j → Disjoint (msg.segment i) (msg.segment j)

/-- The bytes still to be transferred lie in the buffer of the user. -/
def Inside (nics : ℕ) (msg : BondEntry) : Prop :=
  ∀ i < nics, msg.segment i ⊆ Set.Ico msg.buf (msg.buf + msg.nbytes.toNat)

/-! ### The parts of a message -/

/-- The number of bytes of interface `i`. -/
def share (nics : ℕ) (nbytes : ℤ) (i : ℕ) : ℤ :=
  if Splits nics nbytes then
    if i < nics - 1 then nbytes / 8 / nics * 8 else nbytes - (nics - 1 : ℕ) * (nbytes / 8 / nics * 8)
  else if i = 0 then nbytes else 0

/-- Where the bytes of interface `i` begin. -/
def offset (nics : ℕ) (nbytes : ℤ) (i : ℕ) : ℕ :=
  ∑ j ∈ Finset.range i, (share nics nbytes j).toNat

section

variable {nics i j n : ℕ} {nbytes src tag : ℤ} {msg p : BondEntry}

lemma share_nonneg (h : 0 ≤ nbytes) (i : ℕ) : 0 ≤ share nics nbytes i := by
  have hq : 0 ≤ nbytes / 8 / nics := by positivity
  rw [share]
  split_ifs with hsplit hi h0
  · exact Int.mul_nonneg hq (by decide)
  · have hnics : (0 : ℤ) ≤ nics := Int.natCast_nonneg nics
    have hmul : nbytes / 8 / nics * nics ≤ nbytes / 8 := by
      rcases hnics.eq_or_lt with hzero | hpos
      · rw [← hzero]
        simp only [mul_zero]
        positivity
      · exact Int.ediv_mul_le _ hpos.ne'
    have hpred : ((nics - 1 : ℕ) : ℤ) ≤ nics := by omega
    have hle : ((nics - 1 : ℕ) : ℤ) * (nbytes / 8 / nics * 8) ≤ nbytes := by
      calc ((nics - 1 : ℕ) : ℤ) * (nbytes / 8 / nics * 8)
          ≤ nics * (nbytes / 8 / nics * 8) :=
            Int.mul_le_mul_of_nonneg_right hpred (Int.mul_nonneg hq (by decide))
        _ = nbytes / 8 / nics * nics * 8 := by ring
        _ ≤ nbytes / 8 * 8 := Int.mul_le_mul_of_nonneg_right hmul (by decide)
        _ ≤ nbytes := Int.ediv_mul_le _ (by decide)
    exact Int.sub_nonneg_of_le hle
  · exact h
  · exact le_refl _

/-- The parts make up the message. -/
lemma sum_share (hnics : 0 < nics) (nbytes : ℤ) :
    ∑ i ∈ Finset.range nics, share nics nbytes i = nbytes := by
  obtain ⟨m, rfl⟩ : ∃ m, nics = m + 1 := ⟨nics - 1, by omega⟩
  by_cases hsplit : Splits (m + 1) nbytes
  · have hfirst : ∀ i ∈ Finset.range m, share (m + 1) nbytes i = nbytes / 8 / (m + 1 : ℕ) * 8 := by
      intro i hi
      rw [share, if_pos hsplit, if_pos (by simpa using hi)]
    rw [Finset.sum_range_succ, Finset.sum_congr rfl hfirst, Finset.sum_const, Finset.card_range,
      share, if_pos hsplit, if_neg (by simp), nsmul_eq_mul]
    simp
  · have hshare : ∀ i ∈ Finset.range (m + 1),
        share (m + 1) nbytes i = if i = 0 then nbytes else 0 := by
      intro i _
      rw [share, if_neg hsplit]
    rw [Finset.sum_congr rfl hshare]
    simp

lemma offset_succ (i : ℕ) :
    offset nics nbytes (i + 1) = offset nics nbytes i + (share nics nbytes i).toNat :=
  Finset.sum_range_succ _ _

lemma offset_mono {a b : ℕ} (h : a ≤ b) : offset nics nbytes a ≤ offset nics nbytes b :=
  Finset.sum_le_sum_of_subset (Finset.range_mono h)

/-- Each part ends within the message. -/
lemma offset_le (h : 0 ≤ nbytes) (hi : i < nics) :
    offset nics nbytes i + (share nics nbytes i).toNat ≤ nbytes.toNat := by
  have hsum : ((offset nics nbytes nics : ℕ) : ℤ) = nbytes := by
    rw [offset, Nat.cast_sum]
    exact (Finset.sum_congr rfl fun j _ => Int.toNat_of_nonneg (share_nonneg h j)).trans
      (sum_share (Nat.zero_lt_of_lt hi) nbytes)
  have hle := @offset_mono nics nbytes _ _ hi
  rw [offset_succ] at hle
  omega

/-- The loops of `set_message`. -/
lemma splitNbl_eq (nbl : ℕ → ℤ) (hi : i < nics) :
    splitNbl nics nbytes nbl i =
      if i < nics - 1 then nbytes / 8 / nics * 8
      else nbytes - (nics - 1 : ℕ) * (nbytes / 8 / nics * 8) := by
  have hloop : ∀ (q : ℤ) (m : ℕ),
      (((List.range m).foldl (fun (r : (ℕ → ℤ) × ℤ) i => (Function.update r.1 i q, r.2 + q))
        (nbl, 0)).1 = fun j => if j < m then q else nbl j) ∧
      ((List.range m).foldl (fun (r : (ℕ → ℤ) × ℤ) i => (Function.update r.1 i q, r.2 + q))
        (nbl, 0)).2 = m * q := by
    intro q m
    induction m with
    | zero => simp
    | succ m ih =>
      rw [List.range_succ, List.foldl_append, List.foldl_cons, List.foldl_nil, ih.1, ih.2]
      constructor
      · funext j
        rcases lt_trichotomy j m with hj | rfl | hj
        · simp [hj.ne, hj, Nat.lt_succ_of_lt hj]
        · simp
        · simp [hj.ne', hj.not_gt, show ¬ j < m + 1 by omega]
      · push_cast
        ring
  obtain ⟨h₁, h₂⟩ := hloop (nbytes / 8 / nics * 8) (nics - 1)
  rw [splitNbl, h₁, h₂]
  rcases Nat.lt_or_ge i (nics - 1) with hlt | hge
  · simp [hlt.ne, hlt]
  · obtain rfl : i = nics - 1 := by omega
    simp

lemma splitPtr_eq (nbl : ℕ → ℤ) (ptr : ℕ → ℕ) (hi : i < nics) :
    splitPtr nics nbl ptr i = ptr 0 + ∑ j ∈ Finset.range i, (nbl j).toNat := by
  have hloop : ∀ m, ∀ j ≤ m, (List.range m).foldl
      (fun ptr i => Function.update ptr (i + 1) (ptr i + (nbl i).toNat)) ptr j =
        ptr 0 + ∑ j ∈ Finset.range j, (nbl j).toNat := by
    intro m
    induction m with
    | zero =>
      intro j hj
      obtain rfl : j = 0 := Nat.le_zero.mp hj
      simp
    | succ m ih =>
      intro j hj
      rw [List.range_succ, List.foldl_append, List.foldl_cons, List.foldl_nil]
      rcases Nat.lt_or_ge j (m + 1) with hlt | hge
      · rw [Function.update_of_ne hlt.ne]
        exact ih j (Nat.lt_succ_iff.mp hlt)
      · obtain rfl : j = m + 1 := le_antisymm hj hge
        rw [Function.update_self, ih m (le_refl m), Finset.sum_range_succ, Nat.add_assoc]
  exact hloop (nics - 1) i (by omega)

@[simp] lemma setMessage_nbytes : (msg.setMessage nics nbytes src tag).nbytes = nbytes := by
  rw [setMessage]
  split_ifs <;> rfl

@[simp] lemma setMessage_tag : (msg.setMessage nics nbytes src tag).tag = tag := by
  rw [setMessage]
  split_ifs <;> rfl

@[simp] lemma setMessage_buf : (msg.setMessage nics nbytes src tag).buf = msg.buf := by
  rw [setMessage]
  split_ifs <;> rfl

@[simp] lemma setMessage_send_flag :
    (msg.setMessage nics nbytes src tag).send_flag = msg.send_flag := by
  rw [setMessage]
  split_ifs <;> rfl

@[simp] lemma setMessage_nhdr : (msg.setMessage nics nbytes src tag).nhdr = hdrSize := by
  rw [setMessage]
  split_ifs <;> rfl

@[simp] lemma setMessage_nleft :
    (msg.setMessage nics nbytes src tag).nleft = nbytes + hdrSize := by
  rw [setMessage]
  split_ifs <;> rfl

/-- The counters and pointers after `set_message`, if an entry that was split is split again. -/
lemma setMessage_parts
    (hold : ∀ i < nics, i ≠ 0 → ¬ Splits nics nbytes → msg.nbl i = 0) (hi : i < nics) :
    (msg.setMessage nics nbytes src tag).nbl i = share nics nbytes i ∧
      (0 < share nics nbytes i →
        (msg.setMessage nics nbytes src tag).ptr i = msg.buf + offset nics nbytes i) := by
  rw [setMessage]
  split_ifs with hsplit
  · have hnbl : ∀ j < nics, splitNbl nics nbytes (Function.update msg.nbl 0 nbytes) j =
        share nics nbytes j := by
      intro j hj
      rw [splitNbl_eq _ hj, share, if_pos hsplit]
    refine ⟨hnbl i hi, fun _ => ?_⟩
    show splitPtr nics _ (Function.update msg.ptr 0 msg.buf) i = _
    rw [splitPtr_eq _ _ hi, Function.update_self, offset]
    refine congrArg _ (Finset.sum_congr rfl fun j hj => ?_)
    rw [hnbl j ((Finset.mem_range.mp hj).trans hi)]
  · rcases eq_or_ne i 0 with rfl | hne
    · simp [share, hsplit, offset]
    · simp [share, hsplit, hne, hold i hi hne hsplit]

end

/-! ### The invariant -/

/-- An entry that was not completed by a copy: each interface has the end of its part left. -/
structure Parts (nics : ℕ) (msg : BondEntry) : Prop where
  nbytes : 0 ≤ msg.nbytes
  nleft : msg.nleft = msg.nhdr + ∑ i ∈ Finset.range nics, msg.nbl i
  range : ∀ i < nics, 0 ≤ msg.nbl i ∧ msg.nbl i ≤ share nics msg.nbytes i
  whole : msg.nhdr ≠ 0 → ∀ i < nics, msg.nbl i = share nics msg.nbytes i
  /-- unless the rest was pushed to private buffers -/
  place : msg.send_flag ≠ 3 → msg.buf ≠ 0 → ∀ i < nics, 0 < msg.nbl i →
    (msg.ptr i : ℤ) + msg.nbl i = msg.buf + offset nics msg.nbytes i + share nics msg.nbytes i
  apart : msg.send_flag = 3 → ∀ i < nics, ∀ j < nics, i ≠ j →
    Disjoint (msg.segment i) (msg.segment j)

section

variable {nics i j n : ℕ} {nbytes src tag tsrc : ℤ} {msg p : BondEntry}

lemma segment_eq_empty (h : msg.nbl i ≤ 0) : msg.segment i = ∅ := by
  rw [segment, Int.toNat_of_nonpos h, Nat.add_zero, Set.Ico_self]

/-- The parts that are left lie where the message was split. -/
lemma Parts.bounds (h : msg.Parts nics) (hflag : msg.send_flag ≠ 3) (hbuf : msg.buf ≠ 0)
    (hi : i < nics) {x : ℕ} (hx : x ∈ msg.segment i) : msg.buf + offset nics msg.nbytes i ≤ x ∧
      x < msg.buf + offset nics msg.nbytes (i + 1) := by
  rcases lt_or_ge 0 (msg.nbl i) with hpos | hle
  · have hplace := h.place hflag hbuf i hi hpos
    have hrange := h.range i hi
    obtain ⟨h₁, h₂⟩ := hx
    rw [offset_succ]
    omega
  · rw [segment_eq_empty hle] at hx
    exact hx.elim

lemma Parts.inside (h : msg.Parts nics) (hflag : msg.send_flag ≠ 3) (hbuf : msg.buf ≠ 0) :
    msg.Inside nics := by
  intro i hi x hx
  obtain ⟨h₁, h₂⟩ := h.bounds hflag hbuf hi hx
  have hle := offset_le h.nbytes hi
  rw [offset_succ] at h₂
  rw [Set.mem_Ico]
  omega

lemma Parts.conserved (h : msg.Parts nics) (hbuf : msg.buf ≠ 0) : msg.Conserved nics := by
  refine ⟨h.nleft, fun i hi => (h.range i hi).1, fun i hi j hj hij => ?_⟩
  by_cases hflag : msg.send_flag = 3
  · exact h.apart hflag i hi j hj hij
  · rw [Set.disjoint_left]
    intro x hx hx'
    obtain ⟨h₁, h₂⟩ := h.bounds hflag hbuf hi hx
    obtain ⟨h₃, h₄⟩ := h.bounds hflag hbuf hj hx'
    rcases lt_or_gt_of_ne hij with hlt | hlt
    · have hle : offset nics msg.nbytes (i + 1) ≤ offset nics msg.nbytes j := offset_mono hlt
      omega
    · have hle : offset nics msg.nbytes (j + 1) ≤ offset nics msg.nbytes i := offset_mono hlt
      omega

/-- `set_message` splits a message that fits. -/
lemma parts_setMessage (hnics : 0 < nics) (hnbytes : 0 ≤ nbytes) (hflag : msg.send_flag ≠ 3)
    (hold : ∀ i < nics, i ≠ 0 → ¬ Splits nics nbytes → msg.nbl i = 0) :
    (msg.setMessage nics nbytes src tag).Parts nics := by
  have hparts := fun i hi => @setMessage_parts nics i nbytes src tag msg hold hi
  refine ⟨by simpa using hnbytes, ?_, ?_, ?_, ?_, ?_⟩
  · rw [Finset.sum_congr rfl fun i hi => (hparts i (Finset.mem_range.mp hi)).1, sum_share hnics]
    simp [add_comm]
  · intro i hi
    rw [setMessage_nbytes, (hparts i hi).1]
    exact ⟨share_nonneg hnbytes i, le_refl _⟩
  · intro _ i hi
    rw [setMessage_nbytes, (hparts i hi).1]
  · intro _ _ i hi hpos
    rw [(hparts i hi).1] at hpos ⊢
    rw [setMessage_nbytes, setMessage_buf, (hparts i hi).2 hpos]
    push_cast
    rfl
  · intro h3
    exact absurd (setMessage_send_flag ▸ h3) hflag

lemma parts_create (hnics : 0 < nics) (hnbytes : 0 ≤ nbytes) (myproc : ℤ) (buf : ℕ)
    (src dest tag : ℤ) : (create nics myproc buf nbytes src dest tag).Parts nics := by
  have hzero : ({ null with buf := buf, ptr := Function.update null.ptr 0 buf } :
      BondEntry).send_flag ≠ 3 := (by decide : 0 ≠ 3)
  have h := @parts_setMessage nics nbytes src tag _ hnics hnbytes hzero fun _ _ _ _ => rfl
  have hflag := hzero
  rw [← @setMessage_send_flag nics nbytes src tag] at hflag
  rw [create]
  split_ifs <;> exact ⟨h.nbytes, h.nleft, h.range, h.whole, fun _ => h.place hflag, by simp [null]⟩

/-- Progress in the header. -/
lemma updateProgress_header (h : 0 < msg.nhdr) : msg.updateProgress i n =
    { msg with nleft := msg.nleft - n, nhdr := msg.nhdr - n, phdr := msg.phdr + n } :=
  if_pos h

/-- Progress in the body. -/
lemma updateProgress_body (h : msg.nhdr = 0) : msg.updateProgress i n =
    { msg with
      nleft := msg.nleft - n
      nbl := Function.update msg.nbl i (msg.nbl i - n)
      ptr := Function.update msg.ptr i (msg.ptr i + n) } :=
  if_neg (by rw [h]; exact Nat.lt_irrefl 0)

/-- Header bytes are transferred. -/
lemma Parts.header (h : msg.Parts nics) (hn : n ≤ msg.nhdr) (hpos : 0 < msg.nhdr) :
    (msg.updateProgress 0 n).Parts nics := by
  have hleft := h.nleft
  rw [updateProgress_header hpos]
  refine ⟨h.nbytes, ?_, h.range, fun _ => h.whole hpos.ne', h.place, h.apart⟩
  show msg.nleft - n = ((msg.nhdr - n : ℕ) : ℤ) + ∑ i ∈ Finset.range nics, msg.nbl i
  omega

/-- Bytes of the body are transferred on interface `i`. -/
lemma Parts.body (h : msg.Parts nics) (hhdr : msg.nhdr = 0) (hi : i < nics)
    (hn : (n : ℤ) ≤ msg.nbl i) : (msg.updateProgress i n).Parts nics := by
  have hsum : ∑ j ∈ Finset.range nics, Function.update msg.nbl i (msg.nbl i - n) j =
      ∑ j ∈ Finset.range nics, msg.nbl j - n := by
    rw [Finset.sum_update_of_mem (Finset.mem_range.mpr hi),
      ← Finset.add_sum_erase _ _ (Finset.mem_range.mpr hi), Finset.sdiff_singleton_eq_erase]
    ring
  have hleft := h.nleft
  rw [updateProgress_body hhdr]
  refine ⟨h.nbytes, ?_, ?_, fun hne => absurd hhdr hne, ?_, ?_⟩
  · show msg.nleft - n = (msg.nhdr : ℤ) +
      ∑ j ∈ Finset.range nics, Function.update msg.nbl i (msg.nbl i - n) j
    rw [hsum]
    omega
  · intro j hj
    have hrange := h.range j hj
    show 0 ≤ Function.update msg.nbl i _ j ∧ Function.update msg.nbl i _ j ≤ share nics msg.nbytes j
    rcases eq_or_ne j i with rfl | hne
    · rw [Function.update_self]
      omega
    · rwa [Function.update_of_ne hne]
  · intro hflag hbuf j hj
    show 0 < Function.update msg.nbl i _ j →
      ((Function.update msg.ptr i _ j : ℕ) : ℤ) + Function.update msg.nbl i _ j = _
    rcases eq_or_ne j i with rfl | hne
    · intro hpos
      rw [Function.update_self] at hpos
      have hplace := h.place hflag hbuf j hj (by omega)
      rw [Function.update_self, Function.update_self, ← hplace]
      push_cast
      ring
    · rw [Function.update_of_ne hne, Function.update_of_ne hne]
      exact h.place hflag hbuf j hj
  · intro hflag a ha b hb hab
    -- what is left of a segment is a part of it
    have hsub : ∀ j < nics, segment { msg with
        nleft := msg.nleft - n
        nbl := Function.update msg.nbl i (msg.nbl i - n)
        ptr := Function.update msg.ptr i (msg.ptr i + n) } j ⊆ msg.segment j := by
      intro j hj x hx
      rw [segment, Set.mem_Ico] at hx ⊢
      rcases eq_or_ne j i with rfl | hne
      · simp only [Function.update_self] at hx
        omega
      · simpa [hne] using hx
    exact (h.apart hflag a ha b hb hab).mono (hsub a ha) (hsub b hb)

/-- `check_header` goes on with an entry that has nothing of the message yet. -/
lemma Parts.skipHeader (h : msg.Parts nics) (hhdr : msg.nhdr = hdrSize) :
    msg.skipHeader.Parts nics := by
  have hleft := h.nleft
  refine ⟨h.nbytes, ?_, h.range, fun hne => absurd rfl hne, h.place, h.apart⟩
  show msg.nleft - hdrSize = ((0 : ℕ) : ℤ) + ∑ i ∈ Finset.range nics, msg.nbl i
  rw [hleft, hhdr]
  push_cast
  ring

/-- `check_header` sets back an entry that waits for another message. -/
lemma Parts.resetHeader (hnics : 0 < nics) (h : msg.Parts nics) (hhdr : msg.nhdr ≠ 0) (n : ℕ) :
    (msg.updateProgress 0 n).resetHeader.Parts nics := by
  have hwhole := h.whole hhdr
  have hsum : ∑ i ∈ Finset.range nics, msg.nbl i = msg.nbytes :=
    (Finset.sum_congr rfl fun i hi => hwhole i (Finset.mem_range.mp hi)).trans (sum_share hnics _)
  rw [updateProgress_header (Nat.pos_of_ne_zero hhdr)]
  refine ⟨h.nbytes, ?_, h.range, fun _ => hwhole, h.place, h.apart⟩
  show msg.nbytes + hdrSize = (hdrSize : ℤ) + ∑ i ∈ Finset.range nics, msg.nbl i
  rw [hsum, add_comm]

/-- `set_message` for a shorter message in an entry that has nothing of the message yet. -/
lemma Parts.setMessage (hnics : 0 < nics) (h : msg.Parts nics) (hhdr : msg.nhdr ≠ 0)
    (hflag : msg.send_flag ≠ 3) (hnbytes : 0 ≤ nbytes)
    (hsplit : Splits nics msg.nbytes → Splits nics nbytes) (src tag : ℤ) :
    (msg.setMessage nics nbytes src tag).Parts nics := by
  refine parts_setMessage hnics hnbytes hflag fun i hi hne hnot => ?_
  rw [h.whole hhdr i hi, share, if_neg (mt hsplit hnot), if_neg hne]

/-- The loop of `recv_from_q`. -/
lemma copyNic_foldl (p msg : BondEntry) (m i : ℕ) :
    ((List.range m).foldl (copyNic p) msg).nbl i = (if i < m then p.nbl i else msg.nbl i) ∧
      ((List.range m).foldl (copyNic p) msg).ptr i =
        if i < m then msg.ptr i + (msg.nbl i - p.nbl i).toNat else msg.ptr i := by
  induction m generalizing i with
  | zero => simp
  | succ m ih =>
    rw [List.range_succ, List.foldl_append, List.foldl_cons, List.foldl_nil, copyNic]
    have hm := ih m
    have hi := ih i
    simp only [lt_irrefl, if_false] at hm
    rcases lt_trichotomy i m with hlt | rfl | hgt
    · simpa [hlt, hlt.ne, Nat.lt_succ_of_lt hlt] using hi
    · simp [hm]
    · simpa [hgt.ne', hgt.not_gt, show ¬ i < m + 1 by omega] using hi

lemma copyNic_fields (p msg : BondEntry) (m : ℕ) :
    let msg' := (List.range m).foldl (copyNic p) msg
    msg'.nbytes = msg.nbytes ∧ msg'.buf = msg.buf ∧ msg'.nleft = msg.nleft ∧
      msg'.nhdr = msg.nhdr ∧ msg'.send_flag = msg.send_flag := by
  induction m with
  | zero => simp
  | succ m ih =>
    rw [List.range_succ, List.foldl_append]
    exact ih

/-- `recv_from_q` takes over a message of which a part has arrived. -/
lemma parts_copyPart (hnics : 0 < nics) (h : msg.Parts nics) (hhdr : msg.nhdr ≠ 0)
    (hflag : msg.send_flag ≠ 3) (hp : p.Parts nics) (hphdr : p.nhdr = 0)
    (hsplit : Splits nics msg.nbytes → Splits nics p.nbytes) (tsrc : ℤ) :
    (msg.copyPart nics tsrc p).Parts nics := by
  have hset := h.setMessage hnics hhdr hflag hp.nbytes hsplit tsrc p.tag
  have hwhole := hset.whole (by simp [hdrSize])
  set msg₁ := msg.setMessage nics p.nbytes tsrc p.tag with hmsg₁
  set msg₂ : BondEntry := { msg₁ with nhdr := 0, nleft := p.nleft, mtu := p.mtu } with hmsg₂
  have hnbytes : msg₁.nbytes = p.nbytes := setMessage_nbytes
  have hflag₁ : msg₁.send_flag ≠ 3 := by
    rw [hmsg₁, setMessage_send_flag]
    exact hflag
  obtain ⟨h₁, h₂, h₃, h₄, h₅⟩ := copyNic_fields p msg₂ nics
  have hloop := copyNic_foldl p msg₂ nics
  have hnbl : ∀ i < nics, (msg.copyPart nics tsrc p).nbl i = p.nbl i := by
    intro i hi
    exact ((hloop i).1).trans (if_pos hi)
  refine ⟨?_, ?_, ?_, fun hne => absurd h₄ hne, ?_, fun h3 => absurd (h₅.symm.trans h3) hflag₁⟩
  · rw [copyPart, h₁]
    exact hset.nbytes
  · rw [Finset.sum_congr rfl fun i hi => hnbl i (Finset.mem_range.mp hi)]
    rw [copyPart, h₃, h₄]
    simpa [hphdr] using hp.nleft
  · intro i hi
    rw [hnbl i hi, copyPart, h₁]
    show 0 ≤ p.nbl i ∧ p.nbl i ≤ share nics msg₁.nbytes i
    rw [hnbytes]
    exact hp.range i hi
  · intro _ hbuf i hi hpos
    rw [hnbl i hi] at hpos ⊢
    have hrange := hp.range i hi
    have hw : msg₁.nbl i = share nics p.nbytes i := hnbytes ▸ hwhole i hi
    have hplace := hset.place hflag₁ (h₂.symm.trans_ne hbuf) i hi (by omega)
    have hptr : (msg.copyPart nics tsrc p).ptr i = msg₁.ptr i + (msg₁.nbl i - p.nbl i).toNat :=
      ((hloop i).2).trans (if_pos hi)
    rw [hptr, copyPart, h₁, h₂]
    show ((msg₁.ptr i + (msg₁.nbl i - p.nbl i).toNat : ℕ) : ℤ) + p.nbl i =
      msg₁.buf + offset nics msg₁.nbytes i + share nics msg₁.nbytes i
    rw [← hplace]
    omega

/-- The loop of `push_to_buffer`. -/
lemma pushNic_foldl (addr : ℕ → ℕ) (msg : BondEntry) (m : ℕ) :
    let msg' := (List.range m).foldl (pushNic addr) msg
    (msg'.nbytes = msg.nbytes ∧ msg'.buf = msg.buf ∧ msg'.nleft = msg.nleft ∧
      msg'.nhdr = msg.nhdr ∧ msg'.nbl = msg.nbl) ∧
      ∀ i < m, 0 < msg.nbl i → msg'.ptr i = addr i := by
  induction m with
  | zero => simp
  | succ m ih =>
    obtain ⟨hfields, hptr⟩ := ih
    simp only [List.range_succ, List.foldl_append, List.foldl_cons, List.foldl_nil]
    rw [pushNic]
    split_ifs with hpos
    · refine ⟨hfields, fun i hi hnbl => ?_⟩
      show Function.update ((List.range m).foldl (pushNic addr) msg).ptr m (addr m) i = addr i
      rcases eq_or_ne i m with rfl | hne
      · exact Function.update_self _ _ _
      · rw [Function.update_of_ne hne]
        exact hptr i (lt_of_le_of_ne (Nat.lt_succ_iff.mp hi) hne) hnbl
    · refine ⟨hfields, fun i hi hnbl => ?_⟩
      rcases eq_or_ne i m with rfl | hne
      · rw [hfields.2.2.2.2] at hpos
        exact absurd hnbl hpos
      · exact hptr i (lt_of_le_of_ne (Nat.lt_succ_iff.mp hi) hne) hnbl

/-- The blocks of `malloc` for the interfaces do not overlap. -/
def Fresh (nics : ℕ) (addr : ℕ → ℕ) (msg : BondEntry) : Prop :=
  ∀ i < nics, ∀ j < nics, i ≠ j →
    addr i + (msg.nbl i).toNat ≤ addr j ∨ addr j + (msg.nbl j).toNat ≤ addr i

instance (nics : ℕ) (addr : ℕ → ℕ) (msg : BondEntry) : Decidable (msg.Fresh nics addr) :=
  inferInstanceAs (Decidable (∀ i < nics, ∀ j < nics, i ≠ j → _))

lemma parts_pushToBuffer (h : msg.Parts nics) {addr : ℕ → ℕ} (haddr : msg.Fresh nics addr) :
    (msg.pushToBuffer nics addr).Parts nics := by
  obtain ⟨⟨h₁, -, h₃, h₄, h₅⟩, hptr⟩ := pushNic_foldl addr msg nics
  have hnbl : (msg.pushToBuffer nics addr).nbl = msg.nbl := h₅
  have hnb : (msg.pushToBuffer nics addr).nbytes = msg.nbytes := h₁
  have hnhdr : (msg.pushToBuffer nics addr).nhdr = msg.nhdr := h₄
  have hleft : (msg.pushToBuffer nics addr).nleft = msg.nleft := h₃
  refine ⟨hnb ▸ h.nbytes, ?_, ?_, ?_, fun hne => absurd rfl hne, fun _ i hi j hj hij => ?_⟩
  · rw [hleft, hnhdr, hnbl, h.nleft]
  · rw [hnbl, hnb]
    exact h.range
  · rw [hnhdr, hnbl, hnb]
    exact h.whole
  · rw [Set.disjoint_left]
    intro x hx hx'
    rw [segment, hnbl, Set.mem_Ico] at hx hx'
    have hi' : (msg.pushToBuffer nics addr).ptr i = addr i := hptr i hi (by omega)
    have hj' : (msg.pushToBuffer nics addr).ptr j = addr j := hptr j hj (by omega)
    rw [hi'] at hx
    rw [hj'] at hx'
    rcases haddr i hi j hj hij with hle | hle <;> omega

end

end BondEntry

/-! ### Runs -/

/-- What happens to the entries: an operation names the entries it changes, the message or header it
is about, and what `read`, `write` or `malloc` returns. -/
inductive BondOp where
  | create (id buf : ℕ) (nbytes src dest tag : ℤ)
  /-- `MP_ASend` to the process itself -/
  | sendSelf (id buf a : ℕ) (nbytes tag : ℤ)
  | header (id n : ℕ)
  | body (id nic n : ℕ)
  /-- `check_header`, after the rest of the header was read for `id`: it fits -/
  | matched (id : ℕ) (nbytes src tag : ℤ)
  /-- it fits `p` instead -/
  | redirected (id p : ℕ) (nbytes src tag : ℤ)
  /-- it fits no entry, and `new` is created -/
  | unexpected (id new buf : ℕ) (nbytes src tag : ℤ)
  /-- `recv_from_q`, where `p` is the message of `msg_q[tsrc]` -/
  | fromQ (id p : ℕ) (tsrc : ℤ)
  /-- the signal handler, for a receive from any source -/
  | anySource (id : ℕ) (nbytes node tag : ℤ)
  | push (id : ℕ) (addr : ℕ → ℕ)
  | free (id : ℕ)

/-- The entries. `copied` marks those whose message was completed by a copy in memory. -/
structure BondState where
  msg_list : ℕ → BondEntry
  copied : ℕ → Bool

namespace BondState

open BondEntry

/-- Change an entry. -/
def setEntry (s : BondState) (id : ℕ) (msg : BondEntry) : BondState :=
  { s with msg_list := Function.update s.msg_list id msg }

/-- Set up a new entry, or one whose message is not completed by a copy. -/
def setCopied (s : BondState) (id : ℕ) (c : Bool) (msg : BondEntry) : BondState :=
  { msg_list := Function.update s.msg_list id msg, copied := Function.update s.copied id c }

/-- An operation, if the functions of the engine can perform it. The loops of `do_send` and
`do_recv` run while `nleft` is positive. -/
def step (nics : ℕ) (myproc : ℤ) (s : BondState) : BondOp → Option BondState
  | .create id buf nbytes src dest tag =>
    if (s.msg_list id).buf = 0 ∧ buf ≠ 0 ∧ 0 ≤ nbytes then
      some (s.setCopied id false (create nics myproc buf nbytes src dest tag))
    else none
  | .sendSelf id buf a nbytes tag =>
    if (s.msg_list id).buf = 0 ∧ buf ≠ 0 ∧ a ≠ 0 ∧ 0 ≤ nbytes then
      some (s.setCopied id true ((create nics myproc buf nbytes myproc myproc tag).sendToQ a))
    else none
  | .header id n =>
    let msg := s.msg_list id
    if 0 < msg.nhdr ∧ n ≤ msg.nhdr ∧ (msg.recv_flag = 0 ∨ n < msg.nhdr) then
      some (s.setEntry id (msg.updateProgress 0 n))
    else none
  | .body id nic n =>
    let msg := s.msg_list id
    if msg.nhdr = 0 ∧ 0 < msg.nleft ∧ nic < nics ∧ n ≤ msg.nbl nic then
      some (s.setEntry id (msg.updateProgress nic n))
    else none
  | .matched id nbytes src tag =>
    let msg := s.msg_list id
    if msg.recv_flag ≠ 0 ∧ msg.send_flag = 0 ∧ 0 < msg.nhdr ∧ 0 ≤ nbytes ∧ msg.Fits nbytes tag then
      some (s.setEntry id
        ((msg.updateProgress 0 msg.nhdr).setMessage nics nbytes src tag).skipHeader)
    else none
  | .redirected id p nbytes _ tag =>
    let msg := s.msg_list id
    if msg.recv_flag ≠ 0 ∧ 0 < msg.nhdr ∧ 0 ≤ nbytes ∧ ¬ msg.Fits nbytes tag ∧
        (s.msg_list p).Fits nbytes tag then
      some ((s.setEntry id (msg.updateProgress 0 msg.nhdr).resetHeader).setEntry p
        (s.msg_list p).skipHeader)
    else none
  | .unexpected id new buf nbytes src tag =>
    let msg := s.msg_list id
    if msg.recv_flag ≠ 0 ∧ 0 < msg.nhdr ∧ 0 ≤ nbytes ∧ ¬ msg.Fits nbytes tag ∧ id ≠ new ∧
        (s.msg_list new).buf = 0 ∧ buf ≠ 0 then
      some ((s.setEntry id (msg.updateProgress 0 msg.nhdr).resetHeader).setCopied new false
        (create nics myproc buf nbytes src (-1) tag).skipHeader)
    else none
  | .fromQ id p tsrc =>
    let msg := s.msg_list id
    let p' := s.msg_list p
    if msg.recv_flag ≠ 0 ∧ msg.send_flag = 0 ∧ 0 < msg.nhdr ∧ p'.buf ≠ 0 ∧ p'.nhdr = 0 ∧
        msg.Fits p'.nbytes p'.tag then
      let s' :=
        if p'.nleft = 0 then s.setCopied id true (msg.copyComplete nics tsrc p')
        else s.setEntry id (msg.copyPart nics tsrc p')
      some (s'.setEntry p { p' with buf := 0 })
    else none
  | .anySource id nbytes node tag =>
    let msg := s.msg_list id
    if msg.recv_flag ≠ 0 ∧ msg.send_flag = 0 ∧ 0 < msg.nhdr ∧ msg.src < 0 ∧ 0 ≤ nbytes ∧
        msg.Fits nbytes tag then
      some (s.setEntry id (msg.setMessage nics nbytes node tag))
    else none
  | .push id addr =>
    let msg := s.msg_list id
    if msg.send_flag = 1 ∧ msg.Fresh nics addr then
      some (s.setEntry id (msg.pushToBuffer nics addr))
    else none
  | .free id => some (s.setEntry id { s.msg_list id with buf := 0 })

/-- The entries after `MP_Init`. -/
def init : BondState := ⟨fun _ => null, fun _ => false⟩

/-- A message that was split is not set again to one that is not split, and `check_header` takes no
entry that has received something. -/
def Regular (nics : ℕ) (s : BondState) : BondOp → Prop
  | .matched id nbytes _ _ | .anySource id nbytes _ _ =>
    Splits nics (s.msg_list id).nbytes → Splits nics nbytes
  | .fromQ id p _ =>
    (s.msg_list p).nleft ≠ 0 → Splits nics (s.msg_list id).nbytes →
      Splits nics (s.msg_list p).nbytes
  | .redirected _ p _ _ _ => (s.msg_list p).nhdr = hdrSize
  | _ => True

/-- The entries in a regular run. -/
def Reach (nics : ℕ) (myproc : ℤ) : BondState → Prop :=
  Relation.ReflTransGen
    (fun s s' => ∃ op, Regular nics s op ∧ s.step nics myproc op = some s') init

/-- Every entry that was not completed by a copy has its parts. -/
structure Inv (nics : ℕ) (s : BondState) : Prop where
  parts : ∀ id, s.copied id = false → (s.msg_list id).Parts nics
  copied : ∀ id, s.copied id = true → (s.msg_list id).nleft = 0 ∧ (s.msg_list id).nhdr = 0
  /-- such an entry is not a send that is under way -/
  flag : ∀ id, s.copied id = true → (s.msg_list id).send_flag ≠ 1

section

variable {nics : ℕ} {myproc : ℤ} {s s' : BondState} {id : ℕ} {msg : BondEntry}

lemma Inv.setEntry (h : s.Inv nics) (hmsg : s.copied id = false → msg.Parts nics)
    (hcopied : s.copied id = true → msg.nleft = 0 ∧ msg.nhdr = 0 ∧ msg.send_flag ≠ 1) :
    (s.setEntry id msg).Inv nics := by
  have hupdate : ∀ i, (s.setEntry id msg).msg_list i = if i = id then msg else s.msg_list i :=
    fun i => Function.update_apply _ _ _ _
  refine ⟨fun i hi => ?_, fun i hi => ?_, fun i hi => ?_⟩
  all_goals
    rw [hupdate]
    split_ifs with heq
  · exact hmsg (heq ▸ hi)
  · exact h.parts i hi
  · exact ⟨(hcopied (heq ▸ hi)).1, (hcopied (heq ▸ hi)).2.1⟩
  · exact h.copied i hi
  · exact (hcopied (heq ▸ hi)).2.2
  · exact h.flag i hi

/-- An entry in use by a message that is under way. -/
lemma Inv.setParts (h : s.Inv nics) (hid : s.copied id = false) (hmsg : msg.Parts nics) :
    (s.setEntry id msg).Inv nics :=
  h.setEntry (fun _ => hmsg) fun hc => absurd hc (by simp [hid])

lemma Inv.setCopied (h : s.Inv nics) {c : Bool} (hmsg : c = false → msg.Parts nics)
    (hcopied : c = true → msg.nleft = 0 ∧ msg.nhdr = 0 ∧ msg.send_flag ≠ 1) :
    (s.setCopied id c msg).Inv nics := by
  have hupdate : ∀ i, (s.setCopied id c msg).msg_list i = if i = id then msg else s.msg_list i :=
    fun i => Function.update_apply _ _ _ _
  have hflag : ∀ i, (s.setCopied id c msg).copied i = if i = id then c else s.copied i :=
    fun i => Function.update_apply _ _ _ _
  refine ⟨fun i hi => ?_, fun i hi => ?_, fun i hi => ?_⟩
  all_goals
    rw [hflag] at hi
    rw [hupdate]
    split_ifs with heq
    all_goals simp only [heq, if_true, if_false] at hi
  · exact hmsg hi
  · exact h.parts i hi
  · exact ⟨(hcopied hi).1, (hcopied hi).2.1⟩
  · exact h.copied i hi
  · exact (hcopied hi).2.2
  · exact h.flag i hi

/-- An entry of which the header is not complete was not completed by a copy. -/
lemma Inv.not_copied (h : s.Inv nics) (hhdr : 0 < (s.msg_list id).nhdr) :
    s.copied id = false := by
  by_contra hc
  have hzero := (h.copied id (by simpa using hc)).2
  exact absurd hzero hhdr.ne'

/-- An entry is marked as free. -/
lemma Inv.free (h : s.Inv nics) (h' : s'.Inv nics) (hcopied : s'.copied id = s.copied id) :
    (s'.setEntry id { s.msg_list id with buf := 0 }).Inv nics := by
  refine h'.setEntry (fun hid => ?_) fun hid => ?_
  · have hparts := h.parts id (hcopied.symm.trans hid)
    exact ⟨hparts.nbytes, hparts.nleft, hparts.range, hparts.whole,
      fun _ hbuf => absurd rfl hbuf, hparts.apart⟩
  · have hc := hcopied.symm.trans hid
    exact ⟨(h.copied id hc).1, (h.copied id hc).2, h.flag id hc⟩

lemma inv_init : init.Inv nics := by
  refine ⟨fun _ _ => ⟨le_refl _, by simp [init, null], fun i _ => ?_, fun hne => absurd rfl hne,
    fun _ hbuf => absurd rfl hbuf, by simp [init, null]⟩, by simp [init], by simp [init]⟩
  exact ⟨le_refl _, share_nonneg (le_refl _) i⟩

/-- Every regular operation keeps the invariant. -/
lemma Inv.step (hnics : 0 < nics) (h : s.Inv nics) {op : BondOp} (hreg : Regular nics s op)
    (hs : s.step nics myproc op = some s') : s'.Inv nics := by
  cases op with
  | create id buf nbytes src dest tag =>
    simp only [BondState.step, Option.ite_none_right_eq_some, Option.some.injEq] at hs
    obtain ⟨⟨-, -, hnbytes⟩, rfl⟩ := hs
    exact h.setCopied (fun _ => parts_create hnics hnbytes _ _ _ _ _) (by simp)
  | sendSelf id buf a nbytes tag =>
    simp only [BondState.step, Option.ite_none_right_eq_some, Option.some.injEq] at hs
    obtain ⟨-, rfl⟩ := hs
    exact h.setCopied (by simp) fun _ => ⟨rfl, rfl, by simp [sendToQ]⟩
  | header id n =>
    simp only [BondState.step, Option.ite_none_right_eq_some, Option.some.injEq] at hs
    obtain ⟨⟨hpos, hn, -⟩, rfl⟩ := hs
    have hid := h.not_copied hpos
    exact h.setParts hid ((h.parts id hid).header hn hpos)
  | body id nic n =>
    simp only [BondState.step, Option.ite_none_right_eq_some, Option.some.injEq] at hs
    obtain ⟨⟨hhdr, hleft, hnic, hn⟩, rfl⟩ := hs
    have hid : s.copied id = false := by
      by_contra hc
      have hzero := (h.copied id (by simpa using hc)).1
      omega
    exact h.setParts hid ((h.parts id hid).body hhdr hnic hn)
  | matched id nbytes src tag =>
    simp only [BondState.step, Option.ite_none_right_eq_some, Option.some.injEq] at hs
    obtain ⟨⟨-, hflag, hpos, hnbytes, -⟩, rfl⟩ := hs
    have hid := h.not_copied hpos
    have hparts := h.parts id hid
    rw [updateProgress_header hpos]
    refine h.setParts hid (Parts.skipHeader (parts_setMessage hnics hnbytes ?_ ?_) (by simp))
    · show (s.msg_list id).send_flag ≠ 3
      simp [hflag]
    · intro i hi hne hnot
      show (s.msg_list id).nbl i = 0
      rw [hparts.whole hpos.ne' i hi, share, if_neg (mt hreg hnot), if_neg hne]
  | redirected id p nbytes src tag =>
    simp only [BondState.step, Option.ite_none_right_eq_some, Option.some.injEq] at hs
    obtain ⟨⟨-, hpos, -, hnot, hfits⟩, rfl⟩ := hs
    have hid := h.not_copied hpos
    have hp : s.copied p = false := h.not_copied (by rw [hreg]; decide)
    have h₁ := h.setParts hid ((h.parts id hid).resetHeader hnics hpos.ne' (s.msg_list id).nhdr)
    exact h₁.setParts hp ((h.parts p hp).skipHeader hreg)
  | unexpected id new buf nbytes src tag =>
    simp only [BondState.step, Option.ite_none_right_eq_some, Option.some.injEq] at hs
    obtain ⟨⟨-, hpos, hnbytes, -, -, -, -⟩, rfl⟩ := hs
    have hid := h.not_copied hpos
    have h₁ := h.setParts hid ((h.parts id hid).resetHeader hnics hpos.ne' (s.msg_list id).nhdr)
    refine h₁.setCopied (fun _ => ?_) (by simp)
    refine (parts_create hnics hnbytes _ _ _ _ _).skipHeader ?_
    simp [create]
  | fromQ id p tsrc =>
    simp only [BondState.step, Option.ite_none_right_eq_some, Option.some.injEq] at hs
    obtain ⟨⟨-, hflag, hpos, -, hphdr, -⟩, rfl⟩ := hs
    have hid := h.not_copied hpos
    have hne : p ≠ id := by
      rintro rfl
      exact hpos.ne' hphdr
    have hflag3 : (s.msg_list id).send_flag ≠ 3 := by simp [hflag]
    split_ifs with hleft
    · refine h.free (h.setCopied (by simp) fun _ => ⟨rfl, rfl, ?_⟩) (Function.update_of_ne hne _ _)
      simp [copyComplete, hflag]
    · have hp : s.copied p = false := by
        by_contra hc
        exact hleft (h.copied p (by simpa using hc)).1
      exact h.free (h.setParts hid (parts_copyPart hnics (h.parts id hid) hpos.ne' hflag3
        (h.parts p hp) hphdr (hreg hleft) tsrc)) rfl
  | anySource id nbytes node tag =>
    simp only [BondState.step, Option.ite_none_right_eq_some, Option.some.injEq] at hs
    obtain ⟨⟨-, hflag, hpos, -, hnbytes, -⟩, rfl⟩ := hs
    have hid := h.not_copied hpos
    exact h.setParts hid
      ((h.parts id hid).setMessage hnics hpos.ne' (by simp [hflag]) hnbytes hreg node tag)
  | push id addr =>
    simp only [BondState.step, Option.ite_none_right_eq_some, Option.some.injEq] at hs
    obtain ⟨⟨hflag, haddr⟩, rfl⟩ := hs
    have hid : s.copied id = false := by
      by_contra hc
      exact h.flag id (by simpa using hc) hflag
    exact h.setParts hid (parts_pushToBuffer (h.parts id hid) haddr)
  | free id =>
    simp only [BondState.step, Option.some.injEq] at hs
    obtain rfl := hs
    exact h.free h rfl

/-- In every regular run the counters of an entry agree and its segments are apart. They lie in the
buffer of the user, unless `MP_Wait` has pushed the rest to private buffers. A message completed by
a copy has nothing left. -/
theorem bytes_conserved (hnics : 0 < nics) (hrun : Reach nics myproc s)
    (hbuf : (s.msg_list id).buf ≠ 0) :
    (s.copied id = false → (s.msg_list id).Conserved nics ∧
      ((s.msg_list id).send_flag ≠ 3 → (s.msg_list id).Inside nics)) ∧
    (s.copied id = true → (s.msg_list id).nleft = 0 ∧ (s.msg_list id).nhdr = 0) := by
  have hinv : s.Inv nics := by
    clear hbuf
    induction hrun with
    | refl => exact inv_init
    | tail _ hs ih =>
      obtain ⟨op, hreg, hs⟩ := hs
      exact ih.step hnics hreg hs
  refine ⟨fun hc => ?_, hinv.copied id⟩
  have hparts := hinv.parts id hc
  exact ⟨hparts.conserved hbuf, fun hflag => hparts.inside hflag hbuf⟩

end

/-- A receive of 4000 bytes takes a message of 2000 bytes, of which 500 bytes have come on the second
interface. -/
theorem bytes_conserved_shortened : ∃ s : BondState, Reach 2 0 s ∧
    (s.msg_list 1).Conserved 2 ∧ (s.msg_list 1).Inside 2 ∧ (s.msg_list 1).nbytes = 2000 ∧
      (s.msg_list 1).nleft = 1500 := by
  let s₁ := init.setCopied 1 false (create 2 0 100 4000 1 (-1) 7)
  let s₂ := s₁.setEntry 1
    (((s₁.msg_list 1).updateProgress 0 (s₁.msg_list 1).nhdr).setMessage 2 2000 1 7).skipHeader
  let s₃ := s₂.setEntry 1 ((s₂.msg_list 1).updateProgress 1 500)
  have h₁ : init.step 2 0 (.create 1 100 4000 1 (-1) 7) = some s₁ := by
    rw [BondState.step]
    exact if_pos (by decide)
  have h₂ : s₁.step 2 0 (.matched 1 2000 1 7) = some s₂ := by
    rw [BondState.step]
    exact if_pos (by decide)
  have h₃ : s₂.step 2 0 (.body 1 1 500) = some s₃ := by
    rw [BondState.step]
    exact if_pos (by decide)
  have hrun : Reach 2 0 s₃ :=
    .tail (.tail (.single ⟨.create 1 100 4000 1 (-1) 7, trivial, h₁⟩)
      ⟨.matched 1 2000 1 7, fun _ => (by decide : Splits 2 2000), h₂⟩) ⟨.body 1 1 500, trivial, h₃⟩
  have hmain := (@bytes_conserved 2 0 s₃ 1 (by decide) hrun (by decide)).1 (by decide)
  exact ⟨s₃, hrun, hmain.1, hmain.2 (by decide), by decide, by decide⟩

/-- After a send to the process itself `nleft` is zero while `nbl` counts the byte, and after
`push_to_buffer` the byte to be sent is not in the buffer of the user. -/
theorem bytes_conserved_fails :
    (∃ s : BondState, Reach 2 0 s ∧ (s.msg_list 1).buf ≠ 0 ∧ ¬ (s.msg_list 1).Conserved 2) ∧
      ∃ s : BondState, Reach 2 0 s ∧ (s.msg_list 1).buf ≠ 0 ∧ ¬ (s.msg_list 1).Inside 2 := by
  constructor
  · let s₁ := init.setCopied 1 true ((create 2 0 100 1 0 0 7).sendToQ 200)
    have h₁ : init.step 2 0 (.sendSelf 1 100 200 1 7) = some s₁ := by
      rw [BondState.step]
      exact if_pos (by decide)
    refine ⟨s₁, .single ⟨.sendSelf 1 100 200 1 7, trivial, h₁⟩, by decide, fun h => ?_⟩
    exact absurd h.nleft (by decide)
  · let s₁ := init.setCopied 1 false (create 2 0 100 1 0 1 7)
    let s₂ := s₁.setEntry 1 ((s₁.msg_list 1).pushToBuffer 2 fun _ => 200)
    have h₁ : init.step 2 0 (.create 1 100 1 0 1 7) = some s₁ := by
      rw [BondState.step]
      exact if_pos (by decide)
    have h₂ : s₁.step 2 0 (.push 1 fun _ => 200) = some s₂ := by
      rw [BondState.step]
      exact if_pos (by decide)
    refine ⟨s₂, .tail (.single ⟨.create 1 100 1 0 1 7, trivial, h₁⟩)
      ⟨.push 1 fun _ => 200, trivial, h₂⟩, by decide, fun h => ?_⟩
    have hin : 200 ∈ Set.Ico 100 101 := h 0 (by decide) ⟨by decide, by decide⟩
    exact absurd hin.2 (by decide)

end BondState

end NetPipe.MpLite
