import NetPipe.Library.SlotSearch

/-!
# Messages of MP_Lite

The message entries of the TCP engine and their header, with one network interface. An entry of
`msg_list` is free if its `buf` is `NULL`; addresses are natural numbers and `NULL` is `0`.
-/

namespace NetPipe.MpLite

/-- `HDRSIZE`, the size of `struct MP_msg_header`. -/
def hdrSize : ℕ := 24

/-- The part of `struct MP_msg_entry` that two-sided messages use. `phdr` is the offset of the next
header byte, in the entry itself for a send and in `hdr[src]` for a receive. -/
structure MsgEntry where
  nbytes : ℤ
  src : ℤ
  tag : ℤ
  dest : ℤ
  buf : ℕ
  buffer : ℕ
  ptr : ℕ
  phdr : ℕ
  nleft : ℤ
  nbl : ℤ
  nhdr : ℕ
  mtu : ℤ
  send_flag : ℕ
  recv_flag : ℕ
  deriving DecidableEq, Repr

/-- `msg_null`. -/
def msgNull : MsgEntry := ⟨0, -1, -1, -1, 0, 0, 0, 0, 0, 0, 0, 0, 0, 0⟩

namespace MsgEntry

/-- `set_message`. -/
def setMessage (nbytes src tag : ℤ) (msg : MsgEntry) : MsgEntry :=
  { msg with
    src := src
    tag := tag
    nbytes := nbytes
    nbl := nbytes
    nleft := nbytes + hdrSize
    ptr := msg.buf
    phdr := 0
    nhdr := hdrSize }

/-- `update_msg_progress`, when `n` bytes were transferred. -/
def updateProgress (n : ℕ) (msg : MsgEntry) : MsgEntry :=
  let msg := { msg with nleft := msg.nleft - n }
  if msg.nhdr > 0 then { msg with nhdr := msg.nhdr - n, phdr := msg.phdr + n }
  else { msg with nbl := msg.nbl - n, ptr := msg.ptr + n }

/-- The entry that `create_msg_entry` sets up. A negative `dest` makes it a receive. -/
def create (myproc : ℤ) (buf : ℕ) (nbytes src dest tag : ℤ) : MsgEntry :=
  let msg := { msgNull with buf := buf, ptr := buf }.setMessage nbytes src tag
  let msg := if dest < 0 then { msg with recv_flag := 1, dest := myproc }
    else { msg with dest := dest, send_flag := 1 }
  { msg with mtu := 1000000 }

/-- The counters of an entry agree. -/
structure Counted (msg : MsgEntry) : Prop where
  nleft : msg.nleft = msg.nhdr + msg.nbl
  nbl : 0 ≤ msg.nbl
  phdr : msg.phdr + msg.nhdr = hdrSize
  mtu : 0 < msg.mtu

section

variable {msg : MsgEntry} {n : ℕ}

@[simp] lemma updateProgress_nbytes : (msg.updateProgress n).nbytes = msg.nbytes := by
  simp only [updateProgress]
  split_ifs <;> rfl

@[simp] lemma updateProgress_src : (msg.updateProgress n).src = msg.src := by
  simp only [updateProgress]
  split_ifs <;> rfl

@[simp] lemma updateProgress_tag : (msg.updateProgress n).tag = msg.tag := by
  simp only [updateProgress]
  split_ifs <;> rfl

@[simp] lemma updateProgress_dest : (msg.updateProgress n).dest = msg.dest := by
  simp only [updateProgress]
  split_ifs <;> rfl

@[simp] lemma updateProgress_buf : (msg.updateProgress n).buf = msg.buf := by
  simp only [updateProgress]
  split_ifs <;> rfl

@[simp] lemma updateProgress_buffer : (msg.updateProgress n).buffer = msg.buffer := by
  simp only [updateProgress]
  split_ifs <;> rfl

@[simp] lemma updateProgress_send_flag : (msg.updateProgress n).send_flag = msg.send_flag := by
  simp only [updateProgress]
  split_ifs <;> rfl

@[simp] lemma updateProgress_recv_flag : (msg.updateProgress n).recv_flag = msg.recv_flag := by
  simp only [updateProgress]
  split_ifs <;> rfl

@[simp] lemma updateProgress_mtu : (msg.updateProgress n).mtu = msg.mtu := by
  simp only [updateProgress]
  split_ifs <;> rfl

/-- Progress in the header. -/
lemma updateProgress_header (h : 0 < msg.nhdr) : msg.updateProgress n =
    { msg with nleft := msg.nleft - n, nhdr := msg.nhdr - n, phdr := msg.phdr + n } :=
  if_pos h

/-- Progress in the body. -/
lemma updateProgress_body (h : msg.nhdr = 0) : msg.updateProgress n =
    { msg with nleft := msg.nleft - n, nbl := msg.nbl - n, ptr := msg.ptr + n } :=
  if_neg (by rw [h]; exact Nat.lt_irrefl 0)

lemma Counted.updateHeader (h : msg.Counted) (hn : n ≤ msg.nhdr) (hpos : 0 < msg.nhdr) :
    (msg.updateProgress n).Counted := by
  obtain ⟨h₁, h₂, h₃, h₄⟩ := h
  rw [updateProgress_header hpos]
  refine ⟨?_, h₂, ?_, h₄⟩
  · show msg.nleft - n = ((msg.nhdr - n : ℕ) : ℤ) + msg.nbl
    omega
  · show msg.phdr + n + (msg.nhdr - n) = hdrSize
    omega

lemma Counted.updateBody (h : msg.Counted) (hn : (n : ℤ) ≤ msg.nbl) (hhdr : msg.nhdr = 0) :
    (msg.updateProgress n).Counted := by
  obtain ⟨h₁, h₂, h₃, h₄⟩ := h
  rw [updateProgress_body hhdr]
  refine ⟨?_, ?_, h₃, h₄⟩
  · show msg.nleft - n = (msg.nhdr : ℤ) + (msg.nbl - n)
    omega
  · show 0 ≤ msg.nbl - n
    omega

end

end MsgEntry

/-- The entry of `msg_list` that `create_msg_entry` takes: the next one after `mid` that is free.
With none left the program stops. -/
def findEntry (maxMsgs mid : ℕ) (msg_list : ℕ → MsgEntry) : Option ℕ :=
  ((List.range maxMsgs).map fun k => (mid + 1 + k) % maxMsgs).find? fun i => (msg_list i).buf = 0

section

variable {maxMsgs mid i id : ℕ} {msg_list : ℕ → MsgEntry}

lemma findEntry_eq_nextFree (maxMsgs mid : ℕ) (msg_list : ℕ → MsgEntry) :
    findEntry maxMsgs mid msg_list =
      (nextFree (fun i => (msg_list i).buf ≠ 0) maxMsgs mid).map (· % maxMsgs) := by
  rw [findEntry, nextFree, List.range'_eq_map_range, List.find?_map, List.find?_map,
    Option.map_map]
  simp only [Function.comp_def, not_not]

lemma findEntry_free (h : findEntry maxMsgs mid msg_list = some i) : (msg_list i).buf = 0 := by
  rw [findEntry_eq_nextFree] at h
  obtain ⟨pos, hpos, rfl⟩ := Option.map_eq_some_iff.mp h
  exact not_not.mp (not_used_of_nextFree hpos)

lemma findEntry_lt (h : findEntry maxMsgs mid msg_list = some i) : i < maxMsgs := by
  obtain ⟨k, hk, rfl⟩ := List.mem_map.mp (List.mem_of_find?_eq_some h)
  exact Nat.mod_lt _ (Nat.zero_lt_of_lt (List.mem_range.mp hk))

/-- With no free entry left, every entry is in use. -/
lemma findEntry_none (h : findEntry maxMsgs mid msg_list = none) (hid : id < maxMsgs) :
    (msg_list id).buf ≠ 0 := by
  rw [findEntry_eq_nextFree, Option.map_eq_none_iff] at h
  exact used_of_nextFree h hid

end

/-! ### Bytes in memory -/

/-- The bytes from address `a` on. -/
def bytesAt (mem : ℕ → UInt8) (a n : ℕ) : List UInt8 := (List.range n).map fun i => mem (a + i)

@[simp] lemma length_bytesAt (mem : ℕ → UInt8) (a n : ℕ) : (bytesAt mem a n).length = n := by
  simp [bytesAt]

lemma bytesAt_add (mem : ℕ → UInt8) (a n k : ℕ) :
    bytesAt mem a (n + k) = bytesAt mem a n ++ bytesAt mem (a + n) k := by
  simp [bytesAt, List.range_add, Nat.add_assoc]

lemma bytesAt_congr {mem mem' : ℕ → UInt8} {a a' n : ℕ}
    (h : ∀ i < n, mem (a + i) = mem' (a' + i)) : bytesAt mem a n = bytesAt mem' a' n :=
  List.map_congr_left fun i hi => h i (List.mem_range.mp hi)

/-! ### Headers -/

/-- The four bytes of an `int`, least significant first. -/
def le32 (x : ℤ) : List UInt8 :=
  (List.range 4).map fun i => UInt8.ofNat ((x % 2 ^ 32).toNat / 256 ^ i % 256)

/-- The bytes of `struct MP_msg_header`. The padding and `dest_ptr` are zero. -/
def headerBytes (nbytes src tag : ℤ) : List UInt8 :=
  le32 nbytes ++ le32 src ++ le32 tag ++ List.replicate 12 0

@[simp] lemma length_le32 (x : ℤ) : (le32 x).length = 4 := by simp [le32]

@[simp] lemma length_headerBytes (nbytes src tag : ℤ) :
    (headerBytes nbytes src tag).length = hdrSize := by simp [headerBytes, hdrSize]

/-- The header of an entry, which begins with the same fields. -/
def MsgEntry.header (msg : MsgEntry) : List UInt8 := headerBytes msg.nbytes msg.src msg.tag

@[simp] lemma MsgEntry.length_header (msg : MsgEntry) : msg.header.length = hdrSize :=
  length_headerBytes _ _ _

@[simp] lemma MsgEntry.updateProgress_head (msg : MsgEntry) (n : ℕ) :
    (msg.updateProgress n).header = msg.header := by
  simp [MsgEntry.header]

end NetPipe.MpLite
