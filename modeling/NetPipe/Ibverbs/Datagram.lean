import Mathlib.Tactic

/-!
# Unreliable datagrams

With `--unreliable` a message of NPibverbs is sent in packets of at most one MTU, and every packet consumes
a receive request, at whose start its global routing header of 40 bytes is stored. The sender casts the
bytes of the message to the addresses of its packets, where it means their addresses.
-/

namespace NetPipe.Ibverbs

/-! ### The code -/

/-- A size of packets that `Module_Setup` accepts. -/
structure Mtu where
  val : ℤ
  mem : val ∈ [256, 512, 1024, 2048, 4096]

/-- The entry of a work request. -/
structure Sge where
  addr : ℤ
  length : ℤ

/-- `sizeof( struct ibv_grh )` -/
def grhSize : ℤ := 40

/-- A `char` as `uintptr_t`, whether `char` is signed or not. -/
def charAddress (signed : Bool) (b : UInt8) : ℤ :=
  if signed ∧ 128 ≤ b.toNat then 2 ^ 64 - 256 + b.toNat else b.toNat

/-- `(msgsize + mtu - 1) / mtu` -/
def npackets (msgsize : ℤ) (mtu : Mtu) : ℕ := ((msgsize + mtu.val - 1) / mtu.val).toNat

/-- The loop over the packets, of which `n` from packet `i` on are left. -/
def postLoop (address : ℤ → ℤ) (mtu : Mtu) : ℕ → ℤ → ℤ → List Sge
  | 0, _, _ => []
  | n + 1, i, nleft =>
    ⟨address (i * mtu.val), min nleft mtu.val⟩ ::
      postLoop address mtu n (i + 1) (nleft - min nleft mtu.val)

/-- `post_recv_UD`, where the address of a packet is `&recv_buf[i*mtu]`. -/
def post_recv_UD (recv_buf msgsize : ℤ) (mtu : Mtu) : List Sge :=
  postLoop (fun k => recv_buf + k) mtu (npackets msgsize mtu) 0 msgsize

/-- `post_send_UD`, where it is `send_buf[i*mtu]`. -/
def post_send_UD (signed : Bool) (mem : ℤ → UInt8) (send_buf msgsize : ℤ) (mtu : Mtu) : List Sge :=
  postLoop (fun k => charAddress signed (mem (send_buf + k))) mtu (npackets msgsize mtu) 0 msgsize

/-- The size of `ud_buf`. -/
def ud_bufsize (ud_memcpy : Bool) (buflen : ℤ) : ℤ := grhSize + if ud_memcpy then buflen else 0

/-- The receive requests that `PrepostRecv` posts. -/
def prepostRecv (ud_memcpy : Bool) (ud_buf buflen : ℤ) (mtu : Mtu) : List Sge :=
  post_recv_UD ud_buf (ud_bufsize ud_memcpy buflen) mtu

/-- The completions of receive requests that `RecvData` waits for, in `pollwait( send_posts, 1 )`. -/
def recvDataWaits : ℕ := 1

/-- `memcpy` -/
def memcpy (dst src n : ℤ) (mem : ℤ → UInt8) (a : ℤ) : UInt8 :=
  if dst ≤ a ∧ a < dst + n then mem (src + (a - dst)) else mem a

/-- The end of `RecvData`. -/
def recvDataCopy (ud_memcpy : Bool) (r_ptr ud_buf buflen : ℤ) (mem : ℤ → UInt8) : ℤ → UInt8 :=
  if ud_memcpy then memcpy r_ptr (ud_buf + 40) buflen mem else mem

/-! ### What it is for -/

/-- A message in the memory of its sender. The buffer begins behind the first page and lies in the lower
half of the address space. -/
structure Message where
  buflen : ℤ
  pos : 1 ≤ buflen
  s_ptr : ℤ
  bytes : ℤ → UInt8
  page_le : 4096 ≤ s_ptr
  le_user : s_ptr + buflen ≤ 2 ^ 63

/-- Pieces of at most `mtu` bytes one behind the other from `a` to `e`. -/
def Tiles (mtu : Mtu) : ℤ → ℤ → List Sge → Prop
  | a, e, [] => a = e
  | a, e, s :: l => s.addr = a ∧ 0 < s.length ∧ s.length ≤ mtu.val ∧ Tiles mtu (a + s.length) e l

/-- A packet arrives: its header at the start of the request, and behind it the `n` bytes of the payload,
which is a piece of the message. -/
def arrive (grh payload : ℤ → UInt8) (n : ℤ) (wr : Sge) (mem : ℤ → UInt8) (a : ℤ) : UInt8 :=
  if wr.addr ≤ a ∧ a < wr.addr + grhSize then grh (a - wr.addr)
  else if wr.addr + grhSize ≤ a ∧ a < wr.addr + grhSize + n then payload (a - wr.addr - grhSize)
  else mem a

/-- The packets of a message arrive, each in the next request. They carry the bytes from `src` on. -/
def arriveAll (grh bytes : ℤ → UInt8) : ℤ → List Sge → List Sge → (ℤ → UInt8) → ℤ → UInt8
  | _, [], _, mem => mem
  | _, _ :: _, [], mem => mem
  | src, s :: sent, wr :: wrs, mem =>
    arriveAll grh bytes (src + s.length) sent wrs
      (arrive grh (fun j => bytes (src + j)) s.length wr mem)

/-- The receiver is ready for a message in these packets: a request for each, large enough for its header
and its payload, all of them are waited for, and what is copied is the message. -/
structure Receives (ud_memcpy : Bool) (mtu : Mtu) (m : Message) (sent : List Sge) (ud_buf r_ptr : ℤ) :
    Prop where
  count : (prepostRecv ud_memcpy ud_buf m.buflen mtu).length = sent.length
  fits : ∀ p ∈ sent.zip (prepostRecv ud_memcpy ud_buf m.buflen mtu), grhSize + p.1.length ≤ p.2.length
  waits : recvDataWaits = (prepostRecv ud_memcpy ud_buf m.buflen mtu).length
  copied : ud_memcpy → ∀ grh mem i, 0 ≤ i → i < m.buflen →
    recvDataCopy ud_memcpy r_ptr ud_buf m.buflen (arriveAll grh m.bytes m.s_ptr sent
      (prepostRecv ud_memcpy ud_buf m.buflen mtu) mem) (r_ptr + i) = m.bytes (m.s_ptr + i)

/-- The message is cut into its pieces, and the receiver is ready for them. -/
structure Segmented (signed ud_memcpy : Bool) (mtu : Mtu) (m : Message) (ud_buf r_ptr : ℤ) : Prop where
  tiles : Tiles mtu m.s_ptr (m.s_ptr + m.buflen) (post_send_UD signed m.bytes m.s_ptr m.buflen mtu)
  receives : Receives ud_memcpy mtu m (post_send_UD signed m.bytes m.s_ptr m.buflen mtu) ud_buf r_ptr

/-! ### The loops -/

variable {mtu : Mtu} {m : Message} {address : ℤ → ℤ} {signed ud_memcpy : Bool}
  {ud_buf r_ptr msgsize nleft i a : ℤ} {n : ℕ}

lemma Mtu.pos (mtu : Mtu) : 256 ≤ mtu.val := by
  have hmem := mtu.mem
  simp only [List.mem_cons, List.not_mem_nil, or_false] at hmem
  omega

/-- A positive size has a first packet. -/
lemma npackets_pos (h : 1 ≤ msgsize) (mtu : Mtu) : 0 < npackets msgsize mtu := by
  have hpos := mtu.pos
  have hdiv : 1 ≤ (msgsize + mtu.val - 1) / mtu.val := by
    rw [Int.le_ediv_iff_mul_le (by omega)]
    omega
  rw [npackets]
  omega

/-- What fits into one packet is one packet. -/
lemma npackets_eq_one (h : 1 ≤ msgsize) (hle : msgsize ≤ mtu.val) : npackets msgsize mtu = 1 := by
  have hdiv : (msgsize + mtu.val - 1) / mtu.val = 1 := by
    apply le_antisymm
    · rw [← Int.lt_add_one_iff, Int.ediv_lt_iff_lt_mul (by omega)]
      omega
    · rw [Int.le_ediv_iff_mul_le (by omega)]
      omega
  rw [npackets, hdiv]
  rfl

/-- The packets of a positive size begin with the first. -/
lemma exists_postLoop_eq_cons (h : 1 ≤ msgsize) (address : ℤ → ℤ) (mtu : Mtu) :
    ∃ l, postLoop address mtu (npackets msgsize mtu) 0 msgsize =
      ⟨address 0, min msgsize mtu.val⟩ :: l := by
  obtain ⟨n, hn⟩ := Nat.exists_eq_add_one.mpr (npackets_pos h mtu)
  rw [hn, postLoop, zero_mul]
  exact ⟨_, rfl⟩

lemma postLoop_eq_singleton (h : 1 ≤ msgsize) (hle : msgsize ≤ mtu.val) :
    postLoop address mtu (npackets msgsize mtu) 0 msgsize = [⟨address 0, msgsize⟩] := by
  rw [npackets_eq_one h hle, postLoop, postLoop, zero_mul, min_eq_left hle]

/-- The lengths do not depend on the addresses. -/
lemma map_length_postLoop (address address' : ℤ → ℤ) (n : ℕ) (i nleft : ℤ) :
    (postLoop address mtu n i nleft).map Sge.length =
      (postLoop address' mtu n i nleft).map Sge.length := by
  induction n generalizing i nleft with
  | zero => rfl
  | succ n ih => rw [postLoop, postLoop, List.map_cons, List.map_cons, ih]

lemma npackets_zero (mtu : Mtu) : npackets 0 mtu = 0 := by
  have hpos := mtu.pos
  have hdiv : (0 + mtu.val - 1) / mtu.val = 0 := Int.ediv_eq_zero_of_lt (by omega) (by omega)
  rw [npackets, hdiv]
  rfl

lemma pos_of_npackets (h : npackets nleft mtu = n + 1) (hle : 0 ≤ nleft) : 1 ≤ nleft := by
  by_contra hzero
  obtain rfl : nleft = 0 := by omega
  rw [npackets_zero] at h
  cases h

/-- A packet less. -/
lemma npackets_sub (h : npackets nleft mtu = n + 1) (hle : 0 ≤ nleft) :
    npackets (nleft - min nleft mtu.val) mtu = n := by
  have hpos := mtu.pos
  have hone := pos_of_npackets h hle
  rcases le_total nleft mtu.val with hfit | hmore
  · rw [npackets_eq_one hone hfit] at h
    rw [min_eq_left hfit, sub_self, npackets_zero]
    omega
  · have hsub : nleft - mtu.val + mtu.val - 1 = nleft + mtu.val - 1 + mtu.val * -1 := by ring
    rw [npackets] at h
    rw [min_eq_right hmore, npackets, hsub, Int.add_mul_ediv_left _ _ (by omega)]
    omega

/-- With the addresses of the bytes the packets are the pieces of a buffer. -/
lemma tiles_postLoop (base : ℤ) (hn : npackets nleft mtu = n) (hle : 0 ≤ nleft) :
    Tiles mtu (base + i * mtu.val) (base + i * mtu.val + nleft)
      (postLoop (fun k => base + k) mtu n i nleft) := by
  have hpos := mtu.pos
  induction n generalizing i nleft with
  | zero =>
    have hzero : ¬ 1 ≤ nleft := fun h => (npackets_pos h mtu).ne' hn
    rw [postLoop, Tiles]
    omega
  | succ n ih =>
    have hmore := pos_of_npackets hn hle
    have hrest := npackets_sub hn hle
    rw [postLoop, Tiles]
    refine ⟨rfl, ?_, min_le_right _ _, ?_⟩
    · change 0 < min nleft mtu.val
      omega
    · change Tiles mtu (base + i * mtu.val + min nleft mtu.val) (base + i * mtu.val + nleft) _
      rcases le_total nleft mtu.val with hfit | hlong
      · rw [min_eq_left hfit, sub_self] at hrest ⊢
        rw [← hrest, npackets_zero, postLoop]
        exact rfl
      · have hnext := ih (i := i + 1) hrest (by omega)
        rw [min_eq_right hlong] at hnext ⊢
        convert hnext using 1 <;> ring

/-- The receive requests are the pieces of the buffer. -/
lemma tiles_post_recv_UD (recv_buf : ℤ) (h : 1 ≤ msgsize) :
    Tiles mtu recv_buf (recv_buf + msgsize) (post_recv_UD recv_buf msgsize mtu) := by
  have htiles := tiles_postLoop (i := 0) recv_buf (rfl : npackets msgsize mtu = _) (by omega)
  rwa [zero_mul, add_zero] at htiles

/-! ### What goes wrong -/

/-- A byte is no address of a buffer. -/
lemma charAddress_ne (m : Message) (signed : Bool) (b : UInt8) : charAddress signed b ≠ m.s_ptr := by
  have hb := b.toNat_lt
  have hpage := m.page_le
  have huser := m.le_user
  have hpos := m.pos
  rw [charAddress]
  split_ifs <;> omega

lemma not_tiles (signed : Bool) (mtu : Mtu) (m : Message) :
    ¬ Tiles mtu m.s_ptr (m.s_ptr + m.buflen) (post_send_UD signed m.bytes m.s_ptr m.buflen mtu) := by
  obtain ⟨l, hl⟩ := exists_postLoop_eq_cons m.pos
    (fun k => charAddress signed (m.bytes (m.s_ptr + k))) mtu
  rw [post_send_UD, hl, Tiles]
  exact fun h => charAddress_ne m signed _ h.1

/-- The first packet fits into its request only if the whole message is copied from one packet. -/
lemma memcpy_of_receives {sent : List Sge} {s : Sge} (h : Receives ud_memcpy mtu m (s :: sent) ud_buf r_ptr)
    (hs : s.length = min m.buflen mtu.val) : ud_memcpy ∧ 40 + m.buflen ≤ mtu.val := by
  have hpos := mtu.pos
  have hbuflen := m.pos
  have hsize : 1 ≤ ud_bufsize ud_memcpy m.buflen := by
    rw [ud_bufsize, grhSize]
    split_ifs <;> omega
  obtain ⟨l, hl⟩ := exists_postLoop_eq_cons hsize (fun k => ud_buf + k) mtu
  have hfits := h.fits
  rw [prepostRecv, post_recv_UD, hl, List.zip_cons_cons] at hfits
  have hfirst := hfits _ List.mem_cons_self
  rw [hs, ud_bufsize, grhSize] at hfirst
  cases ud_memcpy with
  | false =>
    simp only [Bool.false_eq_true, if_false] at hfirst
    omega
  | true =>
    simp only [if_true] at hfirst
    refine ⟨rfl, ?_⟩
    omega

/-- A single packet with its header in one request is received. -/
lemma receives_of_memcpy (address : ℤ) (hle : 40 + m.buflen ≤ mtu.val) (ud_buf r_ptr : ℤ) :
    Receives true mtu m [⟨address, m.buflen⟩] ud_buf r_ptr := by
  have hbuflen := m.pos
  have hrecv : prepostRecv true ud_buf m.buflen mtu = [⟨ud_buf + 0, 40 + m.buflen⟩] :=
    postLoop_eq_singleton (by simp only [ud_bufsize, grhSize, if_true]; omega) hle
  constructor
  · rw [hrecv]
    rfl
  · rw [hrecv]
    intro p hp
    rw [List.zip_cons_cons, List.zip_nil_left, List.mem_singleton] at hp
    rw [hp]
    exact le_rfl
  · rw [hrecv]
    rfl
  · intro _ grh mem i hi hlt
    rw [hrecv, recvDataCopy, if_pos rfl, memcpy, if_pos (by omega), arriveAll, arriveAll, arrive,
      if_neg (by simp only [grhSize]; omega), if_pos (by simp only [grhSize]; omega)]
    congr 1
    simp only [grhSize]
    ring

/-- Whatever is sent, no message is cut into its pieces: the lengths are those of the pieces, but the
addresses are bytes. Were the addresses right, a message would be received if and only if it is copied from a
packet that holds it together with its header. -/
theorem not_segmented_and_receives_iff (signed ud_memcpy : Bool) (mtu : Mtu) (m : Message)
    (ud_buf r_ptr : ℤ) :
    ¬ Segmented signed ud_memcpy mtu m ud_buf r_ptr ∧
      (post_send_UD signed m.bytes m.s_ptr m.buflen mtu).map Sge.length =
        (post_recv_UD m.s_ptr m.buflen mtu).map Sge.length ∧
      Tiles mtu m.s_ptr (m.s_ptr + m.buflen) (post_recv_UD m.s_ptr m.buflen mtu) ∧
      (Receives ud_memcpy mtu m (post_recv_UD m.s_ptr m.buflen mtu) ud_buf r_ptr ↔
        ud_memcpy ∧ 40 + m.buflen ≤ mtu.val) := by
  refine ⟨fun h => not_tiles signed mtu m h.tiles, map_length_postLoop _ _ _ _ _,
    tiles_post_recv_UD _ m.pos, ?_⟩
  constructor
  · intro h
    obtain ⟨l, hl⟩ := exists_postLoop_eq_cons m.pos (fun k => m.s_ptr + k) mtu
    rw [post_recv_UD, hl] at h
    exact memcpy_of_receives h rfl
  · rintro ⟨rfl, hle⟩
    have hsent : post_recv_UD m.s_ptr m.buflen mtu = [⟨m.s_ptr + 0, m.buflen⟩] :=
      postLoop_eq_singleton m.pos (by omega)
    rw [hsent]
    exact receives_of_memcpy _ hle _ _

/-- A message of one byte at the start of the second page. -/
def oneByte : Message where
  buflen := 1
  pos := le_rfl
  s_ptr := 4096
  bytes _ := 255
  page_le := le_rfl
  le_user := by norm_num

/-- The packet of the byte has an address that is not 4096. -/
theorem not_segmented_oneByte :
    ¬ Segmented true true ⟨2048, by decide⟩ oneByte 8192 12288 :=
  fun h => not_tiles _ _ _ h.tiles

end NetPipe.Ibverbs
