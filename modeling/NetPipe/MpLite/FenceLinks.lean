import NetPipe.MpLite.Fence

/-!
# The link between two processes

What the fences of two processes do to the channel and the two elements from the one to the other.
At most two puts of fences are on their way or not yet reset, so that they are in different
elements.
-/

namespace NetPipe.MpLite

variable {α μ : Type*}

/-- The operations among the messages. -/
def dataOf (l : List (FenceMsg α)) : List α :=
  l.filterMap fun
    | .data op => some op
    | .token _ _ _ => none

/-- The serial numbers of the puts of fences among the messages. -/
def serialsOf (l : List (FenceMsg α)) : List ℕ :=
  l.filterMap fun
    | .data _ => none
    | .token _ _ k => some k

@[simp] lemma dataOf_append (l l' : List (FenceMsg α)) :
    dataOf (l ++ l') = dataOf l ++ dataOf l' := List.filterMap_append

@[simp] lemma dataOf_nil : dataOf ([] : List (FenceMsg α)) = [] := rfl

@[simp] lemma dataOf_cons_data (op : α) (l : List (FenceMsg α)) :
    dataOf (.data op :: l) = op :: dataOf l := rfl

@[simp] lemma dataOf_cons_token (slot : ℕ) (bytes : List UInt8) (k : ℕ) (l : List (FenceMsg α)) :
    dataOf (.token slot bytes k :: l) = dataOf l := rfl

@[simp] lemma serialsOf_append (l l' : List (FenceMsg α)) :
    serialsOf (l ++ l') = serialsOf l ++ serialsOf l' := List.filterMap_append

@[simp] lemma serialsOf_nil : serialsOf ([] : List (FenceMsg α)) = [] := rfl

@[simp] lemma serialsOf_cons_data (op : α) (l : List (FenceMsg α)) :
    serialsOf (.data op :: l) = serialsOf l := rfl

@[simp] lemma serialsOf_cons_token (slot : ℕ) (bytes : List UInt8) (k : ℕ)
    (l : List (FenceMsg α)) : serialsOf (.token slot bytes k :: l) = k :: serialsOf l := rfl

/-! ### The bytes of an element -/

/-- An element where the first `r` bytes of `rank` are stored. -/
def partly (rank r : ℕ) : List UInt8 := (le32 rank).take r ++ List.replicate (4 - r) 255

lemma partly_zero (rank : ℕ) : partly rank 0 = unset := by
  simp [partly, unset]
  decide

lemma le32_eq (x : ℤ) : ∃ b₀ b₁ b₂ b₃, le32 x = [b₀, b₁, b₂, b₃] :=
  ⟨_, _, _, _, rfl⟩

lemma partly_set {rank r : ℕ} (hr : r < 4) {byte : UInt8} (hbyte : (le32 rank)[r]? = some byte) :
    (partly rank r).set r byte = partly rank (r + 1) := by
  obtain ⟨b₀, b₁, b₂, b₃, h⟩ := le32_eq rank
  rw [h] at hbyte
  rw [partly, partly, h]
  interval_cases r <;> simp_all

lemma partly_four (rank : ℕ) : partly rank 4 = le32 rank := by
  simp [partly, List.take_of_length_le]

lemma int32_of_sign (b₀ b₁ b₂ b₃ : UInt8) (h : 128 ≤ b₃.toNat) : int32 [b₀, b₁, b₂, b₃] < 0 := by
  have h₀ := b₀.toNat_lt
  have h₁ := b₁.toNat_lt
  have h₂ := b₂.toNat_lt
  have h₃ := b₃.toNat_lt
  unfold int32
  dsimp only [List.foldr_cons, List.foldr_nil]
  rw [if_neg (by omega)]
  push_cast
  omega

/-- An element with a part of a rank is not taken for one with a rank. -/
lemma int32_partly {rank r : ℕ} (hr : r < 4) : int32 (partly rank r) < 0 := by
  have hlast : ∃ a₀ a₁ a₂, partly rank r = [a₀, a₁, a₂, 255] := by
    obtain ⟨b₀, b₁, b₂, b₃, h⟩ := le32_eq rank
    rw [partly, h]
    interval_cases r
    · exact ⟨255, 255, 255, rfl⟩
    · exact ⟨b₀, 255, 255, rfl⟩
    · exact ⟨b₀, b₁, 255, rfl⟩
    · exact ⟨b₀, b₁, b₂, rfl⟩
  obtain ⟨a₀, a₁, a₂, ha⟩ := hlast
  rw [ha]
  exact int32_of_sign a₀ a₁ a₂ 255 (by decide)

/-! ### The state of a link -/

/-- What belongs to the puts of one process at another: the channel with the stored bytes of its
first message, the two elements with the serial numbers of what was last in them, and the history:
the fences that the sender has entered, its puts that were issued, stored and reset, and the
operations. -/
structure Link (α : Type*) where
  chan : List (FenceMsg α)
  got : ℕ
  elem : ℕ → List UInt8
  mark : ℕ → ℕ
  entered : ℕ
  sent : ℕ
  stored : ℕ
  took : ℕ
  consumed : List ℕ
  issued : List α
  applied : List α
  before : ℕ → List α

namespace Link

/-- The puts that were issued and not reset are `took`, …, `sent - 1`; those below `stored` are in
their elements, and the others on the channel. -/
structure Good (rank : ℕ) (l : Link α) : Prop where
  serials : serialsOf l.chan = List.range' l.stored (l.sent - l.stored)
  took_le : l.took ≤ l.stored
  stored_le : l.stored ≤ l.sent
  sent_le : l.sent ≤ l.entered
  entered_le : l.entered ≤ l.sent + 1
  token : ∀ slot bytes k, .token slot bytes k ∈ l.chan → slot = k % 2 ∧ bytes = le32 rank
  consumed : l.consumed = List.range l.took
  got_lt : l.got < 4
  got_zero : (∀ slot bytes k rest, l.chan ≠ .token slot bytes k :: rest) → l.got = 0
  full : ∀ k, l.took ≤ k → k < l.stored → l.elem (k % 2) = le32 rank ∧ l.mark (k % 2) = k
  part : l.stored ≤ l.took + 1 → l.elem (l.stored % 2) = partly rank l.got
  empty : l.stored = l.took → l.elem ((l.stored + 1) % 2) = unset
  issued : l.issued = l.applied ++ dataOf l.chan
  before_chan : ∀ pre slot bytes k post, l.chan = pre ++ .token slot bytes k :: post →
    l.before k <+: l.applied ++ dataOf pre
  before_stored : ∀ k, k < l.stored → l.before k <+: l.applied
  before_now : l.sent < l.entered → l.before l.sent <+: l.issued

variable {rank : ℕ} {l : Link α}

/-- The sender issues an operation. -/
def issue (op : α) (l : Link α) : Link α :=
  { l with chan := l.chan ++ [.data op], issued := l.issued ++ [op] }

/-- The sender enters a fence. -/
def enter (l : Link α) : Link α :=
  { l with
    entered := l.entered + 1
    before := fun k => if k = l.entered then l.issued else l.before k }

/-- The sender issues the put of a fence. -/
def put (rank : ℕ) (l : Link α) : Link α :=
  { l with
    chan := l.chan ++ [.token (l.sent % 2) (le32 rank) l.sent]
    sent := l.sent + 1 }

/-- The receiver resets the element it waited for. -/
def reset (l : Link α) : Link α :=
  { l with
    took := l.took + 1
    elem := Function.update l.elem (l.took % 2) unset
    consumed := l.consumed ++ [l.mark (l.took % 2)] }

/-- An operation arrives. -/
def recvData (op : α) (rest : List (FenceMsg α)) (l : Link α) : Link α :=
  { l with chan := rest, applied := l.applied ++ [op] }

/-- A byte of a put arrives. -/
def recvByte (slot : ℕ) (byte : UInt8) (l : Link α) : Link α :=
  { l with
    elem := Function.update l.elem slot ((l.elem slot).set l.got byte)
    got := l.got + 1 }

/-- The last byte of a put arrives. -/
def recvLast (slot serial : ℕ) (byte : UInt8) (rest : List (FenceMsg α)) (l : Link α) : Link α :=
  { l with
    chan := rest
    elem := Function.update l.elem slot ((l.elem slot).set l.got byte)
    got := 0
    mark := Function.update l.mark slot serial
    stored := l.stored + 1 }

lemma Good.head {slot : ℕ} {bytes : List UInt8} {k : ℕ} {rest : List (FenceMsg α)}
    (hl : l.Good rank) (hchan : l.chan = .token slot bytes k :: rest) :
    k = l.stored ∧ l.stored < l.sent ∧ slot = l.stored % 2 ∧ bytes = le32 rank ∧
      serialsOf rest = List.range' (l.stored + 1) (l.sent - (l.stored + 1)) := by
  have hser := hl.serials
  have htok := hl.token slot bytes k (by rw [hchan]; exact List.mem_cons_self)
  rw [hchan, serialsOf_cons_token] at hser
  rcases hn : l.sent - l.stored with _ | n
  · rw [hn] at hser
    simp at hser
  · rw [hn, List.range'_succ] at hser
    obtain ⟨rfl, hrest⟩ := List.cons.inj hser
    refine ⟨rfl, by omega, htok.1, htok.2, ?_⟩
    rw [hrest, show l.sent - (l.stored + 1) = n by omega]

lemma Good.serial_lt {slot : ℕ} {bytes : List UInt8} {k : ℕ} (hl : l.Good rank)
    (hmem : .token slot bytes k ∈ l.chan) : k < l.sent := by
  have hk : k ∈ serialsOf l.chan := List.mem_filterMap.mpr ⟨_, hmem, rfl⟩
  have hle := hl.stored_le
  rw [hl.serials, List.mem_range'_1] at hk
  omega

lemma concat_eq_append_cons {β : Type*} {l pre post : List β} {m x : β}
    (h : l ++ [m] = pre ++ x :: post) :
    (post = [] ∧ x = m ∧ pre = l) ∨ ∃ post', post = post' ++ [m] ∧ l = pre ++ x :: post' := by
  rcases List.eq_nil_or_concat post with rfl | ⟨post', y, rfl⟩
  · obtain ⟨rfl, hx⟩ := List.append_inj' h rfl
    exact Or.inl ⟨rfl, (List.cons.inj hx).1.symm, rfl⟩
  · rw [List.concat_eq_append, ← List.cons_append, ← List.append_assoc] at h
    obtain ⟨rfl, hy⟩ := List.append_inj' h rfl
    obtain rfl := (List.cons.inj hy).1
    exact Or.inr ⟨post', by rw [List.concat_eq_append], rfl⟩

lemma Good.got_zero_concat (hl : l.Good rank) {m : FenceMsg α}
    (h : ∀ slot bytes k rest, l.chan ++ [m] ≠ .token slot bytes k :: rest) : l.got = 0 := by
  refine hl.got_zero fun slot bytes k rest hchan => h slot bytes k (rest ++ [m]) ?_
  rw [hchan, List.cons_append]

lemma Good.issue (hl : l.Good rank) (op : α) : (l.issue op).Good rank where
  serials := by simpa [Link.issue] using hl.serials
  took_le := hl.took_le
  stored_le := hl.stored_le
  sent_le := hl.sent_le
  entered_le := hl.entered_le
  token slot bytes k hmem := hl.token slot bytes k (by simpa [Link.issue] using hmem)
  consumed := hl.consumed
  got_lt := hl.got_lt
  got_zero h := hl.got_zero_concat h
  full := hl.full
  part := hl.part
  empty := hl.empty
  issued := by simp [Link.issue, hl.issued]
  before_chan pre slot bytes k post h := by
    rcases concat_eq_append_cons h with ⟨-, hx, -⟩ | ⟨post', -, hchan⟩
    · simp at hx
    · exact hl.before_chan pre slot bytes k post' hchan
  before_stored := hl.before_stored
  before_now h := (hl.before_now h).trans (List.prefix_append _ _)

lemma Good.enter (hl : l.Good rank) (hout : l.entered = l.sent) : l.enter.Good rank where
  serials := hl.serials
  took_le := hl.took_le
  stored_le := hl.stored_le
  sent_le := hl.sent_le.trans (Nat.le_succ _)
  entered_le := hout ▸ le_rfl
  token := hl.token
  consumed := hl.consumed
  got_lt := hl.got_lt
  got_zero := hl.got_zero
  full := hl.full
  part := hl.part
  empty := hl.empty
  issued := hl.issued
  before_chan pre slot bytes k post h := by
    have hmem : .token slot bytes k ∈ l.chan := by
      rw [show l.chan = pre ++ .token slot bytes k :: post from h]
      simp
    have hk : k < l.sent := hl.serial_lt hmem
    simp only [Link.enter, hout, if_neg hk.ne]
    exact hl.before_chan pre slot bytes k post h
  before_stored k hk := by
    have hne : k ≠ l.sent := (hk.trans_le hl.stored_le).ne
    simp only [Link.enter, hout, if_neg hne]
    exact hl.before_stored k hk
  before_now _ := by simp [Link.enter, hout]

lemma Good.put (hl : l.Good rank) (hin : l.entered = l.sent + 1) : (l.put rank).Good rank where
  serials := by
    have hle := hl.stored_le
    simp only [Link.put, serialsOf_append, hl.serials, serialsOf_cons_token, serialsOf_nil]
    rw [show l.sent + 1 - l.stored = (l.sent - l.stored) + 1 by omega, List.range'_1_concat,
      show l.stored + (l.sent - l.stored) = l.sent by omega]
  took_le := hl.took_le
  stored_le := hl.stored_le.trans (Nat.le_succ _)
  sent_le := hin.ge
  entered_le := hin.le.trans (Nat.le_succ _)
  token slot bytes k hmem := by
    rcases List.mem_append.mp hmem with h | h
    · exact hl.token slot bytes k h
    · simp only [List.mem_singleton, FenceMsg.token.injEq] at h
      exact ⟨by rw [h.1, h.2.2], h.2.1⟩
  consumed := hl.consumed
  got_lt := hl.got_lt
  got_zero h := hl.got_zero_concat h
  full := hl.full
  part := hl.part
  empty := hl.empty
  issued := by simp [Link.put, hl.issued]
  before_chan pre slot bytes k post h := by
    rcases concat_eq_append_cons h with ⟨-, hx, rfl⟩ | ⟨post', -, hchan⟩
    · simp only [FenceMsg.token.injEq] at hx
      rw [hx.2.2]
      exact hl.issued ▸ hl.before_now (by omega)
    · exact hl.before_chan pre slot bytes k post' hchan
  before_stored := hl.before_stored
  before_now h := absurd hin.symm h.ne

lemma Good.reset (hl : l.Good rank) (hstored : l.took < l.stored) (hsent : l.sent ≤ l.took + 2) :
    l.reset.Good rank where
  serials := hl.serials
  took_le := hstored
  stored_le := hl.stored_le
  sent_le := hl.sent_le
  entered_le := hl.entered_le
  token := hl.token
  consumed := by
    simp only [Link.reset]
    rw [hl.consumed, (hl.full l.took le_rfl hstored).2, ← List.range_succ]
  got_lt := hl.got_lt
  got_zero := hl.got_zero
  full k hk hks := by
    have hk' : l.took + 1 ≤ k := hk
    have hne : k % 2 ≠ l.took % 2 := by
      have hle := hl.stored_le
      have hks' : k < l.stored := hks
      omega
    simp only [Link.reset, Function.update_of_ne hne]
    exact hl.full k (by omega) hks
  part _ := by
    rcases (show l.stored = l.took + 1 ∨ l.stored = l.took + 2 by
      have hle := hl.stored_le
      omega) with h | h
    · have hne : l.stored % 2 ≠ l.took % 2 := by omega
      simp only [Link.reset, Function.update_of_ne hne]
      exact hl.part h.le
    · have hgot : l.got = 0 := by
        refine hl.got_zero fun slot bytes k rest hchan => ?_
        have hlt := (hl.head hchan).2.1
        omega
      have heq : l.stored % 2 = l.took % 2 := by omega
      simp only [Link.reset, heq, Function.update_self, hgot, partly_zero]
  empty h := by
    have h' : l.stored = l.took + 1 := h
    have heq : (l.stored + 1) % 2 = l.took % 2 := by omega
    simp only [Link.reset, heq, Function.update_self]
  issued := hl.issued
  before_chan := hl.before_chan
  before_stored := hl.before_stored
  before_now := hl.before_now

lemma Good.recvData (hl : l.Good rank) {op : α} {rest : List (FenceMsg α)}
    (hchan : l.chan = .data op :: rest) : (l.recvData op rest).Good rank where
  serials := by
    have h := hl.serials
    rwa [hchan, serialsOf_cons_data] at h
  took_le := hl.took_le
  stored_le := hl.stored_le
  sent_le := hl.sent_le
  entered_le := hl.entered_le
  token slot bytes k hmem := hl.token slot bytes k (by rw [hchan]; exact List.mem_cons_of_mem _ hmem)
  consumed := hl.consumed
  got_lt := hl.got_lt
  got_zero _ := hl.got_zero fun slot bytes k rest' h => by simp [hchan] at h
  full := hl.full
  part := hl.part
  empty := hl.empty
  issued := by
    have h := hl.issued
    rw [hchan, dataOf_cons_data] at h
    simp [Link.recvData, h]
  before_chan pre slot bytes k post h := by
    have h' : l.chan = (.data op :: pre) ++ .token slot bytes k :: post := by
      rw [hchan, show rest = pre ++ .token slot bytes k :: post from h, List.cons_append]
    have hbefore := hl.before_chan _ slot bytes k post h'
    simpa [Link.recvData] using hbefore
  before_stored k hk := (hl.before_stored k hk).trans (List.prefix_append _ _)
  before_now := hl.before_now

lemma Good.recvByte (hl : l.Good rank) (hsent : l.sent ≤ l.took + 2) {slot k : ℕ}
    {bytes : List UInt8} {rest : List (FenceMsg α)} (hchan : l.chan = .token slot bytes k :: rest)
    {byte : UInt8} (hbyte : bytes[l.got]? = some byte) (hmore : l.got + 1 < bytes.length) :
    (l.recvByte slot byte).Good rank := by
  obtain ⟨-, hlt, rfl, rfl, -⟩ := hl.head hchan
  rw [length_le32] at hmore
  exact {
    serials := hl.serials
    took_le := hl.took_le
    stored_le := hl.stored_le
    sent_le := hl.sent_le
    entered_le := hl.entered_le
    token := hl.token
    consumed := hl.consumed
    got_lt := hmore
    got_zero := fun h => absurd hchan (h _ _ _ _)
    full := fun k hk hks => by
      have hk' : l.took ≤ k := hk
      have hks' : k < l.stored := hks
      have hne : k % 2 ≠ l.stored % 2 := by omega
      simp only [Link.recvByte, Function.update_of_ne hne]
      exact hl.full k hk hks
    part := fun h => by
      simp only [Link.recvByte, Function.update_self]
      rw [hl.part h, partly_set hl.got_lt hbyte]
    empty := fun h => by
      have hne : (l.stored + 1) % 2 ≠ l.stored % 2 := by omega
      simp only [Link.recvByte, Function.update_of_ne hne]
      exact hl.empty h
    issued := hl.issued
    before_chan := hl.before_chan
    before_stored := hl.before_stored
    before_now := hl.before_now }

lemma Good.recvLast (hl : l.Good rank) (hsent : l.sent ≤ l.took + 2) {slot k : ℕ}
    {bytes : List UInt8} {rest : List (FenceMsg α)} (hchan : l.chan = .token slot bytes k :: rest)
    {byte : UInt8} (hbyte : bytes[l.got]? = some byte) (hlast : l.got + 1 = bytes.length) :
    (l.recvLast slot k byte rest).Good rank := by
  obtain ⟨rfl, hlt, rfl, rfl, hrest⟩ := hl.head hchan
  rw [length_le32] at hlast
  have hpart : l.stored ≤ l.took + 1 := by omega
  have hfull : (l.elem (l.stored % 2)).set l.got byte = le32 rank := by
    rw [hl.part hpart, partly_set hl.got_lt hbyte, hlast, partly_four]
  exact {
    serials := hrest
    took_le := hl.took_le.trans (Nat.le_succ _)
    stored_le := hlt
    sent_le := hl.sent_le
    entered_le := hl.entered_le
    token := fun slot bytes k hmem =>
      hl.token slot bytes k (by rw [hchan]; exact List.mem_cons_of_mem _ hmem)
    consumed := hl.consumed
    got_lt := Nat.zero_lt_succ 3
    got_zero := fun _ => rfl
    full := fun k hk hks => by
      simp only [Link.recvLast] at hk hks ⊢
      rcases (Nat.lt_succ_iff.mp hks).eq_or_lt with rfl | h
      · simp [hfull]
      · have hne : k % 2 ≠ l.stored % 2 := by omega
        simp only [Function.update_of_ne hne]
        exact hl.full k hk h
    part := fun h => by
      simp only [Link.recvLast] at h ⊢
      have hne : (l.stored + 1) % 2 ≠ l.stored % 2 := by omega
      have htook := hl.took_le
      rw [Function.update_of_ne hne, hl.empty (by omega), partly_zero]
    empty := fun h => by
      simp only [Link.recvLast] at h
      have htook := hl.took_le
      omega
    issued := by
      have h := hl.issued
      rwa [hchan, dataOf_cons_token] at h
    before_chan := fun pre slot bytes k post h => by
      have h' : l.chan = (.token (l.stored % 2) (le32 rank) l.stored :: pre) ++
          .token slot bytes k :: post := by
        rw [hchan, show rest = pre ++ .token slot bytes k :: post from h, List.cons_append]
      have hbefore := hl.before_chan _ slot bytes k post h'
      rwa [dataOf_cons_token] at hbefore
    before_stored := fun k hk => by
      simp only [Link.recvLast] at hk
      rcases (Nat.lt_succ_iff.mp hk).eq_or_lt with rfl | h
      · have h' := hl.before_chan [] _ _ _ rest hchan
        rwa [dataOf_nil, List.append_nil] at h'
      · exact hl.before_stored k h
    before_now := hl.before_now }

end Link

end NetPipe.MpLite
