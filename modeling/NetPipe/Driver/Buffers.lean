import NetPipe.Driver.Windows
import NetPipe.Driver.Trials

/-!
# Buffer contents

The memory of one process, with `SetupBufferData` and `CheckBufferData` as in `netpipe.c` and a
two-sided transport below: a message is a copy of the send window, and its bytes are stored in the
window in which it is received. Bytes may be lost on the way.
-/

namespace NetPipe

/-- A message, with the tag that `SetupBufferData` had reached when it was sent. -/
structure Message where
  length : ℕ
  byte : ℕ → ℤ
  stag : ℕ

/-- One process: its pointers, its memory, the static counters of `SetupBufferData` and
`CheckBufferData`, its entry of `failures`, and the state of its transport. -/
structure BufState where
  ptrs : PtrState
  mem : ℤ → ℤ
  stag : ℕ
  rtag : ℕ
  failures : ℕ
  /-- the window of a preposted receive -/
  posted : Option ℤ
  /-- the bytes of the awaited message that are already stored there -/
  landed : ℕ → Bool
  /-- all messages that were sent to this process -/
  inbox : List Message
  sent : ℕ
  received : ℕ
  /-- the window of the last completed receive -/
  window : ℤ
  /-- the messages checked in this test, with their windows, latest first -/
  log : List (ℕ × ℤ)

/-- The bytes of a message that the transport leaves out: byte `i` of message `k`. -/
abbrev Loss := ℕ → ℕ → Bool

namespace BufState

/-- The pointers, the message size and the windows, in the words of the source. -/
abbrev s_ptr (s : BufState) : ℤ := s.ptrs.ptrs.s_ptr
abbrev r_ptr (s : BufState) : ℤ := s.ptrs.ptrs.r_ptr
abbrev buflen (s : BufState) : ℕ := s.ptrs.buflen

/-! ### Setup and check -/

/-- `memset`. -/
def memset (mem : ℤ → ℤ) (a : ℤ) (x n : ℤ) : ℤ → ℤ :=
  fun i => if a ≤ i ∧ i < a + n then x else mem i

/-- `SetupBufferData`. -/
def setupBufferData (integrity : Bool) (s : BufState) : BufState :=
  let mem := if integrity then
      fun a => if s.s_ptr < a ∧ a < s.s_ptr + s.buflen - 1 then (a - s.s_ptr) % 100 else s.mem a
    else s.mem
  let stag := (s.stag + 1) % 100
  { s with
    stag := stag
    mem := fun a => if a = s.s_ptr ∨ a = s.s_ptr + s.buflen - 1 then stag else mem a }

/-- The number of failures that `CheckBufferData` counts. -/
def failureCount (integrity : Bool) (s : BufState) : ℕ :=
  let rtag := (s.rtag + 1) % 100
  if integrity then
    ((List.range' 1 (s.buflen - 2)).countP fun i : ℕ => s.mem (s.r_ptr + i) ≠ (i % 100 : ℕ)) +
    (if s.mem s.r_ptr ≠ rtag then 1 else 0) +
    if s.mem (s.r_ptr + s.buflen - 1) ≠ rtag then 1 else 0
  else if s.mem s.r_ptr ≠ rtag ∨ s.mem (s.r_ptr + s.buflen - 1) ≠ rtag then 1 else 0

/-- `CheckBufferData`. The interior of the window is cleared in an integrity run. -/
def checkBufferData (integrity : Bool) (s : BufState) : BufState :=
  { s with
    rtag := (s.rtag + 1) % 100
    failures := s.failures + s.failureCount integrity
    mem := if integrity then
        fun a => if s.r_ptr < a ∧ a < s.r_ptr + s.buflen - 1 then -1 else s.mem a
      else s.mem
    log := (s.received - 1, s.r_ptr) :: s.log }

/-! ### The transport -/

/-- What `SendData` sends. -/
def outgoing (s : BufState) : Message where
  length := s.buflen
  byte i := s.mem (s.s_ptr + i)
  stag := s.stag

/-- `PrepostRecv`. -/
def prepostRecv (s : BufState) : BufState :=
  { s with posted := some s.r_ptr, landed := fun _ => false }

/-- Store a byte of the awaited message in the posted window. -/
def land (w : ℤ) (m : Message) (i : ℕ) (s : BufState) : BufState :=
  { s with
    mem := Function.update s.mem (w + i) (m.byte i)
    landed := Function.update s.landed i true }

/-- `RecvData` returns once the awaited message has been sent and all bytes of it that are not lost
are in the posted window. -/
def Arrived (lost : Loss) (s : BufState) : Prop :=
  ∃ m, s.inbox[s.received]? = some m ∧
    (s.posted ≠ none → ∀ i < m.length, lost s.received i = false → s.landed i = true)

/-- Store a whole message at `w`. -/
def deposit (lost : ℕ → Bool) (m : Message) (w : ℤ) (mem : ℤ → ℤ) : ℤ → ℤ :=
  fun a => if w ≤ a ∧ a < w + m.length ∧ lost (a - w).toNat = false then m.byte (a - w).toNat
    else mem a

/-- The end of `RecvData`, in the window `w`. -/
def complete (w : ℤ) (s : BufState) : BufState :=
  { s with
    posted := none
    landed := fun _ => false
    received := s.received + 1
    window := w }

/-- `RecvData`. Without a preposted receive the message goes to `r_ptr` now. -/
def recvData (lost : Loss) (s : BufState) : BufState :=
  match s.posted, s.inbox[s.received]? with
  | some w, _ => s.complete w
  | none, some m =>
    { s with mem := deposit (lost s.received) m s.r_ptr s.mem }.complete s.r_ptr
  | none, none => s

end BufState

/-! ### The calls of a process -/

/-- What a call does besides moving the pointers. -/
def Call.effect (l : Layout) (integrity : Bool) (lost : Loss) : Call → BufState → BufState
  | .test _, s => { s with failures := 0 }
  | .mallocBufs, s =>
    { s with
      mem := BufState.memset s.mem s.ptrs.ptrs.s_buf (-1) (2 * halfSize l (2 * s.buflen))
      log := [] }
  | .initBufferData, s =>
    { s with
      mem := BufState.memset s.mem s.ptrs.ptrs.s_buf (-1) (memsize + l.soffset)
      log := [] }
  | .prepostRecv, s => s.prepostRecv
  | .setupBufferData, s => s.setupBufferData integrity
  | .sendData, s => { s with sent := s.sent + 1 }
  | .recvData, s => s.recvData lost
  | .checkBufferData, s => s.checkBufferData integrity
  | .freeBufs, s | .savePtrs, s | .restorePtrs, s | .advancePtrs .., s | .flushcache, s
  | .sync, s | .doWork, s | .reset, s | .gather, s => s

/-- The options of a run that the buffers depend on. -/
structure BufArgs where
  flags : Flags
  layout : Layout
  integrity : Bool

/-- The state after a call, where `a` is what the allocator returns if it is called. -/
def Call.runBuffers (x : BufArgs) (lost : Loss) (a : Pools) (c : Call) (s : BufState) :
    Option BufState :=
  (c.runPtrs x.flags.cache x.layout a s.ptrs).map fun r =>
    c.effect x.layout x.integrity lost { s with ptrs := r.1 }

/-- The effect of a call on one process. -/
def Call.Buffers (x : BufArgs) (lost : Loss) (c : Call) (s s' : BufState) : Prop :=
  (c = .recvData → s.Arrived lost) ∧ ∃ a : Pools, 0 < a.base ∧ c.runBuffers x lost a s = some s'

/-! ### Messages and bytes -/

/-- The content of byte `i` of a message of length `b` with this tag. -/
def pattern (b tag i : ℕ) : ℤ := if i = 0 ∨ i + 1 = b then tag else (i % 100 : ℕ)

/-- The bytes that are set up and checked: all in an integrity run, else the first and the last. -/
def Looked (integrity : Bool) (b i : ℕ) : Prop := integrity = true ∨ i = 0 ∨ i + 1 = b

/-- What the `k`-th message between two processes must be, if `sizes` lists the sizes of all. -/
structure Message.Good (integrity : Bool) (sizes : List ℕ) (k : ℕ) (m : Message) : Prop where
  length : sizes[k]? = some m.length
  stag : m.stag = (k + 1) % 100
  byte : ∀ i < m.length, Looked integrity m.length i → m.byte i = pattern m.length m.stag i

namespace BufState

variable {integrity : Bool} {s : BufState}

/-- `SetupBufferData` fills the bytes that are looked at and nothing outside the window. -/
lemma setupBufferData_mem {i : ℕ} (hi : i < s.buflen) (hl : Looked integrity s.buflen i) :
    (s.setupBufferData integrity).mem (s.s_ptr + i) =
      pattern s.buflen ((s.stag + 1) % 100) i := by
  have hends : (s.s_ptr + i = s.s_ptr ∨ s.s_ptr + i = s.s_ptr + s.buflen - 1) ↔
      (i = 0 ∨ i + 1 = s.buflen) := by
    omega
  by_cases hend : i = 0 ∨ i + 1 = s.buflen
  · rw [pattern, if_pos hend]
    exact if_pos (hends.mpr hend)
  · have hint : integrity = true := by
      rcases hl with h | h
      · exact h
      · exact absurd h hend
    have hin : s.s_ptr < s.s_ptr + i ∧ s.s_ptr + i < s.s_ptr + s.buflen - 1 := by omega
    rw [pattern, if_neg hend, setupBufferData, hint]
    refine (if_neg (mt hends.mp hend)).trans ((if_pos hin).trans ?_)
    rw [add_sub_cancel_left]
    exact (Int.natCast_mod i 100).symm

lemma setupBufferData_mem_outside {a : ℤ} (hpos : 0 < s.buflen)
    (ha : ∀ i : ℕ, i < s.buflen → s.s_ptr + i ≠ a) :
    (s.setupBufferData integrity).mem a = s.mem a := by
  have hout : a < s.s_ptr ∨ s.s_ptr + s.buflen ≤ a := by
    have hne := ha (a - s.s_ptr).toNat
    omega
  have hends : ¬ (a = s.s_ptr ∨ a = s.s_ptr + s.buflen - 1) := by omega
  have hin : ¬ (s.s_ptr < a ∧ a < s.s_ptr + s.buflen - 1) := by omega
  cases integrity <;> simp [setupBufferData, hends, hin]

/-- `CheckBufferData` counts nothing exactly if all bytes it looks at are as expected. -/
lemma failureCount_eq_zero (hpos : 0 < s.buflen) :
    s.failureCount integrity = 0 ↔ ∀ i < s.buflen, Looked integrity s.buflen i →
      s.mem (s.r_ptr + i) = pattern s.buflen ((s.rtag + 1) % 100) i := by
  have hends : (∀ i < s.buflen, i = 0 ∨ i + 1 = s.buflen →
      s.mem (s.r_ptr + i) = pattern s.buflen ((s.rtag + 1) % 100) i) ↔
      s.mem s.r_ptr = ((s.rtag + 1) % 100 : ℕ) ∧
        s.mem (s.r_ptr + s.buflen - 1) = ((s.rtag + 1) % 100 : ℕ) := by
    have hlast : s.r_ptr + s.buflen - 1 = s.r_ptr + (s.buflen - 1 : ℕ) := by omega
    rw [hlast]
    constructor
    · intro h
      have h₀ := h 0 hpos (Or.inl rfl)
      have h₁ := h (s.buflen - 1) (Nat.sub_lt hpos one_pos) (Or.inr (Nat.sub_add_cancel hpos))
      simp only [pattern, true_or, if_true, Nat.cast_zero, add_zero] at h₀
      have hend : s.buflen - 1 = 0 ∨ s.buflen - 1 + 1 = s.buflen := Or.inr (by omega)
      rw [pattern, if_pos hend] at h₁
      exact ⟨h₀, h₁⟩
    · rintro ⟨h₀, h₁⟩ i _ hi
      rw [pattern, if_pos hi]
      rcases hi with rfl | hi
      · rwa [Nat.cast_zero, add_zero]
      · obtain rfl : i = s.buflen - 1 := by omega
        exact h₁
  have hinterior : (∀ i ∈ List.range' 1 (s.buflen - 2),
      ¬ decide (s.mem (s.r_ptr + i) ≠ (i % 100 : ℕ)) = true) ↔
      ∀ i < s.buflen, ¬ (i = 0 ∨ i + 1 = s.buflen) →
        s.mem (s.r_ptr + i) = pattern s.buflen ((s.rtag + 1) % 100) i := by
    constructor
    · intro h i hi hend
      have hmem : i ∈ List.range' 1 (s.buflen - 2) := by
        rw [List.mem_range'_1]
        omega
      have heq := h i hmem
      simp only [ne_eq, decide_not, Bool.not_eq_true, Bool.not_eq_false', decide_eq_true_eq]
        at heq
      rw [heq, pattern, if_neg hend]
    · intro h i hmem
      rw [List.mem_range'_1] at hmem
      have heq := h i (by omega) (by omega)
      have hend : ¬ (i = 0 ∨ i + 1 = s.buflen) := by omega
      rw [pattern, if_neg hend] at heq
      simp only [ne_eq, decide_not, Bool.not_eq_true, Bool.not_eq_false', decide_eq_true_eq]
      exact heq
  cases integrity with
  | true =>
    have hsplit : (∀ i < s.buflen, Looked true s.buflen i →
        s.mem (s.r_ptr + i) = pattern s.buflen ((s.rtag + 1) % 100) i) ↔
        (∀ i < s.buflen, ¬ (i = 0 ∨ i + 1 = s.buflen) →
          s.mem (s.r_ptr + i) = pattern s.buflen ((s.rtag + 1) % 100) i) ∧
        ∀ i < s.buflen, i = 0 ∨ i + 1 = s.buflen →
          s.mem (s.r_ptr + i) = pattern s.buflen ((s.rtag + 1) % 100) i := by
      constructor
      · intro h
        exact ⟨fun i hi _ => h i hi (Or.inl rfl), fun i hi _ => h i hi (Or.inl rfl)⟩
      · rintro ⟨h₁, h₂⟩ i hi -
        by_cases hend : i = 0 ∨ i + 1 = s.buflen
        · exact h₂ i hi hend
        · exact h₁ i hi hend
    rw [hsplit, hends, ← hinterior, ← List.countP_eq_zero]
    simp only [failureCount, if_true, Nat.add_eq_zero_iff, ite_eq_right_iff, one_ne_zero,
      imp_false, not_not, and_assoc]
  | false =>
    have hlook : ∀ i, Looked false s.buflen i ↔ i = 0 ∨ i + 1 = s.buflen := by
      intro i
      simp [Looked]
    simp only [hlook]
    rw [hends]
    simp only [failureCount, Bool.false_eq_true, if_false, ite_eq_right_iff, one_ne_zero,
      imp_false, not_or, not_not, ne_eq]

/-- The check changes the interior of the receive window only. -/
lemma checkBufferData_mem_outside {a : ℤ}
    (ha : ∀ i : ℕ, i < s.buflen → ¬ (i = 0 ∨ i + 1 = s.buflen) → s.r_ptr + i ≠ a) :
    (s.checkBufferData integrity).mem a = s.mem a := by
  have hin : ¬ (s.r_ptr < a ∧ a < s.r_ptr + s.buflen - 1) := by
    have hne := ha (a - s.r_ptr).toNat
    omega
  cases integrity <;> simp [checkBufferData, hin]

lemma checkBufferData_mem_interior {i : ℕ} (hi : i < s.buflen)
    (hend : ¬ (i = 0 ∨ i + 1 = s.buflen)) :
    (s.checkBufferData true).mem (s.r_ptr + i) = -1 :=
  if_pos (by omega)

/-- A message stored at `w` covers its own bytes that are not lost, and no others. -/
lemma deposit_of_not_lost {lost : ℕ → Bool} {m : Message} {w : ℤ} {mem : ℤ → ℤ} {i : ℕ}
    (hi : i < m.length) (hl : lost i = false) : deposit lost m w mem (w + i) = m.byte i := by
  have hoff : (w + i - w).toNat = i := by omega
  have hin : w ≤ w + i ∧ w + i < w + m.length ∧ lost (w + i - w).toNat = false :=
    ⟨by omega, by omega, by rw [hoff, hl]⟩
  rw [deposit, if_pos hin, hoff]

lemma deposit_outside {lost : ℕ → Bool} {m : Message} {w a : ℤ} {mem : ℤ → ℤ}
    (ha : ∀ i < m.length, lost i = false → w + i ≠ a) : deposit lost m w mem a = mem a := by
  refine if_neg fun ⟨hle, hlt, hl⟩ => ?_
  exact ha (a - w).toNat (by omega) hl (by omega)

end BufState

/-! ### Patterns -/

lemma pattern_nonneg (b tag i : ℕ) : 0 ≤ pattern b tag i := by
  unfold pattern
  split_ifs <;> exact Int.natCast_nonneg _

lemma neg_one_ne_pattern (b tag i : ℕ) : -1 ≠ pattern b tag i :=
  ne_of_lt (lt_of_lt_of_le neg_one_lt_zero (pattern_nonneg b tag i))

/-- Two messages of one size differ in their ends only. -/
lemma pattern_eq_pattern {b tag tag' i : ℕ} :
    pattern b tag i = pattern b tag' i ↔ (i = 0 ∨ i + 1 = b → tag = tag') := by
  unfold pattern
  split_ifs with hend
  · simp [hend]
  · simp [hend]

end NetPipe
