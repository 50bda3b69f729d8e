import Mathlib.Tactic

/-!
# Handshakes with flags

One side posts a request, the other answers it, and both keep a flag: that of the poster is set from
the request until the answer arrives, that of the answerer from the arrival until the answer. A
program sets or resets its own flag only after it has sent its message, and arrivals may come in
between. Nothing is lost as long as the flag is written before the reply to the message arrives.
-/

namespace NetPipe

/-- The messages of a handshake that were sent, that have arrived and that are under way, the two
flags, and whether a side has still to write its flag. -/
@[ext] structure Handshake where
  posted : ℕ
  received : ℕ
  answered : ℕ
  acked : ℕ
  requests : ℕ
  answers : ℕ
  waiting : Bool
  pending : Bool
  setting : Bool
  resetting : Bool

namespace Handshake

/-- At most one request is open, and the flags say which side it is at. -/
structure Good (h : Handshake) : Prop where
  posted_eq : h.posted = h.received + h.requests
  answered_eq : h.answered = h.acked + h.answers
  answered_le : h.answered ≤ h.received
  posted_le : h.posted ≤ h.acked + 1
  pending : h.answered < h.received → h.pending = true
  cleared : h.pending = true → h.resetting = true ∨ h.answered < h.received
  waiting : h.waiting = true → h.acked < h.posted
  set : h.acked < h.posted → h.waiting = true ∨ h.setting = true

/-- Nothing was posted. -/
def init : Handshake := ⟨0, 0, 0, 0, 0, 0, false, false, false, false⟩

/-- A request is sent. -/
def post (h : Handshake) : Handshake :=
  { h with posted := h.posted + 1, requests := h.requests + 1, setting := true }

/-- The poster writes its flag. -/
def setFlag (h : Handshake) : Handshake := { h with waiting := true, setting := false }

/-- A request arrives. -/
def arrive (h : Handshake) : Handshake :=
  { h with received := h.received + 1, requests := h.requests - 1, pending := true }

/-- An answer is sent. -/
def answer (h : Handshake) : Handshake :=
  { h with answered := h.answered + 1, answers := h.answers + 1, resetting := true }

/-- The answerer resets its flag. -/
def resetFlag (h : Handshake) : Handshake := { h with pending := false, resetting := false }

/-- An answer arrives. -/
def ack (h : Handshake) : Handshake :=
  { h with acked := h.acked + 1, answers := h.answers - 1, waiting := false }

variable {h : Handshake}

lemma good_init : init.Good := by
  constructor <;> simp [init]

lemma Good.acked_le (hh : h.Good) : h.acked ≤ h.answered := by
  have h₁ := hh.answered_eq
  omega

lemma Good.received_le (hh : h.Good) : h.received ≤ h.posted := by
  have h₁ := hh.posted_eq
  omega

lemma Good.post (hh : h.Good) (hacked : h.acked = h.posted) : h.post.Good where
  posted_eq := by
    have h₁ := hh.posted_eq
    simp only [Handshake.post]
    omega
  answered_eq := hh.answered_eq
  answered_le := hh.answered_le
  posted_le := hacked ▸ le_rfl
  pending := hh.pending
  cleared := hh.cleared
  waiting _ := Nat.lt_succ_of_le hacked.le
  set _ := Or.inr rfl

lemma Good.setFlag (hh : h.Good) (hacked : h.acked < h.posted) : h.setFlag.Good where
  posted_eq := hh.posted_eq
  answered_eq := hh.answered_eq
  answered_le := hh.answered_le
  posted_le := hh.posted_le
  pending := hh.pending
  cleared := hh.cleared
  waiting _ := hacked
  set _ := Or.inl rfl

/-- The request that arrives is the only open one. -/
lemma Good.answered_of_requests (hh : h.Good) (hreq : 0 < h.requests) :
    h.answered = h.received := by
  have h₁ := hh.posted_eq
  have h₂ := hh.posted_le
  have h₃ := hh.answered_le
  have h₄ := hh.acked_le
  omega

lemma Good.arrive (hh : h.Good) (hreq : 0 < h.requests) : h.arrive.Good where
  posted_eq := by
    have h₁ := hh.posted_eq
    simp only [Handshake.arrive]
    omega
  answered_eq := hh.answered_eq
  answered_le := hh.answered_le.trans (Nat.le_succ _)
  posted_le := hh.posted_le
  pending _ := rfl
  cleared _ := Or.inr (Nat.lt_succ_of_le (hh.answered_of_requests hreq).le)
  waiting := hh.waiting
  set := hh.set

lemma Good.answer (hh : h.Good) (hpending : h.pending = true) (hreset : h.resetting = false) :
    h.answer.Good where
  posted_eq := hh.posted_eq
  answered_eq := by
    have h₁ := hh.answered_eq
    simp only [Handshake.answer]
    omega
  answered_le := (hh.cleared hpending).resolve_left (by simp [hreset])
  posted_le := hh.posted_le
  pending h' := hh.pending (Nat.lt_of_succ_lt h')
  cleared _ := Or.inl rfl
  waiting := hh.waiting
  set := hh.set

lemma Good.resetFlag (hh : h.Good) (hreceived : h.received = h.answered) : h.resetFlag.Good where
  posted_eq := hh.posted_eq
  answered_eq := hh.answered_eq
  answered_le := hh.answered_le
  posted_le := hh.posted_le
  pending h' := absurd hreceived (Nat.ne_of_gt h')
  cleared h' := absurd h' Bool.false_ne_true
  waiting := hh.waiting
  set := hh.set

lemma Good.ack (hh : h.Good) (hans : 0 < h.answers) : h.ack.Good where
  posted_eq := hh.posted_eq
  answered_eq := by
    have h₁ := hh.answered_eq
    simp only [Handshake.ack]
    omega
  answered_le := hh.answered_le
  posted_le := hh.posted_le.trans (Nat.le_succ _)
  pending := hh.pending
  cleared := hh.cleared
  waiting h' := absurd h' Bool.false_ne_true
  set h' := absurd hh.posted_le (Nat.not_le_of_gt h')

/-- An answer under way is to an open request. -/
lemma Good.acked_lt_of_answers (hh : h.Good) (hans : 0 < h.answers) : h.acked < h.posted := by
  have h₁ := hh.answered_eq
  have h₂ := hh.answered_le.trans hh.received_le
  omega

/-- The flag of the poster is not set once the answer has arrived. -/
lemma Good.waiting_of_acked (hh : h.Good) (hacked : h.acked = h.posted) : h.waiting = false := by
  by_contra hw
  have hlt := hh.waiting (by simpa using hw)
  omega

/-- Without the flag of the poster every request has its answer. -/
lemma Good.acked_of_waiting (hh : h.Good) (hw : h.waiting = false) (hset : h.setting = false) :
    h.acked = h.posted := by
  have h₁ := hh.acked_le
  have h₂ := hh.answered_le
  have h₃ := hh.received_le
  by_contra hne
  rcases hh.set (by omega) with h' | h'
  · simp [hw] at h'
  · simp [hset] at h'

end Handshake

end NetPipe
