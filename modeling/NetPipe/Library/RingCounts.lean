import Mathlib

/-!
# Counts on a ring

Tokens go from each of `n` processes to the next one. Process 0 sends at most one token more than it
has got, the other processes send at most as many as they have got. Then at most one token is missing
anywhere on the ring.
-/

namespace NetPipe

lemma succ_mod_inj {n i j : ℕ} (hi : i < n) (hj : j < n) (h : (i + 1) % n = (j + 1) % n) :
    i = j := by
  have hmod : i ≡ j [MOD n] := Nat.ModEq.add_right_cancel' 1 h
  rwa [Nat.ModEq, Nat.mod_eq_of_lt hi, Nat.mod_eq_of_lt hj] at hmod

/-- What the processes of a ring have sent and got. -/
structure RingCounts (n : ℕ) (sent got : ℕ → ℕ) : Prop where
  first : sent 0 ≤ got 0 + 1
  later : ∀ i, 0 < i → i < n → sent i ≤ got i
  link : ∀ i < n, got ((i + 1) % n) ≤ sent i

namespace RingCounts

variable {n i j : ℕ} {sent got : ℕ → ℕ}

lemma got_succ_le (h : RingCounts n sent got) (hi : i + 1 < n) : got (i + 1) ≤ sent i := by
  have := h.link i (Nat.lt_of_succ_lt hi)
  rwa [Nat.mod_eq_of_lt hi] at this

lemma sent_le_sent (h : RingCounts n sent got) (hij : i ≤ j) (hj : j < n) : sent j ≤ sent i := by
  induction j, hij using Nat.le_induction with
  | base => exact le_rfl
  | succ j hij ih =>
    calc sent (j + 1) ≤ got (j + 1) := h.later _ (Nat.succ_pos j) hj
      _ ≤ sent j := h.got_succ_le hj
      _ ≤ sent i := ih (Nat.lt_of_succ_lt hj)

/-- What process 0 has got has gone past all. -/
lemma got_zero_le (h : RingCounts n sent got) (hj : j < n) : got 0 ≤ sent j := by
  obtain ⟨m, rfl⟩ := Nat.exists_eq_succ_of_ne_zero (Nat.ne_zero_of_lt hj)
  have hlast := h.link m (Nat.lt_succ_self m)
  rw [Nat.succ_eq_add_one, Nat.mod_self] at hlast
  exact hlast.trans (h.sent_le_sent (Nat.le_of_lt_succ hj) (Nat.lt_succ_self m))

lemma sent_le_succ (h : RingCounts n sent got) (hi : i < n) (hj : j < n) : sent i ≤ sent j + 1 :=
  calc sent i ≤ sent 0 := h.sent_le_sent (Nat.zero_le i) hi
    _ ≤ got 0 + 1 := h.first
    _ ≤ sent j + 1 := Nat.succ_le_succ (h.got_zero_le hj)

lemma got_le_succ (h : RingCounts n sent got) (hi : i < n) (hj : j < n) : got i ≤ sent j + 1 := by
  cases i with
  | zero => exact (h.got_zero_le hj).trans (Nat.le_succ _)
  | succ i => exact (h.got_succ_le hi).trans (h.sent_le_succ (Nat.lt_of_succ_lt hi) hj)

lemma got_le_sent_zero (h : RingCounts n sent got) (hi : i < n) : got i ≤ sent 0 := by
  cases i with
  | zero => exact h.got_zero_le hi
  | succ i => exact (h.got_succ_le hi).trans (h.sent_le_sent (Nat.zero_le i) (Nat.lt_of_succ_lt hi))

/-- If every token has arrived and process 0 waits for one, some other process keeps it. -/
lemma exists_lt (h : RingCounts n sent got) (hn : 0 < n)
    (hlink : ∀ i < n, got ((i + 1) % n) = sent i) (hwait : got 0 < sent 0) :
    ∃ i, 0 < i ∧ i < n ∧ sent i < got i := by
  by_contra hnone
  have heq : ∀ i < n, sent i = sent 0 := by
    intro i
    induction i with
    | zero => exact fun _ => rfl
    | succ i ih =>
      intro hi
      have hgot := hlink i (Nat.lt_of_succ_lt hi)
      rw [Nat.mod_eq_of_lt hi, ih (Nat.lt_of_succ_lt hi)] at hgot
      rw [← hgot]
      refine le_antisymm (h.later _ (Nat.succ_pos i) hi) (not_lt.1 fun hlt => ?_)
      exact hnone ⟨i + 1, Nat.succ_pos i, hi, hlt⟩
  have hlast := hlink (n - 1) (Nat.sub_lt hn Nat.one_pos)
  rw [Nat.sub_add_cancel hn, Nat.mod_self, heq _ (Nat.sub_lt hn Nat.one_pos)] at hlast
  exact hwait.ne hlast

/-- If process 0 has got back all it has sent, all have sent the same. -/
lemma sent_eq (h : RingCounts n sent got) (hi : i < n) (hback : sent 0 ≤ got 0) :
    sent i = sent 0 :=
  le_antisymm (h.sent_le_sent (Nat.zero_le i) hi) (hback.trans (h.got_zero_le hi))

end RingCounts

end NetPipe
