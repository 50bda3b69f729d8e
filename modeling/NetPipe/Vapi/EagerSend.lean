import NetPipe.Vapi.Eager

/-!
# The sending side of eager messages

The counters wrap around, but a sender is never so far behind that this matters. A send buffer is
not written again before its message has been carried out.
-/

namespace NetPipe.Vapi

/-! ### Counters -/

section

variable {n m a b : ℕ}

/-- The value of a counter after `n` increments. -/
def count (n : ℕ) : ℕ := n % (countMax + 1)

lemma incWithWrap_count : incWithWrap (count n) = count (n + 1) := by
  unfold incWithWrap count countMax
  split <;> omega

lemma addWithWrap_count (hm : m ≤ countMax) : addWithWrap (count n) m = count (n + m) := by
  unfold addWithWrap count countMax at *
  split <;> omega

/-- Counters that are not far apart have the same value only if they are the same. -/
lemma count_eq_iff (hab : a ≤ b) (hba : b ≤ a + eagerBuffersPerNode) :
    count a = count b ↔ a = b := by
  unfold count countMax eagerBuffersPerNode at *
  omega

end

/-! ### Sending -/

/-- The sender after `done + completed` transfers, when it knows of `w` posted receives and has
`k` sends whose completions it has not handled. -/
structure SendInv (p : SendSide) (k done completed w : ℕ) : Prop where
  sends : p.sends = count p.sent.length
  locSendFreed : p.locSendFreed = count (eagerBuffersPerNode + completed)
  remRecvFreed : p.remRecvFreed = count w
  next : p.nextSendBuffer = p.sent.length % eagerBuffersPerNode
  inFlight : completed + k = p.sent.length
  delivered : completed + done ≤ p.sent.length
  room : p.sent.length ≤ eagerBuffersPerNode + completed
  credit : p.sent.length ≤ w
  credit_le : w ≤ p.sent.length + eagerBuffersPerNode
  sr : p.sr = (List.range' (completed + done) (p.sent.length - (completed + done))).map
    (· % eagerBuffersPerNode)
  buffers : ∀ i m, completed + done ≤ i → p.sent[i]? = some m →
    p.sendBuffers (i % eagerBuffersPerNode) = m

namespace SendInv

variable {p : SendSide} {q : List SendEntry} {m : Packet} {k l done completed w w' id : ℕ}

/-- The counters hold a send back just if a buffer is missing. -/
lemma full_eq_false (h : SendInv p k done completed w) : p.full = false ↔
    p.sent.length < eagerBuffersPerNode + completed ∧ p.sent.length < w := by
  have hroom := h.room
  have hcredit := h.credit
  have h₁ := count_eq_iff h.room (by have := h.inFlight; omega)
  have h₂ := count_eq_iff h.credit h.credit_le
  simp only [SendSide.full, h.sends, h.locSendFreed, h.remRecvFreed, h₁, h₂, Bool.or_eq_false_iff,
    decide_eq_false_iff_not]
  omega

/-- The buffers under way are not overwritten. -/
lemma ibPostEagerSend (h : SendInv p k done completed w) (hfull : p.full = false) (m : Packet) :
    SendInv (p.ibPostEagerSend m) (k + 1) done completed w := by
  obtain ⟨hroom, hcredit⟩ := h.full_eq_false.1 hfull
  have hdel := h.delivered
  have hle := h.credit_le
  refine
    { sends := by simp [SendSide.ibPostEagerSend, h.sends, incWithWrap_count]
      locSendFreed := h.locSendFreed
      remRecvFreed := h.remRecvFreed
      next := by simp [SendSide.ibPostEagerSend, h.next, eagerBuffersPerNode]
      inFlight := by simp [SendSide.ibPostEagerSend, ← h.inFlight, add_assoc]
      delivered := by simp [SendSide.ibPostEagerSend]; omega
      room := by simp [SendSide.ibPostEagerSend]; omega
      credit := by simp [SendSide.ibPostEagerSend]; omega
      credit_le := by simp [SendSide.ibPostEagerSend]; omega
      sr := ?_
      buffers := ?_ }
  · have hlen : p.sent.length + 1 - (completed + done) =
        p.sent.length - (completed + done) + 1 := by omega
    simp only [SendSide.ibPostEagerSend, h.sr, h.next, List.length_append, List.length_singleton,
      hlen, List.range'_1_concat, List.map_append, List.map_singleton]
    rw [Nat.add_sub_cancel' hdel]
  · intro i m' hi hm'
    simp only [SendSide.ibPostEagerSend, h.next] at hm' ⊢
    rcases lt_or_ge i p.sent.length with hlt | hge
    · rw [List.getElem?_append_left hlt] at hm'
      -- fewer than four messages are under way, so the new one has another buffer
      rw [Function.update_of_ne, h.buffers i m' hi hm']
      unfold eagerBuffersPerNode at *
      omega
    · have hlt := (List.getElem?_eq_some_iff.1 hm').1
      obtain rfl : i = p.sent.length := by simp at hlt; omega
      rw [Function.update_self]
      simpa using hm'

/-- The check of the queue posts messages and changes nothing else. -/
lemma ibEagerCheckSends (h : SendInv p (l + q.countP (·.flag = .waitingCompletion)) done completed w) :
    SendInv (p.ibEagerCheckSends q).1
      (l + (p.ibEagerCheckSends q).2.1.countP (·.flag = .waitingCompletion)) done completed w ∧
    (p.ibEagerCheckSends q).2.1.map (·.id) = q.map (·.id) ∧
    p.sent <+: (p.ibEagerCheckSends q).1.sent := by
  induction q generalizing p l with
  | nil => exact ⟨h, rfl, List.prefix_rfl⟩
  | cons e q ih =>
    cases hfull : p.full with
    | true => simpa [SendSide.ibEagerCheckSends, hfull] using h
    | false =>
      by_cases he : e.flag = .waitingPost
      · have hpost := h.ibPostEagerSend hfull e.msg
        simp only [List.countP_cons, he, reduceCtorEq, decide_false, Bool.false_eq_true, ↓reduceIte,
          add_zero] at hpost
        obtain ⟨hi, hids, hpre⟩ := ih (l := l + 1) (by convert hpost using 1; omega)
        simp only [SendSide.ibEagerCheckSends, hfull, he, Bool.false_eq_true, ↓reduceIte]
        refine ⟨?_, by simp [hids], (List.prefix_append _ _).trans hpre⟩
        convert hi using 1
        simp only [List.countP_cons, decide_true, ↓reduceIte]
        omega
      · simp only [SendSide.ibEagerCheckSends, hfull, he, Bool.false_eq_true, ↓reduceIte,
          List.countP_cons, List.map_cons] at h ⊢
        obtain ⟨hi, hids, hpre⟩ :=
          ih (l := l + if decide (e.flag = .waitingCompletion) = true then 1 else 0)
            (by convert h using 1; omega)
        exact ⟨by convert hi using 1; omega, by rw [hids], hpre⟩

lemma ibEagerAsend (h : SendInv p (q.countP (·.flag = .waitingCompletion)) done completed w)
    (id : ℕ) (m : Packet) :
    SendInv (p.ibEagerAsend id m q).1
      ((p.ibEagerAsend id m q).2.countP (·.flag = .waitingCompletion)) done completed w ∧
    (p.ibEagerAsend id m q).2.map (·.id) = q.map (·.id) ++ [id] ∧
    p.sent <+: (p.ibEagerAsend id m q).1.sent := by
  obtain ⟨hi, hids, hpre⟩ := ibEagerCheckSends (l := 0) (q := q) (by simpa using h)
  rw [zero_add] at hi
  simp only [SendSide.ibEagerAsend]
  split
  · next hfull =>
    simp only [Bool.and_eq_true, Bool.not_eq_true'] at hfull
    exact ⟨by simpa using hi.ibPostEagerSend hfull.2 m, by simp [hids],
      hpre.trans (List.prefix_append _ _)⟩
  · exact ⟨by simpa using hi, by simp [hids], hpre⟩

/-- The completion of a send frees a buffer. -/
lemma free (h : SendInv p (k + 1) (done + 1) completed w) :
    SendInv { p with locSendFreed := incWithWrap p.locSendFreed } k done (completed + 1) w := by
  have hdel := h.delivered
  have hin := h.inFlight
  have hassoc : completed + 1 + done = completed + (done + 1) := by omega
  exact
    { h with
      locSendFreed := by simp [h.locSendFreed, incWithWrap_count, add_assoc]
      inFlight := by simp; omega
      delivered := by simp; omega
      room := by have := h.room; simp; omega
      sr := by simpa [hassoc] using h.sr
      buffers := fun i m hi hm => h.buffers i m (by omega) hm }

/-- The message of the first request still stands in its buffer. -/
lemma transfer {b : ℕ} {sr : List ℕ} (h : SendInv p k done completed w) (hsr : p.sr = b :: sr) :
    p.sent[completed + done]? = some (p.sendBuffers b) ∧
      SendInv { p with sr := sr } k (done + 1) completed w := by
  have heq := h.sr
  rw [hsr] at heq
  obtain ⟨n, hn⟩ : ∃ n, p.sent.length - (completed + done) = n + 1 := by
    cases hlen : p.sent.length - (completed + done) with
    | zero => simp [hlen] at heq
    | succ n => exact ⟨n, rfl⟩
  rw [hn, List.range'_succ, List.map_cons, List.cons.injEq] at heq
  obtain ⟨rfl, rfl⟩ := heq
  have hlt : completed + done < p.sent.length := by omega
  refine ⟨?_, ?_⟩
  · rw [List.getElem?_eq_getElem hlt,
      h.buffers (completed + done) _ le_rfl (List.getElem?_eq_getElem hlt)]
  · have hn' : p.sent.length - (completed + (done + 1)) = n := by omega
    exact
      { h with
        delivered := by simp; omega
        sr := by simp [hn', add_assoc]
        buffers := fun i m hi hm => h.buffers i m (by omega) hm }

lemma learn (h : SendInv p k done completed w) (hw : w ≤ w')
    (hle : w' ≤ p.sent.length + eagerBuffersPerNode) :
    SendInv { p with remRecvFreed := count w' } k done completed w' :=
  { h with
    remRecvFreed := rfl
    credit := h.credit.trans hw
    credit_le := hle }

end SendInv

end NetPipe.Vapi
