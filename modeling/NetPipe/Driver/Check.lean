import Mathlib
import NetPipe.Driver.Integrity

/-!
# Receiving and checking a message

`RecvData`, `CheckBufferData` and the advance after them, in one process.
-/

namespace NetPipe

open StraightLine

section

variable {x : BufArgs} {side : Side} {lost : Loss} {sizes : List ℕ}
  {b start a p c : ℕ} {s s' : BufState}

/-! ### RecvData -/

/-- The effect of `RecvData`: the bytes of the message that are not lost are in the receive window,
and nothing else has changed. -/
structure Receipt (lost : Loss) (b c : ℕ) (m : Message) (s : BufState) (mem : ℤ → ℤ) : Prop where
  eq : s.recvData lost = { s with mem := mem }.complete s.r_ptr
  got : ∀ i < b, lost c i = false → mem (s.r_ptr + i) = m.byte i
  frame : ∀ y, (∀ i < b, lost c i = false → s.r_ptr + (i : ℕ) ≠ y) → mem y = s.mem y

lemma Receiving.recvData (h : Receiving x side lost sizes b start a p c s)
    (hp : p = c ∨ p = c + 1) (hsize : sizes[c]? = some b) (harrived : s.Arrived lost) :
    ∃ m mem, s.inbox[c]? = some m ∧ m.length = b ∧ Receipt lost b c m s mem := by
  obtain ⟨m, hm, hlanded⟩ := harrived
  rw [h.received] at hm hlanded
  have hlen := h.length_eq hsize hm
  rcases hp with rfl | rfl
  · -- nothing was posted, the whole message is stored now
    have hposted : s.posted = none := h.posted.trans (if_neg (Nat.lt_irrefl p))
    refine ⟨m, BufState.deposit (lost p) m s.r_ptr s.mem, hm, hlen, ?_, fun i hi hl => ?_,
      fun y hy => ?_⟩
    · simp only [BufState.recvData, hposted, h.received, hm]
    · exact BufState.deposit_of_not_lost (hlen ▸ hi) hl
    · exact BufState.deposit_outside fun i hi => hy i (hlen ▸ hi)
  · -- all bytes have landed in the posted window
    have hposted : s.posted = some s.r_ptr := h.posted.trans (if_pos (Nat.lt_succ_self c))
    refine ⟨m, s.mem, hm, hlen, ?_, fun i hi hl => ?_, fun y _ => rfl⟩
    · simp only [BufState.recvData, hposted]
      rfl
    · have hne : s.posted ≠ none := by
        rw [hposted]
        nofun
      obtain ⟨-, -, -, m', hm', hmem⟩ := h.landed i (hlanded hne i (hlen ▸ hi) hl)
      rw [hm, Option.some.injEq] at hm'
      rw [hmem, hm']

/-- `RecvData` completes message `c`. -/
lemma recvData_buffers (hfit : Fits x.flags.cache x.layout b) (hp : p = c ∨ p = c + 1)
    (hsize : sizes[c]? = some b) :
    Triple (bufMachine x side lost sizes) (Waiting x side lost sizes b start a p c)
      [.recvData] (Got x side lost sizes b start a c) := by
  refine .call (waiting_stable hfit) got_stable (fun _ _ => trivial) fun s s' h hstep => ?_
  obtain rfl : s' = s.recvData lost := Call.Buffers.eq hstep fun _ => ⟨_, rfl⟩
  obtain ⟨m, mem, hm, hlen, heq, hgot, hframe⟩ := h.toReceiving.recvData hp hsize (hstep.1 rfl)
  rw [heq]
  refine ⟨{ h.toCore with
    received := congrArg (· + 1) h.received
    posted := (if_neg (Nat.lt_irrefl _)).symm
    size := fun hlt => absurd hlt (Nat.lt_irrefl _)
    landed := fun i hi => absurd hi Bool.false_ne_true }, h.stag, rfl, ⟨m, hm, hlen, hgot⟩,
    fun hint => ⟨?_, ?_⟩, fun hint hc hs hpace i hi => ?_⟩
  · -- a lost byte did not land either
    intro hc hs i hi hex
    have hold := (h.old hint).swapping hc hs i hi fun hl => hex (h.landed i hl).2.2.1
    refine Eq.trans (hframe _ fun j hj hl heq => ?_) hold
    exact hex ((Int.ofNat_inj.mp (add_left_cancel heq)) ▸ hl)
  · intro hmode hr w hw i hi hclr hex
    have hold := (h.old hint).walking hmode hr w hw i hi hclr
      fun heq hl => hex heq (h.landed i hl).2.2.1
    refine Eq.trans (hframe _ fun j hj hl heq => ?_) hold
    by_cases hwr : w = s.r_ptr
    · subst hwr
      exact hex rfl ((Int.ofNat_inj.mp (add_left_cancel heq)) ▸ hl)
    · exact h.windows.slot_ne hfit h.windows.slot hw (Ne.symm hwr) hj hi heq
  · refine Eq.trans (hframe _ fun j hj _ heq => ?_) (h.oldSend hint hc hs hpace i hi)
    exact h.windows.send_ne hfit hi hj heq.symm

/-! ### CheckBufferData -/

/-- Only lost bytes can fail the check. -/
lemma Got.failureCount_eq_zero (h : Got x side lost sizes b start a c s) (hpos : 0 < b) :
    s.failureCount x.integrity = 0 ↔ ∀ i < b, Looked x.integrity b i → lost c i = true →
      s.mem (s.r_ptr + i) = pattern b ((c + 1) % 100) i := by
  obtain ⟨m, hm, hlen, hgot⟩ := h.got
  have hgood := h.inbox c m hm
  rw [BufState.failureCount_eq_zero (h.buflen ▸ hpos), h.buflen, h.rtag, Nat.mod_add_mod]
  refine forall₂_congr fun i hi => forall_congr' fun hl => ?_
  constructor
  · intro heq _
    exact heq
  · intro heq
    cases hlost : lost c i with
    | true => exact heq hlost
    | false =>
      rw [hgot i hi hlost, hgood.byte i (hlen ▸ hi) (hlen ▸ hl), hlen, hgood.stag]

/-- In an integrity run a loss is counted exactly if it is visible. -/
lemma Got.failureCount_pos (h : Got x side lost sizes b start a c s) (hpos : 0 < b)
    (hint : x.integrity = true) (hr : side.receives x.flags = true)
    (hpace : x.flags.stream = false → a + side.lag = c + 2)
    (hlost : ∃ i < b, lost c i = true) (hclr : ∀ i < b, Cleared x s (s.r_ptr + i)) :
    0 < s.failureCount x.integrity ↔ Visible x.flags side lost s := by
  have hcount : 0 < s.failureCount x.integrity ↔
      ∃ i < b, lost c i = true ∧ s.mem (s.r_ptr + i) ≠ pattern b ((c + 1) % 100) i := by
    rw [Nat.pos_iff_ne_zero, Ne, h.failureCount_eq_zero hpos]
    have hlooked : ∀ i, Looked x.integrity b i := fun _ => Or.inl hint
    simp only [hlooked, true_implies, not_forall, exists_prop]
  have hrec : s.received - 1 = c := by rw [h.received, Nat.add_sub_cancel]
  rw [hcount, Visible, hrec, h.buflen]
  by_cases hmode : x.flags.cache = true ∧ x.flags.stream = false
  · rw [if_pos hmode]
    have hold := (h.old hint).swapping hmode.1 hmode.2
    have hbyte : ∀ i < b, lost c i = true →
        s.mem (s.r_ptr + i) = staleByte side.lag s.log.length c b i :=
      fun i hi hl => hold i hi (by simp [hl])
    by_cases hfresh : s.log.length < side.lag
    · -- the window has not been used in this test
      obtain ⟨i, hi, hl⟩ := hlost
      refine iff_of_true ⟨i, hi, hl, ?_⟩ (Or.inl hfresh)
      rw [hbyte i hi hl, staleByte, if_pos hfresh]
      exact neg_one_ne_pattern _ _ _
    · have hstale : ∀ i < b, lost c i = true →
          (s.mem (s.r_ptr + i) ≠ pattern b ((c + 1) % 100) i ↔ i = 0 ∨ i + 1 = b) := by
        intro i hi hl
        rw [hbyte i hi hl, staleByte, if_neg hfresh, Ne, pattern_eq_pattern]
        -- the stale message is one or two messages older than the one expected
        have hlog := h.log
        have htags : (c + 1 - side.lag) % 100 ≠ (c + 1) % 100 := by
          cases side with
          | transmitter =>
            show (c + 1 - 1) % 100 ≠ (c + 1) % 100
            omega
          | receiver =>
            have hfresh : ¬ s.log.length < 2 := hfresh
            show (c + 1 - 2) % 100 ≠ (c + 1) % 100
            omega
        rw [Classical.not_imp, and_iff_left htags]
      rw [or_iff_right hfresh]
      constructor
      · rintro ⟨i, hi, hl, hne⟩
        exact ⟨i, hi, (hstale i hi hl).mp hne, hl⟩
      · rintro ⟨i, hi, hend, hl⟩
        exact ⟨i, hi, hl, (hstale i hi hl).mpr hend⟩
  · rw [if_neg hmode]
    have hwalk : x.flags.cache = true → x.flags.stream = true := by
      intro hc
      by_contra hs
      exact hmode ⟨hc, Bool.eq_false_of_not_eq_true hs⟩
    refine exists_congr fun i => and_congr_right fun hi => and_congr_right fun hl => ?_
    rw [(h.old hint).walking hwalk hr _ h.windows.slot i hi (hclr i hi)
      fun _ => by simp [hl], leftover]
    by_cases hend : i = 0 ∨ i + 1 = b
    · rw [if_pos hend, pattern, if_pos hend]
      simp only [hend, true_implies]
      cases hk : lastTag lost s.log s.r_ptr i with
      | none =>
        refine iff_of_true ?_ fun _ hk => by cases hk
        exact ne_of_lt (lt_of_lt_of_le neg_one_lt_zero (Int.natCast_nonneg _))
      | some k =>
        simp only [Option.some.injEq, forall_eq', ne_eq, Int.ofNat_inj]
        omega
    · rw [if_neg hend]
      exact iff_of_true (neg_one_ne_pattern _ _ _) fun h => absurd h hend

/-- The call of the check meets its contract. -/
lemma Got.checkOk (h : Got x side lost sizes b start a c s) (hpos : 0 < b)
    (hr : side.receives x.flags = true)
    (hpace : x.flags.stream = false → a + side.lag = c + 2) : CheckOk x side lost s := by
  have hrec : s.received - 1 = c := by rw [h.received, Nat.add_sub_cancel]
  obtain ⟨m, hm, -⟩ := h.got
  refine ⟨h.window, ⟨m, hrec ▸ hm, ?_⟩, fun hall => ?_, fun hint hlost hclr => ?_⟩
  · rw [h.rtag, Nat.mod_add_mod, (h.inbox c m hm).stag]
  · rw [hrec, h.buflen] at hall
    rw [h.failureCount_eq_zero hpos]
    intro i hi _ hl
    exact absurd ((hall i hi).symm.trans hl) Bool.false_ne_true
  · rw [hrec, h.buflen] at hlost
    rw [h.buflen] at hclr
    exact h.failureCount_pos hpos hint hr hpace hlost hclr

/-! ### The log -/

lemma lastTag_cons_of_ne {log : List (ℕ × ℤ)} {w w' : ℤ} {k i : ℕ} (h : w' ≠ w) :
    lastTag lost ((k, w') :: log) w i = lastTag lost log w i := by
  simp [lastTag, h]

lemma lastTag_cons_of_lost {log : List (ℕ × ℤ)} {w w' : ℤ} {k i : ℕ} (h : lost k i = true) :
    lastTag lost ((k, w') :: log) w i = lastTag lost log w i := by
  simp [lastTag, h]

lemma lastTag_cons_of_got {log : List (ℕ × ℤ)} {w : ℤ} {k i : ℕ} (h : lost k i = false) :
    lastTag lost ((k, w) :: log) w i = some k := by
  simp [lastTag, h]

/-- `CheckBufferData` meets its contract and clears the interior of the window. -/
lemma checkBufferData_buffers (hfit : Fits x.flags.cache x.layout b) (hpos : 0 < b)
    (hr : side.receives x.flags = true)
    (hpace : x.flags.stream = false → a + side.lag = c + 2) :
    Triple (bufMachine x side lost sizes) (Got x side lost sizes b start a c)
      [.checkBufferData] (Checked x side lost sizes b start a c) := by
  refine .call got_stable checked_stable (fun s h => h.checkOk hpos hr hpace)
    fun s s' h hstep => ?_
  obtain rfl : s' = s.checkBufferData x.integrity := Call.Buffers.eq hstep fun _ => ⟨_, rfl⟩
  have hrec : s.received - 1 = c := by rw [h.received, Nat.add_sub_cancel]
  refine ⟨{ h.toCore with
    rtag := (congrArg (fun n => (n + 1) % 100) h.rtag).trans (Nat.mod_add_mod c 100 1)
    log := ?_
    landed := fun i hi => absurd (h.landed i hi).1 (Nat.lt_irrefl _) }, h.stag, ?_, ?_⟩
  · show s.log.length + 1 + start = c + 1
    rw [← h.log, Nat.add_right_comm]
  · intro hint hmode _ w hw i hi hclr
    have hslot : Slot x.flags.cache x.layout b s.ptrs.ptrs s.r_ptr := h.windows.slot
    have hold := (h.old hint).walking hmode hr w hw i hi hclr
    have hlog : (s.checkBufferData x.integrity).log = (c, s.r_ptr) :: s.log := by
      rw [BufState.checkBufferData, hrec]
    rw [hlog]
    by_cases hwr : w = s.r_ptr
    · subst hwr
      by_cases hend : i = 0 ∨ i + 1 = b
      · -- an end of this window
        have hmem : (s.checkBufferData x.integrity).mem (s.r_ptr + i) = s.mem (s.r_ptr + i) := by
          refine BufState.checkBufferData_mem_outside fun j _ hj heq => hj ?_
          rw [Int.ofNat_inj.mp (add_left_cancel heq), h.buflen]
          exact hend
        rw [hmem]
        cases hl : lost c i with
        | true =>
          rw [hold fun _ => by simp [hl], leftover, leftover, lastTag_cons_of_lost hl]
        | false =>
          obtain ⟨m, hm, hlen, hgot⟩ := h.got
          have hgood := h.inbox c m hm
          rw [hgot i hi hl, hgood.byte i (hlen ▸ hi) (Or.inl hint), hlen, hgood.stag, pattern,
            if_pos hend, leftover, if_pos hend, lastTag_cons_of_got hl]
      · rw [leftover, if_neg hend, hint]
        exact BufState.checkBufferData_mem_interior (h.buflen ▸ hi) (h.buflen ▸ hend)
    · have hmem : (s.checkBufferData x.integrity).mem (w + i) = s.mem (w + i) := by
        refine BufState.checkBufferData_mem_outside fun j hj _ heq => ?_
        exact h.windows.slot_ne hfit hslot hw (Ne.symm hwr) (h.buflen ▸ hj) hi heq
      rw [hmem, hold fun heq => absurd heq hwr, leftover, leftover,
        lastTag_cons_of_ne (Ne.symm hwr)]
  · intro hint hc hs hpace' i hi
    refine Eq.trans ?_ (h.oldSend hint hc hs hpace' i hi)
    refine BufState.checkBufferData_mem_outside fun j hj _ heq => ?_
    exact h.windows.send_ne hfit hi (h.buflen ▸ hj) heq.symm

/-- `AdvancePtrs` after the check: the windows are ready for the next message. -/
lemma advanceReceived_buffers (hfit : Fits x.flags.cache x.layout b)
    (hpace : x.flags.stream = false → a + side.lag = c + 2) :
    Triple (bufMachine x side lost sizes) (Checked x side lost sizes b start a c)
      [advanceReceived] (Waiting x side lost sizes b start a (c + 1) (c + 1)) := by
  refine .call checked_stable (waiting_stable hfit) (fun _ _ => trivial) fun s s' h hstep => ?_
  obtain ⟨q, hq, rfl⟩ := hstep.moved
  rw [h.buflen] at hq
  obtain ⟨hwin, hpool, hswap⟩ := h.windows.received hfit hq
  refine ⟨⟨{ h.toCore with
      windows := hwin
      posted := h.posted.trans (by rw [if_neg (Nat.lt_irrefl _), if_neg (Nat.lt_irrefl _)])
      landed := fun i hi => absurd (h.landed i hi).1 (Nat.lt_irrefl _) },
    fun hint => ⟨?_, ?_⟩⟩, h.stag, fun _ _ hs hpace' => ?_⟩
  · intro hc hs i hi _
    rw [BufState.r_ptr, (hswap hc).2]
    exact h.oldSend hint hc hs (hpace hs) i hi
  · intro hmode hr w hw i hi hclr _
    exact h.walking hint hmode hr w (Core.slot_moved hpool hw) i hi (cleared_moved hpool hclr)
  · have := hpace hs
    omega

end

end NetPipe
