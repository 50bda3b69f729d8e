import NetPipe.Driver.Trials
import NetPipe.Mpi.Tags

/-!
# Trials with the MPI module

Each process on its own: every call of a run meets its contract, in every mode.
-/

namespace NetPipe

open StraightLine

section

variable {f : Flags} {side : Side} {run : List Envelope} {P Q R : MpiState → Prop}

lemma mpiMachine_stable (P : MpiState → Prop) : (mpiMachine f side run).Stable P :=
  fun _ _ _ h => h.elim

/-- The rule of one call. -/
lemma mpi_call {c : MpiCall} (hok : ∀ s, P s → MpiContract f side run c s)
    (hstep : ∀ s, P s → Q (c.exec f s)) : Triple (mpiMachine f side run) P [c] Q :=
  .call (mpiMachine_stable P) (mpiMachine_stable Q) hok fun s s' hs hs' => by
    rw [show s' = c.exec f s from hs']
    exact hstep s hs

/-- The calls that do not concern the MPI module. -/
def Call.quiet : Call → Bool
  | .sendData | .prepostRecv | .recvData | .doWork | .reset => false
  | _ => true

lemma mpi_quiet {c : Call} (hc : c.quiet = true) :
    Triple (mpiMachine f side run) P [.call c] P := by
  apply mpi_call
  · intro s _
    cases c <;> first | exact trivial | cases hc
  · intro s hs
    cases c <;> first | exact hs | cases hc

lemma mpi_quiets {cs : List Call} (hcs : ∀ c ∈ cs, c.quiet = true) :
    Triple (mpiMachine f side run) P (cs.map .call) P := by
  induction cs with
  | nil => exact .nil (mpiMachine_stable P)
  | cons c cs ih =>
    exact .cons (mpi_quiet (hcs c List.mem_cons_self))
      (ih fun d hd => hcs d (List.mem_cons_of_mem c hd))

end

/-! ### One trial -/

section

variable {f : Flags} {side : Side} {n : ℕ} {pre post : List ℕ} {a b c : ℕ}

/-- The machine of a run in which a trial with `n` repeats follows those of `pre`. -/
abbrev trialMachine (f : Flags) (side : Side) (n : ℕ) (pre post : List ℕ) :
    Machine MpiCall MpiState :=
  mpiMachine f side (envelopes 0 (pre ++ n :: post))

lemma sendData_triple (hs : sendsIn f side = true) (ha : a < n) :
    Triple (trialMachine f side n pre post) (Within f side n pre a b c)
      ([.sendData].map .call) (Within f side n pre (a + 1) b c) :=
  mpi_call (fun _ h => h.sendData_ok ha hs) fun _ h => h.sendData

lemma prepostRecv_triple (hr : receivesIn f side = true) (hb : b < n)
    (hbc : if f.burst then c = 0 else b = c) :
    Triple (trialMachine f side n pre post) (Within f side n pre a b c)
      ([.prepostRecv].map .call) (Within f side n pre a (b + 1) c) :=
  mpi_call (fun _ h => h.prepostRecv_ok hb hbc hr) fun _ h => h.prepostRecv hb hbc

lemma doWork_triple (hcb : c < b) (hbn : b ≤ n) (hburst : f.burst = true → b = n) :
    Triple (trialMachine f side n pre post) (Within f side n pre a b c)
      ([.doWork].map .call) (Within f side n pre a b c) :=
  mpi_call (fun _ h => h.waiting_ok hcb hbn hburst) fun _ h => h.doWork

lemma recvData_triple (hcb : c < b) (hbn : b ≤ n)
    (hburst : if f.burst then b = n else b = c + 1) :
    Triple (trialMachine f side n pre post) (Within f side n pre a b c)
      ([.recvData, .checkBufferData, advanceReceived].map .call)
      (Within f side n pre a b (c + 1)) := by
  refine .cons (mpi_call (fun _ h => h.waiting_ok hcb hbn fun hf => ?_)
    fun _ h => h.recvData hcb hbn hburst) (.cons (mpi_quiet rfl) (mpi_quiet rfl))
  rw [if_pos hf] at hburst
  exact hburst

end

section

variable {f : Flags} {side : Side} {n : ℕ} {pre post : List ℕ}

/-- The three calls around a send. -/
lemma sending_triple {a b c : ℕ} (hs : sendsIn f side = true) (ha : a < n) :
    Triple (trialMachine f side n pre post) (Within f side n pre a b c)
      ([.setupBufferData, .sendData, advanceSent].map .call)
      (Within f side n pre (a + 1) b c) :=
  .cons (mpi_quiet rfl) (.append (sendData_triple hs ha) (mpi_quiet rfl))

/-- Preposting all receives of a burst. -/
lemma burstPrepost_triple (hb : f.burst = true) (hr : receivesIn f side = true) :
    Triple (trialMachine f side n pre post) (Within f side n pre 0 0 0)
      ((burstPrepost n).map .call) (Within f side n pre 0 n 0) := by
  have hloop : Triple (trialMachine f side n pre post) (Within f side n pre 0 0 0)
      (((List.range n).flatMap fun _ => [.prepostRecv, advancePosted]).map .call)
      (Within f side n pre 0 n 0) :=
    TrialRules.range (J := fun j => Within f side n pre 0 j 0) (mpiMachine_stable _) fun j hj =>
      .append (prepostRecv_triple hr hj (by rw [if_pos hb])) (mpi_quiet rfl)
  exact TrialRules.append (.cons (mpi_quiet rfl) hloop) (mpi_quiet rfl)

/-- The calls of the trial loops keep to the rules of a trial. -/
lemma mpi_rules (hasync : f.async = true) :
    TrialRules (trialMachine f side n pre post) .call f (side.loop f) n (Within f side n pre) where
  stable _ _ _ := mpiMachine_stable _
  flush _ _ _ := mpi_quiet rfl
  sync _ _ _ := mpi_quiet rfl
  burst := burstPrepost_triple
  post hb _ hr _ _ hc := prepostRecv_triple hr hc (by rw [hb]; rfl)
  send hs _ _ _ ha _ := sending_triple hs ha
  work _ a c hc := by
    have hposted : c < postedAt f n c ∧ postedAt f n c ≤ n := by
      rw [postedAt, hasync, if_pos (rfl : true = true)]
      split_ifs
      · exact ⟨hc, le_refl n⟩
      · exact ⟨Nat.lt_succ_self c, hc⟩
    refine doWork_triple hposted.1 hposted.2 fun hb => ?_
    rw [postedAt, if_pos hb]
  receive _ a c hc _ := by
    have hposted : c < postedAt f n c ∧ postedAt f n c ≤ n ∧
        postedIdle f n (c + 1) = postedAt f n c ∧
        if f.burst then postedAt f n c = n else postedAt f n c = c + 1 := by
      rw [postedAt, postedIdle, hasync, if_pos (rfl : true = true)]
      split_ifs
      · exact ⟨hc, le_refl n, rfl, rfl⟩
      · exact ⟨Nat.lt_succ_self c, hc, rfl, rfl⟩
    rw [hposted.2.2.1]
    exact recvData_triple hposted.1 hposted.2.1 hposted.2.2.2

/-- The end of a trial: everything sent and received, and all tags back at zero. -/
lemma reset_triple (f : Flags) (side : Side) (n : ℕ) (pre post : List ℕ) :
    Triple (trialMachine f side n pre post)
      (Within f side n pre (if sendsIn f side then n else 0) (if receivesIn f side then n else 0)
        (if receivesIn f side then n else 0))
      ([.reset].map .call) (Within f side n (pre ++ [n]) 0 0 0) := by
  have hlog : ∀ b : Bool, (if b then envelopes 0 pre else []) ++
      trialEnvelopes n pre.length (if b then n else 0) =
        if b then envelopes 0 pre ++ trialEnvelopes n pre.length n else [] := by
    intro b
    cases b <;> rfl
  have hextend : envelopes 0 (pre ++ [n]) = envelopes 0 pre ++ trialEnvelopes n pre.length n := by
    rw [envelopes_append, Nat.zero_add]
    exact congrArg _ (List.append_nil _)
  have hstag : ∀ b : Bool, (if b then n else 0) % n = 0 := by
    intro b
    cases b
    · exact Nat.zero_mod n
    · exact Nat.mod_self n
  have hrtag : ∀ b : Bool, (if f.burst then (if b then n else 0) + (if b then n else 0)
      else if b then n else 0) % n = 0 := by
    intro b
    split_ifs
    · rw [Nat.add_mod_left, Nat.mod_self]
    · exact Nat.zero_mod n
    · exact Nat.mod_self n
    · exact Nat.zero_mod n
  have hactive : ∀ s, Within f side n pre (if sendsIn f side then n else 0)
      (if receivesIn f side then n else 0) (if receivesIn f side then n else 0) s →
      ∀ m, ¬ (s.recvRequest m).IsActive := by
    intro s hs m hm
    obtain ⟨j, hcj, hjb, -⟩ := hs.active m hm
    exact absurd hcj (Nat.not_le_of_lt hjb)
  apply mpi_call
  · intro s hs
    refine ⟨?_, ?_, hactive s hs, ?_, ?_⟩
    · rw [hs.stag, hstag]
    · rw [hs.rtag, hrtag]
    · rw [hs.sends, hs.trial, envelopes_filter, hlog]
    · rw [hs.posts, hs.trial, envelopes_filter, hlog]
  · intro s hs
    refine ⟨hs.nrepeats, hs.length, ?_, ?_, ?_, rfl, rfl, rfl, ?_, ?_, ?_, ?_⟩
    · exact hs.stag.trans ((hstag _).trans (Nat.zero_mod n).symm)
    · refine hs.rtag.trans ((hrtag _).trans ?_)
      split_ifs <;> exact (Nat.zero_mod n).symm
    · rw [List.length_append, ← hs.trial]
      rfl
    · refine hs.sends.trans ?_
      rw [hlog, hextend]
      exact (List.append_nil _).symm
    · refine hs.posts.trans ?_
      rw [hlog, hextend]
      exact (List.append_nil _).symm
    · intro m hm
      exact absurd hm (hactive s hs m)
    · intro j _ hj
      exact absurd hj (Nat.not_lt_zero j)

/-- One trial of either process. -/
lemma trial_triple (hasync : f.async = true) (hn : 0 < n) :
    Triple (trialMachine f side n pre post) (Within f side n pre 0 0 0)
      ((trial f 1 (side.loop f) n).map .call) (Within f side n (pre ++ [n]) 0 0 0) :=
  (mpi_rules hasync).trial hn 1 (reset_triple f side n pre post)

end

/-! ### A whole run -/

/-- Between two segments, after trials with repeat counts `pre`: everything sent, received and
completed. -/
structure Between (f : Flags) (side : Side) (pre : List ℕ) (s : MpiState) : Prop where
  length : f.burst = false → s.length = 1
  trial : s.trial = pre.length
  sent : s.sent = 0
  posted : s.posted = 0
  received : s.received = 0
  sends : s.sends = if sendsIn f side then envelopes 0 pre else []
  posts : s.posts = if receivesIn f side then envelopes 0 pre else []
  idle : ∀ m, ¬ (s.recvRequest m).IsActive

section

variable {f : Flags} {side : Side} {n v : ℕ} {pre : List ℕ} {run : List Envelope} {s : MpiState}

lemma between_setup : Between f side [] Mpi.setup := by
  refine ⟨fun _ => rfl, rfl, rfl, rfl, rfl, ?_, ?_, ?_⟩
  · exact (ite_self _).symm
  · exact (ite_self _).symm
  · rintro m ⟨k, hk⟩
    cases hk

lemma Within.between (h : Within f side n pre 0 0 0 s) : Between f side pre s where
  length hb := by rw [h.length, hb]; rfl
  trial := h.trial
  sent := h.sent
  posted := h.posted
  received := h.received
  sends := h.sends.trans (List.append_nil _)
  posts := h.posts.trans (List.append_nil _)
  idle m hm := by
    obtain ⟨j, -, hj, -⟩ := h.active m hm
    exact absurd hj (Nat.not_lt_zero j)

/-- A broadcast resets the tags and, in burst mode, makes room for the receives of a trial. -/
lemma Between.within (h : Between f side pre s) :
    Within f side v pre 0 0 0 (Mpi.broadcast f v s) := by
  obtain ⟨h₁, h₂, h₃, h₄, h₅, h₆, h₇, h₈⟩ := h
  have hnone : ∀ m, ¬ ((Mpi.broadcast f v s).recvRequest m).IsActive := by
    intro m hm
    cases hb : f.burst with
    | true =>
      rw [Mpi.broadcast, hb] at hm
      obtain ⟨k, hk⟩ := hm
      cases hk
    | false =>
      rw [Mpi.broadcast, hb] at hm
      exact h₈ m hm
  have hactive : ∀ m, ((Mpi.broadcast f v s).recvRequest m).IsActive →
      ∃ j, 0 ≤ j ∧ j < 0 ∧ m = entryOf f j := fun m hm => absurd hm (hnone m)
  have hpending : ∀ {P : ℕ → Prop} j, 0 ≤ j → j < 0 → P j :=
    fun j _ hj => absurd hj (Nat.not_lt_zero j)
  have hmod : (0 : ℕ) = (if f.burst then 0 + 0 else 0) % v := by
    rw [Nat.zero_add, ite_self, Nat.zero_mod]
  cases hb : f.burst with
  | true =>
    rw [Mpi.broadcast, hb] at hactive ⊢
    exact ⟨rfl, by rw [hb]; rfl, (Nat.zero_mod v).symm, hmod, h₂, h₃, h₄, h₅,
      h₆.trans (List.append_nil _).symm, h₇.trans (List.append_nil _).symm, hactive, hpending⟩
  | false =>
    rw [Mpi.broadcast, hb] at hactive ⊢
    exact ⟨rfl, by rw [hb]; exact h₁ hb, (Nat.zero_mod v).symm, hmod, h₂, h₃, h₄, h₅,
      h₆.trans (List.append_nil _).symm, h₇.trans (List.append_nil _).symm, hactive, hpending⟩

lemma broadcast_triple :
    Triple (mpiMachine f side run) (Between f side pre) [.broadcast v]
      (Within f side v pre 0 0 0) :=
  mpi_call (fun _ h => h.idle) fun _ h => h.within

/-- The trials of a test. -/
lemma trials_triple (hasync : f.async = true) (hn : 0 < n) (ntrials : ℕ) (post : List ℕ) :
    Triple (mpiMachine f side (envelopes 0 (pre ++ (List.replicate ntrials n ++ post))))
      (Within f side n pre 0 0 0)
      (((List.range ntrials).flatMap fun _ => trial f 1 (side.loop f) n).map .call)
      (Within f side n (pre ++ List.replicate ntrials n) 0 0 0) := by
  have hpass : ∀ i < ntrials,
      Triple (mpiMachine f side (envelopes 0 (pre ++ (List.replicate ntrials n ++ post))))
        (Within f side n (pre ++ List.replicate i n) 0 0 0)
        ((trial f 1 (side.loop f) n).map .call)
        (Within f side n (pre ++ List.replicate (i + 1) n) 0 0 0) := by
    intro i hi
    -- the trials before and after the `i`-th one
    have hrep : List.replicate ntrials n =
        List.replicate i n ++ n :: List.replicate (ntrials - (i + 1)) n := by
      rw [← List.replicate_succ, List.replicate_append_replicate]
      congr 1
      omega
    have hsplit : pre ++ (List.replicate ntrials n ++ post) =
        (pre ++ List.replicate i n) ++ n :: (List.replicate (ntrials - (i + 1)) n ++ post) := by
      rw [hrep, List.append_assoc, List.append_assoc, List.cons_append]
    rw [hsplit, List.replicate_succ', ← List.append_assoc]
    exact trial_triple hasync hn
  have hloop := TrialRules.range
    (J := fun i => Within f side n (pre ++ List.replicate i n) 0 0 0) (mpiMachine_stable _) hpass
  rw [List.replicate_zero, List.append_nil] at hloop
  exact hloop

/-- One segment of a run. -/
lemma segment_triple (hasync : f.async = true) (ntrials : ℕ) (seg : Segment) (post : List ℕ) :
    Triple (mpiMachine f side (envelopes 0 (pre ++ (trialRepeats ntrials [seg] ++ post))))
      (Between f side pre) (seg.calls f ntrials (side.loop f))
      (Between f side (pre ++ trialRepeats ntrials [seg])) := by
  cases seg with
  | finished v =>
    rw [show trialRepeats ntrials [.finished v] = [] from rfl, List.append_nil]
    exact broadcast_triple.weaken (fun _ h => h) fun _ h => h.between
  | test t =>
    have hreps : trialRepeats ntrials [.test t] = List.replicate ntrials t.nrepeat :=
      List.append_nil _
    rw [hreps]
    have hstart : Triple
        (mpiMachine f side (envelopes 0 (pre ++ (List.replicate ntrials t.nrepeat ++ post))))
        (Within f side t.nrepeat pre 0 0 0)
        ([.test t.buflen, if f.cache then .mallocBufs else .initBufferData].map .call)
        (Within f side t.nrepeat pre 0 0 0) := by
      apply mpi_quiets
      intro c hc
      rcases List.mem_pair.mp hc with rfl | rfl
      · rfl
      · split_ifs <;> rfl
    have hend : Triple
        (mpiMachine f side (envelopes 0 (pre ++ (List.replicate ntrials t.nrepeat ++ post))))
        (Within f side t.nrepeat (pre ++ List.replicate ntrials t.nrepeat) 0 0 0)
        ((gathers f ++ if f.cache then [Call.freeBufs] else []).map .call)
        (Within f side t.nrepeat (pre ++ List.replicate ntrials t.nrepeat) 0 0 0) := by
      apply mpi_quiets
      intro c hc
      rw [gathers] at hc
      split_ifs at hc <;> simp at hc <;> rcases hc with rfl | rfl <;> rfl
    have hall := TrialRules.append hstart
      (TrialRules.append (trials_triple hasync t.nrepeat_pos ntrials post) hend)
    have hbetween := hall.weaken (fun _ h => h) fun _ h => h.between
    rw [Segment.calls, testCalls]
    refine .cons broadcast_triple ?_
    simpa only [List.append_assoc] using hbetween

/-- Every call of a run meets its contract. -/
theorem run_triple (hasync : f.async = true) (ntrials : ℕ) (segs : List Segment) :
    Triple (mpiMachine f side (envelopes 0 (pre ++ trialRepeats ntrials segs)))
      (Between f side pre) (mpiCalls f ntrials (side.loop f) segs)
      (Between f side (pre ++ trialRepeats ntrials segs)) := by
  induction segs generalizing pre with
  | nil =>
    rw [show trialRepeats ntrials [] = [] from rfl, List.append_nil]
    exact .nil (mpiMachine_stable _)
  | cons seg segs ih =>
    have hreps : trialRepeats ntrials (seg :: segs) =
        trialRepeats ntrials [seg] ++ trialRepeats ntrials segs := by
      rw [← List.singleton_append, trialRepeats, List.flatMap_append]
      rfl
    have hrest := @ih (pre ++ trialRepeats ntrials [seg])
    rw [List.append_assoc] at hrest
    rw [hreps]
    exact (segment_triple hasync ntrials seg _).append hrest

end

end NetPipe
