import NetPipe.MpLite.LockOrder

/-!
# The capacity of the queue of a window lock

The queue has `LOCK_Q_SIZE` slots, one of which has to stay free. With the last slot in use the
indices are equal, as in an empty queue, and the requests that wait are lost.
-/

namespace NetPipe.MpLite

/-- `MAX_PROCS`. -/
def maxProcs : ℕ := 1024

namespace LockRun

open LockRequest (Shared IsLock)

/-- `do_lock` is called for a request of one of `nprocs` processes that does not wait for a lock
already, as `MP_Win_lock` does not return before. Only the process of a holder unlocks. -/
inductive Traffic (nprocs : ℕ) : LockRun → LockRun → Prop where
  | lock (s : LockRun) (r : LockRequest) (win : Window) (out : List LockRequest)
      (htype : r.type = 1 ∨ r.type = 2) (hnew : r.arrival = s.requested.length)
      (hsrc : r.src < nprocs) (hidle : ∀ x ∈ s.unconfirmed, x.src ≠ r.src)
      (hdo : s.win.doLock r = some (win, out)) :
      Traffic nprocs s ⟨win, s.requested ++ [r], s.confirmed ++ out, s.released⟩
  | unlock (s : LockRun) (r h : LockRequest) (win : Window) (out : List LockRequest)
      (htype : r.type = 0) (hnew : r.arrival = s.requested.length)
      (hidle : ∀ x ∈ s.unconfirmed, x.src ≠ r.src) (hheld : h ∈ s.holders)
      (hsrc : r.src = h.src) (hdo : s.win.doLock r = some (win, out)) :
      Traffic nprocs s ⟨win, s.requested ++ [r], s.confirmed ++ out, s.released ++ [h]⟩

/-- Every request that was received is confirmed or in the queue. -/
def Kept (s : LockRun) : Prop := ∀ r ∈ s.requested, r ∈ s.confirmed ∨ r ∈ s.win.queued

/-- In the step a lock request arrives that has to wait, when one slot of the queue is free. -/
def Fills (s s' : LockRun) : Prop :=
  ∃ r, s'.requested = s.requested ++ [r] ∧ r.IsLock ∧ s.win.locked ≠ 0 ∧
    ¬ (r.type = 1 ∧ s.win.locked = 1) ∧ s.win.queued.length + 1 = lockQSize

/-- The requests that wait come from different processes. -/
structure Waiters (nprocs : ℕ) (s : LockRun) : Prop where
  nodup : (s.unconfirmed.map LockRequest.src).Nodup
  lt : ∀ r ∈ s.unconfirmed, r.src < nprocs

variable {nprocs : ℕ} {s s' : LockRun} {r : LockRequest} {win : Window} {out : List LockRequest}

/-! ### Steps -/

lemma Inv.kept (hinv : s.Inv) : s.Kept := by
  intro r hr
  by_cases hconf : r ∈ s.confirmed
  · exact Or.inl hconf
  · rw [hinv.sound.queue]
    exact Or.inr (List.mem_filter.mpr ⟨hr, decide_eq_true hconf⟩)

/-- The lock is not free for a request that has to wait. -/
lemma Inv.not_free_iff (hinv : s.Inv) :
    ¬ RwLock.Free Shared s.holders r ↔
      s.win.locked ≠ 0 ∧ ¬ (r.type = 1 ∧ s.win.locked = 1) := by
  rw [hinv.represents.held.free_iff, not_or]

/-- A step that does not take the last slot. -/
lemma Inv.traffic (hinv : s.Inv) (hs : Traffic nprocs s s') (hnot : ¬ Fills s s') : Step s s' := by
  cases hs with
  | lock r win out htype hnew hsrc hidle hdo =>
    refine .lock s r win out htype hnew hdo ?_
    have hlen := length_unconfirmed hinv.served
    have hroom : s.unconfirmed.length < lockQSize := hinv.represents.queue.room
    have hout := hinv.lock_out htype hdo
    split_ifs at hout with hfree <;> subst hout
    · simp only [List.length_singleton]
      omega
    · have hlast : s.unconfirmed.length + 1 ≠ lockQSize := by
        intro hlast
        obtain ⟨hne, hshared⟩ := hinv.not_free_iff.mp hfree
        exact hnot ⟨r, rfl, htype, hne, hshared, by rwa [hinv.sound.queue]⟩
      simp only [List.length_nil]
      omega
  | unlock r h win out htype hnew hidle hheld hsrc hdo =>
    exact .unlock s r h win out htype hnew hheld hsrc hdo

/-- The request takes the last slot: the queue looks empty. -/
lemma Inv.doLock_fills (hinv : s.Inv) (hr : r.IsLock) (hfree : ¬ RwLock.Free Shared s.holders r)
    (hlast : s.win.queued.length + 1 = lockQSize) (hdo : s.win.doLock r = some (win, out)) :
    out = [] ∧ win.queued = [] := by
  obtain ⟨locked, count, htry, -⟩ := hinv.represents.held.tryLock hr
  have hq := hinv.represents.queue
  have hne : r.type ≠ 0 := by
    rcases hr with hr | hr <;> simp [hr]
  rw [Window.doLock, htry, decide_eq_false hfree] at hdo
  simp only [Option.bind_some, hne, ne_eq, not_false_eq_true, true_and, Bool.false_eq_true, if_false,
    if_true, Option.some.injEq, Prod.mk.injEq] at hdo
  obtain ⟨rfl, rfl⟩ := hdo
  refine ⟨rfl, ?_⟩
  have hhead := hq.head_lt
  have htail := hq.tail
  rw [hq.queued] at hlast
  simp only at hlast htail
  have hlen : ((s.win.lock_q_tail + 1) % lockQSize + lockQSize - s.win.lock_q_head) % lockQSize = 0 := by
    rw [htail]
    simp only [lockQSize] at *
    omega
  simp [Window.queued, hlen]

lemma Inv.not_kept (hinv : s.Inv) (hs : Traffic nprocs s s') (hfills : Fills s s') : ¬ s'.Kept := by
  obtain ⟨r, hreq, hr, hne, hshared, hlast⟩ := hfills
  have hfree := hinv.not_free_iff.mpr ⟨hne, hshared⟩
  cases hs with
  | lock r' win out htype hnew hsrc hidle hdo =>
    obtain rfl : r' = r := by simpa using hreq
    obtain ⟨rfl, hqueued⟩ := hinv.doLock_fills hr hfree hlast hdo
    intro hkept
    rcases hkept r' (by simp) with hmem | hmem
    · simp only [List.append_nil] at hmem
      exact hinv.fresh hnew (hinv.served.confirmed_subset hmem)
    · simp [hqueued] at hmem
  | unlock r' h win out htype hnew hidle hheld hsrc hdo =>
    obtain rfl : r' = r := by simpa using hreq
    simp [IsLock, htype] at hr

/-! ### Runs -/

lemma Inv.kept_iff {ss : List LockRun} (hinv : s.Inv)
    (hrun : List.IsChain (Traffic nprocs) (s :: ss)) :
    (∀ s' ∈ ss, s'.Kept) ↔ List.IsChain (fun s s' => ¬ Fills s s') (s :: ss) := by
  induction ss generalizing s with
  | nil => simp
  | cons s₁ ss ih =>
    rw [List.isChain_cons_cons] at hrun ⊢
    obtain ⟨hs, hrun⟩ := hrun
    rw [List.forall_mem_cons]
    by_cases hfills : Fills s s₁
    · exact iff_of_false (fun hall => hinv.not_kept hs hfills hall.1) fun hall => hall.1 hfills
    · have h₁ := hinv.step (hinv.traffic hs hfills)
      rw [and_iff_right hfills, and_iff_right h₁.kept]
      exact ih h₁ hrun

/-! ### The number of processes -/

/-- Requests that wait, and one more of another process. -/
lemma Waiters.nodup_concat (h : s.Waiters nprocs) (hidle : ∀ x ∈ s.unconfirmed, x.src ≠ r.src) :
    ((s.unconfirmed ++ [r]).map LockRequest.src).Nodup := by
  rw [List.map_append, List.map_singleton]
  refine Served.nodup_concat h.nodup fun hmem => ?_
  obtain ⟨x, hx, hsrc⟩ := List.mem_map.mp hmem
  exact hidle x hx hsrc

lemma Waiters.of_subset {l : List LockRequest} (hsub : s'.unconfirmed.Sublist l)
    (hnodup : (l.map LockRequest.src).Nodup) (hlt : ∀ r ∈ l, r.src < nprocs) :
    s'.Waiters nprocs :=
  ⟨hnodup.sublist (hsub.map _), fun r hr => hlt r (hsub.subset hr)⟩

/-- After a step only requests wait that waited before, and perhaps the new one. -/
lemma unconfirmed_sublist (s : LockRun) (win : Window) (r : LockRequest)
    (out released : List LockRequest) :
    (LockRun.unconfirmed ⟨win, s.requested ++ [r], s.confirmed ++ out, released⟩).Sublist
      (s.unconfirmed ++ [r].filter (· ∉ out)) := by
  show ((s.requested ++ [r]).filter (· ∉ s.confirmed ++ out)).Sublist _
  rw [List.filter_append]
  refine List.Sublist.append (List.monotone_filter_right _ ?_) (List.monotone_filter_right _ ?_)
  · intro x hx
    simp only [decide_eq_true_eq] at hx ⊢
    exact fun hmem => hx (List.mem_append_left _ hmem)
  · intro x hx
    simp only [decide_eq_true_eq] at hx ⊢
    exact fun hmem => hx (List.mem_append_right _ hmem)

lemma Waiters.step (h : s.Waiters nprocs) (hinv : s.Inv) (hs : Traffic nprocs s s') :
    s'.Waiters nprocs := by
  cases hs with
  | lock r win out htype hnew hsrc hidle hdo =>
    have hsub := unconfirmed_sublist s win r out s.released
    refine .of_subset (hsub.trans (List.filter_sublist.append_left _)) (h.nodup_concat hidle) ?_
    intro x hx
    rcases List.mem_append.mp hx with hx | hx
    · exact h.lt x hx
    · exact List.mem_singleton.mp hx ▸ hsrc
  | unlock r x win out htype hnew hidle hheld hsrc hdo =>
    obtain ⟨served, rest, rfl, -⟩ := hinv.unlock_out htype hheld hdo
    have hsub := unconfirmed_sublist s win r (r :: served) (s.released ++ [x])
    rw [List.filter_cons_of_neg (by simp), List.filter_nil, List.append_nil] at hsub
    exact .of_subset hsub h.nodup h.lt

/-- So few processes cannot fill the queue. -/
lemma Waiters.not_fills (h : s.Waiters nprocs) (hinv : s.Inv) (hs : Traffic nprocs s s')
    (hfew : nprocs < lockQSize) : ¬ Fills s s' := by
  rintro ⟨r, hreq, hr, -, -, hlast⟩
  rw [hinv.sound.queue] at hlast
  cases hs with
  | lock r' win out htype hnew hsrc hidle hdo =>
    obtain rfl : r' = r := by simpa using hreq
    have hle : ((s.unconfirmed ++ [r']).map LockRequest.src).length ≤ (List.range nprocs).length := by
      refine ((h.nodup_concat hidle).subperm fun n hn => ?_).length_le
      obtain ⟨x, hx, rfl⟩ := List.mem_map.mp hn
      rcases List.mem_append.mp hx with hx | hx
      · exact List.mem_range.mpr (h.lt x hx)
      · exact List.mem_range.mpr (List.mem_singleton.mp hx ▸ hsrc)
    simp only [List.length_map, List.length_append, List.length_singleton, List.length_range] at hle
    omega
  | unlock r' x win out htype hnew hidle hheld hsrc hdo =>
    obtain rfl : r' = r := by simpa using hreq
    simp [IsLock, htype] at hr

lemma Waiters.isChain {ss : List LockRun} (h : s.Waiters nprocs) (hinv : s.Inv)
    (hfew : nprocs < lockQSize) (hrun : List.IsChain (Traffic nprocs) (s :: ss)) :
    List.IsChain (fun s s' => ¬ Fills s s') (s :: ss) := by
  induction ss generalizing s with
  | nil => simp
  | cons s₁ ss ih =>
    rw [List.isChain_cons_cons] at hrun ⊢
    have hnot := h.not_fills hinv hrun.1 hfew
    exact ⟨hnot, ih (h.step hinv hrun.1) (hinv.step (hinv.traffic hrun.1 hnot)) hrun.2⟩

lemma waiters_init (nprocs : ℕ) : init.Waiters nprocs := by
  constructor <;> simp [init, unconfirmed]

/-- In a run no request is lost exactly if none takes the last slot of the queue, which takes at
least `LOCK_Q_SIZE` processes. -/
theorem kept_iff_not_fills (nprocs : ℕ) (ss : List LockRun)
    (hrun : List.IsChain (Traffic nprocs) (init :: ss)) :
    ((∀ s ∈ ss, s.Kept) ↔ List.IsChain (fun s s' => ¬ Fills s s') (init :: ss)) ∧
      (nprocs < lockQSize → ∀ s ∈ ss, s.Kept) := by
  have hiff := inv_init.kept_iff hrun
  exact ⟨hiff, fun hfew => hiff.mpr ((waiters_init nprocs).isChain inv_init hfew hrun)⟩

/-! ### A queue that fills up -/

/-- Process 0 holds the lock exclusively, and the processes `1, ..., k` wait for it. -/
structure Crowd (k : ℕ) (s : LockRun) : Prop where
  inv : s.Inv
  held : ∃ h ∈ s.holders, h.type = 2
  length : s.unconfirmed.length = k
  src : ∀ r ∈ s.unconfirmed, r.src ≤ k

/-- The request of process `k`. -/
def exclusiveRequest (k : ℕ) (s : LockRun) : LockRequest := ⟨k, 2, 0, s.requested.length⟩

lemma Crowd.not_free {k : ℕ} (h : s.Crowd k) (n : ℕ) :
    s.win.locked ≠ 0 ∧
      ¬ RwLock.Free Shared s.holders (exclusiveRequest n s) := by
  obtain ⟨x, hx, hx2⟩ := h.held
  have hne : s.win.locked ≠ 0 := by
    rw [← h.inv.represents.held.mode x hx, hx2]
    decide
  refine ⟨hne, ?_⟩
  rw [h.inv.not_free_iff]
  exact ⟨hne, fun hshared => absurd hshared.1 (by simp [exclusiveRequest])⟩

/-- Another process asks for the lock. -/
lemma Crowd.traffic {k : ℕ} (h : s.Crowd k) (hk : k + 1 < nprocs) :
    ∃ win, s.win.doLock (exclusiveRequest (k + 1) s) = some (win, []) ∧
      Traffic nprocs s ⟨win, s.requested ++ [exclusiveRequest (k + 1) s], s.confirmed, s.released⟩ := by
  obtain ⟨win, hdo, -⟩ := h.inv.represents.lock (r := exclusiveRequest (k + 1) s) (Or.inr rfl)
  rw [if_neg (h.not_free (k + 1)).2] at hdo
  refine ⟨win, hdo, ?_⟩
  have hstep := Traffic.lock s _ win [] (Or.inr rfl) rfl hk (fun x hx => ?_) hdo
  · rwa [List.append_nil] at hstep
  · exact Nat.ne_of_lt (Nat.lt_succ_of_le (h.src x hx))

lemma Crowd.step {k : ℕ} (h : s.Crowd k) (hk : k + 1 < nprocs) (hroom : k + 1 < lockQSize) :
    ∃ s', Traffic nprocs s s' ∧ s'.Crowd (k + 1) := by
  obtain ⟨win, hdo, hstep⟩ := h.traffic hk
  have hlater := h.inv.served.later (h.inv.fresh (r := exclusiveRequest (k + 1) s) rfl)
  have hwait : LockRun.unconfirmed
      ⟨win, s.requested ++ [exclusiveRequest (k + 1) s], s.confirmed, s.released⟩ =
      s.unconfirmed ++ [exclusiveRequest (k + 1) s] :=
    unconfirmed_eq hlater
  refine ⟨_, hstep, ⟨?_, h.held, ?_, ?_⟩⟩
  · refine h.inv.step (h.inv.traffic hstep ?_)
    rintro ⟨r, -, -, -, -, hlast⟩
    rw [h.inv.sound.queue, h.length] at hlast
    exact absurd hlast (Nat.ne_of_lt hroom)
  · rw [hwait, List.length_append, h.length, List.length_singleton]
  · intro x hx
    rw [hwait] at hx
    rcases List.mem_append.mp hx with hx | hx
    · exact (h.src x hx).trans (Nat.le_succ k)
    · exact (List.mem_singleton.mp hx ▸ le_refl _)

lemma exists_crowd {k : ℕ} (hk : k < nprocs) (hroom : k < lockQSize) :
    ∃ s, Relation.ReflTransGen (Traffic nprocs) init s ∧ s.Crowd k := by
  induction k with
  | zero =>
    let s : LockRun :=
      ⟨{ Window.create with locked := 2, count := 1 }, [⟨0, 2, 0, 0⟩], [⟨0, 2, 0, 0⟩], []⟩
    have hstep : Traffic nprocs init s :=
      .lock init ⟨0, 2, 0, 0⟩ s.win [⟨0, 2, 0, 0⟩] (Or.inr rfl) rfl hk (by simp [init, unconfirmed]) rfl
    have hold : Step init s :=
      .lock init ⟨0, 2, 0, 0⟩ s.win [⟨0, 2, 0, 0⟩] (Or.inr rfl) rfl rfl (by decide)
    refine ⟨s, .single hstep, inv_init.step hold, ⟨⟨0, 2, 0, 0⟩, by decide, rfl⟩, by decide, ?_⟩
    decide
  | succ k ih =>
    obtain ⟨s, hreach, hcrowd⟩ := ih (Nat.lt_of_succ_lt hk) (Nat.lt_of_succ_lt hroom)
    obtain ⟨s', hstep, hcrowd'⟩ := hcrowd.step hk hroom
    exact ⟨s', hreach.tail hstep, hcrowd'⟩

/-- With `MAX_PROCS` processes one holds the lock, and the 1000 requests that wait are lost. -/
theorem not_kept_maxProcs :
    ¬ ∀ ss, List.IsChain (Traffic maxProcs) (init :: ss) → ∀ s ∈ ss, s.Kept := by
  intro hall
  have hmany : lockQSize - 1 + 1 < maxProcs := by decide
  obtain ⟨s, hreach, hcrowd⟩ := exists_crowd (Nat.lt_of_succ_lt hmany) (by decide : _ < lockQSize)
  obtain ⟨win, hdo, hstep⟩ := hcrowd.traffic hmany
  obtain ⟨ss, hrun, hlast⟩ :=
    List.exists_isChain_cons_of_relationReflTransGen (hreach.tail hstep)
  have hfree := hcrowd.not_free (lockQSize - 1 + 1)
  have hfills : Fills s ⟨win, s.requested ++ [exclusiveRequest (lockQSize - 1 + 1) s], s.confirmed,
      s.released⟩ := by
    refine ⟨_, rfl, Or.inr rfl, hfree.1, (hcrowd.inv.not_free_iff.mp hfree.2).2, ?_⟩
    rw [hcrowd.inv.sound.queue, hcrowd.length]
    rfl
  have hmem := List.getLast_mem (List.cons_ne_nil init ss)
  rw [hlast] at hmem
  rcases List.mem_cons.mp hmem with heq | hmem
  · have hnil : s.requested ++ [exclusiveRequest (lockQSize - 1 + 1) s] = [] :=
      congrArg LockRun.requested heq
    simp at hnil
  · exact hcrowd.inv.not_kept hstep hfills (hall ss hrun _ hmem)

/-- A single process takes the lock. -/
theorem kept_single : ∃ s : LockRun, s.confirmed = [⟨0, 2, 0, 0⟩] ∧ s.Kept := by
  let s : LockRun :=
    ⟨{ Window.create with locked := 2, count := 1 }, [⟨0, 2, 0, 0⟩], [⟨0, 2, 0, 0⟩], []⟩
  have hstep : Traffic 1 init s :=
    .lock init ⟨0, 2, 0, 0⟩ s.win [⟨0, 2, 0, 0⟩] (Or.inr rfl) rfl Nat.one_pos
      (by simp [init, unconfirmed]) rfl
  have hrun : List.IsChain (Traffic 1) [init, s] := by simpa using hstep
  exact ⟨s, rfl, (kept_iff_not_fills 1 [s] hrun).2 (by decide) s List.mem_cons_self⟩

end LockRun

end NetPipe.MpLite
