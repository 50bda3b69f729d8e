import NetPipe.MpLite.WindowLock

/-!
# The order in which window locks are granted

A shared request that arrives while the lock is shared is granted at once, also if an exclusive
request waits in the queue. Without such a step the requests are granted in the order of their
arrival.
-/

namespace NetPipe.MpLite

instance : DecidablePred LockRequest.IsLock :=
  fun r => inferInstanceAs (Decidable (r.type = 1 ∨ r.type = 2))

namespace LockRun

open LockRequest (Shared IsLock)

/-- No lock request is confirmed before one that was received earlier. -/
def Fair (s : LockRun) : Prop :=
  ∀ a ∈ s.requested, ∀ b ∈ s.confirmed, a.IsLock → b.IsLock → a.arrival < b.arrival →
    ∃ earlier later, s.confirmed = earlier ++ b :: later ∧ a ∈ earlier

/-- In the step a shared request arrives, while the lock is shared and a request waits. -/
def Overtakes (s s' : LockRun) : Prop :=
  ∃ r, s'.requested = s.requested ++ [r] ∧ r.type = 1 ∧ s.win.locked = 1 ∧ s.win.queued ≠ []

/-- The invariant: the requests are numbered in the order of their arrival, the first of the lock
requests are confirmed, and the others wait. -/
structure Ordered (s : LockRun) : Prop where
  inv : s.Inv
  sorted : s.requested.Pairwise fun a b => a.arrival < b.arrival
  order : s.requested.filter (·.IsLock) = s.confirmed.filter (·.IsLock) ++ s.unconfirmed

variable {s s' : LockRun} {r : LockRequest} {win : Window} {out : List LockRequest}

/-! ### Single requests -/

/-- A request that waits is a request for a lock. -/
lemma Inv.unconfirmed_isLock (hinv : s.Inv) : ∀ r ∈ s.unconfirmed, r.IsLock :=
  hinv.represents.queue.kinds

lemma Inv.locked_eq_zero (hinv : s.Inv) : s.win.locked = 0 ↔ s.holders = [] :=
  hinv.represents.held.locked_eq_zero

/-- A lock request is granted exactly if the lock is free for it. -/
lemma Inv.lock_out (hinv : s.Inv) (hr : r.IsLock) (hdo : s.win.doLock r = some (win, out)) :
    out = if RwLock.Free Shared s.holders r then [r] else [] := by
  obtain ⟨win', hdo', -⟩ := hinv.represents.lock hr
  rw [hdo, Option.some.injEq, Prod.mk.injEq] at hdo'
  exact hdo'.2

/-- An unlock request is confirmed, and after it the requests that it lets in. -/
lemma Inv.unlock_out {h : LockRequest} (hinv : s.Inv) (hr : r.type = 0) (hh : h ∈ s.holders)
    (hdo : s.win.doLock r = some (win, out)) :
    ∃ served rest, out = r :: served ∧ s.unconfirmed = served ++ rest := by
  obtain ⟨win', hdo', -⟩ := hinv.represents.unlock hr hh
  rw [hdo, Option.some.injEq, Prod.mk.injEq] at hdo'
  rw [hdo'.2]
  split_ifs
  · obtain ⟨-, hwaiting⟩ := @RwLock.serve_eq LockRequest Shared _ [] s.unconfirmed
    exact ⟨_, _, rfl, hwaiting.symm⟩
  · exact ⟨[], _, rfl, rfl⟩

/-- The lock is free for a request although another waits: both hold it shared. -/
lemma Inv.shared_of_free (hinv : s.Inv) (hfree : RwLock.Free Shared s.holders r)
    (hwait : s.unconfirmed ≠ []) : r.type = 1 ∧ s.win.locked = 1 := by
  have hne : s.win.locked ≠ 0 := mt hinv.locked_eq_zero.mp (hinv.good.held hwait)
  exact (hinv.represents.held.free_iff.mp hfree).resolve_left hne

/-! ### Steps -/

lemma sorted_concat (hsorted : s.requested.Pairwise fun a b => a.arrival < b.arrival)
    (harrival : ∀ a ∈ s.requested, a.arrival < s.requested.length)
    (hnew : r.arrival = s.requested.length) :
    (s.requested ++ [r]).Pairwise fun a b => a.arrival < b.arrival := by
  refine List.pairwise_append.mpr ⟨hsorted, List.pairwise_singleton _ _, fun a ha b hb => ?_⟩
  rw [List.mem_singleton.mp hb, hnew]
  exact harrival a ha

/-- The requests of the next state that wait. -/
lemma unconfirmed_eq {requested confirmed released l : List LockRequest}
    (hserved : Served requested confirmed l) :
    LockRun.unconfirmed ⟨win, requested, confirmed, released⟩ = l :=
  hserved.waiting_eq.symm

/-- A step that overtakes nobody keeps the order. -/
lemma Ordered.step (h : s.Ordered) (hs : Step s s') (hnot : ¬ Overtakes s s') : s'.Ordered := by
  have hinv' := h.inv.step hs
  cases hs with
  | lock r win out htype hnew hdo hroom =>
    refine ⟨hinv', sorted_concat h.sorted h.inv.arrival hnew, ?_⟩
    have hr : r.IsLock := htype
    have hfresh := h.inv.fresh hnew
    have hout := h.inv.lock_out hr hdo
    show (s.requested ++ [r]).filter (·.IsLock) = (s.confirmed ++ out).filter (·.IsLock) ++ _
    rw [List.filter_append, h.order, List.filter_append, List.filter_singleton, decide_eq_true hr]
    split_ifs at hout with hfree <;> subst hout
    · -- nobody waits, or the step would overtake
      have hnil : s.unconfirmed = [] := by
        by_contra hwait
        obtain ⟨h1, hlocked⟩ := h.inv.shared_of_free hfree hwait
        refine hnot ⟨r, rfl, h1, hlocked, ?_⟩
        rwa [h.inv.sound.queue]
      rw [unconfirmed_eq (h.inv.served.now hfresh), hnil]
      simp [hr]
    · have hlater : Served (s.requested ++ [r]) (s.confirmed ++ []) (s.unconfirmed ++ [r]) := by
        rw [List.append_nil]
        exact h.inv.served.later hfresh
      rw [unconfirmed_eq hlater]
      simp
  | unlock r x win out htype hnew hheld hsrc hdo =>
    refine ⟨hinv', sorted_concat h.sorted h.inv.arrival hnew, ?_⟩
    have hr : ¬ r.IsLock := by simp [IsLock, htype]
    obtain ⟨served, rest, rfl, hsplit⟩ := h.inv.unlock_out htype hheld hdo
    have hnow := h.inv.served.now (h.inv.fresh hnew)
    rw [hsplit] at hnow
    have hserve := hnow.serve
    rw [List.append_assoc, List.singleton_append] at hserve
    have hkinds : served.filter (·.IsLock) = served := by
      refine List.filter_eq_self.mpr fun y hy => decide_eq_true (h.inv.unconfirmed_isLock y ?_)
      rw [hsplit]
      exact List.mem_append_left _ hy
    show (s.requested ++ [r]).filter (·.IsLock) =
      (s.confirmed ++ r :: served).filter (·.IsLock) ++ _
    rw [unconfirmed_eq hserve, List.filter_append, h.order, hsplit]
    simp [hr, hkinds]

lemma Ordered.fair (h : s.Ordered) : s.Fair := by
  intro a ha b hb halock hblock hlt
  obtain ⟨earlier, later, hconf⟩ := List.append_of_mem hb
  refine ⟨earlier, later, hconf, ?_⟩
  have horder := h.order
  rw [hconf, List.filter_append, List.filter_cons_of_pos (by simpa using hblock),
    List.append_assoc, List.cons_append] at horder
  have ha' : a ∈ s.requested.filter (·.IsLock) := by simpa using ⟨ha, halock⟩
  have hsorted := h.sorted.filter (·.IsLock)
  rw [horder] at ha' hsorted
  have hafter := (List.pairwise_append.mp hsorted).2.1
  rcases List.mem_append.mp ha' with ha' | ha'
  · exact List.mem_of_mem_filter ha'
  · rcases List.mem_cons.mp ha' with rfl | ha'
    · exact absurd hlt (lt_irrefl _)
    · exact absurd hlt (Nat.lt_asymm (List.rel_of_pairwise_cons hafter ha'))

/-- A request that overtakes is confirmed before one that waits. -/
lemma Inv.not_fair (hinv : s.Inv) (hs : Step s s') (hover : Overtakes s s') : ¬ s'.Fair := by
  obtain ⟨r, hreq, h1, hlocked, hwait⟩ := hover
  rw [hinv.sound.queue] at hwait
  obtain ⟨a, ha⟩ := List.exists_mem_of_ne_nil _ hwait
  obtain ⟨hareq, haconf⟩ : a ∈ s.requested ∧ a ∉ s.confirmed := by simpa [unconfirmed] using ha
  cases hs with
  | lock r' win out htype hnew hdo hroom =>
    obtain rfl : r' = r := by simpa using hreq
    have hfree : RwLock.Free Shared s.holders r' :=
      hinv.represents.held.free_iff.mpr (Or.inr ⟨h1, hlocked⟩)
    have hout := hinv.lock_out htype hdo
    rw [if_pos hfree] at hout
    subst hout
    intro hfair
    have hlt : a.arrival < r'.arrival := hnew ▸ hinv.arrival a hareq
    obtain ⟨earlier, later, hconf, hmem⟩ := hfair a (List.mem_append_left _ hareq) r' (by simp)
      (hinv.unconfirmed_isLock a ha) htype hlt
    have hmem' : a ∈ s.confirmed ++ [r'] := by
      show a ∈ LockRun.confirmed ⟨win, s.requested ++ [r'], s.confirmed ++ [r'], s.released⟩
      rw [hconf]
      exact List.mem_append_left _ hmem
    rcases List.mem_append.mp hmem' with hmem' | hmem'
    · exact haconf hmem'
    · exact absurd hlt (List.mem_singleton.mp hmem' ▸ lt_irrefl _)
  | unlock r' x win out htype hnew hheld hsrc hdo =>
    obtain rfl : r' = r := by simpa using hreq
    rw [h1] at htype
    exact absurd htype (by decide)

/-! ### Runs -/

lemma ordered_init : init.Ordered := ⟨inv_init, List.Pairwise.nil, rfl⟩

lemma Ordered.fair_iff {ss : List LockRun} (h : s.Ordered) (hrun : List.IsChain Step (s :: ss)) :
    (∀ s' ∈ ss, s'.Fair) ↔ List.IsChain (fun s s' => ¬ Overtakes s s') (s :: ss) := by
  induction ss generalizing s with
  | nil => simp
  | cons s₁ ss ih =>
    rw [List.isChain_cons_cons] at hrun ⊢
    obtain ⟨hs, hrun⟩ := hrun
    rw [List.forall_mem_cons]
    by_cases hover : Overtakes s s₁
    · exact iff_of_false (fun hall => h.inv.not_fair hs hover hall.1) fun hall => hall.1 hover
    · have h₁ := h.step hs hover
      rw [and_iff_right hover, and_iff_right h₁.fair]
      exact ih h₁ hrun

/-- In a run the lock requests are confirmed in the order of their arrival exactly if none
overtakes. -/
theorem fair_iff_not_overtakes (ss : List LockRun) (hrun : List.IsChain Step (init :: ss)) :
    (∀ s ∈ ss, s.Fair) ↔ List.IsChain (fun s s' => ¬ Overtakes s s') (init :: ss) :=
  ordered_init.fair_iff hrun

/-- Process 1 holds the lock shared. -/
def sharedHeld : LockRun :=
  ⟨{ Window.create with locked := 1, count := 1 }, [⟨1, 1, 8, 0⟩], [⟨1, 1, 8, 0⟩], []⟩

/-- Process 2 then asks for it exclusively. -/
def exclusiveWaits : LockRun :=
  ⟨{ sharedHeld.win with
      lock_q := Function.update sharedHeld.win.lock_q 0 ⟨2, 2, 16, 1⟩, lock_q_tail := 1 },
    [⟨1, 1, 8, 0⟩, ⟨2, 2, 16, 1⟩], [⟨1, 1, 8, 0⟩], []⟩

lemma isChain_exclusiveWaits : List.IsChain Step [init, sharedHeld, exclusiveWaits] := by
  have h₁ : Step init sharedHeld :=
    .lock init ⟨1, 1, 8, 0⟩ sharedHeld.win [⟨1, 1, 8, 0⟩] (Or.inl rfl) rfl rfl (by decide)
  have h₂ : Step sharedHeld exclusiveWaits :=
    .lock sharedHeld ⟨2, 2, 16, 1⟩ exclusiveWaits.win [] (Or.inr rfl) rfl rfl (by decide)
  simp [h₁, h₂]

/-- Process 3 gets the lock shared before process 2, which waits. -/
theorem not_fair_overtaken :
    ¬ ∀ ss, List.IsChain Step (init :: ss) → ∀ s ∈ ss, s.Fair := by
  intro hall
  let r : LockRequest := ⟨3, 1, 24, 2⟩
  let s : LockRun := ⟨{ exclusiveWaits.win with count := 2 }, exclusiveWaits.requested ++ [r],
    exclusiveWaits.confirmed ++ [r], []⟩
  have h₃ : Step exclusiveWaits s :=
    .lock exclusiveWaits r s.win [r] (Or.inl rfl) rfl rfl (by decide)
  have hrun : List.IsChain Step [init, sharedHeld, exclusiveWaits, s] := by
    simpa [h₃] using isChain_exclusiveWaits
  have hfair := hall [sharedHeld, exclusiveWaits, s] hrun s (by simp)
  obtain ⟨earlier, later, hconf, hmem⟩ :=
    hfair ⟨2, 2, 16, 1⟩ (by decide) r (by decide) (by decide) (by decide) (by decide)
  have hwaits : (⟨2, 2, 16, 1⟩ : LockRequest) ∈ s.confirmed := by
    rw [hconf]
    exact List.mem_append_left _ hmem
  revert hwaits
  decide

/-- A shared and an exclusive request: the second waits. -/
theorem fair_exclusiveWaits : sharedHeld.Fair ∧ exclusiveWaits.Fair := by
  have h₁ : ¬ Overtakes init sharedHeld := by
    rintro ⟨r, -, -, hlocked, -⟩
    exact absurd hlocked (by decide)
  have h₂ : ¬ Overtakes sharedHeld exclusiveWaits := by
    rintro ⟨r, hreq, h1, -⟩
    obtain rfl : ⟨2, 2, 16, 1⟩ = r := by simpa [exclusiveWaits, sharedHeld] using hreq
    exact absurd h1 (by decide)
  have hfair := (fair_iff_not_overtakes _ isChain_exclusiveWaits).mpr (by simp [h₁, h₂])
  exact ⟨hfair _ (by simp), hfair _ (by simp)⟩

end LockRun

end NetPipe.MpLite
