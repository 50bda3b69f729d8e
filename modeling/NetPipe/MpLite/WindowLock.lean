import NetPipe.MpLite.Window

/-!
# Mutual exclusion of window locks

The window is a reader-writer lock with a queue: its mode and count describe the holders, and its
circular buffer the requests that wait.
-/

namespace NetPipe.MpLite

/-- Shared requests. -/
def LockRequest.Shared (r : LockRequest) : Prop := r.type = 1

instance : DecidablePred LockRequest.Shared := fun r => inferInstanceAs (Decidable (r.type = 1))

/-- A request for a shared or an exclusive lock. -/
def LockRequest.IsLock (r : LockRequest) : Prop := r.type = 1 ∨ r.type = 2

namespace Window

open LockRequest (Shared IsLock)

/-- The mode and the count of the window describe the holders. -/
structure Held (win : Window) (holders : List LockRequest) : Prop where
  count : win.count = holders.length
  free : holders = [] → win.locked = 0
  mode : ∀ h ∈ holders, h.type = win.locked
  kinds : ∀ h ∈ holders, h.IsLock

/-- The circular buffer holds the requests that wait. -/
structure Queue (win : Window) (waiting : List LockRequest) : Prop where
  head_lt : win.lock_q_head < lockQSize
  tail : win.lock_q_tail = (win.lock_q_head + waiting.length) % lockQSize
  room : waiting.length < lockQSize
  slots : ∀ i (hi : i < waiting.length),
    win.lock_q ((win.lock_q_head + i) % lockQSize) = waiting[i]
  kinds : ∀ r ∈ waiting, r.IsLock

variable {win : Window} {holders waiting : List LockRequest} {r h : LockRequest}

/-! ### The holders -/

lemma Held.locked_eq_zero (h : win.Held holders) : win.locked = 0 ↔ holders = [] := by
  refine ⟨fun hzero => ?_, h.free⟩
  rw [List.eq_nil_iff_forall_not_mem]
  intro x hx
  have hkind := h.kinds x hx
  rw [IsLock, h.mode x hx, hzero] at hkind
  simp at hkind

/-- The test of `try_lock` for a lock request. -/
lemma Held.free_iff (hheld : win.Held holders) :
    RwLock.Free Shared holders r ↔ win.locked = 0 ∨ r.type = 1 ∧ win.locked = 1 := by
  rcases List.eq_nil_or_concat holders with rfl | ⟨hs, x, rfl⟩
  · simp [RwLock.Free, hheld.free rfl]
  · have hx := hheld.mode x (by simp)
    have hne : win.locked ≠ 0 := by simp [hheld.locked_eq_zero]
    have hall : (∀ h ∈ hs.concat x, Shared h) ↔ win.locked = 1 := by
      refine ⟨fun hall => hx ▸ hall x (by simp), fun hone y hy => ?_⟩
      rw [Shared, hheld.mode y hy, hone]
    rw [RwLock.Free, hall]
    simp [hne, Shared]

/-- `try_lock` grants a lock exactly if it is free for the request. -/
lemma Held.tryLock (hheld : win.Held holders) (hr : r.IsLock) :
    ∃ locked count, win.tryLock r.type =
      some ({ win with locked := locked, count := count }, decide (RwLock.Free Shared holders r)) ∧
      Held { win with locked := locked, count := count }
        (if RwLock.Free Shared holders r then holders ++ [r] else holders) := by
  have hiff := hheld.free_iff (r := r)
  have hne : r.type ≠ 0 := by
    rcases hr with hr | hr <;> simp [hr]
  by_cases hfree : RwLock.Free Shared holders r
  · refine ⟨r.type, win.count + 1, ?_, ?_⟩
    · rw [decide_eq_true hfree]
      rcases hiff.mp hfree with hzero | ⟨hone, hlocked⟩
      · simp [Window.tryLock, hzero, hne]
      · simp [Window.tryLock, hone, hlocked]
    · rw [if_pos hfree]
      have hmode : ∀ x ∈ holders, x.type = r.type := by
        intro x hx
        rcases hfree with rfl | ⟨hshared, hall⟩
        · simp at hx
        · exact (hall x hx).trans hshared.symm
      refine ⟨by simp [hheld.count], by simp, ?_, ?_⟩
      · intro x hx
        rcases List.mem_append.mp hx with hx | hx
        · exact hmode x hx
        · simp [List.mem_singleton.mp hx]
      · intro x hx
        rcases List.mem_append.mp hx with hx | hx
        · exact hheld.kinds x hx
        · exact List.mem_singleton.mp hx ▸ hr
  · refine ⟨win.locked, win.count, ?_, ?_⟩
    · have hnot := mt hiff.mpr hfree
      rw [decide_eq_false hfree]
      rcases hr with hr | hr
      · rw [not_or, not_and] at hnot
        simp [Window.tryLock, hr, hnot.1, hnot.2 hr]
      · rw [not_or] at hnot
        simp [Window.tryLock, hr, hnot.1]
    · rw [if_neg hfree]
      exact hheld

/-- `try_lock` for the unlock request of a holder. -/
lemma Held.tryUnlock (hheld : win.Held holders) (hh : h ∈ holders) :
    ∃ locked, win.tryLock 0 =
      some ({ win with locked := locked, count := win.count - 1 }, true) ∧
      Held { win with locked := locked, count := win.count - 1 } (holders.erase h) := by
  have hlen : (holders.erase h).length + 1 = holders.length := List.length_erase_add_one hh
  have hcount : win.count - 1 = (holders.erase h).length := by
    rw [hheld.count, ← hlen]
    simp
  have hkinds : ∀ x ∈ holders.erase h, x.IsLock :=
    fun x hx => hheld.kinds x (List.mem_of_mem_erase hx)
  have hpos : ¬ win.count - 1 < 0 := by simp [hcount]
  by_cases hnil : holders.erase h = []
  · refine ⟨0, ?_, ?_⟩
    · have hzero : win.count - 1 = 0 := by simp [hcount, hnil]
      simp [Window.tryLock, hzero]
    · rw [hnil] at hcount ⊢
      exact ⟨hcount, fun _ => rfl, by simp, by simp⟩
  · refine ⟨win.locked, ?_, ?_⟩
    · have hne : win.count - 1 ≠ 0 := by simpa [hcount] using hnil
      simp [Window.tryLock, hne, hpos]
    · exact ⟨hcount, fun h' => absurd h' hnil,
        fun x hx => hheld.mode x (List.mem_of_mem_erase hx), hkinds⟩

/-! ### The queue -/

lemma Queue.empty_iff (hq : win.Queue waiting) : win.lock_q_head = win.lock_q_tail ↔ waiting = [] := by
  have hhead := hq.head_lt
  have hroom := hq.room
  rw [hq.tail, ← List.length_eq_zero_iff]
  simp only [lockQSize] at *
  omega

/-- A request is put at the end of the queue. -/
lemma Queue.push (hq : win.Queue waiting) (hr : r.IsLock) (hroom : waiting.length + 1 < lockQSize) :
    Queue { win with
      lock_q := Function.update win.lock_q win.lock_q_tail r
      lock_q_tail := (win.lock_q_tail + 1) % lockQSize } (waiting ++ [r]) := by
  have hhead := hq.head_lt
  refine ⟨hhead, ?_, by simpa using hroom, ?_, ?_⟩
  · simp [hq.tail, Nat.add_assoc]
  · intro i hi
    show Function.update win.lock_q win.lock_q_tail r _ = _
    rw [hq.tail]
    rcases Nat.lt_or_ge i waiting.length with hlt | hge
    · rw [Function.update_of_ne, hq.slots i hlt, List.getElem_append_left hlt]
      simp only [lockQSize] at *
      omega
    · have hieq : i = waiting.length := by
        rw [List.length_append, List.length_singleton] at hi
        omega
      subst hieq
      rw [Function.update_self]
      simp
  · intro x hx
    rcases List.mem_append.mp hx with hx | hx
    · exact hq.kinds x hx
    · exact List.mem_singleton.mp hx ▸ hr

/-- The first request leaves the queue. -/
lemma Queue.pop (hq : win.Queue (r :: waiting)) :
    win.lock_q win.lock_q_head = r ∧ r.IsLock ∧
      Queue { win with lock_q_head := (win.lock_q_head + 1) % lockQSize } waiting := by
  have hhead := hq.head_lt
  have hroom := hq.room
  refine ⟨?_, hq.kinds r (by simp), Nat.mod_lt _ (by simp [lockQSize]), ?_, ?_, ?_, ?_⟩
  · have hslot := hq.slots 0 (by simp)
    rw [Nat.add_zero, Nat.mod_eq_of_lt hhead] at hslot
    simpa using hslot
  · show win.lock_q_tail = _
    rw [hq.tail, Nat.mod_add_mod, List.length_cons, Nat.add_right_comm, Nat.add_assoc]
  · exact (Nat.lt_succ_self _).trans (by simpa using hroom)
  · intro i hi
    have hslot := hq.slots (i + 1) (by simpa using hi)
    show win.lock_q (((win.lock_q_head + 1) % lockQSize + i) % lockQSize) = _
    rw [Nat.mod_add_mod, Nat.add_right_comm, Nat.add_assoc, hslot]
    simp
  · exact fun x hx => hq.kinds x (List.mem_cons_of_mem _ hx)

lemma Queue.queued (hq : win.Queue waiting) : win.queued = waiting := by
  have hlen : (win.lock_q_tail + lockQSize - win.lock_q_head) % lockQSize = waiting.length := by
    have hhead := hq.head_lt
    have hroom := hq.room
    rw [hq.tail]
    simp only [lockQSize] at *
    omega
  refine List.ext_getElem (by simp [Window.queued, hlen]) fun i h₁ h₂ => ?_
  simpa [Window.queued] using hq.slots i h₂

/-! ### Simulation -/

/-- The lock that the window implements. -/
structure Represents (win : Window) (l : RwLock LockRequest) : Prop where
  held : win.Held l.holders
  queue : win.Queue l.waiting

/-- The loop over the queue grants what can be granted. -/
lemma serveQueue_eq (hheld : win.Held holders) (hq : win.Queue waiting) {n : ℕ}
    (hn : waiting.length ≤ n) :
    ∃ win', win.serveQueue n = some (win', RwLock.served Shared holders waiting) ∧
      win'.Represents (RwLock.serve Shared holders waiting) := by
  induction waiting generalizing n win holders with
  | nil =>
    refine ⟨win, ?_, hheld, hq⟩
    cases n with
    | zero => rfl
    | succ n => simp [serveQueue, hq.empty_iff, RwLock.served]
  | cons r waiting ih =>
    obtain ⟨m, rfl⟩ : ∃ m, n = m + 1 := ⟨n - 1, by simp at hn; omega⟩
    have hne : win.lock_q_head ≠ win.lock_q_tail := by simp [hq.empty_iff]
    obtain ⟨hslot, hr, hpop⟩ := hq.pop
    obtain ⟨locked, count, htry, hheld'⟩ := hheld.tryLock hr
    rw [serveQueue, if_neg hne, hslot]
    simp only [htry, Option.bind_some]
    rw [RwLock.serve, RwLock.served]
    by_cases hfree : RwLock.Free Shared holders r
    · rw [if_pos hfree] at hheld' ⊢
      set win₁ : Window := { win with
        locked := locked, count := count, lock_q_head := (win.lock_q_head + 1) % lockQSize }
      have hheld₁ : win₁.Held (holders ++ [r]) :=
        ⟨hheld'.count, hheld'.free, hheld'.mode, hheld'.kinds⟩
      have hq₁ : win₁.Queue waiting :=
        ⟨hpop.head_lt, hpop.tail, hpop.room, hpop.slots, hpop.kinds⟩
      have hm : waiting.length ≤ m := by simpa using hn
      obtain ⟨win', hwin', hrep⟩ := ih hheld₁ hq₁ hm
      refine ⟨win', ?_, by rw [if_pos hfree]; exact hrep⟩
      simp [hfree, hwin']
    · rw [if_neg hfree] at hheld' ⊢
      refine ⟨_, by simp [hfree]; rfl, ?_⟩
      rw [if_neg hfree]
      exact ⟨hheld', ⟨hq.head_lt, hq.tail, hq.room, hq.slots, hq.kinds⟩⟩

/-- `do_lock` for a lock request. -/
lemma Represents.lock {l : RwLock LockRequest} (hrep : win.Represents l) (hr : r.IsLock) :
    ∃ win', win.doLock r =
      some (win', if RwLock.Free Shared l.holders r then [r] else []) ∧
      ((¬ RwLock.Free Shared l.holders r → l.waiting.length + 1 < lockQSize) →
        win'.Represents (l.request Shared r)) := by
  obtain ⟨hheld, hq⟩ := hrep
  obtain ⟨locked, count, htry, hheld'⟩ := hheld.tryLock hr
  have hne : r.type ≠ 0 := by
    rcases hr with hr | hr <;> simp [hr]
  rw [doLock, htry, RwLock.request]
  by_cases hfree : RwLock.Free Shared l.holders r
  · rw [if_pos hfree] at hheld'
    refine ⟨_, by simp [hfree, hne]; rfl, fun _ => ?_⟩
    rw [if_pos hfree]
    exact ⟨hheld', ⟨hq.head_lt, hq.tail, hq.room, hq.slots, hq.kinds⟩⟩
  · rw [if_neg hfree] at hheld'
    refine ⟨_, by simp [hfree, hne]; rfl, fun hroom => ?_⟩
    have hpush := hq.push hr (hroom hfree)
    rw [if_neg hfree]
    exact ⟨⟨hheld'.count, hheld'.free, hheld'.mode, hheld'.kinds⟩,
      ⟨hpush.head_lt, hpush.tail, hpush.room, hpush.slots, hpush.kinds⟩⟩

/-- `do_lock` for the unlock request of a holder. -/
lemma Represents.unlock {l : RwLock LockRequest} (hrep : win.Represents l) (hr : r.type = 0)
    (hh : h ∈ l.holders) :
    ∃ win', win.doLock r = some (win', r ::
      if l.holders.erase h = [] then RwLock.served Shared [] l.waiting else []) ∧
      win'.Represents (l.release Shared h) := by
  obtain ⟨hheld, hq⟩ := hrep
  obtain ⟨locked, htry, hheld'⟩ := hheld.tryUnlock hh
  have hq' : Queue { win with locked := locked, count := win.count - 1 } l.waiting :=
    ⟨hq.head_lt, hq.tail, hq.room, hq.slots, hq.kinds⟩
  have hzero := hheld'.locked_eq_zero
  rw [doLock, hr, htry, RwLock.release]
  by_cases hnil : l.holders.erase h = []
  · obtain rfl : locked = 0 := hzero.mpr hnil
    obtain ⟨win', hwin', hrep'⟩ := serveQueue_eq hheld' hq' hq.room.le
    rw [hnil] at hwin' hrep'
    refine ⟨win', by simp [hnil, hwin'], ?_⟩
    simpa [hnil] using hrep'
  · have hlocked := mt hzero.mp hnil
    refine ⟨_, by simp [hnil, hlocked]; rfl, ?_⟩
    simpa [hnil] using ⟨hheld', hq'⟩

end Window

namespace LockRun

open LockRequest (Shared IsLock)

variable {s s' : LockRun} {r h : LockRequest}

/-- The requests that are not confirmed. -/
def unconfirmed (s : LockRun) : List LockRequest := s.requested.filter (· ∉ s.confirmed)

/-- The state of a window is sound. -/
structure Sound (s : LockRun) : Prop where
  unlocked : s.win.locked = 0 ↔ s.win.count = 0
  count : s.win.count = s.holders.length
  exclusive : s.win.locked = 2 → s.win.count = 1
  alone : ∀ h ∈ s.holders, h.type = 2 → s.holders = [h]
  awake : s.win.queued ≠ [] → s.win.locked ≠ 0
  -- the queue holds the unconfirmed requests in the order of their arrival
  queue : s.win.queued = s.unconfirmed
  -- no request is confirmed twice
  once : s.confirmed.Nodup
  confirmed : s.confirmed ⊆ s.requested

/-- The invariant: the window implements a sound lock. -/
structure Inv (s : LockRun) : Prop where
  represents : s.win.Represents ⟨s.holders, s.unconfirmed⟩
  good : RwLock.Good Shared ⟨s.holders, s.unconfirmed⟩
  served : Served s.requested s.confirmed s.unconfirmed
  arrival : ∀ r ∈ s.requested, r.arrival < s.requested.length
  released : s.released ⊆ s.confirmed

lemma Inv.sound (hinv : s.Inv) : s.Sound := by
  obtain ⟨⟨hheld, hq⟩, hgood, hserved, -, -⟩ := hinv
  have hzero := hheld.locked_eq_zero
  refine ⟨?_, hheld.count, ?_, ?_, ?_, hq.queued, hserved.confirmed_nodup,
    hserved.confirmed_subset⟩
  · rw [hzero, hheld.count, Nat.cast_eq_zero, List.length_eq_zero_iff]
  · intro h2
    have hne : s.holders ≠ [] := by
      intro hnil
      rw [hzero.mpr hnil] at h2
      simp at h2
    obtain ⟨x, hx⟩ := List.exists_mem_of_ne_nil _ hne
    have hx2 := (hheld.mode x hx).trans h2
    have halone := hgood.alone x hx (by simp [Shared, hx2])
    have hcount := hheld.count
    simp only at halone hcount
    simp [hcount, halone]
  · intro x hx hx2
    exact hgood.alone x hx (by simp [Shared, hx2])
  · intro hne
    rw [hq.queued] at hne
    exact hzero.not.mpr (hgood.held hne)

lemma Inv.fresh (hinv : s.Inv) (hnew : r.arrival = s.requested.length) : r ∉ s.requested := by
  intro hr
  exact absurd (hinv.arrival r hr) (by simp [hnew])

lemma arrival_concat (h : ∀ r ∈ s.requested, r.arrival < s.requested.length)
    (hnew : r.arrival = s.requested.length) :
    ∀ x ∈ s.requested ++ [r], x.arrival < (s.requested ++ [r]).length := by
  intro x hx
  rw [List.length_append, List.length_singleton]
  rcases List.mem_append.mp hx with hx | hx
  · exact (h x hx).trans (Nat.lt_succ_self _)
  · rw [List.mem_singleton.mp hx, hnew]
    exact Nat.lt_succ_self _

lemma length_unconfirmed (h : Served s.requested s.confirmed s.unconfirmed) :
    s.unconfirmed.length + s.confirmed.length = s.requested.length := by
  have hperm : (s.unconfirmed ++ s.confirmed).Perm s.requested := by
    refine (List.perm_ext_iff_of_nodup ?_ h.requested_nodup).mpr fun x => ?_
    · refine List.nodup_append.mpr ⟨h.requested_nodup.filter _, h.confirmed_nodup, ?_⟩
      rintro x hx y hy rfl
      simp [unconfirmed, hy] at hx
    · have hsub := @h.confirmed_subset x
      simp only [unconfirmed, List.mem_append, List.mem_filter, decide_eq_true_eq]
      tauto
  simpa using hperm.length_eq

/-- The lock of the window after `do_lock`, with its history. -/
lemma inv_of_represents {win : Window} {requested confirmed released : List LockRequest}
    {l : RwLock LockRequest} (hrep : win.Represents l) (hgood : l.Good Shared)
    (hholders : LockRun.holders ⟨win, requested, confirmed, released⟩ = l.holders)
    (hserved : Served requested confirmed l.waiting)
    (harrival : ∀ r ∈ requested, r.arrival < requested.length) (hreleased : released ⊆ confirmed) :
    Inv ⟨win, requested, confirmed, released⟩ := by
  have hl : l = ⟨LockRun.holders ⟨win, requested, confirmed, released⟩,
      LockRun.unconfirmed ⟨win, requested, confirmed, released⟩⟩ := by
    rw [hholders, show LockRun.unconfirmed ⟨win, requested, confirmed, released⟩ = l.waiting from
      hserved.waiting_eq.symm]
  have hw : LockRun.unconfirmed ⟨win, requested, confirmed, released⟩ = l.waiting :=
    hserved.waiting_eq.symm
  refine ⟨hl ▸ hrep, hl ▸ hgood, ?_, harrival, hreleased⟩
  rw [hw]
  exact hserved

/-- A lock request keeps the invariant. -/
lemma Inv.lock (hinv : s.Inv) (hr : r.IsLock) (hnew : r.arrival = s.requested.length)
    {win : Window} {out : List LockRequest} (hdo : s.win.doLock r = some (win, out))
    (hroom : s.requested.length + 1 < s.confirmed.length + out.length + lockQSize) :
    Inv ⟨win, s.requested ++ [r], s.confirmed ++ out, s.released⟩ := by
  obtain ⟨win', hdo', hrep⟩ := hinv.represents.lock hr
  rw [hdo, Option.some.injEq, Prod.mk.injEq] at hdo'
  obtain ⟨rfl, hout⟩ := hdo'
  have hfresh := hinv.fresh hnew
  have hlen := length_unconfirmed hinv.served
  have hrep := hrep fun hfree => by
    rw [if_neg hfree] at hout
    simp only [hout, List.length_nil] at hroom
    show s.unconfirmed.length + 1 < lockQSize
    omega
  have hgood := hinv.good.request r
  have hreleased : r ∉ s.released :=
    fun hmem => hfresh (hinv.served.confirmed_subset (hinv.released hmem))
  have hlock : r.type ≠ 0 := by
    rcases hr with hr | hr <;> simp [hr]
  rw [RwLock.request] at hrep hgood
  by_cases hfree : RwLock.Free Shared s.holders r
  · rw [if_pos hfree] at hrep hgood hout
    subst hout
    refine inv_of_represents hrep hgood ?_ (hinv.served.now hfresh)
      (arrival_concat hinv.arrival hnew) ?_
    · simp [holders, List.filter_append, hlock, hreleased]
    · exact fun x hx => List.mem_append_left _ (hinv.released hx)
  · rw [if_neg hfree] at hrep hgood hout
    subst hout
    rw [List.append_nil]
    exact inv_of_represents hrep hgood rfl (hinv.served.later hfresh)
      (arrival_concat hinv.arrival hnew) hinv.released

/-- An unlock request of a holder keeps the invariant. -/
lemma Inv.unlock (hinv : s.Inv) (hr : r.type = 0) (hnew : r.arrival = s.requested.length)
    (hh : h ∈ s.holders) {win : Window} {out : List LockRequest}
    (hdo : s.win.doLock r = some (win, out)) :
    Inv ⟨win, s.requested ++ [r], s.confirmed ++ out, s.released ++ [h]⟩ := by
  obtain ⟨win', hdo', hrep⟩ := hinv.represents.unlock hr hh
  rw [hdo, Option.some.injEq, Prod.mk.injEq] at hdo'
  obtain ⟨rfl, hout⟩ := hdo'
  have hfresh := hinv.fresh hnew
  have hgood := hinv.good.release h
  have hnow := hinv.served.now hfresh
  have hconf : h ∈ s.confirmed := (List.mem_filter.mp hh).1
  have hnodup : s.holders.Nodup := hinv.served.confirmed_nodup.filter _
  have herase : s.holders.erase h =
      s.confirmed.filter fun x => x.type ≠ 0 ∧ x ∉ s.released ++ [h] := by
    rw [hnodup.erase_eq_filter, holders, List.filter_filter]
    refine List.filter_congr fun x _ => ?_
    by_cases hxh : x = h <;> simp [hxh]
  have hreleased : ∀ {c : List LockRequest}, s.confirmed ⊆ c → s.released ++ [h] ⊆ c := by
    intro c hc x hx
    rcases List.mem_append.mp hx with hx | hx
    · exact hc (hinv.released hx)
    · exact hc (List.mem_singleton.mp hx ▸ hconf)
  rw [RwLock.release] at hrep hgood
  simp only at hrep hgood hout
  by_cases hnil : s.holders.erase h = []
  · rw [if_pos hnil] at hrep hgood hout
    rw [hnil] at hrep hgood
    obtain ⟨hholders, hwaiting⟩ := @RwLock.serve_eq LockRequest Shared _ [] s.unconfirmed
    rw [← hwaiting] at hnow
    have hserved := hnow.serve
    rw [List.append_assoc, List.singleton_append, ← hout] at hserved
    refine inv_of_represents hrep hgood ?_ hserved (arrival_concat hinv.arrival hnew)
      (hreleased (List.subset_append_left _ _))
    have hpass : ∀ x ∈ RwLock.served Shared [] s.unconfirmed,
        x.type ≠ 0 ∧ x ∉ s.released ++ [h] := by
      intro x hx
      have hmem : x ∈ s.unconfirmed := hwaiting ▸ List.mem_append_left _ hx
      have hnot : x ∉ s.confirmed := by simpa using (List.mem_filter.mp hmem).2
      refine ⟨?_, fun hx' => hnot (hreleased (List.Subset.refl _) hx')⟩
      rcases hinv.represents.queue.kinds x hmem with hk | hk <;> simp [hk]
    have hserve : (RwLock.served Shared [] s.unconfirmed).filter
        (fun x => x.type ≠ 0 ∧ x ∉ s.released ++ [h]) = RwLock.served Shared [] s.unconfirmed :=
      List.filter_eq_self.mpr fun x hx => by simpa using hpass x hx
    rw [hholders, List.nil_append, hout]
    show (s.confirmed ++ r :: _).filter (fun x => x.type ≠ 0 ∧ x ∉ s.released ++ [h]) = _
    rw [List.filter_append, ← herase, hnil, List.nil_append, List.filter_cons_of_neg (by simp [hr]),
      hserve]
  · rw [if_neg hnil] at hrep hgood hout
    subst hout
    refine inv_of_represents hrep hgood ?_ hnow (arrival_concat hinv.arrival hnew)
      (hreleased (List.subset_append_left _ _))
    rw [herase]
    simp [holders, List.filter_append, hr]

/-- Every step keeps the invariant. -/
lemma Inv.step (hinv : s.Inv) (hs : Step s s') : s'.Inv := by
  cases hs with
  | lock r win out htype hnew hdo hroom => exact hinv.lock htype hnew hdo hroom
  | unlock r h win out htype hnew hheld hsrc hdo => exact hinv.unlock htype hnew hheld hdo

lemma inv_init : init.Inv := by
  refine ⟨⟨⟨rfl, fun _ => rfl, ?_, ?_⟩, ⟨?_, rfl, ?_, ?_, ?_⟩⟩, ⟨?_, ?_⟩, .nil, ?_, ?_⟩ <;>
    simp [init, Window.create, holders, unconfirmed, lockQSize]

/-- In every run the window lock is sound, and `do_lock` does not stop the program for a lock
request or for the unlock request of a holder. -/
theorem window_lock_sound (h : Relation.ReflTransGen Step init s) :
    s.Sound ∧ ∀ r : LockRequest, r.IsLock ∨ r.type = 0 ∧ s.holders ≠ [] →
      (s.win.doLock r).isSome := by
  have hinv : s.Inv := by
    induction h with
    | refl => exact inv_init
    | tail _ hs ih => exact ih.step hs
  refine ⟨hinv.sound, ?_⟩
  rintro r (hr | ⟨hr, hne⟩)
  · obtain ⟨win, hdo, -⟩ := hinv.represents.lock hr
    simp [hdo]
  · obtain ⟨x, hx⟩ := List.exists_mem_of_ne_nil _ hne
    obtain ⟨win, hdo, -⟩ := hinv.represents.unlock hr hx
    simp [hdo]

/-- An exclusive and a shared request: the second waits until the first is released. -/
theorem window_lock_sound_two : ∃ s : LockRun, Relation.ReflTransGen Step init s ∧ s.Sound ∧
    s.confirmed = [⟨1, 2, 8, 0⟩, ⟨1, 0, 8, 2⟩, ⟨2, 1, 16, 1⟩] := by
  let r₀ : LockRequest := ⟨1, 2, 8, 0⟩
  let r₁ : LockRequest := ⟨2, 1, 16, 1⟩
  let r₂ : LockRequest := ⟨1, 0, 8, 2⟩
  let win₁ : Window := { Window.create with locked := 2, count := 1 }
  let win₂ : Window := { win₁ with lock_q := Function.update win₁.lock_q 0 r₁, lock_q_tail := 1 }
  let win₃ : Window := { win₂ with locked := 1, lock_q_head := 1 }
  have h₁ : Step init ⟨win₁, [r₀], [r₀], []⟩ :=
    .lock init r₀ win₁ [r₀] (Or.inr rfl) rfl rfl (by decide)
  have h₂ : Step ⟨win₁, [r₀], [r₀], []⟩ ⟨win₂, [r₀, r₁], [r₀], []⟩ :=
    .lock ⟨win₁, [r₀], [r₀], []⟩ r₁ win₂ [] (Or.inl rfl) rfl rfl (by decide)
  have h₃ : Step ⟨win₂, [r₀, r₁], [r₀], []⟩ ⟨win₃, [r₀, r₁, r₂], [r₀, r₂, r₁], [r₀]⟩ :=
    .unlock ⟨win₂, [r₀, r₁], [r₀], []⟩ r₂ r₀ win₃ [r₂, r₁] rfl rfl (by decide) rfl rfl
  have hrun := ((Relation.ReflTransGen.single h₁).tail h₂).tail h₃
  exact ⟨_, hrun, (window_lock_sound hrun).1, rfl⟩

end LockRun

end NetPipe.MpLite
