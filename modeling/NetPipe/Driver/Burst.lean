import NetPipe.Driver.Pointers

/-!
# Burst preposting

In burst mode all receives of a trial are posted before the timed loop. The preposting loop
replays the pointer motion of the timed loop with a `NULL` third argument.
-/

namespace NetPipe

/-- The windows posted, received into and checked, in order. -/
def postedWindows (w : List Window) : List ℤ :=
  w.filterMap fun | .posted x => some x | _ => none

def receivedWindows (w : List Window) : List ℤ :=
  w.filterMap fun | .received x => some x | _ => none

def checkedWindows (w : List Window) : List ℤ :=
  w.filterMap fun | .checked x => some x | _ => none

/-- The calls of a trial before its first `Sync`: the preposting loop, if this side has one. -/
def prepostCalls (f : Flags) (side : Side) (nrepeat : ℕ) : List Call :=
  match side with
  | .transmitter => if f.burst && !f.stream then burstPrepost nrepeat else []
  | .receiver => receiverPrepost f nrepeat

/-- The calls of a trial after the preposting. -/
def timedCalls (f : Flags) (npairs : ℕ) (side : Side) (nrepeat : ℕ) : List Call :=
  match side with
  | .transmitter =>
    (if !f.cache then [.flushcache] else []) ++ [.sync] ++
    (List.range nrepeat).flatMap (fun _ => transmitterRepeat f) ++
    (if npairs > 1 then [.sync] else []) ++ [.reset]
  | .receiver =>
    (if !f.cache then [.flushcache] else []) ++ [.sync] ++
    (List.range nrepeat).flatMap (receiverRepeat f nrepeat) ++ [.reset]

lemma trial_eq (f : Flags) (npairs : ℕ) (side : Side) (nrepeat : ℕ) :
    trial f npairs side nrepeat = prepostCalls f side nrepeat ++ timedCalls f npairs side nrepeat := by
  cases side <;>
    simp [trial, prepostCalls, timedCalls, transmitterTrial, receiverTrial, List.append_assoc]

/-- The burst property of one trial started with the pointers `s`: no `NULL` is dereferenced, the
`j`-th posted window is the one received into and checked for the `j`-th message, and the
preposting loop gives the pointers back as it found them. -/
def BurstOk (f : Flags) (l : Layout) (a : Pools) (npairs : ℕ) (side : Side) (nrepeat : ℕ)
    (s : PtrState) : Prop :=
  ∃ s₁ w₁ s₂ w₂, runPtrs f.cache l a (prepostCalls f side nrepeat) s = some (s₁, w₁) ∧
    runPtrs f.cache l a (timedCalls f npairs side nrepeat) s₁ = some (s₂, w₂) ∧
    s₁.ptrs.s_ptr = s.ptrs.s_ptr ∧ s₁.ptrs.r_ptr = s.ptrs.r_ptr ∧
    postedWindows w₁ = receivedWindows w₂ ∧ postedWindows w₁ = checkedWindows w₂ ∧
    postedWindows w₂ = []

/-! ### Cache mode: the two buffers alternate -/

/-- The cache branch of `AdvancePtrs` on `s_ptr` and `r_ptr`. -/
def Ptrs.swapLocal (p : Ptrs) : Ptrs :=
  if p.s_ptr ≠ 0 then { p with s_ptr := p.r_ptr, r_ptr := p.s_ptr } else p

/-- The cache branch of `AdvancePtrs` on `ds_ptr` and `dr_ptr`. -/
def Ptrs.swapRemote (p : Ptrs) : Ptrs :=
  if p.ds_ptr ≠ 0 then { p with ds_ptr := p.dr_ptr, dr_ptr := p.ds_ptr } else p

section

variable (l : Layout) (size : ℤ) (p : Ptrs)

lemma advancePtrs_cache_local (s_no : Option PtrVar) (r_no : PtrVar) :
    advancePtrs true l size .s_ptr .r_ptr s_no r_no p = some p.swapLocal := by
  simp only [advancePtrs, Ptrs.swapLocal, if_true, Ptrs.get_s_ptr, Ptrs.get_r_ptr]
  rfl

lemma advancePtrs_cache_remote (s_no : Option PtrVar) (r_no : PtrVar) :
    advancePtrs true l size .ds_ptr .dr_ptr s_no r_no p = some p.swapRemote := by
  simp only [advancePtrs, Ptrs.swapRemote, if_true, Ptrs.get_ds_ptr, Ptrs.get_dr_ptr]
  rfl

end

/-- Two pointer states agree on the local windows. -/
def Ptrs.SameLocal (p q : Ptrs) : Prop := p.s_ptr = q.s_ptr ∧ p.r_ptr = q.r_ptr

lemma Ptrs.SameLocal.swapLocal {p q : Ptrs} (h : p.SameLocal q) :
    p.swapLocal.SameLocal q.swapLocal := by
  obtain ⟨hs, hr⟩ := h
  unfold Ptrs.swapLocal Ptrs.SameLocal
  rw [hs]
  split_ifs
  · exact ⟨hr, rfl⟩
  · exact ⟨hs, hr⟩

lemma Ptrs.sameLocal_swapRemote (p : Ptrs) : p.swapRemote.SameLocal p := by
  unfold Ptrs.swapRemote Ptrs.SameLocal
  split_ifs <;> exact ⟨rfl, rfl⟩

lemma Ptrs.SameLocal.iterate {p q : Ptrs} (h : p.SameLocal q) (j : ℕ) :
    (Ptrs.swapLocal^[j] p).SameLocal (Ptrs.swapLocal^[j] q) := by
  induction j with
  | zero => exact h
  | succ j ih =>
    rw [Function.iterate_succ_apply', Function.iterate_succ_apply']
    exact ih.swapLocal

lemma Ptrs.SameLocal.trans {p q r : Ptrs} (h : p.SameLocal q) (h' : q.SameLocal r) :
    p.SameLocal r :=
  ⟨h.1.trans h'.1, h.2.trans h'.2⟩

/-- The remote swaps interleaved with the local ones do not change the local windows. -/
lemma sameLocal_iterate {step : Ptrs → Ptrs}
    (h : ∀ p q, Ptrs.SameLocal p q → (step p).SameLocal q.swapLocal) (p : Ptrs) (j : ℕ) :
    (step^[j] p).SameLocal (Ptrs.swapLocal^[j] p) := by
  induction j with
  | zero => exact ⟨rfl, rfl⟩
  | succ j ih =>
    rw [Function.iterate_succ_apply', Function.iterate_succ_apply']
    exact h _ _ ih

section

variable {l : Layout} {a : Pools}

/-- The preposting loop visits the windows `(swapLocal^[j] p).r_ptr` and restores the pointers. -/
lemma runPtrs_burstPrepost (n : ℕ) (s : PtrState) :
    ∃ s', runPtrs true l a (burstPrepost n) s =
        some (s', (List.range n).map fun j => .posted (Ptrs.swapLocal^[j] s.ptrs).r_ptr) ∧
      s'.ptrs.SameLocal s.ptrs := by
  let s₀ : PtrState := { s with s_saved := s.ptrs.s_ptr, r_saved := s.ptrs.r_ptr }
  let fs : ℕ → PtrState := fun j => { s₀ with ptrs := Ptrs.swapLocal^[j] s.ptrs }
  have hbody : ∀ j < n, runPtrs true l a [.prepostRecv, advancePosted] (fs j) =
      some (fs (j + 1), [.posted (Ptrs.swapLocal^[j] s.ptrs).r_ptr]) := by
    intro j _
    simp [runPtrs, Call.runPtrs, advancePosted, advancePtrs_cache_local, fs,
      Function.iterate_succ_apply']
  have hloop := runPtrs_range hbody
  let s' : PtrState :=
    { fs n with ptrs := { (fs n).ptrs with s_ptr := s.ptrs.s_ptr, r_ptr := s.ptrs.r_ptr } }
  have hfirst : (Call.savePtrs).runPtrs true l a s = some (fs 0, []) := rfl
  have hlast : runPtrs true l a [.restorePtrs] (fs n) = some (s', []) := rfl
  refine ⟨s', ?_, rfl, rfl⟩
  rw [burstPrepost, List.cons_append, runPtrs_cons hfirst (runPtrs_append hloop hlast),
    List.nil_append, List.append_nil, List.map_eq_flatMap]

/-- One pass of the transmitter's loop in burst mode. -/
lemma runPtrs_transmitterRepeat {f : Flags} (hb : f.burst = true) (hs : f.stream = false)
    (s : PtrState) :
    runPtrs true l a (transmitterRepeat f) s =
      some ({ s with ptrs := s.ptrs.swapRemote.swapLocal },
        [.sent s.ptrs.s_ptr s.ptrs.dr_ptr, .received s.ptrs.r_ptr, .checked s.ptrs.r_ptr]) := by
  have hr : s.ptrs.swapRemote.r_ptr = s.ptrs.r_ptr := (s.ptrs.sameLocal_swapRemote).2
  cases hw : f.workload <;>
    simp [transmitterRepeat, hb, hs, hw, runPtrs, Call.runPtrs, advanceSent, advanceReceived,
      advancePtrs_cache_local, advancePtrs_cache_remote, hr]

/-- One pass of the receiver's loop in burst mode. -/
lemma runPtrs_receiverRepeat {f : Flags} (hb : f.burst = true) (n j : ℕ) (s : PtrState) :
    runPtrs true l a (receiverRepeat f n j) s =
      some ({ s with ptrs := if f.stream then s.ptrs.swapLocal else s.ptrs.swapLocal.swapRemote },
        [.received s.ptrs.r_ptr, .checked s.ptrs.r_ptr] ++
          if f.stream then [] else [.sent s.ptrs.swapLocal.s_ptr s.ptrs.swapLocal.dr_ptr]) := by
  cases hw : f.workload <;> cases hs : f.stream <;>
    simp [receiverRepeat, hb, hs, hw, runPtrs, Call.runPtrs, advanceSent, advanceReceived,
      advancePtrs_cache_local, advancePtrs_cache_remote]

/-! ### Nocache mode: the third argument is dereferenced -/

/-- The first advance of the preposting loop dereferences the `NULL` third argument. -/
lemma runPtrs_burstPrepost_nocache {n : ℕ} (hn : 0 < n) (s : PtrState) :
    runPtrs false l a (burstPrepost n) s = none := by
  obtain ⟨m, rfl⟩ := Nat.exists_eq_succ_of_ne_zero hn.ne'
  simp [burstPrepost, List.range_succ_eq_map, runPtrs, Call.runPtrs, advancePosted, advancePtrs]

end

/-! ### The windows of a trial -/

section

variable (w w' : List Window)

@[simp] lemma postedWindows_append :
    postedWindows (w ++ w') = postedWindows w ++ postedWindows w' := List.filterMap_append

@[simp] lemma receivedWindows_append :
    receivedWindows (w ++ w') = receivedWindows w ++ receivedWindows w' := List.filterMap_append

@[simp] lemma checkedWindows_append :
    checkedWindows (w ++ w') = checkedWindows w ++ checkedWindows w' := List.filterMap_append

end

/-- The windows of a loop whose passes each receive into and check one window. -/
lemma windows_flatMap {w : ℕ → List Window} {x : ℕ → ℤ} (n : ℕ)
    (hp : ∀ j, postedWindows (w j) = []) (hr : ∀ j, receivedWindows (w j) = [x j])
    (hc : ∀ j, checkedWindows (w j) = [x j]) :
    postedWindows ((List.range n).flatMap w) = [] ∧
      receivedWindows ((List.range n).flatMap w) = (List.range n).map x ∧
      checkedWindows ((List.range n).flatMap w) = (List.range n).map x := by
  induction n with
  | zero => exact ⟨rfl, rfl, rfl⟩
  | succ n ih =>
    obtain ⟨ihp, ihr, ihc⟩ := ih
    simp [List.range_succ, ihp, ihr, ihc, hp, hr, hc]

/-- A timed loop whose passes receive into `r_ptr`, check it and swap the local pointers uses the
windows of `swapLocal`, whatever else it moves. -/
lemma runPtrs_timedLoop {l : Layout} {a : Pools} {body : ℕ → List Call} (step : Ptrs → Ptrs)
    (w : Ptrs → List Window)
    (hbody : ∀ j (s : PtrState),
      runPtrs true l a (body j) s = some ({ s with ptrs := step s.ptrs }, w s.ptrs))
    (hstep : ∀ p q, Ptrs.SameLocal p q → (step p).SameLocal q.swapLocal)
    (hp : ∀ p, postedWindows (w p) = []) (hr : ∀ p, receivedWindows (w p) = [p.r_ptr])
    (hc : ∀ p, checkedWindows (w p) = [p.r_ptr]) (n : ℕ) (s : PtrState) :
    ∃ s' w', runPtrs true l a ((List.range n).flatMap body) s = some (s', w') ∧
      postedWindows w' = [] ∧
      receivedWindows w' = (List.range n).map (fun j => (Ptrs.swapLocal^[j] s.ptrs).r_ptr) ∧
      checkedWindows w' = (List.range n).map (fun j => (Ptrs.swapLocal^[j] s.ptrs).r_ptr) := by
  have hlocal := sameLocal_iterate hstep s.ptrs
  let fs : ℕ → PtrState := fun j => { s with ptrs := step^[j] s.ptrs }
  have hpass : ∀ j < n, runPtrs true l a (body j) (fs j) = some (fs (j + 1), w (fs j).ptrs) := by
    intro j _
    rw [hbody]
    simp only [fs, Function.iterate_succ_apply']
  have hloop := runPtrs_range hpass
  refine ⟨fs n, _, hloop, windows_flatMap n (fun j => hp _) (fun j => ?_) (fun j => ?_)⟩
  · rw [hr, (hlocal j).2]
  · rw [hc, (hlocal j).2]

/-- What the timed part of a trial does with the windows: nothing is posted, and the windows
received into and checked are those of `swapLocal` started at the first window. -/
lemma runPtrs_timedCalls {f : Flags} (hc : f.cache = true) (hb : f.burst = true) {l : Layout}
    {a : Pools} (npairs : ℕ) (side : Side) (n : ℕ) (s : PtrState)
    (hside : ¬ (side = .transmitter ∧ f.stream = true)) :
    ∃ s' w, runPtrs true l a (timedCalls f npairs side n) s = some (s', w) ∧
      postedWindows w = [] ∧
      receivedWindows w = (List.range n).map (fun j => (Ptrs.swapLocal^[j] s.ptrs).r_ptr) ∧
      checkedWindows w = (List.range n).map (fun j => (Ptrs.swapLocal^[j] s.ptrs).r_ptr) := by
  have hpre : runPtrs true l a ((if !f.cache then [Call.flushcache] else []) ++ [.sync]) s =
      some (s, []) := by
    simp [hc, runPtrs, Call.runPtrs]
  cases side with
  | transmitter =>
    have hs : f.stream = false := by simpa using hside
    obtain ⟨s', w, hloop, hw⟩ := runPtrs_timedLoop (fun p => p.swapRemote.swapLocal)
      (fun p => [.sent p.s_ptr p.dr_ptr, .received p.r_ptr, .checked p.r_ptr])
      (fun _ s => runPtrs_transmitterRepeat (l := l) (a := a) hb hs s)
      (fun p q h => ((p.sameLocal_swapRemote).trans h).swapLocal)
      (fun _ => rfl) (fun _ => rfl) (fun _ => rfl) n s
    have hpost : runPtrs true l a ((if npairs > 1 then [Call.sync] else []) ++ [.reset]) s' =
        some (s', []) := by
      split_ifs <;> rfl
    have hall := runPtrs_append hpre (runPtrs_append hloop hpost)
    rw [List.nil_append, List.append_nil] at hall
    exact ⟨s', w, by simpa only [timedCalls, List.append_assoc] using hall, hw⟩
  | receiver =>
    obtain ⟨s', w, hloop, hw⟩ := runPtrs_timedLoop
      (fun p => if f.stream then p.swapLocal else p.swapLocal.swapRemote)
      (fun p => [.received p.r_ptr, .checked p.r_ptr] ++
        if f.stream then [] else [.sent p.swapLocal.s_ptr p.swapLocal.dr_ptr])
      (fun j s => runPtrs_receiverRepeat (l := l) (a := a) hb n j s)
      (fun p q h => by
        split_ifs
        · exact h.swapLocal
        · exact (Ptrs.sameLocal_swapRemote _).trans h.swapLocal)
      (fun p => by split_ifs <;> rfl) (fun p => by split_ifs <;> rfl)
      (fun p => by split_ifs <;> rfl) n s
    have hlast : runPtrs true l a [.reset] s' = some (s', []) := rfl
    have hall := runPtrs_append hpre (runPtrs_append hloop hlast)
    rw [List.nil_append, List.append_nil] at hall
    exact ⟨s', w, by simpa only [timedCalls, List.append_assoc] using hall, hw⟩

/-- The calls of a burst transmitter that only streams. -/
def streamCalls : List Call :=
  [.setupBufferData, .sendData, advanceSent, .sync, .flushcache, .reset]

/-- Such calls never fail and only use windows for sending. -/
lemma runPtrs_streamCalls (cache : Bool) {l : Layout} {a : Pools} (cs : List Call)
    (hcs : ∀ c ∈ cs, c ∈ streamCalls) (s : PtrState) :
    ∃ s' w, runPtrs cache l a cs s = some (s', w) ∧
      postedWindows w = [] ∧ receivedWindows w = [] ∧ checkedWindows w = [] := by
  induction cs generalizing s with
  | nil => exact ⟨s, [], rfl, rfl, rfl, rfl⟩
  | cons c cs ih =>
    have hone : ∃ s₁ w₁, c.runPtrs cache l a s = some (s₁, w₁) ∧
        postedWindows w₁ = [] ∧ receivedWindows w₁ = [] ∧ checkedWindows w₁ = [] := by
      have hc : c ∈ streamCalls := hcs c (by simp)
      simp only [streamCalls, List.mem_cons, List.not_mem_nil, or_false] at hc
      rcases hc with rfl | rfl | rfl | rfl | rfl | rfl
      case inr.inr.inl =>
        cases cache <;> exact ⟨_, [], rfl, rfl, rfl, rfl⟩
      all_goals exact ⟨_, _, rfl, rfl, rfl, rfl⟩
    obtain ⟨s₁, w₁, hrun, hp₁, hr₁, hc₁⟩ := hone
    obtain ⟨s₂, w₂, hrest, hp₂, hr₂, hc₂⟩ := ih (fun d hd => hcs d (by simp [hd])) s₁
    exact ⟨s₂, w₁ ++ w₂, runPtrs_cons hrun hrest, by simp [hp₁, hp₂], by simp [hr₁, hr₂],
      by simp [hc₁, hc₂]⟩

lemma mem_streamCalls_of_timedCalls {f : Flags} (hb : f.burst = true) (hs : f.stream = true)
    (npairs n : ℕ) : ∀ c ∈ timedCalls f npairs .transmitter n, c ∈ streamCalls := by
  intro c hc
  simp only [timedCalls, transmitterRepeat, hb, hs, List.mem_append, List.mem_flatMap] at hc
  split_ifs at hc <;> simp_all [streamCalls] <;> tauto

/-- Whether a burst trial has a preposting loop on this side. -/
def preposts (f : Flags) (side : Side) : Bool :=
  match side with
  | .transmitter => !f.stream
  | .receiver => true

/-- A burst trial meets its contract exactly in cache mode or on a side without a preposting loop:
in nocache mode the first `AdvancePtrs` of the preposting loop dereferences its `NULL` argument. -/
theorem burst_windows_iff {f : Flags} (hb : f.burst = true) (l : Layout) (a : Pools)
    (npairs : ℕ) (side : Side) {nrepeat : ℕ} (hn : 0 < nrepeat) (s : PtrState) :
    BurstOk f l a npairs side nrepeat s ↔ f.cache = true ∨ preposts f side = false := by
  by_cases hpre : side = .transmitter ∧ f.stream = true
  · -- nothing is preposted and nothing is received
    obtain ⟨rfl, hs⟩ := hpre
    have hright : preposts f .transmitter = false := by simp [preposts, hs]
    refine iff_of_true ?_ (Or.inr hright)
    obtain ⟨s', w, hrun, hp, hr, hc⟩ := runPtrs_streamCalls f.cache (l := l) (a := a)
      _ (mem_streamCalls_of_timedCalls hb hs npairs nrepeat) s
    have hnil : prepostCalls f .transmitter nrepeat = [] := by simp [prepostCalls, hs]
    refine ⟨s, [], s', w, ?_, hrun, rfl, rfl, ?_, ?_, hp⟩
    · rw [hnil, runPtrs_nil]
    · rw [hr]; rfl
    · rw [hc]; rfl
  · have hburst : prepostCalls f side nrepeat = burstPrepost nrepeat := by
      cases side with
      | transmitter => simp_all [prepostCalls]
      | receiver => simp [prepostCalls, receiverPrepost, hb]
    have hpreposts : preposts f side = true := by
      cases side <;> simp_all [preposts]
    simp only [hpreposts, Bool.true_eq_false, or_false]
    constructor
    · rintro ⟨s₁, w₁, s₂, w₂, hrun, -⟩
      by_contra hc
      rw [Bool.not_eq_true] at hc
      rw [hburst, hc, runPtrs_burstPrepost_nocache hn] at hrun
      cases hrun
    · intro hc
      obtain ⟨s₁, hpost, hsame⟩ := runPtrs_burstPrepost (l := l) (a := a) nrepeat s
      obtain ⟨s₂, w₂, htimed, hp, hr, hck⟩ := runPtrs_timedCalls hc hb (l := l) (a := a) npairs
        side nrepeat s₁ hpre
      have hposted : ∀ x : ℕ → ℤ,
          postedWindows ((List.range nrepeat).map fun j => Window.posted (x j)) =
            (List.range nrepeat).map x := fun x => by
        simp [postedWindows, List.filterMap_map, List.filterMap_eq_map']
      -- restoring gives back the first window, so both loops visit the same windows
      have hwin : (fun j => (Ptrs.swapLocal^[j] s₁.ptrs).r_ptr) =
          fun j => (Ptrs.swapLocal^[j] s.ptrs).r_ptr := funext fun j => (hsame.iterate j).2
      rw [hwin] at hr hck
      refine ⟨s₁, _, s₂, w₂, by rw [hburst, hc]; exact hpost, by rw [hc]; exact htimed,
        hsame.1, hsame.2, ?_, ?_, hp⟩
      · rw [hr, hposted]
      · rw [hck, hposted]

/-- The default flags with `--burst`. -/
def burstFlags : Flags := ⟨true, false, false, true, true, false⟩

/-- A cache-mode burst transmitter with three repeats, and its nocache counterpart. -/
theorem burst_windows_three :
    BurstOk burstFlags ⟨0, 0, 4096, false, by decide⟩ ⟨4096, 0⟩ 1 .transmitter 3
        ⟨Ptrs.null, 0, 0, 8⟩ ∧
      ¬ BurstOk { burstFlags with cache := false } ⟨0, 0, 4096, false, by decide⟩ ⟨4096, 0⟩ 1
        .transmitter 3 ⟨Ptrs.null, 0, 0, 8⟩ :=
  ⟨(burst_windows_iff rfl _ _ _ _ (by decide) _).mpr (Or.inl rfl),
    fun h => absurd ((burst_windows_iff rfl _ _ _ _ (by decide) _).mp h) (by decide)⟩

/-- `--burst --nocache`: the receiver of a single message already fails. -/
theorem burst_nocache_fails :
    ¬ BurstOk { burstFlags with cache := false } ⟨0, 0, 4096, false, by decide⟩ ⟨4096, 0⟩ 1
        .receiver 1 ⟨mallocBufs ⟨0, 0, 4096, false, by decide⟩ memsize 4096 0 Ptrs.null, 0, 0, 8⟩ := by
  rintro ⟨s₁, w₁, s₂, w₂, hrun, -⟩
  cases hrun

end NetPipe
