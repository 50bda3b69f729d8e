import NetPipe.Library.ExchangeSort
import NetPipe.MpLite.Timer

/-!
# The time report

`MP_Time_Report` called while blocks are open. It sorts the blocks first, and process 0 returns
before the sum over all processes.
-/

namespace NetPipe.MpLite

/-- What a call of `MP_Time_Report` does: the timer afterwards, whether the problem is reported, and
the number of calls of `MP_dSum`. -/
structure Report where
  timer : Timer
  warned : Bool
  sums : ℕ

namespace Timer

/-- The blocks are sorted by the time spent in them. -/
def sort (s : Timer) : Timer where
  block := exchangeSort TimedBlock.ownTime s.block
  stack := s.stack
  nodup := ((exchangeSort_perm _ s.block).map _).nodup_iff.mpr s.nodup
  stack_lt := by
    rw [(exchangeSort_perm _ s.block).length_eq]
    exact s.stack_lt
  length_block := by
    rw [(exchangeSort_perm _ s.block).length_eq]
    exact s.length_block
  length_stack := s.length_stack

/-- `MP_Time_Report` on process `myproc`. An exchange of two blocks goes through the first block that
is not in use. -/
def timeReport (myproc : ℕ) (s : Timer) : Except Fault Report :=
  if exchanges TimedBlock.ownTime s.block ∧ s.block.length = numTimedBlocks then
    .error .outOfBounds
  else if myproc = 0 ∧ s.stack ≠ [] then .ok ⟨s.sort, true, 0⟩
  else .ok ⟨s.sort, false, 1⟩

/-- `MP_Get_Time`. -/
def getTime (name : List Char) (s : Timer) : ℚ :=
  s.block.foldl (fun time b => if b.name = cleanupString name then b.total_time else time) 0

/-- Calls of `MP_Leave` one after another. -/
def leaves (calls : List (ℚ × ℚ)) (s : Timer) : Timer :=
  calls.foldl (fun s call => s.leave call.1 call.2) s

/-- The timer `s'` is as good as `s`: its open blocks are those of `s`, no block is lost, and later
calls of `MP_Leave` are charged to the same names. -/
structure Intact (s s' : Timer) : Prop where
  stack : s'.stack = s.stack
  entries : ∀ id ∈ s.stack, s'.block[id]? = s.block[id]?
  blocks : s'.block.Perm s.block
  later : ∀ calls name, (s'.leaves calls).getTime name = (s.leaves calls).getTime name

/-- The place of every open block among the sorted ones is the one it has. -/
def InPlace (s : Timer) : Prop :=
  ∀ id ∈ s.stack, ∀ b ∈ s.block[id]?, place TimedBlock.ownTime b s.block = id

/-- There is a block that is not in use, or nothing to exchange. -/
def RoomToSort (s : Timer) : Prop :=
  s.block.length < numTimedBlocks ∨ s.block.Pairwise fun b b' => b'.ownTime ≤ b.ownTime

end Timer

/-- The calls of `MP_Time_Report` on all processes report the problem, leave the timers intact, and
take part in the same sums. -/
def Harmless {nprocs : ℕ} (s : Fin nprocs → Timer) : Prop :=
  ∃ r : Fin nprocs → Report, (∀ p, (s p).timeReport p = .ok (r p)) ∧ (∃ p, (r p).warned) ∧
    (∀ p, (s p).Intact (r p).timer) ∧ ∀ p q, (r p).sums = (r q).sums

variable {s s' : Timer} {t nflops : ℚ} {f : TimedBlock → TimedBlock} {S : List ℕ} {id : ℕ}
  {l l' : List TimedBlock}

/-! ### Later calls -/

/-- The same blocks, and the same ones at the indices in `S`. -/
structure SameAt (S : List ℕ) (l l' : List TimedBlock) : Prop where
  perm : l'.Perm l
  eq : ∀ id ∈ S, l'[id]? = l[id]?

lemma modify_perm (h : id < l.length) : (l.modify id f).Perm (f l[id] :: l.eraseIdx id) := by
  have hlen : id < (l.modify id f).length := by rwa [List.length_modify]
  have hperm := (List.getElem_cons_eraseIdx_perm hlen).symm
  rwa [List.getElem_modify_eq, List.eraseIdx_modify_of_eq] at hperm

lemma SameAt.modify (h : SameAt S l l') (hid : id ∈ S) :
    SameAt S (l.modify id f) (l'.modify id f) := by
  constructor
  · by_cases hlt : id < l.length
    · have hlt' : id < l'.length := by rwa [h.perm.length_eq]
      have heq : l'[id] = l[id] := by
        have := h.eq id hid
        rwa [List.getElem?_eq_getElem hlt, List.getElem?_eq_getElem hlt', Option.some_inj] at this
      have hrest : (l'.eraseIdx id).Perm (l.eraseIdx id) := by
        rw [← List.perm_cons l[id]]
        nth_rewrite 1 [← heq]
        exact (List.getElem_cons_eraseIdx_perm hlt').trans
          (h.perm.trans (List.getElem_cons_eraseIdx_perm hlt).symm)
      refine (modify_perm hlt').trans (.trans ?_ (modify_perm hlt).symm)
      rw [heq]
      exact hrest.cons _
    · have hle : l.length ≤ id := Nat.not_lt.mp hlt
      rw [List.modify_eq_self hle, List.modify_eq_self (h.perm.length_eq.trans_le hle)]
      exact h.perm
  · intro j hj
    rw [List.getElem?_modify, List.getElem?_modify, h.eq j hj]

namespace Timer

/-- Open blocks at the same places are left in the same way. -/
lemma sameAt_leave (t nflops : ℚ) (hstack : s'.stack = s.stack) (h : SameAt s.stack s.block s'.block) :
    (s'.leave t nflops).stack = (s.leave t nflops).stack ∧
      SameAt (s.leave t nflops).stack (s.leave t nflops).block (s'.leave t nflops).block := by
  rcases hcons : s.stack with - | ⟨id, stack⟩
  · rw [leave_of_nil hcons, leave_of_nil (hstack.trans hcons)]
    exact ⟨hstack, h⟩
  · have hmem : id ∈ s.stack := by simp [hcons]
    have hid : id < s.block.length := s.stack_lt id hmem
    have hid' : id < s'.block.length := by rwa [h.perm.length_eq]
    have heq : s'.block[id] = s.block[id] := by
      have := h.eq id hmem
      rwa [List.getElem?_eq_getElem hid, List.getElem?_eq_getElem hid', Option.some_inj] at this
    obtain ⟨hblock, hrest⟩ := leave_eq t nflops hcons hid
    obtain ⟨hblock', hrest'⟩ := leave_eq t nflops (hstack.trans hcons) hid'
    have hcharge : SameAt s.stack (charge t nflops s.block ⟨id, hid⟩ stack)
        (charge t nflops s'.block ⟨id, hid'⟩ stack) := by
      rw [charge, charge]
      dsimp only [Fin.getElem_fin]
      rw [heq]
      apply SameAt.modify _ hmem
      cases stack with
      | nil => exact h.modify hmem
      | cons parent stack => exact (h.modify hmem).modify (by simp [hcons])
    refine ⟨hrest'.trans hrest.symm, ?_⟩
    rw [hblock, hblock', hrest]
    exact ⟨hcharge.perm, fun i hi => hcharge.eq i (by simp [hcons, hi])⟩

lemma sameAt_leaves (calls : List (ℚ × ℚ)) (hstack : s'.stack = s.stack)
    (h : SameAt s.stack s.block s'.block) :
    (s'.leaves calls).block.Perm (s.leaves calls).block := by
  induction calls generalizing s s' with
  | nil => exact h.perm
  | cons call calls ih =>
    obtain ⟨hstack', h'⟩ := sameAt_leave call.1 call.2 hstack h
    exact ih hstack' h'

lemma foldl_time {name : List Char} (h : ∀ b ∈ l, b.name ≠ cleanupString name) (time : ℚ) :
    l.foldl (fun time b => if b.name = cleanupString name then b.total_time else time) time =
      time := by
  induction l with
  | nil => rfl
  | cons b l ih =>
    rw [List.forall_mem_cons] at h
    rw [List.foldl_cons, if_neg h.1, ih h.2]

lemma getTime_of_mem {b : TimedBlock} {name : List Char} (hb : b ∈ s.block)
    (hname : b.name = cleanupString name) : s.getTime name = b.total_time := by
  obtain ⟨l, l', heq⟩ := List.append_of_mem hb
  have hnodup := s.nodup
  rw [heq, List.map_append, List.map_cons, List.nodup_append] at hnodup
  have hlast : ∀ b' ∈ l', b'.name ≠ cleanupString name := by
    rintro b' hb' hname'
    exact (List.nodup_cons.mp hnodup.2.1).1 (List.mem_map.mpr ⟨b', hb', hname'.trans hname.symm⟩)
  rw [getTime, heq, List.foldl_append, List.foldl_cons, if_pos hname, foldl_time hlast]

/-- The time of a block depends on its name only. -/
lemma getTime_perm (h : s'.block.Perm s.block) (name : List Char) :
    s'.getTime name = s.getTime name := by
  by_cases hname : ∃ b ∈ s.block, b.name = cleanupString name
  · obtain ⟨b, hb, hname⟩ := hname
    rw [getTime_of_mem hb hname, getTime_of_mem (h.mem_iff.mpr hb) hname]
  · simp only [not_exists, not_and] at hname
    rw [getTime, getTime, foldl_time hname, foldl_time fun b hb => hname b (h.mem_iff.mp hb)]

lemma intact_iff (hstack : s'.stack = s.stack) (hperm : s'.block.Perm s.block) :
    Intact s s' ↔ ∀ id ∈ s.stack, s'.block[id]? = s.block[id]? := by
  constructor
  · exact fun h => h.entries
  · intro h
    exact ⟨hstack, h, hperm, fun calls name => getTime_perm (sameAt_leaves calls hstack ⟨hperm, h⟩) name⟩

/-! ### The report -/

lemma intact_sort_iff : Intact s s.sort ↔ s.InPlace := by
  have hstack : s.sort.stack = s.stack := rfl
  have hperm : s.sort.block.Perm s.block := exchangeSort_perm _ _
  rw [intact_iff hstack hperm, InPlace]
  refine forall₂_congr fun id hid => ?_
  have hlt : id < s.block.length := s.stack_lt id hid
  have hget := List.getElem?_eq_getElem hlt
  rw [hget, sort]
  simpa using getElem?_exchangeSort s.nodup.of_map hget

lemma timeReport_of_roomToSort (h : s.RoomToSort) (myproc : ℕ) : s.timeReport myproc =
    .ok (if myproc = 0 ∧ s.stack ≠ [] then ⟨s.sort, true, 0⟩ else ⟨s.sort, false, 1⟩) := by
  have hroom : ¬ (exchanges TimedBlock.ownTime s.block ∧ s.block.length = numTimedBlocks) := by
    rintro ⟨hexchanges, hfull⟩
    rcases h with hlt | hsorted
    · exact hlt.ne hfull
    · rw [exchanges_eq_false_iff.mpr hsorted] at hexchanges
      exact Bool.false_ne_true hexchanges
  rw [timeReport, if_neg hroom]
  split_ifs <;> rfl

lemma roomToSort_of_ok {myproc : ℕ} {r : Report} (h : s.timeReport myproc = .ok r) :
    s.RoomToSort := by
  by_contra hroom
  rw [RoomToSort, ← exchanges_eq_false_iff, not_or, Bool.not_eq_false, Nat.not_lt] at hroom
  rw [timeReport, if_pos ⟨hroom.2, le_antisymm s.length_block hroom.1⟩] at h
  exact nomatch h

end Timer

/-- A time report while blocks are open is harmless exactly if there is one process only, the sort
has room, and it puts each open block where it has been. -/
theorem harmless_iff {nprocs : ℕ} {s : Fin nprocs → Timer} (h : ∃ p, (s p).stack ≠ []) :
    Harmless s ↔ nprocs = 1 ∧ ∀ p, (s p).InPlace ∧ (s p).RoomToSort := by
  constructor
  · rintro ⟨r, hr, ⟨p, hwarned⟩, hintact, hsums⟩
    have hroom : ∀ p, (s p).RoomToSort := fun p => Timer.roomToSort_of_ok (hr p)
    have hreport : ∀ p : Fin nprocs, r p = if (p : ℕ) = 0 ∧ (s p).stack ≠ [] then
        ⟨(s p).sort, true, 0⟩ else ⟨(s p).sort, false, 1⟩ := by
      intro p
      have hp := hr p
      rw [Timer.timeReport_of_roomToSort (hroom p)] at hp
      exact (Except.ok.inj hp).symm
    have hp : (p : ℕ) = 0 ∧ (s p).stack ≠ [] := by
      by_contra hp
      rw [hreport, if_neg hp] at hwarned
      exact Bool.false_ne_true hwarned
    have hone : nprocs = 1 := by
      -- another process would wait in the sum
      by_contra hne
      have hlt : 1 < nprocs := by
        have := p.isLt
        omega
      have hsum := hsums p ⟨1, hlt⟩
      rw [hreport, hreport, if_pos hp, if_neg (by simp)] at hsum
      exact Nat.zero_ne_one hsum
    refine ⟨hone, fun q => ⟨Timer.intact_sort_iff.mp ?_, hroom q⟩⟩
    have hq := hintact q
    rw [hreport] at hq
    split_ifs at hq <;> exact hq
  · rintro ⟨rfl, hs⟩
    obtain ⟨p, hopen⟩ := h
    have hp : ∀ q : Fin 1, q = p := fun q => Subsingleton.elim q p
    refine ⟨fun p => ⟨(s p).sort, true, 0⟩, fun q => ?_, ⟨p, rfl⟩,
      fun q => Timer.intact_sort_iff.mpr (hs q).1, fun _ _ => rfl⟩
    rw [Timer.timeReport_of_roomToSort (hs q).2, if_pos ⟨by simp, hp q ▸ hopen⟩]

/-- A timer with one block, which is open. -/
def Timer.oneOpen : Timer where
  block := [⟨['a'], 0, 0, 0, 1, 0⟩]
  stack := [0]
  nodup := by simp
  stack_lt := by simp
  length_block := by simp
  length_stack := by simp

theorem harmless_iff_one : Harmless (fun _ : Fin 1 => Timer.oneOpen) ↔
    1 = 1 ∧ ∀ _ : Fin 1, Timer.oneOpen.InPlace ∧ Timer.oneOpen.RoomToSort :=
  harmless_iff ⟨0, by simp [Timer.oneOpen]⟩

/-- The second of two processes waits in the sum. -/
theorem not_harmless : ¬ Harmless (fun _ : Fin 2 => Timer.oneOpen) := by
  rintro ⟨r, hr, -, -, hsums⟩
  have hroom : Timer.oneOpen.RoomToSort := Or.inl (by simp [Timer.oneOpen])
  have hzero := hr 0
  have hone := hr 1
  rw [Timer.timeReport_of_roomToSort hroom] at hzero hone
  have hsum := hsums 0 1
  rw [← Except.ok.inj hzero, ← Except.ok.inj hone] at hsum
  simp [Timer.oneOpen] at hsum

end NetPipe.MpLite
