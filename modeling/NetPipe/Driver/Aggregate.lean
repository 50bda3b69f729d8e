import Mathlib.Tactic

/-!
# Aggregate times and throughput

What process 0 makes of the times of all processes at the end of a test. Which of the gathered times
enter the result depends on `stream` and `rwstream`, which the modules and the arguments set. Times
are exact.
-/

namespace NetPipe

/-- The kinds of runs: the two modules whose processes work independently, streaming from the first
half of the processes to the second, and messages back and forth between the halves. -/
inductive TestKind where
  | memcpy
  | disk
  | oneWay
  | pingPong
  deriving DecidableEq, Repr

namespace TestKind

/-- The flag `stream`. -/
def stream : TestKind → Bool
  | .pingPong => false
  | _ => true

/-- The flag `rwstream`. -/
def rwstream : TestKind → Bool
  | .disk => true
  | _ => false

/-- The pairs whose bytes are counted. -/
def npairs (kind : TestKind) (nprocs : ℕ) : ℕ :=
  match kind with
  | .memcpy => nprocs
  | .disk => nprocs
  | _ => if nprocs = 1 then 1 else nprocs / 2

end TestKind

/-- The shortest, the longest and the average time of the trials of a process. -/
structure Times where
  min_time : ℚ
  max_time : ℚ
  avg_time : ℚ
  pos : 0 < min_time
  min_le : min_time ≤ avg_time
  le_max : avg_time ≤ max_time

lemma foldl_min_isLeast {α ι : Type*} [LinearOrder α] (l : List ι) (x : α) (f : ι → α) :
    IsLeast {y | y = x ∨ ∃ i ∈ l, y = f i} (l.foldl (fun m i => min m (f i)) x) := by
  induction l generalizing x with
  | nil => simp [IsLeast, lowerBounds]
  | cons i l ih =>
    obtain ⟨hmem, hle⟩ := ih (min x (f i))
    have hbelow : List.foldl (fun m i => min m (f i)) (min x (f i)) l ≤ min x (f i) := hle (.inl rfl)
    constructor
    · rcases hmem with heq | ⟨j, hj, heq⟩
      · rcases min_choice x (f i) with hx | hi
        · exact .inl (heq.trans hx)
        · exact .inr ⟨i, List.mem_cons_self, heq.trans hi⟩
      · exact .inr ⟨j, List.mem_cons_of_mem i hj, heq⟩
    · rintro y (rfl | ⟨j, hj, rfl⟩)
      · exact hbelow.trans (min_le_left _ _)
      · rcases List.mem_cons.mp hj with rfl | hj
        · exact hbelow.trans (min_le_right _ _)
        · exact hle (.inr ⟨j, hj, rfl⟩)

/-- The value of `min_time` before the first trial. -/
def LONGTIME : ℚ := 10 ^ 99

lemma foldl_div_eq {ι : Type*} (l : List ι) (d x : ℚ) (f : ι → ℚ) :
    l.foldl (fun x i => x + f i / d) x = x + (l.map f).sum / d := by
  induction l generalizing x with
  | nil => simp
  | cons i l ih => rw [List.foldl_cons, ih, List.map_cons, List.sum_cons, add_div, add_assoc]

/-- The times of a process behind its trials. -/
def Times.ofTrials (trials : List ℚ) (hne : trials ≠ []) (hpos : ∀ t ∈ trials, 0 < t) :
    Times where
  min_time := trials.foldl (fun m t => min m t) LONGTIME
  max_time := trials.foldl (fun m t => max m t) 0
  avg_time := trials.foldl (fun x t => x + t / trials.length) 0
  pos := by
    rcases (foldl_min_isLeast trials LONGTIME id).1 with heq | ⟨t, ht, heq⟩
    · have hlong : 0 < LONGTIME := by norm_num [LONGTIME]
      exact hlong.trans_eq heq.symm
    · exact (hpos t ht).trans_eq heq.symm
  min_le := by
    have hlen : 0 < (trials.length : ℚ) := Nat.cast_pos.mpr (List.length_pos_iff.mpr hne)
    rw [foldl_div_eq trials _ 0 fun t => t, zero_add, List.map_id', le_div_iff₀ hlen, mul_comm,
      ← nsmul_eq_mul]
    apply List.card_nsmul_le_sum
    exact fun t ht => (foldl_min_isLeast trials LONGTIME id).2 (.inr ⟨t, ht, rfl⟩)
  le_max := by
    have hlen : 0 < (trials.length : ℚ) := Nat.cast_pos.mpr (List.length_pos_iff.mpr hne)
    rw [foldl_div_eq trials _ 0 fun t => t, zero_add, List.map_id', div_le_iff₀ hlen, mul_comm,
      ← nsmul_eq_mul]
    apply List.sum_le_card_nsmul
    exact fun t ht => (foldl_min_isLeast (α := ℚᵒᵈ) trials 0 id).2 (.inr ⟨t, ht, rfl⟩)

/-- The variables of process 0 behind the aggregation. -/
structure Aggregate where
  min_time : ℚ
  max_time : ℚ
  avg_time : ℚ
  deriving DecidableEq, Repr

/-- The loop from `i = a` below `b` that combines `x` with the gathered times. -/
def forTimes (a b : ℕ) (op : ℚ → ℚ → ℚ) (x : ℚ) (times : ℕ → ℚ) : ℚ :=
  (List.range' a (b - a)).foldl (fun x i => op x (times i)) x

/-- What process 0 has behind the three calls of `Gather`. -/
def gatherTimes (kind : TestKind) (nprocs : ℕ) (t : ℕ → Times) : Aggregate :=
  if kind.stream then
    if kind.rwstream then
      { min_time := forTimes 0 nprocs min (t 0).min_time fun i => (t i).min_time
        max_time := forTimes 0 nprocs max (t 0).max_time fun i => (t i).max_time
        avg_time := forTimes 0 nprocs (fun x y => x + y / nprocs) 0 fun i => (t i).avg_time }
    else
      { min_time := forTimes (nprocs / 2) nprocs min (t 0).min_time fun i => (t i).min_time
        max_time := forTimes (nprocs / 2) nprocs max (t 0).max_time fun i => (t i).max_time
        avg_time := forTimes (nprocs / 2) nprocs (fun x y => x + y / kind.npairs nprocs) 0
          fun i => (t i).avg_time }
  else ⟨(t 0).min_time, (t 0).max_time, (t 0).avg_time⟩

/-- The protection against a time of zero. -/
def Aggregate.protect (a : Aggregate) : Aggregate :=
  if a.min_time < 1 / 10 ^ 6 then { a with min_time := 1 / 10 ^ 6 } else a

/-- The throughput of `npairs` pairs that take `time` for `bytes` bytes each. -/
def gbps (npairs : ℕ) (bytes time : ℚ) : ℚ := npairs * bytes * 8 * (1 / 10 ^ 9) / time

/-! ### What the numbers are for -/

/-- The processes that measure: all those that work independently, the receivers of streams, and
process 0 for its pair. -/
def measuring (kind : TestKind) (nprocs : ℕ) : Finset ℕ :=
  match kind with
  | .memcpy => Finset.Ico 0 nprocs
  | .disk => Finset.Ico 0 nprocs
  | .oneWay => Finset.Ico (nprocs / 2) nprocs
  | .pingPong => {0}

/-- The streams that are measured. -/
def streams (kind : TestKind) (nprocs : ℕ) : ℕ :=
  match kind with
  | .pingPong => if nprocs = 1 then 1 else nprocs / 2
  | _ => (measuring kind nprocs).card

/-- The mean of the average times. -/
def meanTime (kind : TestKind) (nprocs : ℕ) (t : ℕ → Times) : ℚ :=
  (∑ i ∈ measuring kind nprocs, (t i).avg_time) / (measuring kind nprocs).card

/-- The aggregate belongs to the processes that measure, and to nobody else. -/
structure Describes (kind : TestKind) (nprocs : ℕ) (t : ℕ → Times) (bytes : ℚ) (a : Aggregate) :
    Prop where
  avg_time : a.avg_time = meanTime kind nprocs t
  min_time : IsLeast {y | ∃ i ∈ measuring kind nprocs, y = (t i).min_time} a.min_time
  max_time : IsGreatest {y | ∃ i ∈ measuring kind nprocs, y = (t i).max_time} a.max_time
  min_le : a.min_time ≤ a.avg_time
  le_max : a.avg_time ≤ a.max_time
  throughput : gbps (kind.npairs nprocs) bytes a.avg_time =
    streams kind nprocs * bytes * 8 * (1 / 10 ^ 9) / meanTime kind nprocs t

/-- The processes are those the aggregation is made for: `memcpy` on one process, and pairs of which
process 0, that sends, has neither the shortest nor the longest time. -/
def Fair (kind : TestKind) (nprocs : ℕ) (t : ℕ → Times) : Prop :=
  match kind with
  | .memcpy => nprocs = 1
  | .disk => True
  | .oneWay => (nprocs = 1 ∨ Even nprocs) ∧
      (∃ i ∈ Finset.Ico (nprocs / 2) nprocs, (t i).min_time ≤ (t 0).min_time) ∧
      ∃ i ∈ Finset.Ico (nprocs / 2) nprocs, (t 0).max_time ≤ (t i).max_time
  | .pingPong => True

/-- Moreover no time is protected that should be reported. -/
def FairProtected (kind : TestKind) (nprocs : ℕ) (t : ℕ → Times) : Prop :=
  match kind with
  | .memcpy => nprocs = 1 ∧ 1 / 10 ^ 6 ≤ (t 0).min_time
  | .disk => ∀ i < nprocs, 1 / 10 ^ 6 ≤ (t i).min_time
  | .oneWay => (nprocs = 1 ∨ Even nprocs) ∧
      (∀ i ∈ Finset.Ico (nprocs / 2) nprocs, 1 / 10 ^ 6 ≤ (t i).min_time) ∧
      (∃ i ∈ Finset.Ico (nprocs / 2) nprocs,
        (t i).min_time ≤ (t 0).min_time ∨ (t i).min_time = 1 / 10 ^ 6) ∧
      ∃ i ∈ Finset.Ico (nprocs / 2) nprocs, (t 0).max_time ≤ (t i).max_time
  | .pingPong => 1 / 10 ^ 6 ≤ (t 0).min_time

variable {kind : TestKind} {nprocs a b : ℕ} {t : ℕ → Times} {bytes x m ε : ℚ} {f : ℕ → ℚ}
  {s : Finset ℕ}

/-! ### The loops -/

lemma mem_range'_sub {i : ℕ} : i ∈ List.range' a (b - a) ↔ i ∈ Finset.Ico a b := by
  rw [List.mem_range'_1, Finset.mem_Ico]
  omega

lemma forTimes_min_isLeast (a b : ℕ) (x : ℚ) (f : ℕ → ℚ) :
    IsLeast {y | y = x ∨ ∃ i ∈ Finset.Ico a b, y = f i} (forTimes a b min x f) := by
  have h := foldl_min_isLeast (List.range' a (b - a)) x f
  simp only [mem_range'_sub] at h
  exact h

lemma forTimes_max_isGreatest (a b : ℕ) (x : ℚ) (f : ℕ → ℚ) :
    IsGreatest {y | y = x ∨ ∃ i ∈ Finset.Ico a b, y = f i} (forTimes a b max x f) := by
  have h := foldl_min_isLeast (α := ℚᵒᵈ) (List.range' a (b - a)) x f
  simp only [mem_range'_sub] at h
  exact h

lemma forTimes_add (a b : ℕ) (d : ℚ) (f : ℕ → ℚ) :
    forTimes a b (fun x y => x + y / d) 0 f = (∑ i ∈ Finset.Ico a b, f i) / d := by
  rw [forTimes, foldl_div_eq, zero_add]
  rfl

/-! ### Which extrema are right -/

/-- The first value does no harm if it is not the smallest. -/
lemma isLeast_iff (h : IsLeast {y | y = x ∨ ∃ i ∈ s, y = f i} m) :
    IsLeast {y | ∃ i ∈ s, y = f i} m ↔ ∃ i ∈ s, f i ≤ x := by
  constructor
  · rintro ⟨⟨i, hi, rfl⟩, -⟩
    exact ⟨i, hi, h.2 (.inl rfl)⟩
  · rintro ⟨i, hi, hle⟩
    refine ⟨?_, fun y hy => h.2 (.inr hy)⟩
    rcases h.1 with rfl | hm
    · exact ⟨i, hi, le_antisymm (h.2 (.inr ⟨i, hi, rfl⟩)) hle⟩
    · exact hm

lemma isGreatest_iff (h : IsGreatest {y | y = x ∨ ∃ i ∈ s, y = f i} m) :
    IsGreatest {y | ∃ i ∈ s, y = f i} m ↔ ∃ i ∈ s, x ≤ f i := by
  constructor
  · rintro ⟨⟨i, hi, rfl⟩, -⟩
    exact ⟨i, hi, h.2 (.inl rfl)⟩
  · rintro ⟨i, hi, hle⟩
    refine ⟨?_, fun y hy => h.2 (.inr hy)⟩
    rcases h.1 with rfl | hm
    · exact ⟨i, hi, le_antisymm hle (h.2 (.inr ⟨i, hi, rfl⟩))⟩
    · exact hm

/-- With the protection no value may be below the bound either. -/
lemma isLeast_protected_iff (h : IsLeast {y | y = x ∨ ∃ i ∈ s, y = f i} m) :
    IsLeast {y | ∃ i ∈ s, y = f i} (if m < ε then ε else m) ↔
      (∀ i ∈ s, ε ≤ f i) ∧ ∃ i ∈ s, f i ≤ x ∨ f i = ε := by
  have hm : m ≤ x := h.2 (.inl rfl)
  by_cases hlt : m < ε
  · rw [if_pos hlt]
    constructor
    · rintro ⟨⟨i, hi, heq⟩, hle⟩
      exact ⟨fun j hj => hle ⟨j, hj, rfl⟩, i, hi, .inr heq.symm⟩
    · rintro ⟨hge, i, hi, hfi⟩
      refine ⟨?_, ?_⟩
      · rcases hfi with hfi | hfi
        · -- the smallest value is the first one, and it is below the bound
          rcases h.1 with rfl | ⟨j, hj, rfl⟩
          · exact absurd hlt (not_lt.mpr ((hge i hi).trans hfi))
          · exact absurd hlt (not_lt.mpr (hge j hj))
        · exact ⟨i, hi, hfi.symm⟩
      · rintro y ⟨j, hj, rfl⟩
        exact hge j hj
  · rw [if_neg hlt, isLeast_iff h]
    have hge : ∀ i ∈ s, ε ≤ f i := fun i hi => (not_lt.mp hlt).trans (h.2 (.inr ⟨i, hi, rfl⟩))
    constructor
    · rintro ⟨i, hi, hle⟩
      exact ⟨hge, i, hi, .inl hle⟩
    · rintro ⟨-, i, hi, hle | heq⟩
      · exact ⟨i, hi, hle⟩
      · exact ⟨i, hi, heq.le.trans ((not_lt.mp hlt).trans hm)⟩

/-! ### Which means are right -/

lemma Times.avg_pos (u : Times) : 0 < u.avg_time := u.pos.trans_le u.min_le

/-- Independent streams of which only half are summed give the mean on one process only. -/
lemma memcpy_mean_iff (hn : 0 < nprocs) :
    (∑ i ∈ Finset.Ico (nprocs / 2) nprocs, (t i).avg_time) / nprocs = meanTime .memcpy nprocs t ↔
      nprocs = 1 := by
  have hne : (nprocs : ℚ) ≠ 0 := Nat.cast_ne_zero.mpr hn.ne'
  have hsplit := Finset.sum_Ico_consecutive (fun i => (t i).avg_time) (Nat.zero_le (nprocs / 2))
    (Nat.div_le_self nprocs 2)
  rw [meanTime, measuring, Nat.card_Ico, Nat.sub_zero, div_left_inj' hne, ← hsplit]
  rw [right_eq_add]
  constructor
  · intro hzero
    by_contra hone
    have hhalf : 0 < nprocs / 2 := by omega
    have hpos : 0 < ∑ i ∈ Finset.Ico 0 (nprocs / 2), (t i).avg_time := by
      apply Finset.sum_pos fun i _ => (t i).avg_pos
      exact ⟨0, Finset.mem_Ico.mpr ⟨le_rfl, hhalf⟩⟩
    exact hpos.ne' hzero
  · rintro rfl
    simp

/-- The receivers are as many as the pairs if every process has another one for its pair. -/
lemma oneWay_mean_iff (hn : 0 < nprocs) :
    (∑ i ∈ Finset.Ico (nprocs / 2) nprocs, (t i).avg_time) / (TestKind.npairs .oneWay nprocs : ℕ) =
      meanTime .oneWay nprocs t ↔ nprocs = 1 ∨ Even nprocs := by
  have hpos : 0 < ∑ i ∈ Finset.Ico (nprocs / 2) nprocs, (t i).avg_time := by
    apply Finset.sum_pos fun i _ => (t i).avg_pos
    exact ⟨nprocs / 2, Finset.mem_Ico.mpr ⟨le_rfl, Nat.div_lt_self hn Nat.one_lt_two⟩⟩
  rw [meanTime, measuring, Nat.card_Ico, div_eq_mul_inv, div_eq_mul_inv, mul_right_inj' hpos.ne',
    inv_inj, Nat.cast_inj, Nat.even_iff]
  simp only [TestKind.npairs]
  split_ifs with hone
  · simp [hone]
  · omega

lemma measuring_nonempty (kind : TestKind) (hn : 0 < nprocs) : (measuring kind nprocs).Nonempty := by
  cases kind with
  | memcpy => exact ⟨0, Finset.mem_Ico.mpr ⟨le_rfl, hn⟩⟩
  | disk => exact ⟨0, Finset.mem_Ico.mpr ⟨le_rfl, hn⟩⟩
  | oneWay => exact ⟨nprocs / 2, Finset.mem_Ico.mpr ⟨le_rfl, Nat.div_lt_self hn Nat.one_lt_two⟩⟩
  | pingPong => exact ⟨0, Finset.mem_singleton_self 0⟩

/-- The pairs are the streams where the mean is right. -/
lemma npairs_eq_streams (kind : TestKind) (hkind : kind = .oneWay → nprocs = 1 ∨ Even nprocs) :
    kind.npairs nprocs = streams kind nprocs := by
  cases kind with
  | memcpy => simp [TestKind.npairs, streams, measuring]
  | disk => simp [TestKind.npairs, streams, measuring]
  | oneWay =>
    have hparity := hkind rfl
    rw [Nat.even_iff] at hparity
    simp only [TestKind.npairs, streams, measuring, Nat.card_Ico]
    split_ifs with hone
    · simp [hone]
    · omega
  | pingPong => simp [TestKind.npairs, streams]

/-- What has to be shown of an aggregate. -/
lemma describes_iff (hn : 0 < nprocs) {a : Aggregate}
    (hpairs : a.avg_time = meanTime kind nprocs t → kind.npairs nprocs = streams kind nprocs) :
    Describes kind nprocs t bytes a ↔ a.avg_time = meanTime kind nprocs t ∧
      IsLeast {y | ∃ i ∈ measuring kind nprocs, y = (t i).min_time} a.min_time ∧
      IsGreatest {y | ∃ i ∈ measuring kind nprocs, y = (t i).max_time} a.max_time := by
  have hcard : 0 < ((measuring kind nprocs).card : ℚ) :=
    Nat.cast_pos.mpr (Finset.card_pos.mpr (measuring_nonempty kind hn))
  constructor
  · exact fun h => ⟨h.avg_time, h.min_time, h.max_time⟩
  · rintro ⟨havg, hmin, hmax⟩
    refine ⟨havg, hmin, hmax, ?_, ?_, ?_⟩
    · rw [havg, meanTime, le_div_iff₀ hcard, mul_comm, ← nsmul_eq_mul]
      apply Finset.card_nsmul_le_sum
      exact fun i hi => (hmin.2 ⟨i, hi, rfl⟩).trans (t i).min_le
    · rw [havg, meanTime, div_le_iff₀ hcard, mul_comm, ← nsmul_eq_mul]
      apply Finset.sum_le_card_nsmul
      exact fun i hi => (t i).le_max.trans (hmax.2 ⟨i, hi, rfl⟩)
    · rw [gbps, havg, hpairs havg]

lemma Aggregate.protect_eq (a : Aggregate) : a.protect =
    { a with min_time := if a.min_time < 1 / 10 ^ 6 then 1 / 10 ^ 6 else a.min_time } := by
  rw [protect]
  split_ifs <;> rfl

/-- The extrema over process 0 and the processes that measure. -/
structure Extrema (kind : TestKind) (nprocs : ℕ) (t : ℕ → Times) (a : Aggregate) : Prop where
  min_time : IsLeast {y | y = (t 0).min_time ∨ ∃ i ∈ measuring kind nprocs, y = (t i).min_time}
    a.min_time
  max_time : IsGreatest {y | y = (t 0).max_time ∨ ∃ i ∈ measuring kind nprocs, y = (t i).max_time}
    a.max_time

lemma Extrema.describes_iff (hn : 0 < nprocs) {a : Aggregate} (h : Extrema kind nprocs t a)
    (hpairs : a.avg_time = meanTime kind nprocs t → kind.npairs nprocs = streams kind nprocs) :
    Describes kind nprocs t bytes a ↔ a.avg_time = meanTime kind nprocs t ∧
      (∃ i ∈ measuring kind nprocs, (t i).min_time ≤ (t 0).min_time) ∧
      ∃ i ∈ measuring kind nprocs, (t 0).max_time ≤ (t i).max_time := by
  rw [NetPipe.describes_iff hn hpairs, isLeast_iff h.min_time, isGreatest_iff h.max_time]

lemma Extrema.describes_protect_iff (hn : 0 < nprocs) {a : Aggregate} (h : Extrema kind nprocs t a)
    (hpairs : a.avg_time = meanTime kind nprocs t → kind.npairs nprocs = streams kind nprocs) :
    Describes kind nprocs t bytes a.protect ↔ a.avg_time = meanTime kind nprocs t ∧
      ((∀ i ∈ measuring kind nprocs, 1 / 10 ^ 6 ≤ (t i).min_time) ∧
        ∃ i ∈ measuring kind nprocs, (t i).min_time ≤ (t 0).min_time ∨
          (t i).min_time = 1 / 10 ^ 6) ∧
      ∃ i ∈ measuring kind nprocs, (t 0).max_time ≤ (t i).max_time := by
  have havg : a.protect.avg_time = a.avg_time := by rw [a.protect_eq]
  have hmax : a.protect.max_time = a.max_time := by rw [a.protect_eq]
  have hmin : a.protect.min_time = if a.min_time < 1 / 10 ^ 6 then 1 / 10 ^ 6 else a.min_time := by
    rw [a.protect_eq]
  rw [NetPipe.describes_iff hn (havg ▸ hpairs), havg, hmax, hmin,
    isLeast_protected_iff h.min_time, isGreatest_iff h.max_time]

/-- Process 0 is one of those that measure, so that its own times belong to them. -/
lemma Extrema.describes_of_mem (hn : 0 < nprocs) {a : Aggregate} (h : Extrema kind nprocs t a)
    (hzero : 0 ∈ measuring kind nprocs) (havg : a.avg_time = meanTime kind nprocs t)
    (hpairs : kind.npairs nprocs = streams kind nprocs) (bytes : ℚ) :
    Describes kind nprocs t bytes a ∧ (Describes kind nprocs t bytes a.protect ↔
      ∀ i ∈ measuring kind nprocs, 1 / 10 ^ 6 ≤ (t i).min_time) := by
  rw [h.describes_iff hn fun _ => hpairs, h.describes_protect_iff hn fun _ => hpairs]
  refine ⟨⟨havg, ⟨0, hzero, le_rfl⟩, 0, hzero, le_rfl⟩, ?_⟩
  constructor
  · exact fun hdesc => hdesc.2.1.1
  · exact fun hlong => ⟨havg, ⟨hlong, 0, hzero, .inl le_rfl⟩, 0, hzero, le_rfl⟩

lemma extrema_disk (nprocs : ℕ) (t : ℕ → Times) :
    Extrema .disk nprocs t (gatherTimes .disk nprocs t) where
  min_time := forTimes_min_isLeast 0 nprocs _ fun i => (t i).min_time
  max_time := forTimes_max_isGreatest 0 nprocs _ fun i => (t i).max_time

lemma extrema_oneWay (nprocs : ℕ) (t : ℕ → Times) :
    Extrema .oneWay nprocs t (gatherTimes .oneWay nprocs t) where
  min_time := forTimes_min_isLeast (nprocs / 2) nprocs _ fun i => (t i).min_time
  max_time := forTimes_max_isGreatest (nprocs / 2) nprocs _ fun i => (t i).max_time

lemma extrema_pingPong (nprocs : ℕ) (t : ℕ → Times) :
    Extrema .pingPong nprocs t (gatherTimes .pingPong nprocs t) where
  min_time := by simp [measuring, gatherTimes, TestKind.stream, IsLeast, lowerBounds]
  max_time := by simp [measuring, gatherTimes, TestKind.stream, IsGreatest, upperBounds]

/-- One process sums all there is. -/
lemma extrema_memcpy (t : ℕ → Times) : Extrema .memcpy 1 t (gatherTimes .memcpy 1 t) where
  min_time := forTimes_min_isLeast 0 1 _ fun i => (t i).min_time
  max_time := forTimes_max_isGreatest 0 1 _ fun i => (t i).max_time

lemma memcpy_avg_iff (hn : 0 < nprocs) :
    (gatherTimes .memcpy nprocs t).avg_time = meanTime .memcpy nprocs t ↔ nprocs = 1 := by
  rw [← memcpy_mean_iff (t := t) hn]
  exact iff_of_eq (congrArg (· = _) (forTimes_add (nprocs / 2) nprocs nprocs _))

lemma oneWay_avg_iff (hn : 0 < nprocs) :
    (gatherTimes .oneWay nprocs t).avg_time = meanTime .oneWay nprocs t ↔
      nprocs = 1 ∨ Even nprocs := by
  rw [← oneWay_mean_iff (t := t) hn]
  exact iff_of_eq (congrArg (· = _) (forTimes_add (nprocs / 2) nprocs _ _))

lemma disk_avg (nprocs : ℕ) (t : ℕ → Times) :
    (gatherTimes .disk nprocs t).avg_time = meanTime .disk nprocs t := by
  have hsum : (gatherTimes .disk nprocs t).avg_time =
      (∑ i ∈ Finset.Ico 0 nprocs, (t i).avg_time) / nprocs := forTimes_add 0 nprocs nprocs _
  rw [hsum, meanTime, measuring, Nat.card_Ico, Nat.sub_zero]

lemma pingPong_avg (nprocs : ℕ) (t : ℕ → Times) :
    (gatherTimes .pingPong nprocs t).avg_time = meanTime .pingPong nprocs t := by
  simp [gatherTimes, TestKind.stream, meanTime, measuring]

/-- What is gathered describes the processes that measure exactly if the aggregation is fair, and what
is reported if no time is protected that should not be. -/
theorem describes_iff_fair (kind : TestKind) (hn : 0 < nprocs) (t : ℕ → Times) (bytes : ℚ) :
    (Describes kind nprocs t bytes (gatherTimes kind nprocs t) ↔ Fair kind nprocs t) ∧
      (Describes kind nprocs t bytes (gatherTimes kind nprocs t).protect ↔
        FairProtected kind nprocs t) := by
  cases kind with
  | memcpy =>
    by_cases hone : nprocs = 1
    · subst hone
      have h := (extrema_memcpy t).describes_of_mem hn (by simp [measuring])
        ((memcpy_avg_iff hn).mpr rfl) (npairs_eq_streams .memcpy (by simp)) bytes
      simpa [Fair, FairProtected, measuring] using h
    · have havg := mt (memcpy_avg_iff (t := t) hn).mp hone
      refine ⟨iff_of_false (fun h => havg h.avg_time) hone, iff_of_false (fun h => havg ?_) ?_⟩
      · rw [← h.avg_time, Aggregate.protect_eq]
      · exact fun h => hone h.1
  | disk =>
    have h := (extrema_disk nprocs t).describes_of_mem hn (by simpa [measuring])
      (disk_avg nprocs t) (npairs_eq_streams .disk (by simp)) bytes
    simpa [Fair, FairProtected, measuring] using h
  | oneWay =>
    have hpairs : (gatherTimes .oneWay nprocs t).avg_time = meanTime .oneWay nprocs t →
        TestKind.npairs .oneWay nprocs = streams .oneWay nprocs :=
      fun h => npairs_eq_streams .oneWay fun _ => (oneWay_avg_iff hn).mp h
    have h := extrema_oneWay nprocs t
    rw [h.describes_iff hn hpairs, h.describes_protect_iff hn hpairs, oneWay_avg_iff hn]
    simp only [Fair, FairProtected, measuring, and_assoc, and_self, iff_self]
  | pingPong =>
    have h := (extrema_pingPong nprocs t).describes_of_mem hn (by simp [measuring])
      (pingPong_avg nprocs t) (npairs_eq_streams .pingPong (by simp)) bytes
    simpa [Fair, FairProtected, measuring] using h

/-- Two processes copy memory, for one second each. -/
def secondEach : ℕ → Times := fun _ =>
  .ofTrials [1] (by simp) (by simp)

theorem not_describes : ¬ Describes .memcpy 2 secondEach 8 (gatherTimes .memcpy 2 secondEach) := by
  intro h
  have havg := h.avg_time
  revert havg
  decide +kernel

/-- A pair streams, and the sender's times lie between those of the receiver. -/
theorem describes_iff_fair_two :
    Describes .oneWay 2 secondEach 8 (gatherTimes .oneWay 2 secondEach) := by
  rw [(describes_iff_fair .oneWay (by simp) secondEach 8).1]
  exact ⟨.inr even_two, ⟨1, by decide, le_rfl⟩, 1, by decide, le_rfl⟩

end NetPipe
