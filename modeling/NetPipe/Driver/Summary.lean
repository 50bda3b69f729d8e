import NetPipe.Driver.Aggregate
import NetPipe.Library.Largest

/-!
# The summary line

The latency and the maximum bandwidth that `main` prints at the end: the trial times of the first
tests are summed up in one place and divided in another, and `AverageBandwidth` keeps the highest
rates. Times and rates are exact.
-/

namespace NetPipe

/-- What process 0 measures in a test: the times of the trials and the rate. -/
structure Measured where
  times : List ℚ
  rate : ℚ

/-- The variables behind the summary. -/
structure Summary where
  n : ℕ
  avg_latency : ℚ
  bw : List ℚ
  max_bandwidth : ℚ

/-- The rates that `AverageBandwidth` keeps. -/
def nrates (perturbation : ℤ) : ℕ := if perturbation ≠ 0 then 10 else 5

/-- The search for the lowest rate, from the rate number `i` on. -/
def lowestRate (i : ℕ) (lowest_rate : ℚ) (lowest_rate_index : ℕ) : List ℚ → ℚ × ℕ
  | [] => (lowest_rate, lowest_rate_index)
  | b :: bw =>
    if b < lowest_rate then lowestRate (i + 1) b i bw
    else lowestRate (i + 1) lowest_rate lowest_rate_index bw

/-- The new rate replaces the lowest one if it is higher. -/
def replaceLowest (bw : List ℚ) (rate : ℚ) : List ℚ :=
  if (lowestRate 0 (10 ^ 100) 0 bw).1 < rate then bw.set (lowestRate 0 (10 ^ 100) 0 bw).2 rate
  else bw

/-- What `AverageBandwidth` returns for the rates it keeps. -/
def averageRate (perturbation : ℤ) (bw : List ℚ) : ℚ :=
  bw.foldl (fun avg_bw b => avg_bw + b / nrates perturbation) 0

/-- `AverageBandwidth`. The array is there from the first call on. What it holds, and what is
returned. -/
def averageBandwidth (perturbation : ℤ) (bw : Option (List ℚ)) (rate : ℚ) : List ℚ × ℚ :=
  let bw := bw.getD (List.replicate (nrates perturbation) 0)
  let bw := replaceLowest bw rate
  (bw, averageRate perturbation bw)

/-- The array after calls for the given rates. -/
def averageCalls (perturbation : ℤ) (rates : List ℚ) : Option (List ℚ) :=
  rates.foldl (fun bw rate => some (averageBandwidth perturbation bw rate).1) none

namespace Summary

/-- Before the first test. -/
def init (perturbation : ℤ) : Summary := ⟨0, 0, List.replicate (nrates perturbation) 0, 0⟩

/-- A trial of time `t`. -/
def trial (s : Summary) (t : ℚ) : Summary :=
  if s.n ≠ 0 ∧ s.n ≤ 10 then { s with avg_latency := s.avg_latency + t } else s

/-- A test: its number, its trials, and the call of `AverageBandwidth`. -/
def test (perturbation : ℤ) (s : Summary) (test : Measured) : Summary :=
  let s := test.times.foldl trial { s with n := s.n + 1 }
  { s with
    bw := replaceLowest s.bw test.rate
    max_bandwidth := averageRate perturbation (replaceLowest s.bw test.rate) }

/-- The latency that is printed. -/
def latency (ntrials : ℕ) (s : Summary) : ℚ :=
  if s.n > 1 then s.avg_latency / (ntrials * min (s.n - 1) 10 : ℕ) else s.avg_latency

end Summary

/-- A run of the benchmark. Every rate is below the bound the search for the lowest one starts at. -/
structure Measurements where
  perturbation : ℤ
  ntrials : ℕ
  tests : List Measured
  ntrials_pos : 0 < ntrials
  tests_ne : tests ≠ []
  length_times : ∀ test ∈ tests, test.times.length = ntrials
  times_pos : ∀ test ∈ tests, ∀ t ∈ test.times, 0 < t
  rate_pos : ∀ test ∈ tests, 0 < test.rate
  rate_lt : ∀ test ∈ tests, test.rate < 10 ^ 100

namespace Measurements

/-- The variables behind the last test. -/
def summary (r : Measurements) : Summary :=
  r.tests.foldl (Summary.test r.perturbation) (Summary.init r.perturbation)

/-- The trial times of the first ten tests. -/
def firstTimes (r : Measurements) : List ℚ := (r.tests.take 10).flatMap Measured.times

/-- The mean of the trial times of the first ten tests. -/
def meanLatency (r : Measurements) : ℚ := r.firstTimes.sum / r.firstTimes.length

/-- The mean of the highest rates. -/
def meanBandwidth (r : Measurements) : ℚ :=
  (largest (min (nrates r.perturbation) r.tests.length) (r.tests.map Measured.rate)).sum /
    (min (nrates r.perturbation) r.tests.length : ℕ)

end Measurements

variable {perturbation : ℤ} {s : Summary} {tests : List Measured} {r : Measurements}

/-! ### The latency -/

lemma foldl_trial (s : Summary) (times : List ℚ) : times.foldl Summary.trial s =
    { s with avg_latency := s.avg_latency + if s.n ≠ 0 ∧ s.n ≤ 10 then times.sum else 0 } := by
  induction times generalizing s with
  | nil => simp
  | cons t times ih =>
    rw [List.foldl_cons, ih]
    by_cases hn : s.n ≠ 0 ∧ s.n ≤ 10
    · simp [Summary.trial, hn, add_assoc]
    · simp [Summary.trial, hn]

lemma foldl_test_n (s : Summary) (tests : List Measured) :
    (tests.foldl (Summary.test perturbation) s).n = s.n + tests.length := by
  induction tests generalizing s with
  | nil => simp
  | cons test tests ih =>
    rw [List.foldl_cons, ih, Summary.test, foldl_trial, List.length_cons]
    exact Nat.add_right_comm s.n 1 tests.length

/-- The tests up to number 10 are summed up. -/
lemma foldl_test_latency (s : Summary) (tests : List Measured) :
    (tests.foldl (Summary.test perturbation) s).avg_latency =
      s.avg_latency + ((tests.take (10 - s.n)).flatMap Measured.times).sum := by
  induction tests generalizing s with
  | nil => simp
  | cons test tests ih =>
    rw [List.foldl_cons, ih, Summary.test, foldl_trial]
    by_cases hn : s.n < 10
    · have htake : 10 - s.n = 10 - (s.n + 1) + 1 := by omega
      have hle : s.n + 1 ≤ 10 := hn
      rw [htake, List.take_succ_cons, List.flatMap_cons, List.sum_append]
      simp [hle, add_assoc]
    · have hzero : 10 - s.n = 0 := by omega
      have hzero' : 10 - (s.n + 1) = 0 := by omega
      have hgt : ¬ s.n + 1 ≤ 10 := by omega
      simp [hzero, hzero', hgt]

namespace Measurements

lemma length_firstTimes (r : Measurements) :
    r.firstTimes.length = r.ntrials * min r.tests.length 10 := by
  have hlen : ∀ test ∈ r.tests.take 10, test.times.length = r.ntrials :=
    fun test htest => r.length_times test (List.mem_of_mem_take htest)
  rw [firstTimes, List.length_flatMap, List.map_congr_left hlen, List.map_const', List.sum_replicate,
    List.length_take, smul_eq_mul, Nat.mul_comm, Nat.min_comm]

lemma sum_firstTimes_pos (r : Measurements) : 0 < r.firstTimes.sum := by
  have hne : r.firstTimes ≠ [] := by
    rw [← List.length_pos_iff, length_firstTimes]
    have htests := List.length_pos_iff.mpr r.tests_ne
    exact Nat.mul_pos r.ntrials_pos (by omega)
  apply List.sum_pos _ _ hne
  intro t ht
  obtain ⟨test, htest, ht⟩ := List.mem_flatMap.mp ht
  exact r.times_pos test (List.mem_of_mem_take htest) t ht

/-- The divisor is one test short until there are more than ten. -/
lemma latency_eq_iff (r : Measurements) : r.summary.latency r.ntrials = r.meanLatency ↔
    11 ≤ r.tests.length ∨ r.tests.length = 1 ∧ r.ntrials = 1 := by
  have hn : r.summary.n = r.tests.length := by
    rw [summary, foldl_test_n, Summary.init, Nat.zero_add]
  have hsum : r.summary.avg_latency = r.firstTimes.sum := by
    rw [summary, foldl_test_latency, firstTimes]
    simp [Summary.init]
  have hpos := r.sum_firstTimes_pos.ne'
  have htrials := r.ntrials_pos
  have htests := List.length_pos_iff.mpr r.tests_ne
  rw [Summary.latency, meanLatency, hn, hsum, length_firstTimes]
  split_ifs with hone
  · rw [div_eq_mul_inv, div_eq_mul_inv, mul_right_inj' hpos, inv_inj, Nat.cast_inj,
      Nat.mul_right_inj htrials.ne']
    omega
  · have hlen : r.tests.length = 1 := by omega
    rw [eq_div_iff, mul_eq_left₀ hpos, hlen]
    · simp
    · rw [hlen]
      exact_mod_cast (Nat.mul_pos htrials Nat.one_pos).ne'

end Measurements

/-! ### The bandwidth -/

lemma lowestRate_le (i : ℕ) (x : ℚ) (index : ℕ) (bw : List ℚ) :
    (lowestRate i x index bw).1 ≤ x ∧ ∀ b ∈ bw, (lowestRate i x index bw).1 ≤ b := by
  induction bw generalizing i x index with
  | nil => simp [lowestRate]
  | cons b bw ih =>
    rw [lowestRate, List.forall_mem_cons]
    split_ifs with hlt
    · obtain ⟨hb, hbw⟩ := ih (i + 1) b i
      exact ⟨hb.trans hlt.le, hb, hbw⟩
    · obtain ⟨hx, hbw⟩ := ih (i + 1) x index
      exact ⟨hx, hx.trans (not_lt.mp hlt), hbw⟩

/-- The index is that of the rate, unless no rate is below the bound. -/
lemma lowestRate_index (i : ℕ) (x : ℚ) (index : ℕ) (bw : List ℚ) :
    lowestRate i x index bw = (x, index) ∨ ∃ (k : ℕ) (hk : k < bw.length),
      lowestRate i x index bw = (bw[k], i + k) := by
  induction bw generalizing i x index with
  | nil => exact .inl rfl
  | cons b bw ih =>
    rw [lowestRate]
    split_ifs with hlt
    · rcases ih (i + 1) b i with heq | ⟨k, hk, heq⟩
      · exact .inr ⟨0, Nat.succ_pos _, heq⟩
      · exact .inr ⟨k + 1, Nat.succ_lt_succ hk, by
          rw [heq, List.getElem_cons_succ, Nat.add_right_comm, Nat.add_assoc]⟩
    · rcases ih (i + 1) x index with heq | ⟨k, hk, heq⟩
      · exact .inl heq
      · exact .inr ⟨k + 1, Nat.succ_lt_succ hk, by
          rw [heq, List.getElem_cons_succ, Nat.add_right_comm, Nat.add_assoc]⟩

/-- The rates that are kept stay the highest ones. -/
lemma largest_replaceLowest {l bw : List ℚ} {rate : ℚ} (h : Largest l bw) (hne : bw ≠ [])
    (hlt : ∀ b ∈ bw, b < 10 ^ 100) : Largest (rate :: l) (replaceLowest bw rate) := by
  obtain ⟨b, hb⟩ := List.exists_mem_of_ne_nil bw hne
  have hle := (lowestRate_le 0 (10 ^ 100) 0 bw).2
  rcases lowestRate_index 0 (10 ^ 100) 0 bw with heq | ⟨k, hk, heq⟩
  · rw [heq] at hle
    exact absurd (hlt b hb) (not_lt.mpr (hle b hb))
  · rw [heq] at hle
    rw [replaceLowest, heq, Nat.zero_add]
    have hperm : bw.Perm (bw[k] :: bw.eraseIdx k) := (List.getElem_cons_eraseIdx_perm hk).symm
    split_ifs with hrate
    · have hkept := (h.perm hperm).replace
        (fun x hx => hle x (List.mem_of_mem_eraseIdx hx)) hrate.le
      exact hkept.perm (List.set_perm_cons_eraseIdx hk rate).symm
    · exact h.skip fun x hx => (not_lt.mp hrate).trans (hle x hx)

lemma length_replaceLowest (bw : List ℚ) (rate : ℚ) :
    (replaceLowest bw rate).length = bw.length := by
  rw [replaceLowest]
  split_ifs
  · exact List.length_set
  · rfl

lemma replaceLowest_lt {bw : List ℚ} {rate : ℚ} (hlt : ∀ b ∈ bw, b < 10 ^ 100)
    (hrate : rate < 10 ^ 100) : ∀ b ∈ replaceLowest bw rate, b < 10 ^ 100 := by
  intro b hb
  rw [replaceLowest] at hb
  split_ifs at hb
  · rcases List.mem_or_eq_of_mem_set hb with hb | rfl
    · exact hlt b hb
    · exact hrate
  · exact hlt b hb

lemma foldl_test_bw (s : Summary) (tests : List Measured) :
    (tests.foldl (Summary.test perturbation) s).bw =
      (tests.map Measured.rate).foldl replaceLowest s.bw := by
  induction tests generalizing s with
  | nil => rfl
  | cons test tests ih =>
    rw [List.foldl_cons, ih, Summary.test, foldl_trial, List.map_cons, List.foldl_cons]

/-- The bandwidth belongs to the rates that are kept. -/
lemma foldl_test_max (s : Summary) (hne : tests ≠ []) :
    (tests.foldl (Summary.test perturbation) s).max_bandwidth =
      averageRate perturbation (tests.foldl (Summary.test perturbation) s).bw := by
  induction tests using List.reverseRecOn with
  | nil => exact absurd rfl hne
  | append_singleton tests test => simp [Summary.test]

lemma largest_foldl {l bw : List ℚ} (rates : List ℚ) (h : Largest l bw) (hne : bw ≠ [])
    (hlt : ∀ b ∈ bw, b < 10 ^ 100) (hrates : ∀ rate ∈ rates, rate < 10 ^ 100) :
    Largest (rates.reverse ++ l) (rates.foldl replaceLowest bw) ∧
      (rates.foldl replaceLowest bw).length = bw.length := by
  induction rates generalizing l bw with
  | nil => exact ⟨h, rfl⟩
  | cons rate rates ih =>
    rw [List.forall_mem_cons] at hrates
    have hlen := length_replaceLowest bw rate
    have hne' : replaceLowest bw rate ≠ [] := by
      rwa [← List.length_pos_iff, hlen, List.length_pos_iff]
    obtain ⟨hkept, hlength⟩ := ih (largest_replaceLowest h hne hlt) hne'
      (replaceLowest_lt hlt hrates.1) hrates.2
    rw [List.foldl_cons, List.reverse_cons, List.append_assoc]
    exact ⟨hkept, hlength.trans hlen⟩

lemma nrates_pos (perturbation : ℤ) : 0 < nrates perturbation := by
  rw [nrates]
  split_ifs <;> simp

/-- The rates that are kept are the highest ones, and zeros as long as there are fewer. -/
lemma perm_foldl_replaceLowest (perturbation : ℤ) {rates : List ℚ}
    (hrates : ∀ rate ∈ rates, 0 < rate ∧ rate < 10 ^ 100) :
    (rates.foldl replaceLowest (List.replicate (nrates perturbation) 0)).Perm
      (largest (nrates perturbation) rates ++
        List.replicate (nrates perturbation - rates.length) 0) := by
  have hpos := nrates_pos perturbation
  have hne : List.replicate (nrates perturbation) (0 : ℚ) ≠ [] := by
    rwa [← List.length_pos_iff, List.length_replicate]
  have hzero : ∀ b ∈ List.replicate (nrates perturbation) (0 : ℚ), b < 10 ^ 100 := by
    intro b hb
    rw [List.eq_of_mem_replicate hb]
    positivity
  have hnonneg : ∀ rate ∈ rates.reverse, 0 ≤ rate :=
    fun rate hrate => (hrates rate (List.mem_reverse.mp hrate)).1.le
  obtain ⟨hkept, hlen⟩ := largest_foldl rates
    (Largest.refl (List.replicate (nrates perturbation) 0)) hne hzero fun rate hrate =>
      (hrates rate hrate).2
  have hperm := hkept.perm_largest
  rwa [hlen, List.length_replicate, largest_append_replicate hnonneg, List.length_reverse,
    largest_perm _ (List.reverse_perm _)] at hperm

lemma averageRate_eq (perturbation : ℤ) (bw : List ℚ) :
    averageRate perturbation bw = bw.sum / nrates perturbation := by
  rw [averageRate, foldl_div_eq _ _ _ fun b => b, zero_add, List.map_id']

/-- What the next call finds in the array. -/
lemma getD_averageCalls (perturbation : ℤ) (rates : List ℚ) :
    (averageCalls perturbation rates).getD (List.replicate (nrates perturbation) 0) =
      rates.foldl replaceLowest (List.replicate (nrates perturbation) 0) := by
  induction rates using List.reverseRecOn with
  | nil => rfl
  | append_singleton rates rate ih =>
    rw [averageCalls, List.foldl_append, List.foldl_append, ← averageCalls, List.foldl_cons,
      List.foldl_nil, Option.getD_some, averageBandwidth, ih]
    rfl

/-- After each call, the array holds the highest rates so far and zeros, and the sum of the highest
rates is returned, divided by the number of them that is kept. -/
theorem averageBandwidth_largest {rates : List ℚ} {rate : ℚ}
    (hrates : ∀ r ∈ rates ++ [rate], 0 < r ∧ r < 10 ^ 100) :
    (averageBandwidth perturbation (averageCalls perturbation rates) rate).1.Perm
        (largest (nrates perturbation) (rates ++ [rate]) ++
          List.replicate (nrates perturbation - (rates ++ [rate]).length) 0) ∧
      (averageBandwidth perturbation (averageCalls perturbation rates) rate).2 =
        (largest (nrates perturbation) (rates ++ [rate])).sum / nrates perturbation := by
  have hperm := perm_foldl_replaceLowest perturbation hrates
  have harray : (averageBandwidth perturbation (averageCalls perturbation rates) rate).1 =
      (rates ++ [rate]).foldl replaceLowest (List.replicate (nrates perturbation) 0) := by
    rw [averageBandwidth, getD_averageCalls, List.foldl_append]
    rfl
  have havg : (averageBandwidth perturbation (averageCalls perturbation rates) rate).2 =
      averageRate perturbation
        (averageBandwidth perturbation (averageCalls perturbation rates) rate).1 := rfl
  rw [havg, averageRate_eq, harray]
  refine ⟨hperm, ?_⟩
  rw [hperm.sum_eq]
  simp

theorem averageBandwidth_largest_two :
    (averageBandwidth 3 (averageCalls 3 [8]) 9).1.Perm (largest (nrates 3) ([8] ++ [9]) ++
        List.replicate (nrates 3 - ([8] ++ [(9 : ℚ)]).length) 0) ∧
      (averageBandwidth 3 (averageCalls 3 [8]) 9).2 =
        (largest (nrates 3) ([8] ++ [9])).sum / nrates 3 :=
  averageBandwidth_largest (by norm_num)

namespace Measurements

/-- The rates kept at the end are the highest ones, and zeros as long as there are fewer. -/
lemma sum_bw (r : Measurements) :
    r.summary.bw.sum = (largest (nrates r.perturbation) (r.tests.map Measured.rate)).sum := by
  have hrates : ∀ rate ∈ r.tests.map Measured.rate, 0 < rate ∧ rate < 10 ^ 100 := by
    intro rate hrate
    obtain ⟨test, htest, rfl⟩ := List.mem_map.mp hrate
    exact ⟨r.rate_pos test htest, r.rate_lt test htest⟩
  rw [summary, foldl_test_bw, Summary.init, (perm_foldl_replaceLowest _ hrates).sum_eq]
  simp

/-- The rates are divided by the number that is kept at most. -/
lemma bandwidth_eq_iff (r : Measurements) : r.summary.max_bandwidth = r.meanBandwidth ↔
    nrates r.perturbation ≤ r.tests.length := by
  have hk := nrates_pos r.perturbation
  have hn := List.length_pos_iff.mpr r.tests_ne
  have hpos : 0 < (largest (nrates r.perturbation) (r.tests.map Measured.rate)).sum := by
    apply List.sum_pos
    · intro rate hrate
      obtain ⟨test, htest, rfl⟩ := List.mem_map.mp (mem_of_mem_largest hrate)
      exact r.rate_pos test htest
    · rw [← List.length_pos_iff, length_largest, List.length_map]
      exact Nat.lt_min.mpr ⟨hk, hn⟩
  have hsummary : r.summary.max_bandwidth = r.summary.bw.sum / nrates r.perturbation := by
    rw [summary, foldl_test_max _ r.tests_ne, averageRate_eq]
  have hlen : (r.tests.map Measured.rate).length = r.tests.length := List.length_map _
  rw [hsummary, sum_bw, meanBandwidth, ← hlen, largest_min, hlen, div_eq_mul_inv, div_eq_mul_inv,
    mul_right_inj' hpos.ne', inv_inj, Nat.cast_inj, eq_comm, min_eq_left_iff]

/-- The summary line says what it is to say exactly in runs of more than ten tests. -/
theorem summary_iff (r : Measurements) :
    r.summary.latency r.ntrials = r.meanLatency ∧ r.summary.max_bandwidth = r.meanBandwidth ↔
      11 ≤ r.tests.length := by
  have hk : 5 ≤ nrates r.perturbation ∧ nrates r.perturbation ≤ 10 := by
    rw [nrates]
    split_ifs <;> simp
  rw [latency_eq_iff, bandwidth_eq_iff]
  omega

/-- One test of seven trials of one second each. -/
def oneTest : Measurements where
  perturbation := 3
  ntrials := 7
  tests := [⟨List.replicate 7 1, 8⟩]
  ntrials_pos := by simp
  tests_ne := by simp
  length_times := by simp
  times_pos := by simp
  rate_pos := by simp
  rate_lt := by norm_num

theorem not_summary : ¬ (oneTest.summary.latency oneTest.ntrials = oneTest.meanLatency ∧
    oneTest.summary.max_bandwidth = oneTest.meanBandwidth) := by
  intro h
  have hlatency := h.1
  revert hlatency
  decide +kernel

end Measurements

end NetPipe
