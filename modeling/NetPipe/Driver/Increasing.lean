import Mathlib
import NetPipe.Driver.IntRange

/-!
# The order of the tested sizes

Around a centre up to three sizes are tested. The sizes of neighbouring centres are in order if the
increment is above twice the perturbation, but the loop perturbs as soon as it is above
`perturbation+1`. Which runs test their sizes in order follows from the first increment and the
perturbation.
-/

namespace NetPipe

/-- All sizes of a run, in the order of the tests. -/
def testedSizes (a : SizeArgs) (late : ℤ → Bool) : List ℤ :=
  (schedule a false late).flatMap Centre.buflens

/-- The sizes around a centre are below those around the next one. -/
def Apart (a : SizeArgs) (k : ℕ) : Prop :=
  centreSize a k + topPert a.perturbation (centreGap a k) <
    centreSize a (k + 1) - topPert a.perturbation (centreGap a (k + 1))

/-- Every increment that lets the loop perturb is large enough, or the run ends before the first
perturbed centre behind `start`. The increments are the first one times the powers of two. -/
def Separated (a : SizeArgs) : Prop :=
  a.perturbation = 0 ∨ 2 * a.perturbation < firstInc a ∨
    (∃ j : ℕ, firstInc a * 2 ^ j = a.perturbation + 1) ∨
    ∀ k, 1 ≤ k → a.perturbation + 1 < centreGap a k → a.end < centreSize a k

variable {a : SizeArgs} {late : ℤ → Bool} {c : Loop} {k : ℕ} {p : ℤ}

/-! ### One centre -/

lemma perts_pairwise (hp : 0 ≤ p) (inc : ℤ) : (perts p inc).Pairwise (· < ·) := by
  rw [perts_eq hp]
  split_ifs with h
  · simp only [List.pairwise_cons, List.mem_cons, List.not_mem_nil, or_false, forall_eq_or_imp,
      forall_eq, IsEmpty.forall_iff, implies_true, List.Pairwise.nil, and_true]
    omega
  · exact List.pairwise_singleton _ _

lemma neg_topPert_mem (hp : 0 ≤ p) (inc : ℤ) : -topPert p inc ∈ perts p inc := by
  rw [perts_eq hp, topPert]
  split_ifs <;> simp

lemma neg_topPert_le {inc q : ℤ} (hp : 0 ≤ p) (hq : q ∈ perts p inc) : -topPert p inc ≤ q := by
  rw [perts_eq hp] at hq
  rw [topPert]
  split_ifs at hq ⊢ with h
  · simp only [List.mem_cons, List.not_mem_nil, or_false] at hq
    omega
  · simp only [List.mem_singleton] at hq
    omega

lemma AtCentre.buflens_eq (h : AtCentre a k c) : (c.centre a false).buflens =
    (perts a.perturbation (centreGap a k)).map (centreSize a k + ·) := by
  rw [Loop.centre, h.newInc_eq, h.len_eq]

lemma AtCentre.next_len (hp : 0 ≤ a.perturbation) (h : AtCentre a k c) :
    (c.next a false).len = centreSize a (k + 1) := (h.next hp).len_eq

/-! ### The run -/

/-- The sizes from a centre on are in order, and none is below the lowest of this centre. -/
lemma pairwise_mainLoop (hp : 0 ≤ a.perturbation) (c : Loop) : ∀ k, AtCentre a k c →
    (∀ i, k ≤ i → centreSize a (i + 1) ≤ a.end → Apart a i) →
    ((mainLoop a false late c).flatMap Centre.buflens).Pairwise (· < ·) ∧
      ∀ b ∈ (mainLoop a false late c).flatMap Centre.buflens,
        centreSize a k - topPert a.perturbation (centreGap a k) ≤ b := by
  induction c using mainLoop.induct a false late with
  | case1 c ih =>
    intro k h hapart
    have hsizes := h.buflens_eq
    have hpair : (c.centre a false).buflens.Pairwise (· < ·) := by
      rw [hsizes]
      exact (perts_pairwise hp _).map _ fun x y hxy => by simpa using hxy
    have hlow : ∀ b ∈ (c.centre a false).buflens,
        centreSize a k - topPert a.perturbation (centreGap a k) ≤ b := by
      intro b hb
      rw [hsizes] at hb
      obtain ⟨q, hq, rfl⟩ := List.mem_map.mp hb
      have := neg_topPert_le hp hq
      omega
    rw [mainLoop, List.flatMap_cons]
    split_ifs with hstop
    · rw [List.flatMap_nil, List.append_nil]
      exact ⟨hpair, hlow⟩
    · have hle : centreSize a (k + 1) ≤ a.end := by
        rw [← h.next_len hp]
        exact not_lt.mp fun hgt => hstop (.inr hgt)
      have hnow : Apart a k := hapart k le_rfl hle
      obtain ⟨hrest, hrestLow⟩ := ih hstop (k + 1) (h.next hp)
        fun i hi => hapart i (Nat.le_of_succ_le hi)
      refine ⟨List.pairwise_append.mpr ⟨hpair, hrest, fun b hb b' hb' => ?_⟩, fun b hb => ?_⟩
      · rw [hsizes] at hb
        obtain ⟨q, hq, rfl⟩ := List.mem_map.mp hb
        have hhigh := le_topPert hp hq
        have := hrestLow b' hb'
        rw [Apart] at hnow
        omega
      · rcases List.mem_append.mp hb with hb | hb
        · exact hlow b hb
        · have hnext := hrestLow b hb
          have hpos := topPert_nonneg hp (centreGap a k)
          rw [Apart] at hnow
          omega

/-- The largest size of a centre and the smallest of the next are both tested. -/
lemma apart_of_pairwise (hp : 0 ≤ a.perturbation) (c : Loop) : ∀ k, AtCentre a k c →
    ((mainLoop a false (fun _ => false) c).flatMap Centre.buflens).Pairwise (· < ·) →
    ∀ i, k ≤ i → centreSize a (i + 1) ≤ a.end → Apart a i := by
  induction c using mainLoop.induct a false (fun _ => false) with
  | case1 c ih =>
    intro k h hpair i hi hle
    have hnext : centreSize a (k + 1) ≤ a.end :=
      ((centreSize_strictMono a).monotone (Nat.succ_le_succ hi)).trans hle
    have hgo : ¬ ((fun _ => false) c.len = true ∨ (c.next a false).len > a.end) := by
      simpa [h.next_len hp] using hnext
    rw [mainLoop, if_neg hgo, List.flatMap_cons, List.pairwise_append] at hpair
    obtain ⟨-, hrest, hcross⟩ := hpair
    rcases Nat.eq_or_lt_of_le hi with rfl | hlt
    · apply hcross
      · rw [h.buflens_eq]
        exact List.mem_map_of_mem (topPert_mem hp _)
      · rw [mainLoop, List.flatMap_cons, (h.next hp).buflens_eq, sub_eq_add_neg]
        exact List.mem_append_left _ (List.mem_map_of_mem (neg_topPert_mem hp _))
    · exact ih hgo (k + 1) (h.next hp) hrest i hlt hle

lemma pairwise_iff_apart (hp : 0 ≤ a.perturbation) :
    (∀ late, (testedSizes a late).Pairwise (· < ·)) ↔
      ∀ k, centreSize a (k + 1) ≤ a.end → Apart a k := by
  constructor
  · intro h k
    exact apart_of_pairwise hp _ 0 (atCentre_init a) (h fun _ => false) k (Nat.zero_le k)
  · intro h late
    exact (pairwise_mainLoop hp _ 0 (atCentre_init a) fun k _ => h k).1

/-! ### The increments -/

lemma centreGap_zero (a : SizeArgs) : centreGap a 0 = firstInc a := by
  have hs := a.start_pos
  rw [centreGap, firstInc]
  simp only [Nat.zero_sub, Nat.zero_div, pow_zero, mul_one]
  split_ifs <;> omega

lemma exists_centreGap_eq (a : SizeArgs) (k : ℕ) : ∃ j : ℕ, centreGap a k = firstInc a * 2 ^ j := by
  have hs := a.start_pos
  rw [centreGap, firstInc]
  split_ifs with h₁ h₂
  · omega
  · exact ⟨(k - 1) / 2, by ring⟩
  · exact ⟨k / 2, rfl⟩
  · omega

/-- The increment stays or doubles. -/
lemma centreGap_succ (a : SizeArgs) (k : ℕ) :
    centreGap a (k + 1) = centreGap a k ∨ centreGap a (k + 1) = 2 * centreGap a k := by
  have hdiv : ∀ i : ℕ, (i + 1) / 2 = i / 2 ∨ (i + 1) / 2 = i / 2 + 1 := by omega
  rw [centreGap, centreGap]
  split_ifs with h
  · rcases k with _ | k
    · exact .inl rfl
    · simp only [Nat.add_sub_cancel]
      rcases hdiv k with heq | heq <;> rw [heq]
      · exact .inl rfl
      · exact .inr (by rw [pow_succ]; ring)
  · rcases hdiv k with heq | heq <;> rw [heq]
    · exact .inl rfl
    · exact .inr (by rw [pow_succ]; ring)

lemma firstInc_le_centreGap (a : SizeArgs) (k : ℕ) : firstInc a ≤ centreGap a k := by
  obtain ⟨j, hj⟩ := exists_centreGap_eq a k
  rw [hj]
  exact le_mul_of_one_le_right (firstInc_pos a).le (one_le_pow₀ one_le_two)

/-- An increment above `firstInc*2^j` is at least twice that. -/
lemma two_mul_le_centreGap {j : ℕ} (h : firstInc a * 2 ^ j < centreGap a k) :
    2 * (firstInc a * 2 ^ j) ≤ centreGap a k := by
  have hpos := firstInc_pos a
  obtain ⟨i, hi⟩ := exists_centreGap_eq a k
  rw [hi] at h ⊢
  have hji : j < i := by
    by_contra hle
    have := mul_le_mul_of_nonneg_left (pow_le_pow_right₀ one_le_two (not_lt.mp hle) : (2 : ℤ) ^ i ≤ 2 ^ j)
      hpos.le
    omega
  calc 2 * (firstInc a * 2 ^ j) = firstInc a * 2 ^ (j + 1) := by rw [pow_succ]; ring
    _ ≤ firstInc a * 2 ^ i :=
      mul_le_mul_of_nonneg_left (pow_le_pow_right₀ one_le_two hji) hpos.le

lemma apart_iff : Apart a k ↔
    topPert a.perturbation (centreGap a k) + topPert a.perturbation (centreGap a (k + 1)) <
      centreGap a k := by
  rw [Apart, centreSize_succ]
  omega

lemma apart_of_separated (h : Separated a)
    (hle : centreSize a (k + 1) ≤ a.end) : Apart a k := by
  have hpos := centreGap_pos a k
  have hfirst := firstInc_le_centreGap a k
  have hsucc := centreGap_succ a k
  rw [apart_iff, topPert, topPert]
  rcases h with hzero | hlarge | ⟨j, hj⟩ | hend
  · split_ifs <;> omega
  · split_ifs <;> omega
  · have hnow : a.perturbation + 1 < centreGap a k → 2 * (a.perturbation + 1) ≤ centreGap a k := by
      rw [← hj]
      exact two_mul_le_centreGap
    have hnext : a.perturbation + 1 < centreGap a (k + 1) →
        2 * (a.perturbation + 1) ≤ centreGap a (k + 1) := by
      rw [← hj]
      exact two_mul_le_centreGap
    split_ifs <;> omega
  · have hsmall : centreGap a (k + 1) ≤ a.perturbation + 1 := by
      by_contra hgt
      have := hend (k + 1) (Nat.succ_pos k) (not_le.mp hgt)
      omega
    split_ifs <;> omega

/-- The first perturbed centre behind `start` shows the overlap. -/
lemma separated_of_apart (hp : 0 ≤ a.perturbation)
    (h : ∀ k, centreSize a (k + 1) ≤ a.end → Apart a k) : Separated a := by
  by_contra hsep
  simp only [Separated, not_or, not_lt, not_exists, not_forall] at hsep
  obtain ⟨hzero, hfirst, hpow, k, hk, hgap, hle⟩ := hsep
  have hex : ∃ k, a.perturbation + 1 < centreGap a (k + 1) := ⟨k - 1, by rwa [Nat.sub_add_cancel hk]⟩
  classical
  have hmin : Nat.find hex + 1 ≤ k := by
    have := Nat.find_min' hex (m := k - 1) (by rwa [Nat.sub_add_cancel hk])
    omega
  have hperturbed := Nat.find_spec hex
  have hbefore := fun {m} => Nat.find_min hex (m := m)
  generalize Nat.find hex = m at hmin hperturbed hbefore
  have hm := h m (((centreSize_strictMono a).monotone hmin).trans hle)
  rw [apart_iff, topPert, topPert, if_pos (⟨by omega, hperturbed⟩ : 0 < a.perturbation ∧ _)] at hm
  split_ifs at hm with hnow
  · -- the centre before is perturbed as well, so it is the first one of all
    rcases m with _ | m
    · rw [centreGap_zero] at hm
      omega
    · exact hbefore (Nat.lt_succ_self m) hnow.2
  · obtain ⟨j, hj⟩ := exists_centreGap_eq a m
    have hne := hpow j
    rw [← hj] at hne
    have : ¬ a.perturbation + 1 < centreGap a m := fun hgt => hnow ⟨by omega, hgt⟩
    omega

/-- No run tests a size after a larger one, or twice, if and only if the increments are separated
from the perturbation. -/
theorem testedSizes_pairwise_iff (a : SizeArgs) (hp : 0 ≤ a.perturbation) :
    (∀ late, (testedSizes a late).Pairwise (· < ·)) ↔ Separated a := by
  rw [pairwise_iff_apart hp]
  exact ⟨separated_of_apart hp, fun h _ => apart_of_separated h⟩

/-- With `--start 10` the loop tests 7, 10, 13 and then 12, 15, 18. -/
theorem not_testedSizes_pairwise : ¬ ∀ late,
    (testedSizes ⟨10, 20, 3, by norm_num, by norm_num⟩ late).Pairwise (· < ·) := by
  rw [pairwise_iff_apart (by norm_num)]
  intro h
  have := h 0 (by decide)
  rw [Apart] at this
  exact absurd this (by decide)

/-- The default command line, in a run that no time stops. -/
theorem testedSizes_pairwise_default :
    (testedSizes ⟨1, 10000000, 3, by norm_num, by norm_num⟩ fun _ => false).Pairwise (· < ·) :=
  (testedSizes_pairwise_iff _ (by norm_num)).mpr (.inr (.inr (.inl ⟨2, by decide⟩))) _

end NetPipe
