import Mathlib.Tactic

/-!
# The message-size schedule

The main loop of `netpipe.c` walks over centre sizes `len`; around each centre a perturbation
loop tests nearby sizes. The increment `inc` doubles according to the parity of `nq`, which
advances once per test, hence by one or by three per centre.
-/

namespace NetPipe

/-- The size arguments as the parser leaves them: `--start` and `--end` are checked against
each other, `--perturbation` is whatever `atoi` returns. -/
structure SizeArgs where
  start : ℤ
  «end» : ℤ
  perturbation : ℤ
  start_pos : 1 ≤ start
  start_le : start ≤ «end»

/-- The main-loop variables at the top of the `while`. -/
structure Loop where
  nq : ℤ
  inc : ℤ
  len : ℤ
  nq_nonneg : 0 ≤ nq
  inc_pos : 0 < inc
  len_pos : 0 < len

/-- One centre of the schedule: its size, the increment in force and the sizes tested. -/
structure Centre where
  len : ℤ
  inc : ℤ
  buflens : List ℤ

/-! ### The perturbation loop -/

/-- Initial value of `pert`. -/
def pertStart (perturbation inc : ℤ) : ℤ :=
  if perturbation > 0 ∧ inc > perturbation + 1 then -perturbation else 0

/-- Increment of `pert`. -/
def pertStep (perturbation inc : ℤ) : ℤ :=
  if perturbation > 0 ∧ inc > perturbation + 1 then perturbation else perturbation + 1

lemma pertStep_pos {p : ℤ} (hp : 0 ≤ p) (inc : ℤ) : 0 < pertStep p inc := by
  unfold pertStep
  split_ifs with h
  · exact h.1
  · omega

/-- The `for` loop on `pert`, started at `pert`. -/
def pertLoop (p inc : ℤ) (hp : 0 ≤ p) (pert : ℤ) : List ℤ :=
  if pert ≤ p then pert :: pertLoop p inc hp (pert + pertStep p inc) else []
termination_by (p + 1 - pert).toNat
decreasing_by
  have := pertStep_pos hp inc
  omega

/-- All values taken by `pert` around one centre. A negative perturbation never enters the
loop, since `pert` starts at `0`. -/
def perts (p inc : ℤ) : List ℤ :=
  if hp : 0 ≤ p then pertLoop p inc hp (pertStart p inc) else []

lemma perts_eq {p : ℤ} (hp : 0 ≤ p) (inc : ℤ) :
    perts p inc = if 0 < p ∧ inc > p + 1 then [-p, 0, p] else [0] := by
  by_cases h : 0 < p ∧ inc > p + 1
  · have hs : pertStep p inc = p := by simp [pertStep, h]
    have h0 : pertStart p inc = -p := by simp [pertStart, h]
    rw [perts, dif_pos hp, if_pos h, h0]
    rw [pertLoop, if_pos (by omega), hs, pertLoop, if_pos (by omega), hs,
      pertLoop, if_pos (by omega), hs, pertLoop, if_neg (by omega)]
    simp
  · have hs : pertStep p inc = p + 1 := by simp only [pertStep, gt_iff_lt]; rw [if_neg h]
    have h0 : pertStart p inc = 0 := by simp only [pertStart, gt_iff_lt]; rw [if_neg h]
    rw [perts, dif_pos hp, if_neg h, h0]
    rw [pertLoop, if_pos hp, hs, pertLoop, if_neg (by omega)]

/-- Whichever way the loop goes, it makes an odd number of tests. -/
lemma perts_length_odd {p : ℤ} (hp : 0 ≤ p) (inc : ℤ) :
    (perts p inc).length = 1 ∨ (perts p inc).length = 3 := by
  rw [perts_eq hp]
  split_ifs <;> simp

/-! ### The main loop -/

/-- The increment chosen at the top of the loop. -/
def Loop.newInc (factors_of_2 : Bool) (c : Loop) : ℤ :=
  if factors_of_2 then c.len
  else if c.nq > 2 then (if c.nq % 2 ≠ 0 then c.inc + c.inc else c.inc)
  else c.inc

lemma Loop.newInc_pos (factors_of_2 : Bool) (c : Loop) : 0 < c.newInc factors_of_2 := by
  have h₁ := c.inc_pos
  have h₂ := c.len_pos
  unfold Loop.newInc
  split_ifs <;> omega

/-- The loop variables after all tests of a centre. -/
def Loop.next (a : SizeArgs) (factors_of_2 : Bool) (c : Loop) : Loop where
  nq := c.nq + (perts a.perturbation (c.newInc factors_of_2)).length
  inc := c.newInc factors_of_2
  len := c.len + c.newInc factors_of_2
  nq_nonneg := by have := c.nq_nonneg; omega
  inc_pos := c.newInc_pos factors_of_2
  len_pos := by have := c.len_pos; have := c.newInc_pos factors_of_2; omega

/-- The centre the loop is at. -/
def Loop.centre (a : SizeArgs) (factors_of_2 : Bool) (c : Loop) : Centre where
  len := c.len
  inc := c.newInc factors_of_2
  buflens := (perts a.perturbation (c.newInc factors_of_2)).map (c.len + ·)

/-- The `while( ! finished )` loop. `late len` tells whether `tlast >= stoptime` after the
tests around `len`. -/
def mainLoop (a : SizeArgs) (factors_of_2 : Bool) (late : ℤ → Bool) (c : Loop) : List Centre :=
  c.centre a factors_of_2 ::
    if late c.len ∨ (c.next a factors_of_2).len > a.end then []
    else mainLoop a factors_of_2 late (c.next a factors_of_2)
termination_by (a.end - c.len).toNat
decreasing_by
  have := c.newInc_pos factors_of_2
  simp only [Loop.next] at *
  omega

/-- The loop variables before the first centre. -/
def Loop.init (a : SizeArgs) : Loop where
  nq := if a.start > 1 then 1 else 0
  inc := if a.start > 1 then a.start / 2 else 1
  len := a.start
  nq_nonneg := by split_ifs <;> omega
  inc_pos := by split_ifs <;> omega
  len_pos := by have := a.start_pos; omega

/-- All centres of a run. -/
def schedule (a : SizeArgs) (factors_of_2 : Bool) (late : ℤ → Bool) : List Centre :=
  mainLoop a factors_of_2 late (Loop.init a)

/-! ### Every tested size is positive -/

/-- The increment never exceeds the centre it is used at. -/
lemma Loop.newInc_next_le {a : SizeArgs} {factors_of_2 : Bool} {c : Loop}
    (h : c.newInc factors_of_2 ≤ c.len) :
    (c.next a factors_of_2).newInc factors_of_2 ≤ (c.next a factors_of_2).len := by
  have hpos := c.newInc_pos factors_of_2
  have hlen : (c.next a factors_of_2).len = c.len + c.newInc factors_of_2 := rfl
  have hinc : (c.next a factors_of_2).inc = c.newInc factors_of_2 := rfl
  rw [Loop.newInc]
  split_ifs <;> omega

lemma Loop.newInc_init_le (a : SizeArgs) (factors_of_2 : Bool) :
    (Loop.init a).newInc factors_of_2 ≤ (Loop.init a).len := by
  have hs := a.start_pos
  by_cases h : a.start > 1 <;> cases factors_of_2 <;> simp [Loop.newInc, Loop.init, h] <;> omega

lemma one_le_of_mem_perts {p inc len q : ℤ} (hlen : 0 < len) (hinc : inc ≤ len)
    (hq : q ∈ perts p inc) : 1 ≤ len + q := by
  by_cases hp : 0 ≤ p
  · rw [perts_eq hp] at hq
    split_ifs at hq with h <;> simp at hq <;> omega
  · simp [perts, hp] at hq

lemma one_le_of_mem_mainLoop {a : SizeArgs} {factors_of_2 : Bool} {late : ℤ → Bool} (c : Loop)
    (h : c.newInc factors_of_2 ≤ c.len) :
    ∀ d ∈ mainLoop a factors_of_2 late c, ∀ b ∈ d.buflens, 1 ≤ b := by
  induction c using mainLoop.induct a factors_of_2 late with
  | case1 c ih =>
    intro d hd b hb
    rw [mainLoop, List.mem_cons] at hd
    rcases hd with rfl | hd
    · obtain ⟨q, hq, rfl⟩ := List.mem_map.mp hb
      exact one_le_of_mem_perts c.len_pos h hq
    · split_ifs at hd with hstop
      · cases hd
      · exact ih hstop (Loop.newInc_next_le h) d hd b hb

/-- Whatever the perturbation and however the run is stopped, no test has an empty message. -/
theorem one_le_of_mem_schedule {a : SizeArgs} {factors_of_2 : Bool} {late : ℤ → Bool} {d : Centre}
    (hd : d ∈ schedule a factors_of_2 late) {b : ℤ} (hb : b ∈ d.buflens) : 1 ≤ b :=
  one_le_of_mem_mainLoop _ (Loop.newInc_init_le a factors_of_2) d hd b hb

/-! ### Closed form of the centres -/

/-- The centres from `start = 1`: 1, 2, 3, 4, 6, 8, 12, ... -/
def unitSize : ℕ → ℤ
  | 0 => 1
  | k + 1 => if k % 2 = 0 then 2 ^ (k / 2 + 1) else 3 * 2 ^ (k / 2)

/-- The centres from `start > 1`, with `h = start / 2`. -/
def generalSize (start : ℤ) (k : ℕ) : ℤ :=
  start + 2 * (start / 2) * (2 ^ (k / 2) - 1) +
    if k % 2 = 0 then 0 else (start / 2) * 2 ^ (k / 2)

/-- The closed form of the `k`-th centre. -/
def centreSize (a : SizeArgs) (k : ℕ) : ℤ :=
  if a.start = 1 then unitSize k else generalSize a.start k

/-- The distance from the `k`-th centre to the next one. -/
def centreGap (a : SizeArgs) (k : ℕ) : ℤ :=
  if a.start = 1 then 2 ^ ((k - 1) / 2) else (a.start / 2) * 2 ^ (k / 2)

lemma unitSize_succ (k : ℕ) : unitSize (k + 1) = unitSize k + 2 ^ ((k - 1) / 2) := by
  rcases k with _ | k
  · simp [unitSize]
  · simp only [unitSize, Nat.add_sub_cancel]
    rcases Nat.even_or_odd' k with ⟨m, rfl | rfl⟩
    · have h₁ : (2 * m + 1) / 2 = m := by omega
      have h₂ : 2 * m / 2 = m := by omega
      rw [if_neg (by omega), if_pos (by omega), h₁, h₂]
      ring
    · have h₁ : (2 * m + 1 + 1) / 2 = m + 1 := by omega
      have h₂ : (2 * m + 1) / 2 = m := by omega
      rw [if_pos (by omega), if_neg (by omega), h₁, h₂]
      ring

lemma generalSize_succ (s : ℤ) (k : ℕ) :
    generalSize s (k + 1) = generalSize s k + (s / 2) * 2 ^ (k / 2) := by
  simp only [generalSize]
  rcases Nat.even_or_odd' k with ⟨m, rfl | rfl⟩
  · have h₁ : (2 * m + 1) / 2 = m := by omega
    have h₂ : 2 * m / 2 = m := by omega
    rw [if_neg (by omega), if_pos (by omega), h₁, h₂]
    ring
  · have h₁ : (2 * m + 1 + 1) / 2 = m + 1 := by omega
    have h₂ : (2 * m + 1) / 2 = m := by omega
    rw [if_pos (by omega), if_neg (by omega), h₁, h₂]
    ring

lemma centreSize_succ (a : SizeArgs) (k : ℕ) :
    centreSize a (k + 1) = centreSize a k + centreGap a k := by
  unfold centreSize centreGap
  split_ifs
  · exact unitSize_succ k
  · exact generalSize_succ a.start k

lemma centreGap_pos (a : SizeArgs) (k : ℕ) : 0 < centreGap a k := by
  have := a.start_pos
  unfold centreGap
  split_ifs with h
  · positivity
  · have : 0 < a.start / 2 := by omega
    positivity

lemma centreSize_strictMono (a : SizeArgs) : StrictMono (centreSize a) :=
  strictMono_nat_of_lt_succ fun k => by
    rw [centreSize_succ]
    have := centreGap_pos a k
    omega

/-! ### The loop follows the closed form -/

/-- The loop is at its `k`-th centre: `nq` has the parity that makes `inc` double at the right
centres, whether the centres before were tested once or three times. -/
structure AtCentre (a : SizeArgs) (k : ℕ) (c : Loop) : Prop where
  len_eq : c.len = centreSize a k
  inc_eq : c.inc = if k = 0 then centreGap a 0 else centreGap a (k - 1)
  parity : c.nq % 2 = if a.start = 1 then (k : ℤ) % 2 else ((k : ℤ) + 1) % 2
  small : a.start = 1 → k ≤ 2 → c.nq = k
  first : a.start ≠ 1 → k = 0 → c.nq = 1
  second : a.start ≠ 1 → 1 ≤ k → 2 ≤ c.nq
  large : (if a.start = 1 then 3 else 2) ≤ k → 3 ≤ c.nq

lemma atCentre_init (a : SizeArgs) : AtCentre a 0 (Loop.init a) := by
  have hs := a.start_pos
  by_cases h : a.start = 1
  · constructor <;> simp [Loop.init, centreSize, centreGap, unitSize, h]
  · have h' : a.start > 1 := by omega
    constructor <;> simp [Loop.init, centreSize, centreGap, generalSize, h, h']

lemma AtCentre.newInc_eq {a : SizeArgs} {k : ℕ} {c : Loop} (h : AtCentre a k c) :
    c.newInc false = centreGap a k := by
  have hinc := h.inc_eq
  have hpar := h.parity
  have hlarge := h.large
  have hsmall := h.small
  have hfirst := h.first
  simp only [Loop.newInc, Bool.false_eq_true, if_false]
  rcases k with _ | k
  · have : ¬ c.nq > 2 := by
      by_cases hs : a.start = 1
      · have := hsmall hs (by omega); omega
      · have := hfirst hs rfl; omega
    rw [if_neg this]
    simpa using hinc
  · simp only [Nat.add_sub_cancel, Nat.add_eq_zero_iff, one_ne_zero, and_false, if_false] at hinc
    by_cases hs : a.start = 1
    · simp only [hs, if_true] at hpar hlarge
      have hdbl : ∀ m, k = 2 * m + 2 → c.inc + c.inc = centreGap a (k + 1) := by
        rintro m rfl
        rw [hinc]
        simp only [centreGap, hs, if_true]
        rw [show (2 * m + 2 + 1 - 1) / 2 = m + 1 by omega,
          show (2 * m + 2 - 1) / 2 = m by omega, pow_succ]
        ring
      have hsame : k % 2 = 1 ∨ k = 0 → c.inc = centreGap a (k + 1) := by
        intro hk
        rw [hinc]
        simp only [centreGap, hs, if_true]
        congr 1
        omega
      have hk2 : k + 1 ≤ 2 → c.nq = ((k + 1 : ℕ) : ℤ) := hsmall hs
      split_ifs with hq hodd
      · exact hdbl (k / 2 - 1) (by omega)
      · exact hsame (by omega)
      · exact hsame (by omega)
    · simp only [hs, if_false] at hpar hlarge
      have hdbl : ∀ m, k = 2 * m + 1 → c.inc + c.inc = centreGap a (k + 1) := by
        rintro m rfl
        rw [hinc]
        simp only [centreGap, hs, if_false]
        rw [show (2 * m + 1 + 1) / 2 = m + 1 by omega,
          show (2 * m + 1) / 2 = m by omega, pow_succ]
        ring
      have hsame : k % 2 = 0 → c.inc = centreGap a (k + 1) := by
        intro hk
        rw [hinc]
        simp only [centreGap, hs, if_false]
        congr 2
        omega
      split_ifs with hq hodd
      · exact hdbl (k / 2) (by omega)
      · exact hsame (by omega)
      · exact hsame (by omega)

lemma AtCentre.next {a : SizeArgs} (hp : 0 ≤ a.perturbation) {k : ℕ} {c : Loop}
    (h : AtCentre a k c) : AtCentre a (k + 1) (c.next a false) := by
  have hinc := h.newInc_eq
  have hodd := perts_length_odd hp (c.newInc false)
  have hpar := h.parity
  have hlarge := h.large
  constructor
  · simp only [Loop.next, hinc, h.len_eq, centreSize_succ]
  · simp [Loop.next, hinc]
  · simp only [Loop.next]
    split_ifs with hs <;> simp only [hs, if_true, if_false] at hpar <;> omega
  · intro hs hk
    -- an increment of one is never above `perturbation + 1`, so these centres are tested once
    have hgap : centreGap a k = 1 := by
      simp only [centreGap, hs, if_true]
      rw [show (k - 1) / 2 = 0 by omega, pow_zero]
    have hone : (perts a.perturbation (c.newInc false)).length = 1 := by
      rw [perts_eq hp, hinc, hgap, if_neg (by omega)]
      rfl
    have hnq := h.small hs (by omega)
    simp only [Loop.next, hone, hnq]
    push_cast
    ring
  · intro _ hk
    omega
  · intro hs _
    simp only [Loop.next]
    rcases Nat.eq_zero_or_pos k with rfl | hk
    · have := h.first hs rfl
      omega
    · have := h.second hs hk
      omega
  · intro hk
    simp only [Loop.next]
    by_cases hs : a.start = 1
    · simp only [hs, if_true] at hk hlarge
      by_cases h2 : k = 2
      · have := h.small hs (by omega)
        omega
      · have := hlarge (by omega)
        omega
    · simp only [hs, if_false] at hk
      have := h.second hs (by omega)
      omega

/-- The run from the `k`-th centre on visits consecutive centres and stops at the last one not
above `end`. -/
lemma mainLoop_centres {a : SizeArgs} (hp : 0 ≤ a.perturbation) (c : Loop) :
    ∀ k, AtCentre a k c → centreSize a k ≤ a.end →
      ∃ n, (mainLoop a false (fun _ => false) c).map (fun d => (d.len, d.inc, d.buflens)) =
          (List.range n).map (fun i => (centreSize a (k + i), centreGap a (k + i),
            (perts a.perturbation (centreGap a (k + i))).map (centreSize a (k + i) + ·))) ∧
        ∀ i, i < n ↔ centreSize a (k + i) ≤ a.end := by
  induction c using mainLoop.induct a false (fun _ => false) with
  | case1 c ih =>
    intro k h hk
    have hnext := (h.next hp).len_eq
    by_cases hstop : (c.next a false).len > a.end
    · refine ⟨1, ?_, fun i => ⟨fun hi => ?_, fun hi => ?_⟩⟩
      · rw [mainLoop, if_pos (Or.inr hstop)]
        simp [Loop.centre, h.newInc_eq, h.len_eq]
      · obtain rfl : i = 0 := by omega
        simpa using hk
      · by_contra hi1
        have := (centreSize_strictMono a).monotone (show k + 1 ≤ k + i by omega)
        omega
    · have hgo : ¬ ((fun _ => false) c.len = true ∨ (c.next a false).len > a.end) := by
        simpa using hstop
      obtain ⟨n, hn, hiff⟩ := ih hgo (k + 1) (h.next hp) (by omega)
      refine ⟨n + 1, ?_, fun i => ?_⟩
      · rw [mainLoop, if_neg hgo, List.map_cons, hn, List.range_succ_eq_map, List.map_cons,
          List.map_map]
        congr 1
        · simp [Loop.centre, h.newInc_eq, h.len_eq]
        · refine List.map_congr_left fun i _ => ?_
          simp only [Function.comp_apply, Nat.succ_eq_add_one]
          rw [show k + 1 + i = k + (i + 1) by omega]
      · rcases i with _ | i
        · simpa using hk
        · rw [show k + (i + 1) = k + 1 + i by omega, ← hiff i]
          omega

/-- Without `--fac2` and without a stop by time the main loop ends, its centres are exactly the
elements of the closed form up to `end`, in order, and around each centre it tests
`len - p, len, len + p` when the increment leaves room for it and `len` alone otherwise. -/
theorem schedule_closed_form (a : SizeArgs) (hp : 0 ≤ a.perturbation) :
    (∃ n, (schedule a false fun _ => false).map Centre.len = (List.range n).map (centreSize a) ∧
      ∀ i, i < n ↔ centreSize a i ≤ a.end) ∧
    ∀ d ∈ schedule a false fun _ => false,
      d.buflens = (if 0 < a.perturbation ∧ d.inc > a.perturbation + 1
        then [d.len - a.perturbation, d.len, d.len + a.perturbation] else [d.len]) ∧
      ∀ b ∈ d.buflens, 1 ≤ b := by
  have hstart : centreSize a 0 ≤ a.end := by
    have := (atCentre_init a).len_eq
    have := a.start_le
    simp only [Loop.init] at *
    omega
  obtain ⟨n, hn, hiff⟩ := mainLoop_centres hp (Loop.init a) 0 (atCentre_init a) hstart
  simp only [Nat.zero_add] at hn hiff
  refine ⟨⟨n, ?_, hiff⟩, fun d hd => ⟨?_, fun b => one_le_of_mem_schedule hd⟩⟩
  · have := congrArg (List.map Prod.fst) hn
    simpa [List.map_map, Function.comp_def, schedule] using this
  · have hmem : (d.len, d.inc, d.buflens) ∈ (List.range n).map (fun i => (centreSize a i,
        centreGap a i, (perts a.perturbation (centreGap a i)).map (centreSize a i + ·))) := by
      rw [← hn]
      exact List.mem_map_of_mem (f := fun d : Centre => (d.len, d.inc, d.buflens)) hd
    obtain ⟨i, -, heq⟩ := List.mem_map.mp hmem
    simp only [Prod.mk.injEq] at heq
    obtain ⟨hlen, hinc, hbuf⟩ := heq
    rw [← hbuf, ← hlen, ← hinc, perts_eq hp]
    split_ifs <;> simp [sub_eq_add_neg]

/-- The default command line with `--end 12`. -/
theorem schedule_default : (schedule ⟨1, 12, 3, by decide, by decide⟩ false
    fun _ => false).map Centre.len = [1, 2, 3, 4, 6, 8, 12] := by
  obtain ⟨⟨n, hn, hiff⟩, -⟩ := schedule_closed_form ⟨1, 12, 3, by decide, by decide⟩ (by decide)
  have h6 : 6 < n := (hiff 6).mpr (by decide)
  have h7 : ¬ 7 < n := fun h => absurd ((hiff 7).mp h) (by decide)
  obtain rfl : n = 7 := by omega
  rw [hn]
  decide

end NetPipe
