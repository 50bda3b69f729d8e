import Mathlib
import NetPipe.Driver.Schedule

/-!
# The range of the sizes

The main loop with the range of a signed 32-bit number: a run in which one of the results is out of
range has no defined end. The run is defined exactly if the sizes of the schedule up to `end` stay
below a bound.
-/

namespace NetPipe

/-- The options that decide which multiples of a size are computed. With `copies` the disk module
copies files, so that the buffers are not doubled. -/
structure RangeFlags where
  factors_of_2 : Bool
  cache : Bool
  bidir : Bool
  copies : Bool

/-- The values of a signed 32-bit number. -/
def inInt (x : ℤ) : Bool := -2 ^ 31 ≤ x ∧ x < 2 ^ 31

/-- The results of `inc+inc`, `len + pert`, `2*buflen`, `buflen * (1+bidir)` and `len + inc` around a
centre. -/
def Loop.results (a : SizeArgs) (f : RangeFlags) (c : Loop) : List ℤ :=
  (if ¬ f.factors_of_2 ∧ c.nq > 2 ∧ c.nq % 2 ≠ 0 then [c.inc + c.inc] else []) ++
  (c.centre a f.factors_of_2).buflens ++
  (if ¬ f.copies ∧ f.cache then (c.centre a f.factors_of_2).buflens.map fun b => 2 * b else []) ++
  ((c.centre a f.factors_of_2).buflens.map fun b => b * (1 + if f.bidir then 1 else 0)) ++
  [c.len + c.newInc f.factors_of_2]

/-- The main loop. There is no result if one of the numbers is out of range. -/
def mainLoop32 (a : SizeArgs) (f : RangeFlags) (late : ℤ → Bool) (c : Loop) :
    Option (List Centre) :=
  if (c.results a f).all inInt then
    if late c.len ∨ (c.next a f.factors_of_2).len > a.end then some [c.centre a f.factors_of_2]
    else (mainLoop32 a f late (c.next a f.factors_of_2)).map (c.centre a f.factors_of_2 :: ·)
  else none
termination_by (a.end - c.len).toNat
decreasing_by
  have hpos := c.newInc_pos f.factors_of_2
  simp only [Loop.next] at *
  omega

/-- A run of the benchmark. -/
def run32 (a : SizeArgs) (f : RangeFlags) (late : ℤ → Bool) : Option (List Centre) :=
  mainLoop32 a f late (Loop.init a)

/-! ### The sizes of both schedules -/

/-- The increment before the first centre. -/
def firstInc (a : SizeArgs) : ℤ := if a.start > 1 then a.start / 2 else 1

/-- The `k`-th centre. With a negative perturbation nothing is tested, and the increment stays. -/
def sizeAt (a : SizeArgs) (factors_of_2 : Bool) (k : ℕ) : ℤ :=
  if factors_of_2 then a.start * 2 ^ k
  else if 0 ≤ a.perturbation then centreSize a k else a.start + k * firstInc a

/-- The increment at the `k`-th centre. -/
def gapAt (a : SizeArgs) (factors_of_2 : Bool) (k : ℕ) : ℤ :=
  if factors_of_2 then a.start * 2 ^ k
  else if 0 ≤ a.perturbation then centreGap a k else firstInc a

/-- The largest size tested around the `k`-th centre. -/
def largestAt (a : SizeArgs) (factors_of_2 : Bool) (k : ℕ) : ℤ :=
  sizeAt a factors_of_2 k +
    if 0 < a.perturbation ∧ gapAt a factors_of_2 k > a.perturbation + 1 then a.perturbation else 0

/-- Twice a size is computed, for the two buffers or for both directions. -/
def RangeFlags.doubles (f : RangeFlags) : Bool := (!f.copies && f.cache) || f.bidir

/-- The bound at the `k`-th centre: half the range for the largest size where sizes are doubled, else
the range for the centre that follows. -/
def BoundedAt (a : SizeArgs) (f : RangeFlags) (k : ℕ) : Prop :=
  if f.doubles ∧ 0 ≤ a.perturbation then largestAt a f.factors_of_2 k < 2 ^ 30
  else sizeAt a f.factors_of_2 (k + 1) < 2 ^ 31

/-- The sizes up to `end` are bounded. -/
def Bounded (a : SizeArgs) (f : RangeFlags) : Prop :=
  ∀ k, sizeAt a f.factors_of_2 k ≤ a.end → BoundedAt a f k

/-- The loop is at the `k`-th centre of either schedule. -/
def AtSize (a : SizeArgs) (factors_of_2 : Bool) (k : ℕ) (c : Loop) : Prop :=
  if factors_of_2 then c.len = a.start * 2 ^ k
  else if 0 ≤ a.perturbation then AtCentre a k c
  else c.len = a.start + k * firstInc a ∧ c.inc = firstInc a ∧ c.nq ≤ 2

variable {a : SizeArgs} {f : RangeFlags} {b : Bool} {k : ℕ} {c : Loop} {late : ℤ → Bool}

lemma perts_of_neg {p : ℤ} (hp : ¬ 0 ≤ p) (inc : ℤ) : perts p inc = [] := dif_neg hp

lemma atSize_init (a : SizeArgs) (b : Bool) : AtSize a b 0 (Loop.init a) := by
  cases b with
  | true => simp [AtSize, Loop.init]
  | false =>
    by_cases hp : 0 ≤ a.perturbation
    · simpa [AtSize, hp] using atCentre_init a
    · by_cases hs : a.start > 1 <;> simp [AtSize, hp, Loop.init, firstInc, hs]

lemma AtSize.len_eq (h : AtSize a b k c) : c.len = sizeAt a b k := by
  cases b with
  | true => exact h
  | false =>
    by_cases hp : 0 ≤ a.perturbation
    · simp only [AtSize, hp, if_true, Bool.false_eq_true, if_false] at h
      simpa [sizeAt, hp] using h.len_eq
    · simp only [AtSize, hp, Bool.false_eq_true, if_false] at h
      simpa [sizeAt, hp] using h.1

lemma AtSize.newInc_eq (h : AtSize a b k c) : c.newInc b = gapAt a b k := by
  cases b with
  | true => exact h
  | false =>
    by_cases hp : 0 ≤ a.perturbation
    · simp only [AtSize, hp, if_true, Bool.false_eq_true, if_false] at h
      simpa [gapAt, hp] using h.newInc_eq
    · simp only [AtSize, hp, Bool.false_eq_true, if_false] at h
      obtain ⟨-, hinc, hnq⟩ := h
      simp [gapAt, hp, Loop.newInc, hinc, not_lt.mpr hnq]

lemma sizeAt_succ (a : SizeArgs) (b : Bool) (k : ℕ) :
    sizeAt a b (k + 1) = sizeAt a b k + gapAt a b k := by
  cases b with
  | true =>
    simp only [sizeAt, gapAt, if_true, pow_succ]
    ring
  | false =>
    by_cases hp : 0 ≤ a.perturbation
    · simpa [sizeAt, gapAt, hp] using centreSize_succ a k
    · simp only [sizeAt, gapAt, hp, Bool.false_eq_true, if_false]
      push_cast
      ring

lemma AtSize.next (h : AtSize a b k c) : AtSize a b (k + 1) (c.next a b) := by
  cases b with
  | true =>
    have hlen : c.len = a.start * 2 ^ k := h
    have hnext : (c.next a true).len = c.len + c.len := rfl
    simp only [AtSize, if_true, hnext, hlen, pow_succ]
    ring
  | false =>
    have hinc := h.newInc_eq
    by_cases hp : 0 ≤ a.perturbation
    · simp only [AtSize, hp, if_true, Bool.false_eq_true, if_false] at h ⊢
      exact h.next hp
    · simp only [gapAt, hp, Bool.false_eq_true, if_false] at hinc
      simp only [AtSize, hp, Bool.false_eq_true, if_false] at h ⊢
      obtain ⟨hlen, -, hnq⟩ := h
      refine ⟨?_, hinc, ?_⟩
      · simp only [Loop.next, hinc, hlen]
        push_cast
        ring
      · simpa [Loop.next, perts_of_neg hp] using hnq

lemma firstInc_pos (a : SizeArgs) : 0 < firstInc a := by
  unfold firstInc
  split_ifs <;> omega

lemma gapAt_pos (a : SizeArgs) (b : Bool) (k : ℕ) : 0 < gapAt a b k := by
  cases b with
  | true =>
    have hs := a.start_pos
    simp only [gapAt, if_true]
    positivity
  | false =>
    by_cases hp : 0 ≤ a.perturbation
    · simpa [gapAt, hp] using centreGap_pos a k
    · simpa [gapAt, hp] using firstInc_pos a

lemma sizeAt_strictMono (a : SizeArgs) (b : Bool) : StrictMono (sizeAt a b) :=
  strictMono_nat_of_lt_succ fun k => by
    rw [sizeAt_succ]
    exact lt_add_of_pos_right _ (gapAt_pos a b k)

/-! ### The tested sizes -/

lemma AtSize.buflens_eq (h : AtSize a b k c) : (c.centre a b).buflens =
    (perts a.perturbation (gapAt a b k)).map (sizeAt a b k + ·) := by
  rw [Loop.centre, h.newInc_eq, h.len_eq]

lemma AtSize.next_len (h : AtSize a b k c) : (c.next a b).len = sizeAt a b (k + 1) :=
  h.next.len_eq

lemma exists_of_mem_mainLoop (c : Loop) : ∀ k, AtSize a b k c → sizeAt a b k ≤ a.end →
    ∀ d ∈ mainLoop a b late c, ∃ i, sizeAt a b i ≤ a.end ∧
      d.buflens = (perts a.perturbation (gapAt a b i)).map (sizeAt a b i + ·) := by
  induction c using mainLoop.induct a b late with
  | case1 c ih =>
    intro k h hle d hd
    rw [mainLoop, List.mem_cons] at hd
    rcases hd with rfl | hd
    · exact ⟨k, hle, h.buflens_eq⟩
    · split_ifs at hd with hstop
      · cases hd
      · refine ih hstop (k + 1) h.next ?_ d hd
        rw [← h.next_len]
        exact not_lt.mp fun hgt => hstop (.inr hgt)

lemma exists_mem_mainLoop (c : Loop) : ∀ k, AtSize a b k c → ∀ i, k ≤ i → sizeAt a b i ≤ a.end →
    ∃ d ∈ mainLoop a b (fun _ => false) c,
      d.buflens = (perts a.perturbation (gapAt a b i)).map (sizeAt a b i + ·) := by
  induction c using mainLoop.induct a b (fun _ => false) with
  | case1 c ih =>
    intro k h i hi hle
    rw [mainLoop]
    rcases Nat.eq_or_lt_of_le hi with rfl | hlt
    · exact ⟨_, List.mem_cons_self, h.buflens_eq⟩
    · have hgo : ¬ ((fun _ => false) c.len = true ∨ (c.next a b).len > a.end) := by
        have := (sizeAt_strictMono a b).monotone (Nat.succ_le_of_lt hlt)
        simp only [h.next_len, Bool.false_eq_true, false_or, not_lt]
        exact this.trans hle
      obtain ⟨d, hd, heq⟩ := ih hgo (k + 1) h.next i hlt hle
      rw [if_neg hgo]
      exact ⟨d, List.mem_cons_of_mem _ hd, heq⟩

/-- What holds of all sizes of all runs. -/
lemma forall_tested_iff (a : SizeArgs) (b : Bool) (P : ℤ → Prop) :
    (∀ late, ∀ d ∈ schedule a b late, ∀ x ∈ d.buflens, P x) ↔
      ∀ k, sizeAt a b k ≤ a.end → ∀ q ∈ perts a.perturbation (gapAt a b k),
        P (sizeAt a b k + q) := by
  have hinit := atSize_init a b
  constructor
  · intro h k hle q hq
    obtain ⟨d, hd, heq⟩ := exists_mem_mainLoop _ 0 hinit k (Nat.zero_le k) hle
    apply h _ d hd
    rw [heq]
    exact List.mem_map_of_mem hq
  · intro h late d hd x hx
    have hstart : sizeAt a b 0 ≤ a.end := by
      rw [← hinit.len_eq]
      exact a.start_le
    obtain ⟨k, hle, heq⟩ := exists_of_mem_mainLoop _ 0 hinit hstart d hd
    rw [heq] at hx
    obtain ⟨q, hq, rfl⟩ := List.mem_map.mp hx
    exact h k hle q hq

/-! ### One iteration -/

/-- The perturbation that is added to the centre at most. -/
def topPert (p inc : ℤ) : ℤ := if 0 < p ∧ inc > p + 1 then p else 0

lemma topPert_mem {p : ℤ} (hp : 0 ≤ p) (inc : ℤ) : topPert p inc ∈ perts p inc := by
  rw [perts_eq hp, topPert]
  split_ifs <;> simp

lemma le_topPert {p inc q : ℤ} (hp : 0 ≤ p) (hq : q ∈ perts p inc) : q ≤ topPert p inc := by
  rw [perts_eq hp] at hq
  rw [topPert]
  split_ifs at hq ⊢ with h
  · simp only [List.mem_cons, List.not_mem_nil, or_false] at hq
    omega
  · exact (List.mem_singleton.mp hq).le

lemma topPert_nonneg {p : ℤ} (hp : 0 ≤ p) (inc : ℤ) : 0 ≤ topPert p inc := by
  rw [topPert]
  split_ifs
  · exact hp
  · exact le_rfl

lemma topPert_lt {p inc : ℤ} (hinc : 0 < inc) : topPert p inc < inc := by
  rw [topPert]
  split_ifs <;> omega

/-- A multiple of the sizes around a centre stays in range if that of the largest one does. -/
lemma all_buflens_iff (hp : 0 ≤ a.perturbation) (hle : c.newInc b ≤ c.len) {m : ℤ} (hm : 0 ≤ m) :
    ((c.centre a b).buflens.map fun x => m * x).all inInt = true ↔
      m * (c.len + topPert a.perturbation (c.newInc b)) < 2 ^ 31 := by
  simp only [Loop.centre, List.map_map, List.all_map, List.all_eq_true, Function.comp_apply, inInt,
    decide_eq_true_eq]
  constructor
  · exact fun h => (h _ (topPert_mem hp _)).2
  · intro h q hq
    have hone := one_le_of_mem_perts c.len_pos hle hq
    constructor
    · exact le_trans (by norm_num) (mul_nonneg hm (zero_le_one.trans hone))
    · apply lt_of_le_of_lt _ h
      exact mul_le_mul_of_nonneg_left (add_le_add_right (le_topPert hp hq) c.len) hm

/-- The doubled increment is the new increment, which is not above the size. -/
lemma doubled_inInt (hle : c.newInc f.factors_of_2 ≤ c.len) (hend : c.len < 2 ^ 31) :
    (if ¬ f.factors_of_2 ∧ c.nq > 2 ∧ c.nq % 2 ≠ 0 then [c.inc + c.inc] else []).all inInt = true := by
  have hpos := c.inc_pos
  split_ifs with h
  · have hinc : c.newInc f.factors_of_2 = c.inc + c.inc := by
      simp [Loop.newInc, h.1, h.2.1, h.2.2]
    rw [hinc] at hle
    simp only [List.all_cons, List.all_nil, Bool.and_true, inInt, decide_eq_true_eq]
    omega
  · rfl

/-- What has to be bounded in an iteration. -/
lemma results_inInt_iff (h : AtSize a f.factors_of_2 k c)
    (hle : c.newInc f.factors_of_2 ≤ c.len) (hend : c.len < 2 ^ 31) :
    (c.results a f).all inInt = true ↔ BoundedAt a f k := by
  have hdoubled := doubled_inInt hle hend
  have hinc := c.newInc_pos f.factors_of_2
  have hlen := c.len_pos
  have hsucc : sizeAt a f.factors_of_2 (k + 1) = c.len + c.newInc f.factors_of_2 := by
    rw [sizeAt_succ, h.len_eq, h.newInc_eq]
  have hadvance : [c.len + c.newInc f.factors_of_2].all inInt = true ↔
      c.len + c.newInc f.factors_of_2 < 2 ^ 31 := by
    simp only [List.all_cons, List.all_nil, Bool.and_true, inInt, decide_eq_true_eq]
    omega
  by_cases hp : 0 ≤ a.perturbation
  swap
  · -- nothing is tested, and only `len` has to stay in range
    have hempty : (c.centre a f.factors_of_2).buflens = [] := by
      rw [Loop.centre, perts_of_neg hp, List.map_nil]
    simp only [Loop.results, List.all_append, Bool.and_eq_true, hdoubled, hadvance, hempty, BoundedAt,
      hp, hsucc, and_false, if_false, List.map_nil, List.all_nil, ite_self, true_and]
  have hone := all_buflens_iff hp hle zero_le_one
  have htwo := all_buflens_iff hp hle zero_le_two
  have hnonneg := topPert_nonneg hp (c.newInc f.factors_of_2)
  have htop : topPert a.perturbation (c.newInc f.factors_of_2) < c.newInc f.factors_of_2 :=
    topPert_lt hinc
  have hlargest : largestAt a f.factors_of_2 k =
      c.len + topPert a.perturbation (c.newInc f.factors_of_2) := by
    rw [largestAt, topPert, h.len_eq, h.newInc_eq]
  have hbytes : ((c.centre a f.factors_of_2).buflens.map
      fun b => b * (1 + if f.bidir then 1 else 0)).all inInt = true ↔
      (if f.bidir then 2 else 1) *
        (c.len + topPert a.perturbation (c.newInc f.factors_of_2)) < 2 ^ 31 := by
    cases f.bidir with
    | true => simpa [mul_comm] using htwo
    | false => simpa using hone
  have hbuffers : (if ¬ f.copies ∧ f.cache then
      (c.centre a f.factors_of_2).buflens.map fun b => 2 * b else []).all inInt = true ↔
      (¬ f.copies ∧ f.cache →
        2 * (c.len + topPert a.perturbation (c.newInc f.factors_of_2)) < 2 ^ 31) := by
    by_cases hbuf : ¬ f.copies ∧ f.cache
    · rw [if_pos hbuf, htwo]
      exact ⟨fun h _ => h, fun h => h hbuf⟩
    · rw [if_neg hbuf]
      exact iff_of_true rfl fun h => absurd h hbuf
  have hsizes : (c.centre a f.factors_of_2).buflens.all inInt = true ↔
      c.len + topPert a.perturbation (c.newInc f.factors_of_2) < 2 ^ 31 := by
    simpa using hone
  simp only [Loop.results, List.all_append, Bool.and_eq_true, hdoubled, hsizes, hbuffers, hbytes,
    hadvance, true_and, BoundedAt, hp, and_true, hlargest, hsucc, RangeFlags.doubles]
  cases f.copies <;> cases f.cache <;> cases f.bidir <;> simp <;> omega

/-! ### The run -/

lemma mainLoop32_of_bounded (hend : a.end < 2 ^ 31) (c : Loop) :
    ∀ k, AtSize a f.factors_of_2 k c → c.newInc f.factors_of_2 ≤ c.len → c.len ≤ a.end →
      (∀ i, k ≤ i → sizeAt a f.factors_of_2 i ≤ a.end → BoundedAt a f i) →
      mainLoop32 a f late c = some (mainLoop a f.factors_of_2 late c) := by
  induction c using mainLoop.induct a f.factors_of_2 late with
  | case1 c ih =>
    intro k h hle hlen hbound
    have hnow : BoundedAt a f k := hbound k le_rfl (h.len_eq ▸ hlen)
    have hin := (results_inInt_iff h hle (hlen.trans_lt hend)).mpr hnow
    rw [mainLoop32, if_pos hin, mainLoop]
    split_ifs with hstop
    · rfl
    · have hnext : (c.next a f.factors_of_2).len ≤ a.end := by
        by_contra hgt
        exact hstop (.inr (not_le.mp hgt))
      rw [ih hstop (k + 1) (h.next) (Loop.newInc_next_le hle) hnext
        fun i hi => hbound i (Nat.le_of_succ_le hi)]
      rfl

lemma bounded_of_mainLoop32 (hend : a.end < 2 ^ 31) (c : Loop) :
    ∀ k, AtSize a f.factors_of_2 k c → c.newInc f.factors_of_2 ≤ c.len → c.len ≤ a.end →
      (mainLoop32 a f (fun _ => false) c).isSome = true →
      ∀ i, k ≤ i → sizeAt a f.factors_of_2 i ≤ a.end → BoundedAt a f i := by
  induction c using mainLoop.induct a f.factors_of_2 (fun _ => false) with
  | case1 c ih =>
    intro k h hle hlen hsome i hi hsize
    rw [mainLoop32] at hsome
    by_cases hin : (c.results a f).all inInt = true
    · rw [if_pos hin] at hsome
      rcases Nat.eq_or_lt_of_le hi with rfl | hlt
      · exact (results_inInt_iff h hle (hlen.trans_lt hend)).mp hin
      · -- the loop has gone on to the next centre, which is not above `end` either
        have hmono := (sizeAt_strictMono a f.factors_of_2).monotone (Nat.succ_le_of_lt hlt)
        have hnext : (c.next a f.factors_of_2).len ≤ a.end := by
          rw [(h.next).len_eq]
          exact hmono.trans hsize
        have hgo : ¬ ((fun _ => false) c.len = true ∨ (c.next a f.factors_of_2).len > a.end) := by
          simpa using hnext
        rw [if_neg hgo, Option.isSome_map] at hsome
        exact ih hgo (k + 1) (h.next) (Loop.newInc_next_le hle) hnext hsome i hlt hsize
    · rw [if_neg hin] at hsome
      exact absurd hsome (by simp)

/-- No run goes out of range, and all end as the schedule says, if and only if the sizes up to `end`
are below the bound. -/
theorem run32_iff (a : SizeArgs) (f : RangeFlags) (hend : a.end < 2 ^ 31) :
    (∀ late, run32 a f late = some (schedule a f.factors_of_2 late)) ↔ Bounded a f := by
  have hinit := atSize_init a f.factors_of_2
  have hle := Loop.newInc_init_le a f.factors_of_2
  have hlen : (Loop.init a).len ≤ a.end := a.start_le
  constructor
  · intro h i hi
    have hsome : (mainLoop32 a f (fun _ => false) (Loop.init a)).isSome = true := by
      have hrun := h fun _ => false
      rw [run32] at hrun
      rw [hrun]
      rfl
    exact bounded_of_mainLoop32 hend _ 0 hinit hle hlen hsome i (Nat.zero_le i) hi
  · intro h late
    exact mainLoop32_of_bounded hend _ 0 hinit hle hlen fun i _ hi => h i hi

/-- A test of 1 GiB, in buffers of 2 GiB. -/
theorem not_run32 : ¬ ∀ late, run32 ⟨2 ^ 30, 2 ^ 30, 0, by norm_num, le_rfl⟩
    ⟨false, true, false, false⟩ late =
      some (schedule ⟨2 ^ 30, 2 ^ 30, 0, by norm_num, le_rfl⟩ false late) := by
  intro h
  have hrun := h fun _ => true
  rw [run32, mainLoop32, if_neg] at hrun
  · cases hrun
  · rw [results_inInt_iff (atSize_init _ _) (Loop.newInc_init_le _ _)]
    · simp [BoundedAt, RangeFlags.doubles, largestAt, sizeAt, centreSize, generalSize]
    · simp [Loop.init]

/-- The default command line. -/
theorem run32_iff_default : run32 ⟨1, 12, 3, by norm_num, by norm_num⟩
    ⟨false, true, false, false⟩ (fun _ => false) =
      some (schedule ⟨1, 12, 3, by norm_num, by norm_num⟩ false fun _ => false) := by
  refine (run32_iff _ _ (by norm_num)).mpr (fun k hk => ?_) fun _ => false
  have hbound : largestAt ⟨1, 12, 3, by norm_num, by norm_num⟩ false k < 2 ^ 30 := by
    rw [largestAt]
    split_ifs
    · linarith
    · linarith
  simpa [BoundedAt, RangeFlags.doubles] using hbound

end NetPipe
