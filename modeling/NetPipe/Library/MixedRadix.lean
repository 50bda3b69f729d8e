import Mathlib.Tactic

/-!
# Mixed radix numbers

The digits of a number for a list of radices, the lowest digit first.
-/

namespace NetPipe.MixedRadix

/-- The digits of `x`. -/
def digits : List ℤ → ℤ → List ℤ
  | [], _ => []
  | n :: ns, x => x % n :: digits ns (x / n)

/-- The number with the given digits. -/
def value : List ℤ → List ℤ → ℤ
  | n :: ns, c :: cs => c + n * value ns cs
  | _, _ => 0

/-- Each digit belongs to its radix. -/
def Box (ns cs : List ℤ) : Prop := List.Forall₂ (fun n c => 0 ≤ c ∧ c < n) ns cs

variable {ns cs : List ℤ} {n c x y r w k : ℤ} {i : ℕ}

@[simp] lemma digits_cons : digits (n :: ns) x = x % n :: digits ns (x / n) := rfl

@[simp] lemma value_nil : value [] cs = 0 := rfl

@[simp] lemma value_cons : value (n :: ns) (c :: cs) = c + n * value ns cs := rfl

lemma prod_pos (h : ∀ n ∈ ns, 1 ≤ n) : 0 < ns.prod :=
  List.prod_pos fun n hn => h n hn

@[simp] lemma length_digits (ns : List ℤ) (x : ℤ) : (digits ns x).length = ns.length := by
  induction ns generalizing x with
  | nil => rfl
  | cons n ns ih => simp [ih]

lemma Box.length_eq (h : Box ns cs) : ns.length = cs.length := List.Forall₂.length_eq h

/-! ### Digits and values are inverse to each other -/

lemma box_digits (h : ∀ n ∈ ns, 1 ≤ n) (x : ℤ) : Box ns (digits ns x) := by
  induction ns generalizing x with
  | nil => exact List.Forall₂.nil
  | cons n ns ih =>
    have hn : 0 < n := h n List.mem_cons_self
    refine List.Forall₂.cons ⟨Int.emod_nonneg _ hn.ne', Int.emod_lt_of_pos _ hn⟩ (ih ?_ _)
    exact fun m hm => h m (List.mem_cons_of_mem _ hm)

lemma value_digits (h : ∀ n ∈ ns, 1 ≤ n) (h0 : 0 ≤ x) (hx : x < ns.prod) :
    value ns (digits ns x) = x := by
  induction ns generalizing x with
  | nil =>
    rw [List.prod_nil] at hx
    rw [value_nil]
    omega
  | cons n ns ih =>
    have hn : 0 < n := h n List.mem_cons_self
    have hlt : x / n < ns.prod := by
      rw [List.prod_cons] at hx
      exact Int.ediv_lt_of_lt_mul hn (by rwa [mul_comm] at hx)
    rw [digits_cons, value_cons, ih (fun m hm => h m (List.mem_cons_of_mem _ hm)) (Int.ediv_nonneg h0 hn.le)
      hlt, Int.emod_add_mul_ediv]

lemma Box.value_mem (h : Box ns cs) : 0 ≤ value ns cs ∧ value ns cs < ns.prod := by
  induction h with
  | nil => simp
  | @cons n c ns cs hc _ ih =>
    have hn : 0 < n := hc.1.trans_lt hc.2
    rw [value_cons, List.prod_cons]
    constructor
    · exact add_nonneg hc.1 (mul_nonneg hn.le ih.1)
    · have hle : n * (value ns cs + 1) ≤ n * ns.prod := Int.mul_le_mul_of_nonneg_left ih.2 hn.le
      rw [mul_add, mul_one] at hle
      linarith [hc.2]

lemma Box.digits_value (h : Box ns cs) : digits ns (value ns cs) = cs := by
  induction h with
  | nil => rfl
  | @cons n c ns cs hc _ ih =>
    have hn : 0 < n := hc.1.trans_lt hc.2
    rw [value_cons, digits_cons, Int.add_mul_emod_self_left, Int.emod_eq_of_lt hc.1 hc.2,
      Int.add_mul_ediv_left _ _ hn.ne', Int.ediv_eq_zero_of_lt hc.1 hc.2, zero_add, ih]

/-! ### One digit -/

/-- The digit at place `i`. -/
lemma getElem_digits (h : ∀ n ∈ ns, 1 ≤ n) (x : ℤ) (hi : i < ns.length)
    (hi' : i < (digits ns x).length) : (digits ns x)[i] = x / (ns.take i).prod % ns[i] := by
  induction ns generalizing x i with
  | nil => exact absurd hi (Nat.not_lt_zero i)
  | cons n ns ih =>
    have hn : 0 < n := h n List.mem_cons_self
    cases i with
    | zero => simp
    | succ i =>
      have hlt : i < ns.length := by simpa using hi
      simp only [digits_cons, List.getElem_cons_succ, List.take_succ_cons, List.prod_cons]
      rw [ih (fun m hm => h m (List.mem_cons_of_mem _ hm)) _ hlt (by simpa using hlt), Int.ediv_ediv_of_nonneg hn.le]

lemma value_set (hlen : ns.length = cs.length) (hi : i < cs.length) (c : ℤ) :
    value ns (cs.set i c) = value ns cs + (ns.take i).prod * (c - cs[i]) := by
  induction ns generalizing cs i with
  | nil => simp [← hlen] at hi
  | cons n ns ih =>
    obtain ⟨b, cs, rfl⟩ := List.exists_cons_of_length_pos (Nat.zero_lt_of_lt hi)
    cases i with
    | zero =>
      simp only [List.set_cons_zero, value_cons, List.take_zero, List.prod_nil, List.getElem_cons_zero]
      ring
    | succ i =>
      simp only [List.set_cons_succ, value_cons, List.take_succ_cons, List.prod_cons,
        List.getElem_cons_succ]
      rw [ih (by simpa using hlen) (by simpa using hi)]
      ring

lemma Box.set (h : Box ns cs) (hi : i < ns.length) (h0 : 0 ≤ c) (hc : c < ns[i]) :
    Box ns (cs.set i c) := by
  induction h generalizing i with
  | nil => exact absurd hi (Nat.not_lt_zero i)
  | @cons n b ns cs hb hrest ih =>
    cases i with
    | zero => exact List.Forall₂.cons ⟨h0, hc⟩ hrest
    | succ i => exact List.Forall₂.cons hb (ih (by simpa using hi) hc)

/-- The remainder of a number with weight `w` above the remainder `r`. -/
lemma add_mul_emod (h0 : 0 ≤ r) (hr : r < w) (hn : 0 < n) (y : ℤ) :
    (r + w * y) % (w * n) = r + w * (y % n) := by
  have hw : 0 < w := h0.trans_lt hr
  have hsplit : r + w * y = r + w * (y % n) + w * n * (y / n) := by
    have := Int.emod_add_mul_ediv y n
    calc r + w * y = r + w * (y % n + n * (y / n)) := by rw [this]
      _ = _ := by ring
  have hle : w * (y % n + 1) ≤ w * n :=
    Int.mul_le_mul_of_nonneg_left (Int.emod_lt_of_pos y hn) hw.le
  rw [hsplit, Int.add_mul_emod_self_left, Int.emod_eq_of_lt]
  · exact add_nonneg h0 (mul_nonneg hw.le (Int.emod_nonneg y hn.ne'))
  · rw [mul_add, mul_one] at hle
    linarith

/-- The digit of weight `w` is turned by `k`, and the others stay. -/
lemma turn_eq (hw : 0 < w) (hn : 0 < n) (x k : ℤ) :
    x / (w * n) * (w * n) + (x % (w * n) + k * w) % (w * n) =
      x + w * ((x / w % n + k) % n - x / w % n) := by
  have hr0 := Int.emod_nonneg x hw.ne'
  have hr := Int.emod_lt_of_pos x hw
  have hlow : x % (w * n) = x % w + w * (x / w % n) := by
    conv_lhs => rw [← Int.emod_add_mul_ediv x w]
    exact add_mul_emod hr0 hr hn _
  have hturn : (x % (w * n) + k * w) % (w * n) = x % w + w * ((x / w % n + k) % n) := by
    have hsum : x % w + w * (x / w % n) + k * w = x % w + w * (x / w % n + k) := by ring
    rw [hlow, hsum, add_mul_emod hr0 hr hn]
  have hx := Int.emod_add_mul_ediv x (w * n)
  rw [hturn]
  linarith

/-- Turn the digit at place `i` by `k`. -/
def turn (ns : List ℤ) (i : ℕ) (k : ℤ) (cs : List ℤ) : List ℤ :=
  cs.set i ((cs.getD i 0 + k) % ns.getD i 1)

lemma Box.turn (h : Box ns cs) (hi : i < ns.length) (hn : 0 < ns[i]) (k : ℤ) :
    Box ns (turn ns i k cs) := by
  refine h.set hi ?_ ?_
  · simpa [hi] using Int.emod_nonneg _ hn.ne'
  · simpa [hi] using Int.emod_lt_of_pos _ hn

/-- Turning a digit and turning it back. -/
lemma Box.turn_turn (h : Box ns cs) (hi : i < ns.length) (hk : k + r = 0) :
    MixedRadix.turn ns i r (MixedRadix.turn ns i k cs) = cs := by
  have hic : i < cs.length := h.length_eq ▸ hi
  have hbox := List.forall₂_iff_get.mp h
  obtain ⟨h0, hlt⟩ := hbox.2 i hi hic
  simp only [List.get_eq_getElem] at h0 hlt
  have hback : ((cs[i] + k) % ns[i] + r) % ns[i] = cs[i] := by
    rw [Int.emod_add_emod, add_assoc, hk, add_zero, Int.emod_eq_of_lt h0 hlt]
  simp [MixedRadix.turn, hi, hic, hback]

end NetPipe.MixedRadix
