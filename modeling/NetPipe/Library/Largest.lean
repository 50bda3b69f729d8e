import Mathlib.Tactic

/-!
# The largest elements of a list

Keeping the largest elements of what comes along, by replacing the smallest one that is kept.
-/

namespace NetPipe

variable {α : Type*} [LinearOrder α] {l kept kept' : List α} {m a : α}

/-- What is kept of a list is not smaller than what is not. -/
def Largest (l kept : List α) : Prop :=
  ∃ rest, (kept ++ rest).Perm l ∧ ∀ x ∈ kept, ∀ y ∈ rest, y ≤ x

/-- The `k` largest elements, in decreasing order. -/
def largest (k : ℕ) (l : List α) : List α := (l.mergeSort (· ≥ ·)).take k

namespace Largest

lemma refl (l : List α) : Largest l l :=
  ⟨[], by simp, by simp⟩

lemma perm (h : Largest l kept) (hp : kept.Perm kept') : Largest l kept' := by
  obtain ⟨rest, hl, hle⟩ := h
  refine ⟨rest, (hp.symm.append_right rest).trans hl, fun x hx => ?_⟩
  exact hle x (hp.mem_iff.mpr hx)

/-- A larger element takes the place of the smallest one. -/
lemma replace (h : Largest l (m :: kept)) (hmin : ∀ x ∈ kept, m ≤ x) (ha : m ≤ a) :
    Largest (a :: l) (a :: kept) := by
  obtain ⟨rest, hl, hle⟩ := h
  refine ⟨m :: rest, ?_, fun x hx y hy => ?_⟩
  · rw [List.cons_append, List.perm_cons]
    exact List.perm_middle.trans hl
  · have hmx : m ≤ x := by
      rcases List.mem_cons.mp hx with rfl | hx
      · exact ha
      · exact hmin x hx
    rcases List.mem_cons.mp hy with rfl | hy
    · exact hmx
    · exact (hle m List.mem_cons_self y hy).trans hmx

/-- An element that is not larger than any is left out. -/
lemma skip (h : Largest l kept) (ha : ∀ x ∈ kept, a ≤ x) : Largest (a :: l) kept := by
  obtain ⟨rest, hl, hle⟩ := h
  refine ⟨a :: rest, List.perm_middle.trans (hl.cons a), fun x hx y hy => ?_⟩
  rcases List.mem_cons.mp hy with rfl | hy
  · exact ha x hx
  · exact hle x hx y hy

/-- The largest elements are determined by their number. -/
lemma perm_largest (h : Largest l kept) : kept.Perm (largest kept.length l) := by
  obtain ⟨rest, hl, hle⟩ := h
  have hsorted : (kept.mergeSort (· ≥ ·) ++ rest.mergeSort (· ≥ ·)).Pairwise (· ≥ ·) := by
    rw [List.pairwise_append]
    refine ⟨List.sortedGE_mergeSort.pairwise, List.sortedGE_mergeSort.pairwise, ?_⟩
    intro x hx y hy
    exact hle x (List.mem_mergeSort.mp hx) y (List.mem_mergeSort.mp hy)
  have hperm : (kept.mergeSort (· ≥ ·) ++ rest.mergeSort (· ≥ ·)).Perm (l.mergeSort (· ≥ ·)) :=
    ((List.mergeSort_perm _ _).append (List.mergeSort_perm _ _)).trans
      (hl.trans (List.mergeSort_perm _ _).symm)
  have heq := hperm.eq_of_pairwise' hsorted List.sortedGE_mergeSort.pairwise
  rw [largest, ← heq, List.take_left' (List.length_mergeSort _)]
  exact (List.mergeSort_perm _ _).symm

end Largest

/-- Below all others, copies of one element change nothing but the number. -/
lemma largest_append_replicate {k : ℕ} (hle : ∀ x ∈ l, a ≤ x) :
    largest k (l ++ List.replicate k a) = largest k l ++ List.replicate (k - l.length) a := by
  have hsorted : (l.mergeSort (· ≥ ·) ++ List.replicate k a).Pairwise (· ≥ ·) := by
    rw [List.pairwise_append]
    refine ⟨List.sortedGE_mergeSort.pairwise, ?_, fun x hx y hy => ?_⟩
    · rw [List.pairwise_replicate]
      exact .inr le_rfl
    · rw [List.eq_of_mem_replicate hy]
      exact hle x (List.mem_mergeSort.mp hx)
  have hperm : (l.mergeSort (· ≥ ·) ++ List.replicate k a).Perm
      ((l ++ List.replicate k a).mergeSort (· ≥ ·)) :=
    ((List.mergeSort_perm l _).append_right _).trans (List.mergeSort_perm _ _).symm
  have heq := hperm.eq_of_pairwise' hsorted List.sortedGE_mergeSort.pairwise
  rw [largest, ← heq, List.take_append, List.length_mergeSort, List.take_replicate, largest]
  congr 2
  exact Nat.min_eq_left (Nat.sub_le _ _)

lemma largest_perm {l' : List α} (k : ℕ) (h : l.Perm l') : largest k l = largest k l' := by
  have hperm : (l.mergeSort (· ≥ ·)).Perm (l'.mergeSort (· ≥ ·)) :=
    ((List.mergeSort_perm l _).trans h).trans (List.mergeSort_perm l' _).symm
  rw [largest, largest, hperm.eq_of_pairwise' List.sortedGE_mergeSort.pairwise
    List.sortedGE_mergeSort.pairwise]

/-- There are no more than there are. -/
lemma largest_min (k : ℕ) (l : List α) : largest (min k l.length) l = largest k l := by
  rw [largest, largest, List.take_eq_take_iff, List.length_mergeSort]
  simp

lemma mem_of_mem_largest {k : ℕ} (h : a ∈ largest k l) : a ∈ l :=
  List.mem_mergeSort.mp (List.mem_of_mem_take h)

lemma length_largest (k : ℕ) (l : List α) : (largest k l).length = min k l.length := by
  rw [largest, List.length_take, List.length_mergeSort]

end NetPipe
