import Mathlib.Tactic

/-!
# Operations in pieces

Several sources have an operation carried out piece by piece, and the pieces of different sources
interleave. If a piece commutes with what was carried out of the other open operations, all is as if
each operation had been carried out at once when it was finished.
-/

namespace NetPipe

/-- What was carried out of the open operation of each source, all that is finished, and everything
in the order in which it happened. The last factor is the first to act. -/
structure Pieces (ι M : Type*) where
  part : ι → M
  done : M
  total : M

namespace Pieces

variable {ι M : Type*} [DecidableEq ι] [Monoid M]

/-- A piece of the operation of `i` is carried out. -/
def act (i : ι) (f : M) (p : Pieces ι M) : Pieces ι M where
  part := Function.update p.part i (f * p.part i)
  done := p.done
  total := f * p.total

/-- The operation of `i` is finished. -/
def finish (i : ι) (p : Pieces ι M) : Pieces ι M where
  part := Function.update p.part i 1
  done := p.part i * p.done
  total := p.total

/-- Everything is the open parts after the finished operations. -/
structure Sorted (l : List ι) (p : Pieces ι M) : Prop where
  commute : ∀ i ∈ l, ∀ j ∈ l, i ≠ j → Commute (p.part i) (p.part j)
  total : p.total = (l.map p.part).prod * p.done

variable {l : List ι} {i : ι} {f : M} {part : ι → M} {p : Pieces ι M}

omit [Monoid M] in
lemma map_update_of_notMem (hi : i ∉ l) (x : M) : l.map (Function.update part i x) = l.map part := by
  apply List.map_congr_left
  intro j hj
  have hne : j ≠ i := by
    rintro rfl
    exact hi hj
  exact Function.update_of_ne hne _ _

lemma prod_update_mul (hl : l.Nodup) (hi : i ∈ l)
    (hc : ∀ j ∈ l, j ≠ i → Commute f (part j)) :
    (l.map (Function.update part i (f * part i))).prod = f * (l.map part).prod := by
  induction l with
  | nil => simp at hi
  | cons j l ih =>
    obtain ⟨hj, hl⟩ := List.nodup_cons.mp hl
    rcases eq_or_ne j i with rfl | hne
    · simp [map_update_of_notMem hj, mul_assoc]
    · have hi' : i ∈ l := (List.mem_cons.mp hi).resolve_left hne.symm
      have hrest := ih hl hi' fun k hk => hc k (List.mem_cons_of_mem _ hk)
      have hcj : Commute f (part j) := hc j List.mem_cons_self hne
      simp only [List.map_cons, List.prod_cons, Function.update_of_ne hne, hrest]
      rw [← mul_assoc, ← mul_assoc, hcj.eq]

lemma prod_update_one (hl : l.Nodup) (hi : i ∈ l)
    (hc : ∀ j ∈ l, j ≠ i → Commute (part i) (part j)) :
    (l.map part).prod = (l.map (Function.update part i 1)).prod * part i := by
  have hlast : (l.map (Function.update part i 1)).prod * part i =
      part i * (l.map (Function.update part i 1)).prod := by
    apply (Commute.list_prod_left _ _ ?_).eq
    intro x hx
    obtain ⟨j, hj, rfl⟩ := List.mem_map.mp hx
    rcases eq_or_ne j i with rfl | hne
    · simp
    · simpa [hne] using (hc j hj hne).symm
  have hothers : ∀ j ∈ l, j ≠ i → Commute (part i) (Function.update part i 1 j) := by
    intro j hj hne
    simpa [hne] using hc j hj hne
  rw [hlast, ← prod_update_mul hl hi hothers]
  simp

lemma Sorted.act (hl : l.Nodup) (hi : i ∈ l) (h : p.Sorted l)
    (hc : ∀ j ∈ l, j ≠ i → Commute f (p.part j)) : (p.act i f).Sorted l where
  commute := by
    have hnew : ∀ j ∈ l, j ≠ i → Commute (f * p.part i) (p.part j) := fun j hj hne =>
      (hc j hj hne).mul_left (h.commute i hi j hj hne.symm)
    intro j hj k hk hjk
    simp only [Pieces.act]
    rcases eq_or_ne j i with rfl | hji
    · simpa [hjk.symm] using hnew k hk hjk.symm
    · rcases eq_or_ne k i with rfl | hki
      · simpa [hji] using (hnew j hj hji).symm
      · simpa [hji, hki] using h.commute j hj k hk hjk
  total := by
    show f * p.total = _ * p.done
    rw [Pieces.act, prod_update_mul hl hi hc, h.total, mul_assoc]

lemma Sorted.finish (hl : l.Nodup) (hi : i ∈ l) (h : p.Sorted l) : (p.finish i).Sorted l where
  commute := by
    intro j hj k hk hjk
    simp only [Pieces.finish]
    rcases eq_or_ne j i with rfl | hji
    · simp
    · rcases eq_or_ne k i with rfl | hki
      · simp
      · simpa [hji, hki] using h.commute j hj k hk hjk
  total := by
    show p.total = _ * (p.part i * p.done)
    rw [h.total, prod_update_one hl hi fun j hj hne => h.commute i hi j hj hne.symm, mul_assoc]
    rfl

omit [DecidableEq ι] in
/-- Without open operations everything is what is finished. -/
lemma Sorted.total_eq (h : p.Sorted l) (hopen : ∀ i ∈ l, p.part i = 1) : p.total = p.done := by
  have hmap : l.map p.part = l.map fun _ => 1 := List.map_congr_left hopen
  rw [h.total, hmap]
  simp

end Pieces

end NetPipe
