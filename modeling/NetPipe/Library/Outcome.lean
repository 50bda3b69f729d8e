import Mathlib.Tactic

/-!
# Computations that can fail

What the outcome of a computation says about the outcomes of its parts.
-/

namespace NetPipe.Outcome

section

variable {ε α β : Type*} {f : α → β} {x : Except ε α} {y : β} {e : ε}

lemma map_eq_ok : x.map f = .ok y ↔ ∃ u, x = .ok u ∧ f u = y := by
  cases x <;> simp [Except.map]

lemma map_eq_error : x.map f = .error e ↔ x = .error e := by
  cases x <;> simp [Except.map]

/-- What comes before can be taken away from two lists. -/
lemma map_append_inj (head : List α) (a b : Except ε (List α)) :
    a.map (head ++ ·) = b.map (head ++ ·) ↔ a = b := by
  cases a <;> cases b <;> simp [Except.map]

lemma map_nil_append (a : Except ε (List α)) : a.map ([] ++ ·) = a := by
  cases a <;> rfl

end

section

variable {ε α β : Type} {f : α → Except ε β} {x : Except ε α} {y : β} {e : ε}

lemma bind_eq_ok : x >>= f = .ok y ↔ ∃ u, x = .ok u ∧ f u = .ok y := by
  cases x <;> simp [bind, Except.bind]

lemma bind_eq_error : x >>= f = .error e ↔ x = .error e ∨ ∃ u, x = .ok u ∧ f u = .error e := by
  cases x <;> simp [bind, Except.bind]

end

end NetPipe.Outcome
