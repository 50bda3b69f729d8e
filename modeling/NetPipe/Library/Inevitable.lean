import Mathlib.Tactic

/-!
# What every run comes to

Total correctness of a step relation: every run ends, and it ends well.
-/

namespace NetPipe

variable {σ : Type*} {R : σ → σ → Prop} {Q : σ → Prop} {s s' : σ}

/-- Every run from the state ends after finitely many steps, in a state that satisfies `Q`. -/
inductive Inevitably (R : σ → σ → Prop) (Q : σ → Prop) : σ → Prop where
  | done {s : σ} (hend : ∀ s', ¬ R s s') (h : Q s) : Inevitably R Q s
  | step {s : σ} (hex : ∃ s', R s s') (h : ∀ s', R s s' → Inevitably R Q s') : Inevitably R Q s

namespace Inevitably

lemma of_step (h : Inevitably R Q s) (hs : R s s') : Inevitably R Q s' := by
  cases h with
  | done hend _ => exact absurd hs (hend s')
  | step _ h => exact h s' hs

lemma final (h : Inevitably R Q s) (hend : ∀ s', ¬ R s s') : Q s := by
  cases h with
  | done _ h => exact h
  | step hex _ =>
    obtain ⟨s', hs⟩ := hex
    exact absurd hs (hend s')

lemma mono {Q' : σ → Prop} (h : Inevitably R Q s) (hQ : ∀ s, Q s → Q' s) :
    Inevitably R Q' s := by
  induction h with
  | done hend h => exact .done hend (hQ _ h)
  | step hex _ ih => exact .step hex ih

/-- What two properties say of the end of a run holds of the same end. -/
lemma exists_final {Q' : σ → Prop} (h : Inevitably R Q s) (h' : Inevitably R Q' s) :
    ∃ s', Q s' ∧ Q' s' := by
  induction h with
  | done hend h => exact ⟨_, h, h'.final hend⟩
  | step hex _ ih =>
    obtain ⟨s', hs⟩ := hex
    exact ih s' hs (h'.of_step hs)

/-- There is a run to such an end. -/
lemma exists_end (h : Inevitably R Q s) :
    ∃ t, Relation.ReflTransGen R s t ∧ (∀ u, ¬ R t u) ∧ Q t := by
  induction h with
  | done hend h => exact ⟨_, .refl, hend, h⟩
  | step hex _ ih =>
    obtain ⟨s', hs⟩ := hex
    obtain ⟨t, ht, hend, hQ⟩ := ih s' hs
    exact ⟨t, .head hs ht, hend, hQ⟩

/-- Runs end if every step makes a measure smaller, and they end well if the invariant says so
where there is no step. -/
theorem of_measure (Inv : σ → Prop) (μ : σ → ℕ)
    (hprogress : ∀ s, Inv s → (∃ s', R s s') ∨ Q s)
    (hstep : ∀ s s', Inv s → R s s' → Inv s' ∧ μ s' < μ s) (h : Inv s) : Inevitably R Q s := by
  induction hn : μ s using Nat.strong_induction_on generalizing s with
  | _ n ih =>
    by_cases hex : ∃ s', R s s'
    · refine .step hex fun s' hs => ?_
      obtain ⟨hinv, hlt⟩ := hstep s s' h hs
      exact ih (μ s') (hn ▸ hlt) hinv rfl
    · exact .done (not_exists.mp hex) ((hprogress s h).resolve_left hex)

end Inevitably

end NetPipe
