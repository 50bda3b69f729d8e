import Mathlib.Tactic

/-!
# Runs of calls

A library is called again and again. Each call changes its state, unless it fails, and a history
that says what the calls were for. A relation between the two holds after every call exactly if
each call meets the condition under which it keeps the relation.
-/

namespace NetPipe.CallRuns

variable {σ η κ : Type*} {run : σ → κ → Option σ} {spec : η → κ → η} {s₀ : σ} {h₀ : η}
  {P : σ → η → Prop} {Proper : σ → η → κ → Prop} {Keeps : η → κ → Prop}

lemma foldlM_concat (pre : List κ) (c : κ) :
    (pre ++ [c]).foldlM run s₀ = (pre.foldlM run s₀).bind (run · c) := by
  rw [List.foldlM_append]
  simp only [List.foldlM_cons, List.foldlM_nil, bind_pure]
  rfl

/-- The calls of a run, one after another. -/
lemma exists_take_of_concat_prefix {calls pre : List κ} {c : κ} (h : pre ++ [c] <+: calls) :
    ∃ i, ∃ hi : i < calls.length, pre = calls.take i ∧ c = calls[i] := by
  obtain ⟨l, rfl⟩ := h
  refine ⟨pre.length, by simp, ?_, ?_⟩ <;> simp

/-- Every call keeps the relation if and only if it meets its condition, so the relation holds
after every call of a run if and only if every call of the run meets its condition. -/
theorem forall_prefix_iff (hinit : P s₀ h₀)
    (hstep : ∀ s h c, P s h → Proper s h c →
      ∃ s', run s c = some s' ∧ (P s' (spec h c) ↔ Keeps h c))
    (calls : List κ)
    (hproper : ∀ pre c s, pre ++ [c] <+: calls → pre.foldlM run s₀ = some s →
      Proper s (pre.foldl spec h₀) c) :
    (∀ pre, pre <+: calls → ∃ s, pre.foldlM run s₀ = some s ∧ P s (pre.foldl spec h₀)) ↔
      ∀ pre c, pre ++ [c] <+: calls → Keeps (pre.foldl spec h₀) c := by
  constructor
  · intro hall pre c hpre
    obtain ⟨s, hs, hP⟩ := hall pre ((List.prefix_append _ _).trans hpre)
    obtain ⟨s', hs', hP'⟩ := hall _ hpre
    obtain ⟨t, ht, hiff⟩ := hstep _ _ _ hP (hproper _ _ _ hpre hs)
    rw [foldlM_concat, hs, Option.bind_some, ht, Option.some.injEq] at hs'
    subst hs'
    rw [List.foldl_append] at hP'
    exact hiff.mp hP'
  · intro hkeeps pre
    induction pre using List.reverseRecOn with
    | nil => exact fun _ => ⟨s₀, rfl, hinit⟩
    | append_singleton pre c ih =>
      intro hpre
      obtain ⟨s, hs, hP⟩ := ih ((List.prefix_append _ _).trans hpre)
      obtain ⟨t, ht, hiff⟩ := hstep _ _ _ hP (hproper _ _ _ hpre hs)
      refine ⟨t, ?_, ?_⟩
      · rw [foldlM_concat, hs, Option.bind_some, ht]
      · rw [List.foldl_append]
        exact hiff.mpr (hkeeps _ _ hpre)

end NetPipe.CallRuns
