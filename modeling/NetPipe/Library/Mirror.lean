import Mathlib

/-!
# Registrations and their map

A device gives out handles for what is registered with it, and the program keeps a map from keys to
handles. The map mirrors the device if it has exactly the handles that are alive.
-/

namespace NetPipe

variable {κ η ρ : Type*}

/-- What is alive in `L` is exactly what the map `M` holds, each handle under one key. -/
structure Mirror (L : η → Option ρ) (M : κ → Option (η × ρ)) : Prop where
  live : ∀ h r, L h = some r ↔ ∃ a, M a = some (h, r)
  inj : ∀ {a b h r r'}, M a = some (h, r) → M b = some (h, r') → a = b

namespace Mirror

lemma empty : Mirror (fun _ : η => (none : Option ρ)) fun _ : κ => none where
  live := by simp
  inj h := by simp at h

variable {L : η → Option ρ} {M : κ → Option (η × ρ)} {a b : κ} {h : η} {r : ρ}

/-- No key has a handle that is not in use. -/
lemma ne_of_none (hm : Mirror L M) (hl : L h = none) : M b ≠ some (h, r) := by
  intro hb
  have := (hm.live h r).2 ⟨b, hb⟩
  rw [hl] at this
  cases this

variable [DecidableEq κ] [DecidableEq η]

lemma insert (hm : Mirror L M) (hl : L h = none) (ha : M a = none) (out : ρ) :
    Mirror (Function.update L h (some out)) (Function.update M a (some (h, out))) where
  live h' r' := by
    by_cases hh : h' = h
    · subst hh
      rw [Function.update_self]
      constructor
      · rintro hr
        exact ⟨a, by rw [Function.update_self, Option.some.inj hr]⟩
      · rintro ⟨b, hb⟩
        by_cases hab : b = a
        · subst hab
          rw [Function.update_self, Option.some.injEq, Prod.mk.injEq] at hb
          rw [hb.2]
        · rw [Function.update_of_ne hab] at hb
          exact absurd hb (hm.ne_of_none hl)
    · rw [Function.update_of_ne hh, hm.live]
      constructor
      · rintro ⟨b, hb⟩
        refine ⟨b, ?_⟩
        rw [Function.update_of_ne _, hb]
        rintro rfl
        rw [ha] at hb
        cases hb
      · rintro ⟨b, hb⟩
        by_cases hab : b = a
        · subst hab
          rw [Function.update_self, Option.some.injEq, Prod.mk.injEq] at hb
          exact absurd hb.1.symm hh
        · exact ⟨b, by rwa [Function.update_of_ne hab] at hb⟩
  inj {b b' h' r r'} hb hb' := by
    have key : ∀ b r, b ≠ a → Function.update M a (some (h, out)) b ≠ some (h, r) := by
      intro b r hba hb
      rw [Function.update_of_ne hba] at hb
      exact hm.ne_of_none hl hb
    by_cases hba : b = a <;> by_cases hba' : b' = a
    · rw [hba, hba']
    · subst hba
      rw [Function.update_self, Option.some.injEq, Prod.mk.injEq] at hb
      rw [← hb.1] at hb'
      exact absurd hb' (key b' _ hba')
    · subst hba'
      rw [Function.update_self, Option.some.injEq, Prod.mk.injEq] at hb'
      rw [← hb'.1] at hb
      exact absurd hb (key b _ hba)
    · rw [Function.update_of_ne hba] at hb
      rw [Function.update_of_ne hba'] at hb'
      exact hm.inj hb hb'

lemma remove (hm : Mirror L M) (ha : M a = some (h, r)) :
    Mirror (Function.update L h none) (Function.update M a none) where
  live h' r' := by
    by_cases hh : h' = h
    · subst hh
      rw [Function.update_self]
      refine ⟨fun hr => by simp at hr, ?_⟩
      rintro ⟨b, hb⟩
      by_cases hab : b = a
      · simp [hab] at hb
      · rw [Function.update_of_ne hab] at hb
        exact absurd (hm.inj hb ha) hab
    · rw [Function.update_of_ne hh, hm.live]
      constructor
      · rintro ⟨b, hb⟩
        refine ⟨b, ?_⟩
        rw [Function.update_of_ne _, hb]
        rintro rfl
        rw [ha, Option.some.injEq, Prod.mk.injEq] at hb
        exact hh hb.1.symm
      · rintro ⟨b, hb⟩
        by_cases hab : b = a
        · simp [hab] at hb
        · exact ⟨b, by rwa [Function.update_of_ne hab] at hb⟩
  inj {b b' h' r r'} hb hb' := by
    have key : ∀ b v, Function.update M a none b = some v → M b = some v := by
      intro b v hb
      by_cases hab : b = a
      · simp [hab] at hb
      · rwa [Function.update_of_ne hab] at hb
    exact hm.inj (key _ _ hb) (key _ _ hb')

end Mirror

end NetPipe
