import Mathlib.Data.List.Basic
import Mathlib.Tactic

/-!
# Matching by tag

Messages are sent and receives are posted, each with a tag. Messages with the same tag are taken
in the order they were sent by receives in the order they were posted; messages with different
tags may overtake each other. When the two sequences agree, every message is taken by the
receive at its own position.
-/

namespace TagMatch

variable {α τ : Type*} (tag : α → τ)

/-- The position of the first entry with tag `t` that is not done. -/
def First (done : ℕ → Prop) (l : List α) (t : τ) (i : ℕ) : Prop :=
  (∃ a, l[i]? = some a ∧ tag a = t) ∧ ¬ done i ∧ ∀ j < i, ∀ a, l[j]? = some a → tag a = t → done j

/-- Message `i` may be taken by receive `k`: each is the first one left with the common tag. The
pairs matched so far are `matched`. -/
def CanMatch (sent posted : List α) (matched : List (ℕ × ℕ)) (i k : ℕ) : Prop :=
  ∃ t, First tag (fun i => ∃ k, (i, k) ∈ matched) sent t i ∧
    First tag (fun k => ∃ i, (i, k) ∈ matched) posted t k

/-- All pairs are of a message and the receive at its own position. -/
def Aligned (matched : List (ℕ × ℕ)) : Prop := ∀ x ∈ matched, x.1 = x.2

section

variable {tag} {sent posted l : List α} {matched : List (ℕ × ℕ)} {i k : ℕ}

/-- Two prefixes of one list agree wherever both are defined. -/
lemma getElem?_eq_of_common {l₁ l₂ l : List α} (h₁ : l₁ <+: l) (h₂ : l₂ <+: l)
    (hi : i < l₁.length) (hi' : i < l₂.length) : l₁[i]? = l₂[i]? := by
  obtain ⟨r₁, rfl⟩ := h₁
  obtain ⟨r₂, h⟩ := h₂
  have h' : (l₂ ++ r₂)[i]? = (l₁ ++ r₁)[i]? := by rw [h]
  rw [List.getElem?_append_left hi', List.getElem?_append_left hi] at h'
  exact h'.symm

lemma First.lt_length {done : ℕ → Prop} {t : τ} (h : First tag done l t i) : i < l.length := by
  obtain ⟨⟨a, ha, -⟩, -⟩ := h
  exact (List.getElem?_eq_some_iff.mp ha).1

/-- The first entries left of two prefixes of one list are at the same position. -/
lemma First.unique {done : ℕ → Prop} {l₁ l₂ : List α} {t : τ} (h₁ : l₁ <+: l) (h₂ : l₂ <+: l)
    (hi : First tag done l₁ t i) (hk : First tag done l₂ t k) : i = k := by
  have hlt₁ := hi.lt_length
  have hlt₂ := hk.lt_length
  obtain ⟨⟨a, ha, hta⟩, hni, hi⟩ := hi
  obtain ⟨⟨b, hb, htb⟩, hnk, hk⟩ := hk
  rcases lt_trichotomy i k with hlt | heq | hlt
  · rw [getElem?_eq_of_common h₁ h₂ hlt₁ (hlt.trans hlt₂)] at ha
    exact absurd (hk i hlt a ha hta) hni
  · exact heq
  · rw [getElem?_eq_of_common h₂ h₁ hlt₂ (hlt.trans hlt₁)] at hb
    exact absurd (hi k hlt b hb htb) hnk

/-- A new pair of two prefixes of one list is aligned if all earlier ones are. -/
theorem CanMatch.aligned (hs : sent <+: l) (hp : posted <+: l) (h : Aligned matched)
    (hm : CanMatch tag sent posted matched i k) : i = k := by
  obtain ⟨t, hi, hk⟩ := hm
  have hdone : (fun k => ∃ i, (i, k) ∈ matched) = fun i => ∃ k, (i, k) ∈ matched := by
    funext j
    apply propext
    constructor
    · rintro ⟨i', hmem⟩
      obtain rfl : i' = j := h _ hmem
      exact ⟨i', hmem⟩
    · rintro ⟨k', hmem⟩
      obtain rfl : j = k' := h _ hmem
      exact ⟨j, hmem⟩
  rw [hdone] at hk
  exact hi.unique hs hp hk

/-- The first message may be taken by the first receive. -/
lemma canMatch_zero (tag : α → τ) {a b : α} (hs : sent[0]? = some a) (hp : posted[0]? = some b)
    (htag : tag a = tag b) : CanMatch tag sent posted [] 0 0 := by
  refine ⟨tag b, ⟨⟨a, hs, htag⟩, ?_, ?_⟩, ⟨b, hp, rfl⟩, ?_, ?_⟩
  · rintro ⟨_, h⟩
    cases h
  · intro j hj
    exact absurd hj (Nat.not_lt_zero j)
  · rintro ⟨_, h⟩
    cases h
  · intro j hj
    exact absurd hj (Nat.not_lt_zero j)

lemma Aligned.cons (h : Aligned matched) (hik : i = k) : Aligned ((i, k) :: matched) := by
  intro x hx
  rcases List.mem_cons.mp hx with rfl | hx
  · exact hik
  · exact h x hx

end

end TagMatch
