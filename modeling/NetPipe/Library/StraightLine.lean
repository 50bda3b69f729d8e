import Mathlib.Logic.Relation
import Mathlib.Data.List.Range
import Mathlib.Tactic

/-!
# Straight-line programs in an environment

A program is a list of calls. Before, between and after the calls the environment may change the
state. `Safe` says that every call meets its contract whatever the environment and the calls
choose; the rules below derive it for sequences and counted loops.
-/

namespace StraightLine

open Relation

variable {C S : Type*}

/-- What a program is run with: the changes the environment may make, the effect of a call and
the contract under which it may be made. -/
structure Machine (C S : Type*) where
  env : S → S → Prop
  step : C → S → S → Prop
  ok : C → S → Prop

/-- A condition the environment cannot break. -/
def Machine.Stable (m : Machine C S) (P : S → Prop) : Prop := ∀ s s', P s → m.env s s' → P s'

/-- From `s` every call of the program meets its contract, and the final states satisfy `Q`. -/
def Safe (m : Machine C S) : List C → (S → Prop) → S → Prop
  | [], Q, s => ∀ s₁, ReflTransGen m.env s s₁ → Q s₁
  | c :: cs, Q, s =>
    ∀ s₁, ReflTransGen m.env s s₁ → m.ok c s₁ ∧ ∀ s₂, m.step c s₁ s₂ → Safe m cs Q s₂

/-- A program started in a state with `P` is safe and ends in one with `Q`. -/
def Triple (m : Machine C S) (P : S → Prop) (cs : List C) (Q : S → Prop) : Prop :=
  ∀ s, P s → Safe m cs Q s

section

variable {m : Machine C S} {P P' Q Q' R : S → Prop} {cs cs' : List C} {c : C} {s s' : S}

lemma Machine.Stable.reflTransGen (h : m.Stable P) (hs : P s) (hrun : ReflTransGen m.env s s') :
    P s' := by
  induction hrun with
  | refl => exact hs
  | tail _ hstep ih => exact h _ _ ih hstep

/-! ### Safe states -/

/-- Changes of the environment keep a state safe. -/
lemma Safe.env (h : Safe m cs Q s) (hs : m.env s s') : Safe m cs Q s' := by
  cases cs with
  | nil => exact fun s₁ h₁ => h s₁ (.head hs h₁)
  | cons c cs => exact fun s₁ h₁ => h s₁ (.head hs h₁)

/-- The next call of a safe program meets its contract. -/
lemma Safe.ok (h : Safe m (c :: cs) Q s) : m.ok c s := (h s .refl).1

/-- A step of a safe program leaves a safe program. -/
lemma Safe.step (h : Safe m (c :: cs) Q s) (hs : m.step c s s') : Safe m cs Q s' :=
  (h s .refl).2 s' hs

lemma Safe.post (h : Safe m [] Q s) : Q s := h s .refl

lemma Safe.mono (hQ : ∀ s, Q s → Q' s) (h : Safe m cs Q s) : Safe m cs Q' s := by
  induction cs generalizing s with
  | nil => exact fun s₁ h₁ => hQ s₁ (h s₁ h₁)
  | cons c cs ih => exact fun s₁ h₁ => ⟨(h s₁ h₁).1, fun s₂ h₂ => ih ((h s₁ h₁).2 s₂ h₂)⟩

lemma Safe.append (h : Safe m cs (Safe m cs' Q) s) : Safe m (cs ++ cs') Q s := by
  induction cs generalizing s with
  | nil => exact h s .refl
  | cons c cs ih => exact fun s₁ h₁ => ⟨(h s₁ h₁).1, fun s₂ h₂ => ih ((h s₁ h₁).2 s₂ h₂)⟩

/-! ### Rules -/

lemma Triple.nil (hP : m.Stable P) : Triple m P [] P :=
  fun _ hs _ h₁ => hP.reflTransGen hs h₁

/-- The rule of a single call. -/
lemma Triple.call (hP : m.Stable P) (hQ : m.Stable Q) (hok : ∀ s, P s → m.ok c s)
    (hstep : ∀ s s', P s → m.step c s s' → Q s') : Triple m P [c] Q := by
  intro s hs s₁ h₁
  have hs₁ := hP.reflTransGen hs h₁
  exact ⟨hok s₁ hs₁, fun s₂ h₂ _ h₃ => hQ.reflTransGen (hstep s₁ s₂ hs₁ h₂) h₃⟩

lemma Triple.append (h : Triple m P cs Q) (h' : Triple m Q cs' R) : Triple m P (cs ++ cs') R :=
  fun s hs => ((h s hs).mono h').append

lemma Triple.cons (h : Triple m P [c] Q) (h' : Triple m Q cs R) : Triple m P (c :: cs) R :=
  Triple.append h h'

/-- The rule of consequence. -/
lemma Triple.weaken (hP : ∀ s, P' s → P s) (hQ : ∀ s, Q s → Q' s) (h : Triple m P cs Q) :
    Triple m P' cs Q' :=
  fun s hs => (h s (hP s hs)).mono hQ

/-- The rule of a conditional part of a program. -/
lemma Triple.ite {b : Bool} (h : b = true → Triple m P cs Q) (h' : b = false → Triple m P cs' Q) :
    Triple m P (if b then cs else cs') Q := by
  cases b with
  | true => exact h rfl
  | false => exact h' rfl

/-- The rule of a counted loop: `I j` holds before the `j`-th pass. -/
lemma Triple.range {I : ℕ → S → Prop} {body : ℕ → List C} {n : ℕ} (hI : m.Stable (I 0))
    (hbody : ∀ j < n, Triple m (I j) (body j) (I (j + 1))) :
    Triple m (I 0) ((List.range n).flatMap body) (I n) := by
  induction n with
  | zero => exact .nil hI
  | succ n ih =>
    rw [List.range_succ, List.flatMap_append, List.flatMap_singleton]
    exact (ih fun j hj => hbody j (Nat.lt_succ_of_lt hj)).append (hbody n (Nat.lt_succ_self n))

end

end StraightLine
