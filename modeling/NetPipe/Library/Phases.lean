import Mathlib.Data.List.Forall2
import Mathlib.Tactic

/-!
# Programs in phases

Several processes run straight-line programs. Between two collective calls, which all processes
make together, each process exchanges messages with one partner; sends do not block. If the
programs have the same collective calls, if in every phase each process sends what its partner
receives, and if no process waits before it has sent enough, then the processes never all block.
-/

namespace Phases

variable {K C ι : Type*}

/-- What a call does to the other processes. A `wait` blocks like a `recv` but takes nothing. -/
inductive Kind (K : Type*) where
  | quiet
  | send
  | recv
  | wait
  | collective (k : K)
  deriving DecidableEq

/-- The numbers of messages sent and received in a phase. -/
@[ext]
structure Phase where
  sends : ℕ
  recvs : ℕ

/-- Both sides of a phase: each sends what the other receives. -/
def Phase.Dual (a b : Phase) : Prop := a.sends = b.recvs ∧ b.sends = a.recvs

/-- Add messages to the first phase. -/
def bump (s r : ℕ) : List Phase → List Phase
  | [] => []
  | a :: as => ⟨s + a.sends, r + a.recvs⟩ :: as

section

variable (kind : C → Kind K)

/-- The collective calls of a program. -/
def collectives (cs : List C) : List K :=
  cs.filterMap fun c => match kind c with
    | .collective k => some k
    | _ => none

/-- The phases of a program: up to each collective call, and after the last. -/
def phases : List C → List Phase
  | [] => [⟨0, 0⟩]
  | c :: cs => match kind c with
    | .collective _ => ⟨0, 0⟩ :: phases cs
    | .send => bump 1 0 (phases cs)
    | .recv => bump 0 1 (phases cs)
    | .quiet | .wait => phases cs

/-- The first phase of a program. -/
def first (cs : List C) : Phase := (phases kind cs).headD ⟨0, 0⟩

/-- Wherever the program blocks it still has to receive at least as many messages in the phase as
it has to send, and more if `strict`. -/
def Ordered (strict : Bool) : List C → Prop
  | [] => True
  | c :: cs => (kind c = .recv ∨ kind c = .wait → 0 < (first kind (c :: cs)).recvs ∧
      (first kind (c :: cs)).sends + strict.toNat ≤ (first kind (c :: cs)).recvs) ∧
    Ordered strict cs

/-- Two programs are partners, with `x` messages under way from the first to the second and `y`
back. -/
def Paired (x y : ℕ) (cs ds : List C) : Prop :=
  List.Forall₂ Phase.Dual (bump x 0 (phases kind cs)) (bump y 0 (phases kind ds))

end

section

variable {kind : C → Kind K} {x y s r : ℕ} {c d : C} {cs ds : List C} {k : K} {strict : Bool}

lemma bump_bump (s r s' r' : ℕ) (l : List Phase) :
    bump s r (bump s' r' l) = bump (s + s') (r + r') l := by
  cases l with
  | nil => rfl
  | cons a l => simp only [bump, Nat.add_assoc]

@[simp] lemma bump_zero (l : List Phase) : bump 0 0 l = l := by
  cases l with
  | nil => rfl
  | cons a l => simp only [bump, Nat.zero_add]

lemma phases_cons (kind : C → Kind K) (c : C) (cs : List C) :
    phases kind (c :: cs) = match kind c with
      | .collective _ => ⟨0, 0⟩ :: phases kind cs
      | .send => bump 1 0 (phases kind cs)
      | .recv => bump 0 1 (phases kind cs)
      | .quiet | .wait => phases kind cs := rfl

lemma phases_ne_nil (kind : C → Kind K) (cs : List C) : phases kind cs ≠ [] := by
  induction cs with
  | nil => exact List.cons_ne_nil _ _
  | cons c cs ih =>
    obtain ⟨a, l, hl⟩ := List.exists_cons_of_ne_nil ih
    rw [phases_cons]
    cases kind c <;> simp [hl, bump]

lemma first_eq_of_phases {l : List Phase} {a : Phase} (h : phases kind cs = a :: l) :
    first kind cs = a := by
  rw [first, h, List.headD_cons]

lemma phases_eq_cons (kind : C → Kind K) (cs : List C) :
    ∃ l, phases kind cs = first kind cs :: l := by
  obtain ⟨a, l, hl⟩ := List.exists_cons_of_ne_nil (phases_ne_nil kind cs)
  exact ⟨l, by rw [first_eq_of_phases hl, hl]⟩

lemma paired_iff : Paired kind x y cs ds ↔
    List.Forall₂ Phase.Dual (bump x 0 (phases kind cs)) (bump y 0 (phases kind ds)) := Iff.rfl

/-! ### Phases and collective calls of a program -/

@[simp] lemma phases_nil : phases kind [] = [⟨0, 0⟩] := rfl

lemma phases_quiet (h : kind c = .quiet) : phases kind (c :: cs) = phases kind cs := by
  rw [phases_cons, h]

lemma phases_wait (h : kind c = .wait) : phases kind (c :: cs) = phases kind cs := by
  rw [phases_cons, h]

lemma phases_send (h : kind c = .send) : phases kind (c :: cs) = bump 1 0 (phases kind cs) := by
  rw [phases_cons, h]

lemma phases_recv (h : kind c = .recv) : phases kind (c :: cs) = bump 0 1 (phases kind cs) := by
  rw [phases_cons, h]

lemma phases_collective (h : kind c = .collective k) :
    phases kind (c :: cs) = ⟨0, 0⟩ :: phases kind cs := by
  rw [phases_cons, h]

lemma collectives_append (cs ds : List C) :
    collectives kind (cs ++ ds) = collectives kind cs ++ collectives kind ds :=
  List.filterMap_append

lemma collectives_cons_collective (h : kind c = .collective k) :
    collectives kind (c :: cs) = k :: collectives kind cs := by
  rw [collectives, List.filterMap_cons, h]
  rfl

lemma collectives_cons (h : ∀ k, kind c ≠ .collective k) :
    collectives kind (c :: cs) = collectives kind cs := by
  rw [collectives, List.filterMap_cons]
  cases hc : kind c
  case collective k => exact absurd hc (h k)
  all_goals rfl

/-! ### Steps of partners -/

lemma Paired.symm (h : Paired kind x y cs ds) : Paired kind y x ds cs :=
  (List.Forall₂.flip h).imp fun _ _ hab => ⟨hab.2, hab.1⟩

/-- The first call of one partner was quiet or has just returned from waiting. -/
lemma Paired.quiet (hc : kind c = .quiet ∨ kind c = .wait) (h : Paired kind x y (c :: cs) ds) :
    Paired kind x y cs ds := by
  have heq : phases kind (c :: cs) = phases kind cs := by
    rcases hc with hc | hc
    · exact phases_quiet hc
    · exact phases_wait hc
  rwa [paired_iff, heq] at h

/-- One partner sends. -/
lemma Paired.send (hc : kind c = .send) (h : Paired kind x y (c :: cs) ds) :
    Paired kind (x + 1) y cs ds := by
  rwa [paired_iff, phases_send hc, bump_bump, Nat.add_zero] at h

/-- One partner takes a message. -/
lemma Paired.recv (hd : kind d = .recv) (h : Paired kind (x + 1) y cs (d :: ds)) :
    Paired kind x y cs ds := by
  rw [paired_iff, phases_recv hd, bump_bump] at h
  obtain ⟨l, hl⟩ := phases_eq_cons kind cs
  obtain ⟨m, hm⟩ := phases_eq_cons kind ds
  rw [hl, hm] at h
  rw [paired_iff, hl, hm]
  obtain ⟨⟨h₁, h₂⟩, htail⟩ := List.forall₂_cons.mp h
  refine List.forall₂_cons.mpr ⟨⟨?_, ?_⟩, htail⟩
  · simp only at h₁ ⊢
    omega
  · simp only at h₂ ⊢
    omega

/-- Where one partner is at a collective call, nothing is under way towards it, and the other
receives nothing more in this phase. -/
lemma Paired.first (h : Paired kind x y cs ds) :
    x + (first kind cs).sends = (first kind ds).recvs ∧
      y + (first kind ds).sends = (first kind cs).recvs := by
  obtain ⟨l, hl⟩ := phases_eq_cons kind cs
  obtain ⟨m, hm⟩ := phases_eq_cons kind ds
  rw [paired_iff, hl, hm] at h
  obtain ⟨⟨h₁, h₂⟩, -⟩ := List.forall₂_cons.mp h
  simp only [Nat.zero_add] at h₁ h₂
  exact ⟨h₁, h₂⟩

/-- Both partners make a collective call. -/
lemma Paired.collective {k' : K} (hc : kind c = .collective k) (hd : kind d = .collective k')
    (h : Paired kind x y (c :: cs) (d :: ds)) : x = 0 ∧ y = 0 ∧ Paired kind 0 0 cs ds := by
  rw [paired_iff, phases_collective hc, phases_collective hd] at h
  obtain ⟨⟨h₁, h₂⟩, htail⟩ := List.forall₂_cons.mp h
  refine ⟨h₁, h₂, ?_⟩
  rw [paired_iff, bump_zero, bump_zero]
  exact htail

lemma paired_nil (h : Paired kind x y [] []) : x = 0 ∧ y = 0 :=
  h.first

lemma first_nil : first kind [] = ⟨0, 0⟩ := rfl

lemma first_collective (hc : kind c = .collective k) : first kind (c :: cs) = ⟨0, 0⟩ :=
  first_eq_of_phases (phases_collective hc)

lemma first_quiet (hc : kind c = .quiet ∨ kind c = .wait) : first kind (c :: cs) = first kind cs := by
  obtain ⟨l, hl⟩ := phases_eq_cons kind cs
  rcases hc with hc | hc
  · exact first_eq_of_phases ((phases_quiet hc).trans hl)
  · exact first_eq_of_phases ((phases_wait hc).trans hl)

lemma first_recv (hc : kind c = .recv) :
    first kind (c :: cs) = ⟨0 + (first kind cs).sends, 1 + (first kind cs).recvs⟩ := by
  obtain ⟨l, hl⟩ := phases_eq_cons kind cs
  refine first_eq_of_phases (l := l) ?_
  rw [phases_recv hc, hl]
  rfl

/-! ### Programs in order -/

/-- Whether the program has at least as much to receive as to send in its first phase. -/
def Covered (kind : C → Kind K) (cs : List C) : Prop :=
  (first kind cs).sends ≤ (first kind cs).recvs

lemma Ordered.tail (h : Ordered kind strict (c :: cs)) : Ordered kind strict cs := h.2

lemma Ordered.cons (hc : kind c ≠ .recv) (hc' : kind c ≠ .wait) (h : Ordered kind strict cs) :
    Ordered kind strict (c :: cs) :=
  ⟨fun hor => absurd hor (not_or.mpr ⟨hc, hc'⟩), h⟩

lemma Ordered.cons_recv (hc : kind c = .recv)
    (hle : (first kind cs).sends + strict.toNat ≤ (first kind cs).recvs + 1)
    (h : Ordered kind strict cs) : Ordered kind strict (c :: cs) := by
  refine ⟨fun _ => ?_, h⟩
  rw [first_recv hc]
  constructor
  · exact Nat.add_pos_left Nat.one_pos _
  · simp only
    omega

/-- Waiting for the next message. -/
lemma Ordered.cons_wait (hc : kind c = .wait) (hd : kind d = .recv)
    (h : Ordered kind strict (d :: cs)) : Ordered kind strict (c :: d :: cs) := by
  refine ⟨fun _ => ?_, h⟩
  rw [first_quiet (Or.inr hc)]
  exact h.1 (Or.inl hd)

/-! ### Parts of a program -/

lemma phases_append_quiet {qs : List C} (h : ∀ c ∈ qs, kind c = .quiet) :
    phases kind (qs ++ cs) = phases kind cs := by
  induction qs with
  | nil => rfl
  | cons q qs ih =>
    rw [List.cons_append, phases_quiet (h q List.mem_cons_self)]
    exact ih fun c hc => h c (List.mem_cons_of_mem q hc)

lemma first_append_quiet {qs : List C} (h : ∀ c ∈ qs, kind c = .quiet) :
    first kind (qs ++ cs) = first kind cs := by
  obtain ⟨l, hl⟩ := phases_eq_cons kind cs
  exact first_eq_of_phases ((phases_append_quiet h).trans hl)

lemma collectives_eq_nil (h : ∀ c ∈ cs, ∀ k, kind c ≠ .collective k) :
    collectives kind cs = [] := by
  refine List.filterMap_eq_nil_iff.mpr fun c hc => ?_
  cases hkind : kind c
  case collective k => exact absurd hkind (h c hc k)
  all_goals rfl

lemma collectives_quiet {qs : List C} (h : ∀ c ∈ qs, kind c = .quiet) :
    collectives kind qs = [] :=
  collectives_eq_nil fun c hc k => by rw [h c hc]; nofun

lemma ordered_append_quiet {qs : List C} (h : ∀ c ∈ qs, kind c = .quiet)
    (hcs : Ordered kind strict cs) : Ordered kind strict (qs ++ cs) := by
  induction qs with
  | nil => exact hcs
  | cons q qs ih =>
    have hq := h q List.mem_cons_self
    exact .cons (by rw [hq]; exact nofun) (by rw [hq]; exact nofun)
      (ih fun c hc => h c (List.mem_cons_of_mem q hc))

/-- The phases of a loop whose passes stay in one phase. -/
lemma phases_loop {body : ℕ → List C}
    (h : ∀ j cs, phases kind (body j ++ cs) = bump s r (phases kind cs)) (js : List ℕ) :
    phases kind (js.flatMap body ++ cs) =
      bump (js.length * s) (js.length * r) (phases kind cs) := by
  induction js with
  | nil => simp
  | cons j js ih =>
    rw [List.flatMap_cons, List.append_assoc, h, ih, bump_bump, List.length_cons, Nat.succ_mul,
      Nat.succ_mul, Nat.add_comm s, Nat.add_comm r]

/-- A loop is in order if each pass is, in front of any program that is in order and balanced. -/
lemma ordered_loop {body : ℕ → List C}
    (h : ∀ j cs, Ordered kind strict cs → Covered kind cs →
      Ordered kind strict (body j ++ cs) ∧ Covered kind (body j ++ cs))
    (hcs : Ordered kind strict cs) (hb : Covered kind cs) (js : List ℕ) :
    Ordered kind strict (js.flatMap body ++ cs) ∧ Covered kind (js.flatMap body ++ cs) := by
  induction js with
  | nil => exact ⟨hcs, hb⟩
  | cons j js ih =>
    rw [List.flatMap_cons, List.append_assoc]
    exact h j _ ih.1 ih.2

end

/-! ### Steps of one of several processes -/

section

variable [DecidableEq ι] {kind : C → Kind K} {todo : ι → List C} {pair : ι → ι} {flight : ι → ℕ}
  {p : ι} {c : C} {cs : List C}

/-- A quiet call, or the end of a wait, keeps all partners paired. -/
lemma paired_quiet
    (h : ∀ q, Paired kind (flight q) (flight (pair q)) (todo q) (todo (pair q)))
    (htodo : todo p = c :: cs) (hc : kind c = .quiet ∨ kind c = .wait) (q : ι) :
    Paired kind (flight q) (flight (pair q)) (Function.update todo p cs q)
      (Function.update todo p cs (pair q)) := by
  have hq := h q
  by_cases hqp : q = p <;> by_cases hpq : pair q = p
  · subst hqp
    rw [hpq, htodo] at hq
    rw [hpq, Function.update_self]
    exact ((hq.quiet hc).symm.quiet hc).symm
  · subst hqp
    rw [htodo] at hq
    rw [Function.update_self, Function.update_of_ne hpq]
    exact hq.quiet hc
  · rw [hpq, htodo] at hq
    rw [hpq, Function.update_self, Function.update_of_ne hqp]
    exact (hq.symm.quiet hc).symm
  · rw [Function.update_of_ne hqp, Function.update_of_ne hpq]
    exact hq

/-- A send keeps all partners paired. -/
lemma paired_send
    (h : ∀ q, Paired kind (flight q) (flight (pair q)) (todo q) (todo (pair q)))
    (htodo : todo p = c :: cs) (hc : kind c = .send) (q : ι) :
    Paired kind (Function.update flight p (flight p + 1) q)
      (Function.update flight p (flight p + 1) (pair q)) (Function.update todo p cs q)
      (Function.update todo p cs (pair q)) := by
  have hq := h q
  by_cases hqp : q = p <;> by_cases hpq : pair q = p
  · subst hqp
    rw [hpq, htodo] at hq
    rw [hpq, Function.update_self, Function.update_self]
    exact ((hq.send hc).symm.send hc).symm
  · subst hqp
    rw [htodo] at hq
    rw [Function.update_self, Function.update_self, Function.update_of_ne hpq,
      Function.update_of_ne hpq]
    exact hq.send hc
  · rw [hpq, htodo] at hq
    rw [hpq, Function.update_self, Function.update_self, Function.update_of_ne hqp,
      Function.update_of_ne hqp]
    exact (hq.symm.send hc).symm
  · rw [Function.update_of_ne hqp, Function.update_of_ne hpq, Function.update_of_ne hqp,
      Function.update_of_ne hpq]
    exact hq

/-- A receive keeps all partners paired. -/
lemma paired_recv (hpair : ∀ q, pair (pair q) = q)
    (h : ∀ q, Paired kind (flight q) (flight (pair q)) (todo q) (todo (pair q)))
    (htodo : todo p = c :: cs) (hc : kind c = .recv) {k : ℕ} (hk : flight (pair p) = k + 1)
    (q : ι) :
    Paired kind (Function.update flight (pair p) k q)
      (Function.update flight (pair p) k (pair q)) (Function.update todo p cs q)
      (Function.update todo p cs (pair q)) := by
  have hq := h q
  have hinj : pair q = pair p ↔ q = p :=
    ⟨fun h => by rw [← hpair q, h, hpair], fun h => by rw [h]⟩
  have hcross : pair q = p ↔ q = pair p :=
    ⟨fun h => by rw [← h, hpair], fun h => by rw [h, hpair]⟩
  by_cases hqp : q = p <;> by_cases hpq : pair q = p
  · subst hqp
    rw [hpq] at hk
    rw [hpq, htodo, hk] at hq
    rw [hpq, Function.update_self, Function.update_self]
    exact ((hq.recv hc).symm.recv hc).symm
  · subst hqp
    rw [htodo, hk] at hq
    rw [Function.update_self, Function.update_self, Function.update_of_ne hpq,
      Function.update_of_ne (fun h => hpq h.symm)]
    exact (hq.symm.recv hc).symm
  · have hq' := hcross.mp hpq
    rw [hpq, htodo, hq', hk] at hq
    rw [hpq, hq', Function.update_self, Function.update_self, Function.update_of_ne,
      Function.update_of_ne]
    · exact hq.recv hc
    · exact fun h => hqp (hq'.trans h)
    · exact fun h => hqp (hq'.trans h.symm)
  · rw [Function.update_of_ne (fun h => hpq (hcross.mpr h)),
      Function.update_of_ne (fun h => hqp (hinj.mp h)), Function.update_of_ne hqp,
      Function.update_of_ne hpq]
    exact hq

end

/-! ### Progress -/

/-- A process whose next call is not a collective one can make it. -/
def CanMove (kind : C → Kind K) (todo : ι → List C) (pair : ι → ι) (flight : ι → ℕ) (p : ι) :
    Prop :=
  ∃ c cs, todo p = c :: cs ∧ (kind c = .quiet ∨ kind c = .send ∨
    (kind c = .recv ∨ kind c = .wait) ∧ 0 < flight (pair p))

section

variable {kind : C → Kind K} {todo : ι → List C} {pair : ι → ι} {flight : ι → ℕ}
  {strict : ι → Bool}

/-- A process that cannot move is done, at a collective call, or blocked with nothing under way
to it. -/
lemma not_canMove {p : ι} (h : ¬ CanMove kind todo pair flight p) :
    todo p = [] ∨ (∃ c cs k, todo p = c :: cs ∧ kind c = .collective k) ∨
      ∃ c cs, todo p = c :: cs ∧ (kind c = .recv ∨ kind c = .wait) ∧ flight (pair p) = 0 := by
  cases htodo : todo p with
  | nil => exact Or.inl rfl
  | cons c cs =>
    refine Or.inr ?_
    cases hc : kind c with
    | quiet => exact absurd ⟨c, cs, htodo, Or.inl hc⟩ h
    | send => exact absurd ⟨c, cs, htodo, Or.inr (Or.inl hc)⟩ h
    | collective k => exact Or.inl ⟨c, cs, k, rfl, hc⟩
    | recv =>
      refine Or.inr ⟨c, cs, rfl, Or.inl hc, Nat.eq_zero_of_not_pos fun hpos => h ?_⟩
      exact ⟨c, cs, htodo, Or.inr (Or.inr ⟨Or.inl hc, hpos⟩)⟩
    | wait =>
      refine Or.inr ⟨c, cs, rfl, Or.inr hc, Nat.eq_zero_of_not_pos fun hpos => h ?_⟩
      exact ⟨c, cs, htodo, Or.inr (Or.inr ⟨Or.inr hc, hpos⟩)⟩

/-- Partners do not both block, and no process blocks on a partner that has nothing left to send:
if no process can move, all are at the same collective call or all are done. -/
theorem progress (hpair : ∀ p, pair (pair p) = p)
    (hpaired : ∀ p, Paired kind (flight p) (flight (pair p)) (todo p) (todo (pair p)))
    (hordered : ∀ p, Ordered kind (strict p) (todo p))
    (hstrict : ∀ p, strict p = true ∨ strict (pair p) = true)
    (hsame : ∀ p q, collectives kind (todo p) = collectives kind (todo q))
    (hstuck : ∀ p, ¬ CanMove kind todo pair flight p) :
    (∃ k, ∀ p, ∃ c cs, todo p = c :: cs ∧ kind c = .collective k) ∨ ∀ p, todo p = [] := by
  -- where a process blocks, its partner has a message left to send
  have hblocked : ∀ p c cs, todo p = c :: cs → (kind c = .recv ∨ kind c = .wait) →
      flight (pair p) = 0 → 0 < (first kind (todo (pair p))).sends ∧
        (first kind (todo p)).sends + (strict p).toNat ≤ (first kind (todo (pair p))).sends := by
    intro p c cs htodo hc hflight
    have hord := hordered p
    rw [htodo] at hord
    obtain ⟨hpos, hle⟩ := hord.1 hc
    have hrecvs := (hpaired p).first.2
    rw [hflight, Nat.zero_add] at hrecvs
    rw [hrecvs, htodo]
    exact ⟨hpos, hle⟩
  have hopen : ∀ p, todo p = [] ∨ ∃ c cs k, todo p = c :: cs ∧ kind c = .collective k := by
    intro p
    rcases not_canMove (hstuck p) with hnil | hcoll | ⟨c, cs, htodo, hc, hflight⟩
    · exact Or.inl hnil
    · exact Or.inr hcoll
    · exfalso
      obtain ⟨hpos, hle⟩ := hblocked p c cs htodo hc hflight
      rcases not_canMove (hstuck (pair p)) with hnil | ⟨d, ds, k, hd, hk⟩ | ⟨d, ds, hd, hk, hflight'⟩
      · rw [hnil, first_nil] at hpos
        exact absurd hpos (Nat.lt_irrefl 0)
      · rw [hd, first_collective hk] at hpos
        exact absurd hpos (Nat.lt_irrefl 0)
      · obtain ⟨-, hle'⟩ := hblocked (pair p) d ds hd hk hflight'
        rw [hpair] at hle'
        have hone : 0 < (strict p).toNat + (strict (pair p)).toNat := by
          rcases hstrict p with hs | hs <;> simp [hs]
        omega
  by_cases hall : ∀ p, todo p = []
  · exact Or.inr hall
  · push Not at hall
    obtain ⟨p, hp⟩ := hall
    obtain ⟨c, cs, k, htodo, hk⟩ := (hopen p).resolve_left hp
    refine Or.inl ⟨k, fun q => ?_⟩
    have heq := hsame p q
    rw [htodo, collectives_cons_collective hk] at heq
    rcases hopen q with hnil | ⟨d, ds, k', hd, hk'⟩
    · rw [hnil] at heq
      cases heq
    · rw [hd, collectives_cons_collective hk'] at heq
      injection heq with hkk
      exact ⟨d, ds, hd, hkk ▸ hk'⟩

end

end Phases
