import Mathlib.Tactic

/-!
# Procedures under interrupts

Procedures with early returns run on a stack. Between any two steps an interrupt may come, if the
state has interrupts enabled: it calls the handler, and when the handler returns the interrupted
program goes on. A weakest precondition whose assertions survive what an interrupt may change,
with a contract for every procedure, carries over to all runs.
-/

namespace NetPipe.Interrupts

/-- A command: `ret` leaves the running procedure, `exit` ends the process. -/
inductive Cmd (σ π : Type*) where
  | skip : Cmd σ π
  | ret : Cmd σ π
  | exit : Cmd σ π
  | op (f : σ → σ) : Cmd σ π
  | seq (c d : Cmd σ π) : Cmd σ π
  | cond (b : σ → Bool) (c d : Cmd σ π) : Cmd σ π
  | choice (c d : Cmd σ π) : Cmd σ π
  | loop (c : Cmd σ π) : Cmd σ π
  | call (p : π) : Cmd σ π

namespace Cmd

variable {σ π : Type*}

/-- One command after another. -/
def body : List (Cmd σ π) → Cmd σ π
  | [] => skip
  | [c] => c
  | c :: d :: l => seq c (body (d :: l))

/-- One of the commands. -/
def oneOf : List (Cmd σ π) → Cmd σ π
  | [] => skip
  | [c] => c
  | c :: d :: l => choice c (oneOf (d :: l))

/-- The command or nothing. -/
def maybe (c : Cmd σ π) : Cmd σ π := choice c skip

/-- The command may return from its procedure. -/
def hasRet : Cmd σ π → Bool
  | ret => true
  | seq c d | cond _ c d | choice c d => hasRet c || hasRet d
  | loop c => hasRet c
  | _ => false

end Cmd

/-- Procedures, and how an interrupt is taken: it changes the state by `enter`, and `leave` gets
the state at the time of the interrupt back beside the present one. -/
structure Program (σ π : Type*) where
  code : π → Cmd σ π
  handler : π
  enabled : σ → Bool
  enter : σ → σ
  leave : σ → σ → σ

/-- What is left to do: a command, the end of a procedure, the return from an interrupt. -/
inductive Frame (σ π : Type*) where
  | cmd (c : Cmd σ π) : Frame σ π
  | fn : Frame σ π
  | iret (saved : σ) : Frame σ π

variable {σ π : Type*}

/-- Leave the running procedure. -/
def unwind : List (Frame σ π) → List (Frame σ π)
  | [] => []
  | .cmd _ :: k => unwind k
  | .fn :: k => k
  | .iret s :: k => .iret s :: k

/-- One step. With an empty stack the main program is outside the procedures, and calls one of
those it may. -/
inductive Step (P : Program σ π) (allowed : π → Prop) :
    List (Frame σ π) → σ → List (Frame σ π) → σ → Prop where
  | top (s : σ) {p : π} (hp : allowed p) : Step P allowed [] s [.cmd (.call p)] s
  | interrupt (k : List (Frame σ π)) {s : σ} (he : P.enabled s = true) :
      Step P allowed k s (.cmd (.call P.handler) :: .iret s :: k) (P.enter s)
  | iret (saved : σ) (k : List (Frame σ π)) (s : σ) :
      Step P allowed (.iret saved :: k) s k (P.leave saved s)
  | fn (k : List (Frame σ π)) (s : σ) : Step P allowed (.fn :: k) s k s
  | skip (k : List (Frame σ π)) (s : σ) : Step P allowed (.cmd .skip :: k) s k s
  | ret (k : List (Frame σ π)) (s : σ) : Step P allowed (.cmd .ret :: k) s (unwind k) s
  | op (f : σ → σ) (k : List (Frame σ π)) (s : σ) : Step P allowed (.cmd (.op f) :: k) s k (f s)
  | seq (c d : Cmd σ π) (k : List (Frame σ π)) (s : σ) :
      Step P allowed (.cmd (.seq c d) :: k) s (.cmd c :: .cmd d :: k) s
  | cond (b : σ → Bool) (c d : Cmd σ π) (k : List (Frame σ π)) (s : σ) :
      Step P allowed (.cmd (.cond b c d) :: k) s (.cmd (if b s then c else d) :: k) s
  | left (c d : Cmd σ π) (k : List (Frame σ π)) (s : σ) :
      Step P allowed (.cmd (.choice c d) :: k) s (.cmd c :: k) s
  | right (c d : Cmd σ π) (k : List (Frame σ π)) (s : σ) :
      Step P allowed (.cmd (.choice c d) :: k) s (.cmd d :: k) s
  | stop (c : Cmd σ π) (k : List (Frame σ π)) (s : σ) :
      Step P allowed (.cmd (.loop c) :: k) s k s
  | more (c : Cmd σ π) (k : List (Frame σ π)) (s : σ) :
      Step P allowed (.cmd (.loop c) :: k) s (.cmd c :: .cmd (.loop c) :: k) s
  | call (p : π) (k : List (Frame σ π)) (s : σ) :
      Step P allowed (.cmd (.call p) :: k) s (.cmd (P.code p) :: .fn :: k) s

/-- The states of the runs from `s₀`, outside all procedures. -/
inductive Reachable (P : Program σ π) (allowed : π → Prop) (s₀ : σ) :
    List (Frame σ π) → σ → Prop where
  | start : Reachable P allowed s₀ [] s₀
  | step {k k' : List (Frame σ π)} {s s' : σ} (h : Reachable P allowed s₀ k s)
      (hstep : Step P allowed k s k' s') : Reachable P allowed s₀ k' s'

/-- What a procedure needs and what it leaves. -/
structure Contract (σ π : Type*) where
  pre : π → σ → Prop
  post : π → σ → σ → Prop

section Wp

variable (K : Contract σ π) (Δ : σ → σ → Prop) (J : σ → Prop)

/-- `Q` holds whatever interrupts do, and `J` too. -/
def Held (Q : σ → Prop) (s : σ) : Prop := ∀ s', Δ s s' → J s' ∧ Q s'

/-- An assertion that interrupts keep, and that contains `J`. -/
def Stable (Q : σ → Prop) : Prop := ∀ s, Q s → Held Δ J Q s

/-- What must hold before `c` for `Q` to hold at its end and `R` where it returns. -/
def wp : Cmd σ π → (σ → Prop) → (σ → Prop) → σ → Prop
  | .skip, Q, _ => Q
  | .ret, _, R => R
  | .exit, _, _ => Held Δ J fun _ => True
  | .op f, Q, _ => Held Δ J fun s => Q (f s)
  | .seq c d, Q, R => wp c (wp d Q R) R
  | .cond b c d, Q, R => Held Δ J fun s => if b s then wp c Q R s else wp d Q R s
  | .choice c d, Q, R => fun s => wp c Q R s ∧ wp d Q R s
  | .loop c, Q, R => fun s => ∃ I, Stable Δ J I ∧ I s ∧ ∀ t, I t → Q t ∧ wp c I R t
  | .call p, Q, _ => Held Δ J fun s => K.pre p s ∧ ∀ t, K.post p s t → Q t

/-- Every procedure keeps its contract. -/
def Meets (P : Program σ π) : Prop :=
  ∀ p s, J s → K.pre p s → wp K Δ J (P.code p) (Held Δ J (K.post p s)) (Held Δ J (K.post p s)) s

/-- The handler may be entered wherever interrupts are enabled, and the interrupted program sees
no more than `Δ`. -/
def Interruptible (P : Program σ π) : Prop :=
  ∀ s, J s → P.enabled s = true → Held Δ J (fun u => K.pre P.handler u ∧
    ∀ t, K.post P.handler u t → Held Δ J (fun t' => Δ s (P.leave s t')) t) (P.enter s)

variable {K Δ J} {Q Q' R R' : σ → Prop}

@[simp] lemma wp_skip : wp K Δ J .skip Q R = Q := rfl

@[simp] lemma wp_ret : wp K Δ J .ret Q R = R := rfl

@[simp] lemma wp_exit : wp K Δ J .exit Q R = Held Δ J fun _ => True := rfl

@[simp] lemma wp_op (f : σ → σ) : wp K Δ J (.op f) Q R = Held Δ J fun s => Q (f s) := rfl

@[simp] lemma wp_seq (c d : Cmd σ π) : wp K Δ J (.seq c d) Q R = wp K Δ J c (wp K Δ J d Q R) R :=
  rfl

@[simp] lemma wp_cond (b : σ → Bool) (c d : Cmd σ π) :
    wp K Δ J (.cond b c d) Q R =
      Held Δ J fun s => if b s then wp K Δ J c Q R s else wp K Δ J d Q R s := rfl

@[simp] lemma wp_choice (c d : Cmd σ π) :
    wp K Δ J (.choice c d) Q R = fun s => wp K Δ J c Q R s ∧ wp K Δ J d Q R s := rfl

@[simp] lemma wp_maybe (c : Cmd σ π) :
    wp K Δ J (.maybe c) Q R = fun s => wp K Δ J c Q R s ∧ Q s := rfl

@[simp] lemma wp_call (p : π) :
    wp K Δ J (.call p) Q R = Held Δ J fun s => K.pre p s ∧ ∀ t, K.post p s t → Q t := rfl

@[simp] lemma wp_body_cons (c d : Cmd σ π) (l : List (Cmd σ π)) :
    wp K Δ J (.body (c :: d :: l)) Q R = wp K Δ J c (wp K Δ J (.body (d :: l)) Q R) R := rfl

lemma wp_body_cons_of_ne_nil (c : Cmd σ π) {l : List (Cmd σ π)} (hl : l ≠ []) :
    wp K Δ J (.body (c :: l)) Q R = wp K Δ J c (wp K Δ J (.body l) Q R) R := by
  cases l with
  | nil => exact absurd rfl hl
  | cons d l => rfl

@[simp] lemma wp_body_singleton (c : Cmd σ π) : wp K Δ J (.body [c]) Q R = wp K Δ J c Q R := rfl

lemma Held.mono {s : σ} (h : Held Δ J Q s) (hQ : ∀ t, Q t → Q' t) : Held Δ J Q' s :=
  fun t ht => ⟨(h t ht).1, hQ t (h t ht).2⟩

lemma Held.self {s : σ} (hrefl : ∀ s, Δ s s) (h : Held Δ J Q s) : J s ∧ Q s := h s (hrefl s)

lemma stable_held (htrans : ∀ s t u, Δ s t → Δ t u → Δ s u) : Stable Δ J (Held Δ J Q) :=
  fun s h t ht => ⟨(h t ht).1, fun u hu => h u (htrans s t u ht hu)⟩

lemma Stable.and (hQ : Stable Δ J Q) (hQ' : Stable Δ J Q') :
    Stable Δ J fun s => Q s ∧ Q' s := by
  intro s h t ht
  exact ⟨(hQ s h.1 t ht).1, (hQ s h.1 t ht).2, (hQ' s h.2 t ht).2⟩

lemma wp_mono {c : Cmd σ π} {s : σ} (h : wp K Δ J c Q R s) (hQ : ∀ t, Q t → Q' t)
    (hR : ∀ t, R t → R' t) : wp K Δ J c Q' R' s := by
  induction c generalizing Q Q' s with
  | skip => exact hQ s h
  | ret => exact hR s h
  | exit => exact h
  | op f => exact h.mono fun t => hQ (f t)
  | seq c d ihc ihd => exact ihc h fun t ht => ihd ht hQ
  | cond b c d ihc ihd =>
    refine h.mono fun t ht => ?_
    split
    · exact ihc (by rwa [if_pos ‹_›] at ht) hQ
    · exact ihd (by rwa [if_neg ‹_›] at ht) hQ
  | choice c d ihc ihd => exact ⟨ihc h.1 hQ, ihd h.2 hQ⟩
  | loop c ih =>
    obtain ⟨I, hI, hs, hloop⟩ := h
    exact ⟨I, hI, hs, fun t ht => ⟨hQ t (hloop t ht).1, ih (hloop t ht).2 fun _ h => h⟩⟩
  | call p => exact h.mono fun t ht => ⟨ht.1, fun u hu => hQ u (ht.2 u hu)⟩

/-- A weakest precondition is kept by interrupts if both ways out are. -/
lemma stable_wp (htrans : ∀ s t u, Δ s t → Δ t u → Δ s u) (c : Cmd σ π) (hQ : Stable Δ J Q)
    (hR : Stable Δ J R) : Stable Δ J (wp K Δ J c Q R) := by
  induction c generalizing Q with
  | skip => exact hQ
  | ret => exact hR
  | exit => exact stable_held htrans
  | op f => exact stable_held htrans
  | seq c d ihc ihd => exact ihc (ihd hQ)
  | cond b c d => exact stable_held htrans
  | choice c d ihc ihd => exact (ihc hQ).and (ihd hQ)
  | loop c =>
    rintro s ⟨I, hI, hs, hloop⟩ t ht
    exact ⟨(hI s hs t ht).1, I, hI, (hI s hs t ht).2, hloop⟩
  | call p => exact stable_held htrans

/-- The assertions that the rest of a run relies on: at the end of the first frame, and where its
procedure returns. -/
def posts (K : Contract σ π) (Δ : σ → σ → Prop) (J : σ → Prop) (P : Program σ π)
    (Idle : σ → Prop) : List (Frame σ π) → (σ → Prop) × (σ → Prop)
  | [] => (Held Δ J Idle, Held Δ J Idle)
  | .cmd c :: k =>
      (wp K Δ J c (posts K Δ J P Idle k).1 (posts K Δ J P Idle k).2, (posts K Δ J P Idle k).2)
  | .fn :: k => ((posts K Δ J P Idle k).1, (posts K Δ J P Idle k).1)
  | .iret s :: k =>
      (Held Δ J fun t => (posts K Δ J P Idle k).1 (P.leave s t),
        Held Δ J fun t => (posts K Δ J P Idle k).1 (P.leave s t))

variable {P : Program σ π} {Idle : σ → Prop} {allowed : π → Prop} {s₀ : σ}

lemma posts_unwind (k : List (Frame σ π)) :
    (posts K Δ J P Idle (unwind k)).1 = (posts K Δ J P Idle k).2 := by
  induction k with
  | nil => rfl
  | cons f k ih =>
    cases f with
    | cmd c => exact ih
    | fn => rfl
    | iret s => rfl

lemma stable_posts (htrans : ∀ s t u, Δ s t → Δ t u → Δ s u) (k : List (Frame σ π)) :
    Stable Δ J (posts K Δ J P Idle k).1 ∧ Stable Δ J (posts K Δ J P Idle k).2 := by
  induction k with
  | nil => exact ⟨stable_held htrans, stable_held htrans⟩
  | cons f k ih =>
    cases f with
    | cmd c => exact ⟨stable_wp htrans c ih.1 ih.2, ih.2⟩
    | fn => exact ⟨ih.1, ih.1⟩
    | iret s => exact ⟨stable_held htrans, stable_held htrans⟩

/-- One step keeps what the rest of the run relies on. -/
lemma Step.posts (hrefl : ∀ s, Δ s s) (htrans : ∀ s t u, Δ s t → Δ t u → Δ s u)
    (hmeets : Meets K Δ J P) (hint : Interruptible K Δ J P)
    (htop : ∀ p s, allowed p → Idle s → K.pre p s ∧ ∀ t, K.post p s t → Held Δ J Idle t)
    {k k' : List (Frame σ π)} {s s' : σ} (hstep : Step P allowed k s k' s')
    (h : (posts K Δ J P Idle k).1 s) : (Interrupts.posts K Δ J P Idle k').1 s' := by
  cases hstep with
  | top _ hp =>
    intro t ht
    refine ⟨(h t ht).1, (htop _ t hp (h t ht).2).1, ?_⟩
    exact (htop _ t hp (h t ht).2).2
  | interrupt _ he =>
    have hstable : Stable Δ J (Interrupts.posts K Δ J P Idle k).1 := (stable_posts htrans k).1
    have hJ : J s := ((hstable s h).self hrefl).1
    refine (hint s hJ he).mono fun u hu => ⟨hu.1, fun t ht => (hu.2 t ht).mono fun t' ht' => ?_⟩
    exact (hstable s h _ ht').2
  | iret saved => exact (h.self hrefl).2
  | fn => exact h
  | skip => exact h
  | ret =>
    rw [posts_unwind]
    exact h
  | op f => exact (h.self hrefl).2
  | seq c d => exact h
  | cond b c d =>
    have hb := (h.self hrefl).2
    split
    · rwa [if_pos ‹_›] at hb
    · rwa [if_neg ‹_›] at hb
  | left c d => exact h.1
  | right c d => exact h.2
  | stop c =>
    obtain ⟨I, -, hs, hloop⟩ := h
    exact (hloop s hs).1
  | more c =>
    obtain ⟨I, hI, hs, hloop⟩ := h
    exact wp_mono (hloop s hs).2 (fun t ht => ⟨I, hI, ht, hloop⟩) fun _ ht => ht
  | call p k =>
    obtain ⟨hJ, hpre, hpost⟩ := h.self hrefl
    have hend : ∀ t, Held Δ J (K.post p s) t → (Interrupts.posts K Δ J P Idle k).1 t :=
      fun t ht => hpost t (ht.self hrefl).2
    exact wp_mono (hmeets p s hJ hpre) hend hend

/-- In every run `J` holds throughout, and `Idle` whenever no procedure is running. -/
theorem Reachable.sound (hrefl : ∀ s, Δ s s) (htrans : ∀ s t u, Δ s t → Δ t u → Δ s u)
    (hmeets : Meets K Δ J P) (hint : Interruptible K Δ J P)
    (htop : ∀ p s, allowed p → Idle s → K.pre p s ∧ ∀ t, K.post p s t → Held Δ J Idle t)
    (hinit : Held Δ J Idle s₀) {k : List (Frame σ π)} {s : σ}
    (h : Reachable P allowed s₀ k s) : J s ∧ (k = [] → Idle s) := by
  have hposts : (posts K Δ J P Idle k).1 s := by
    induction h with
    | start => exact hinit
    | step _ hstep ih => exact hstep.posts hrefl htrans hmeets hint htop ih
  refine ⟨(((stable_posts htrans k).1 s hposts).self hrefl).1, ?_⟩
  rintro rfl
  exact (hposts.self hrefl).2

end Wp

end NetPipe.Interrupts
