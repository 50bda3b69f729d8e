import NetPipe.MpLite.SignalBalance

/-!
# Protected sections

`start_protect_from_sig_handler` and `stop_protect_from_sig_handler` keep the body of
`sigio_handler` out with one flag. The flag is watched here while a program opens and closes
brackets, with `SIGIO` arriving at any time: how many brackets are open, whether a signal that
arrived inside still waits for the body, and whether the protection has failed.
-/

namespace NetPipe.MpLite

open Interrupts Interrupts.Cmd

/-- A program of brackets: `work` may print, and leaves the flag alone. -/
inductive Sections where
  | done
  | work (rest : Sections)
  | protect (inner rest : Sections)
  deriving DecidableEq, Repr

namespace Sections

/-- `MP_Malloc`, which `mplite.h` puts in the place of `malloc`. -/
def mpMalloc (rest : Sections) : Sections := protect done rest

/-- `MP_Free`, in the place of `free`. -/
def mpFree (rest : Sections) : Sections := protect done rest

/-- `add_msgid`. -/
def addMsgid (rest : Sections) : Sections := protect (work (mpMalloc (work done))) rest

/-- `rem_msgid` where the id is found. -/
def remMsgid (rest : Sections) : Sections := protect (work (mpFree (work done))) rest

/-- `show_head_msgid`. -/
def showHeadMsgid (rest : Sections) : Sections := protect (work (work done)) rest

/-- The program opens a bracket. -/
def hasProtect : Sections → Bool
  | done => false
  | work rest => rest.hasProtect
  | protect _ _ => true

/-- No bracket is opened inside another. -/
def flat : Sections → Bool
  | done => true
  | work rest => rest.flat
  | protect inner rest => !inner.hasProtect && rest.flat

end Sections

/-- The signals, the number of open brackets, whether a signal that arrived inside still waits for
the body of the handler, and whether the body ran inside or a signal was lost. -/
structure Watched extends Signals where
  depth : ℕ
  missed : Bool
  violated : Bool
  deriving DecidableEq, Repr

namespace Watched

def init : Watched := ⟨Signals.init, 0, false, false⟩

/-- A change of the signals. -/
def lift (f : Signals → Signals) (s : Watched) : Watched := { s with toSignals := f s.toSignals }

/-- `start_protect_from_sig_handler`. -/
def startProtect (s : Watched) : Watched :=
  { s.lift (Signals.setProtect true) with depth := s.depth + 1 }

/-- `protect_from_sig_handler = 0` in `stop_protect_from_sig_handler`. -/
def clearProtect (s : Watched) : Watched :=
  { s.lift (Signals.setProtect false) with depth := s.depth - 1 }

/-- At the end of `stop_protect_from_sig_handler`: behind an outermost stop no signal waits. -/
def checkMissed (s : Watched) : Watched :=
  { s with violated := s.violated || s.depth == 0 && s.missed }

/-- Where the body of `sigio_handler` begins. -/
def enterBody (s : Watched) : Watched :=
  { s with missed := false
           violated := s.violated || s.depth != 0 }

/-- `SIGIO` arrives, and is masked while its handler runs. -/
def arrive (s : Watched) : Watched :=
  { s.lift (Signals.setMask true) with missed := s.missed || s.depth != 0 }

end Watched

/-- The functions, and `main` for the program. -/
inductive Routine where
  | main | blockSignals | unblockSignals | stopProtect | sigioHandler
  deriving DecidableEq, Repr

namespace Routine

/-- `dbprintf`. -/
def print : Cmd Watched Routine := maybe (body [call blockSignals, call unblockSignals])

end Routine

open Routine in
/-- The commands of a program of brackets. -/
def Sections.code : Sections → Cmd Watched Routine
  | done => skip
  | work rest => seq print rest.code
  | protect inner rest =>
    seq (op Watched.startProtect) (seq inner.code (seq (call stopProtect) rest.code))

/-- The body of `sigio_handler`, with `service` for the part that works on the sockets. -/
def Routine.handlerBody (service : Sections) : Cmd Watched Routine :=
  body [
    cond (fun s => s.need_to_block) (call blockSignals) skip,
    op (Watched.lift Signals.incr),
    print,
    service.code,
    op (Watched.lift Signals.decr),
    cond (fun s => s.need_to_block) (call unblockSignals) skip,
    print]

/-- The bodies of the functions. -/
def Routine.code (service p : Sections) : Routine → Cmd Watched Routine
  | main => p.code
  | blockSignals =>
    body [op (Watched.lift Signals.incr),
      cond (fun s => s.already_blocking == 1) (op (Watched.lift (Signals.setMask true))) skip]
  | unblockSignals =>
    body [op (Watched.lift Signals.decr),
      cond (fun s => s.already_blocking == 0) (op (Watched.lift (Signals.setMask false))) skip]
  | stopProtect =>
    body [op Watched.clearProtect,
      cond (fun s => s.received_signal)
        (body [print, op (Watched.lift (Signals.setReceived false)),
          op (Watched.lift (Signals.setNeed true)), call sigioHandler,
          op (Watched.lift (Signals.setNeed false))])
        skip,
      op Watched.checkMissed]
  | sigioHandler =>
    body [
      cond (fun s => s.protect_from_sig_handler)
        (body [op (Watched.lift (Signals.setReceived true)), ret])
        (cond (fun s => s.received_signal) (op (Watched.lift (Signals.setReceived false))) skip),
      op Watched.enterBody,
      handlerBody service]

/-- The program, with `SIGIO` as in `mpLite`. -/
def bracketed (service p : Sections) : Program Watched Routine where
  code := Routine.code service p
  handler := .sigioHandler
  enabled s := !s.masked
  enter := Watched.arrive
  leave saved := Watched.lift (Signals.setMask saved.masked)

namespace Watched

/-- The states the program reaches, run any number of times. -/
def Runs (service p : Sections) : List (Frame Watched Routine) → Watched → Prop :=
  Interrupts.Reachable (bracketed service p) (· = .main) init

/-- The body of the handler never runs inside a bracket, and behind an outermost stop no signal
that arrived inside waits for it. -/
def Protected (service p : Sections) : Prop :=
  ∀ k s, Runs service p k s → s.violated = false

/-! ### Interrupts -/

/-- What an interrupt leaves: inside a bracket the signal is noted, outside it is serviced. -/
def noted (s : Watched) : Watched :=
  { s.lift (Signals.setReceived s.protect_from_sig_handler) with
      missed := s.protect_from_sig_handler }

/-- What interrupts may change. -/
def Sees (s t : Watched) : Prop := t = s ∨ s.masked = false ∧ t = s.noted

/-- In every state: with `SIGIO` unmasked the flag is set exactly inside the brackets. -/
structure Sound (s : Watched) : Prop where
  violated : s.violated = false
  count : 0 ≤ s.already_blocking
  flag : s.masked = false → (s.protect_from_sig_handler = true ↔ s.depth ≠ 0)

/-- Nothing an interrupt could change. -/
def Fixed (s : Watched) : Prop := s.masked = true ∨ s.noted = s

lemma Fixed.of_masked {s : Watched} (hm : s.masked = true) : s.Fixed := Or.inl hm

@[simp] lemma noted_noted (s : Watched) : s.noted.noted = s.noted := rfl

lemma sees_refl (s : Watched) : Sees s s := Or.inl rfl

lemma sees_trans (s t u : Watched) (hst : Sees s t) (htu : Sees t u) : Sees s u := by
  rcases hst with rfl | ⟨hm, rfl⟩
  · exact htu
  · right
    refine ⟨hm, ?_⟩
    rcases htu with rfl | ⟨-, rfl⟩ <;> rfl

lemma Fixed.eq {s t : Watched} (hs : s.Fixed) (h : Sees s t) : t = s := by
  rcases h with rfl | ⟨hm, rfl⟩
  · rfl
  · rcases hs with hs | hs
    · rw [hm] at hs
      cases hs
    · exact hs

lemma Sound.noted {s : Watched} (hs : s.Sound) : s.noted.Sound :=
  ⟨hs.violated, hs.count, hs.flag⟩

lemma Sound.sees {s t : Watched} (hs : s.Sound) (h : Sees s t) : t.Sound := by
  rcases h with rfl | ⟨-, rfl⟩
  · exact hs
  · exact hs.noted

lemma Sound.held {s : Watched} {Q : Watched → Prop} (hs : s.Sound) (h : ∀ t, Sees s t → Q t) :
    Held Sees Sound Q s := fun t ht => ⟨hs.sees ht, h t ht⟩

lemma Fixed.held {s : Watched} {Q : Watched → Prop} (hs : s.Fixed) (hJ : s.Sound) (hQ : Q s) :
    Held Sees Sound Q s := by
  apply hJ.held
  intro t ht
  rwa [hs.eq ht]

/-! ### Contracts -/

/-- Where `Block_Signals` masks `SIGIO`. -/
def Blockable (s : Watched) : Prop := s.already_blocking = 0 ∨ s.masked = true

/-- Where the handler may be entered. -/
def Enterable (s : Watched) : Prop :=
  if s.protect_from_sig_handler then s.masked = true ∧ s.missed = true
  else s.depth = 0 ∧ (s.masked = true ∨ s.need_to_block = true ∧ s.already_blocking = 0)

/-- In the part of the handler that works on the sockets. -/
structure Serving (s : Watched) : Prop where
  masked : s.masked = true
  count : 1 ≤ s.already_blocking
  received : s.received_signal = false
  missed : s.missed = false

/-- Inside one bracket of the program, with or without a signal noted. -/
def inside (b : Bool) : Watched := ⟨⟨0, false, false, true, b⟩, 1, b, false⟩

/-- The contracts. -/
def contract : Contract Watched Routine where
  pre
    | .main, s => s = init
    | .blockSignals, s => s.Blockable
    | .unblockSignals, s => 1 ≤ s.already_blocking ∧ s.masked = true ∧
        (s.already_blocking = 1 → (s.protect_from_sig_handler = true ↔ s.depth ≠ 0))
    | .stopProtect, s => s.Serving ∨ ∃ b, s = inside b
    | .sigioHandler, s => s.Enterable
  post
    | .main, _ => fun t => t = init
    | .blockSignals, s => fun t => ∃ u, Sees s u ∧ t = u.lift Signals.block
    | .unblockSignals, s => fun t => Sees (s.lift Signals.unblock) t
    | .stopProtect, s => fun t => t = if s.masked then s.clearProtect else init
    | .sigioHandler, s => fun t =>
        ∃ m, (m = s.masked ∨ m = false) ∧ t = s.noted.lift (Signals.setMask m)

lemma Sees.incr {s t : Watched} (h : Sees (s.lift Signals.incr) t) :
    ∃ u, Sees s u ∧ t = u.lift Signals.incr := by
  rcases h with rfl | ⟨hm, rfl⟩
  · exact ⟨s, sees_refl s, rfl⟩
  · exact ⟨s.noted, Or.inr ⟨hm, rfl⟩, rfl⟩

lemma Sees.decr {s t : Watched} (h : Sees (s.lift Signals.decr) t) :
    ∃ u, Sees s u ∧ t = u.lift Signals.decr := by
  rcases h with rfl | ⟨hm, rfl⟩
  · exact ⟨s, sees_refl s, rfl⟩
  · exact ⟨s.noted, Or.inr ⟨hm, rfl⟩, rfl⟩

lemma Sound.incr {s : Watched} (hs : s.Sound) : (s.lift Signals.incr).Sound :=
  ⟨hs.violated, Int.add_nonneg hs.count Int.one_nonneg, hs.flag⟩

lemma Sound.decr {s : Watched} (hs : s.Sound) (h1 : 1 ≤ s.already_blocking) :
    (s.lift Signals.decr).Sound := ⟨hs.violated, Int.sub_nonneg_of_le h1, hs.flag⟩

lemma Blockable.sees {s t : Watched} (hs : s.Blockable) (h : Sees s t) : t.Blockable := by
  rcases h with rfl | ⟨-, rfl⟩ <;> exact hs

lemma Blockable.masked {s : Watched} (hs : s.Blockable) :
    (s.lift Signals.block).masked = true := by
  rcases hs with hs | hs <;> simp [lift, Signals.block, hs]

lemma Sound.block {s : Watched} (hJ : s.Sound) (hs : s.Blockable) :
    (s.lift Signals.block).Sound := by
  refine ⟨hJ.violated, Int.add_nonneg hJ.count Int.one_nonneg, fun hm => ?_⟩
  rw [hs.masked] at hm
  cases hm

lemma block_meets (service p : Sections) {s : Watched} (hJ : s.Sound) (hs : s.Blockable) :
    wp contract Sees Sound (Routine.code service p .blockSignals)
      (Held Sees Sound (contract.post .blockSignals s))
      (Held Sees Sound (contract.post .blockSignals s)) s := by
  have hend : ∀ u, Sees s u →
      Held Sees Sound (contract.post .blockSignals s) (u.lift Signals.block) := by
    intro u hu
    have hb := hs.sees hu
    exact (Fixed.of_masked hb.masked).held ((hJ.sees hu).block hb) ⟨u, hu, rfl⟩
  simp only [Routine.code, wp_body_cons, wp_body_singleton, wp_op, wp_cond, wp_skip]
  apply hJ.held
  intro s₁ h₁
  apply (hJ.sees h₁).incr.held
  intro s₂ h₂
  obtain ⟨u, hu, rfl⟩ := h₂.incr
  have hu' : Sees s u := sees_trans _ _ _ h₁ hu
  split
  · have hu1 : u.toSignals.incr.already_blocking = 1 := beq_iff_eq.mp ‹_›
    apply (hJ.sees hu').incr.held
    intro s₃ h₃
    obtain ⟨v, hv, rfl⟩ := h₃.incr
    have hfirst : v.toSignals.incr.already_blocking = 1 := by
      rcases hv with rfl | ⟨-, rfl⟩ <;> exact hu1
    have hblock := hend v (sees_trans _ _ _ hu' hv)
    rwa [lift, Signals.block_of_first hfirst] at hblock
  · have hnested : u.toSignals.incr.already_blocking ≠ 1 := fun h => ‹¬_› (beq_iff_eq.mpr h)
    have hblock := hend u hu'
    rwa [lift, Signals.block_of_nested hnested] at hblock

lemma unblock_meets (service p : Sections) {s : Watched} (hJ : s.Sound)
    (hs : contract.pre .unblockSignals s) :
    wp contract Sees Sound (Routine.code service p .unblockSignals)
      (Held Sees Sound (contract.post .unblockSignals s))
      (Held Sees Sound (contract.post .unblockSignals s)) s := by
  obtain ⟨hcount, hm, hflag⟩ := hs
  have hdecr : (s.lift Signals.decr).Sound := hJ.decr hcount
  have hfix : (s.lift Signals.decr).Fixed := Fixed.of_masked hm
  simp only [Routine.code, wp_body_cons, wp_body_singleton, wp_op, wp_cond, wp_skip]
  refine (Fixed.of_masked hm).held hJ (hfix.held hdecr ?_)
  split
  · have hlast : s.toSignals.decr.already_blocking = 0 := beq_iff_eq.mp ‹_›
    have h1 : s.already_blocking = 1 := by
      simp only [Signals.decr] at hlast
      omega
    have hsound : (s.lift Signals.unblock).Sound := by
      rw [lift, Signals.unblock_of_last hlast]
      exact ⟨hJ.violated, hdecr.count, fun _ => hflag h1⟩
    refine hfix.held hdecr ?_
    have hend : Held Sees Sound (contract.post .unblockSignals s) (s.lift Signals.unblock) :=
      hsound.held fun t ht => ht
    rwa [lift, Signals.unblock_of_last hlast] at hend
  · have hnested : s.toSignals.decr.already_blocking ≠ 0 := fun h => ‹¬_› (beq_iff_eq.mpr h)
    refine hfix.held hdecr ?_
    left
    rw [lift, lift, Signals.unblock_of_nested hnested]

/-! ### Printing -/

/-- `Block_Signals` and then `Unblock_Signals`. -/
def relax (s : Watched) : Watched :=
  s.lift (Signals.setMask (s.masked && s.already_blocking != 0))

lemma unblock_block {s : Watched} (hs : s.Blockable) :
    (s.lift Signals.block).lift Signals.unblock = s.relax := by
  have hcount : s.already_blocking + 1 - 1 = s.already_blocking := by ring
  by_cases h0 : s.already_blocking = 0
  · simp [lift, relax, Signals.block, Signals.unblock, Signals.setMask, h0]
  · have hm : s.masked = true := hs.resolve_left h0
    have h1 : (s.already_blocking + 1 != 1) = (s.already_blocking != 0) := by
      rw [bne_iff_ne.mpr h0, bne_iff_ne]
      omega
    simp [lift, relax, Signals.block, Signals.unblock, Signals.setMask, hm, h1, hcount]

/-- Printing takes a state to the relaxed one, or leaves it alone. -/
lemma wp_print {s : Watched} {Q R : Watched → Prop} (hJ : s.Sound) (hs : s.Blockable)
    (hflag : s.already_blocking = 0 → (s.protect_from_sig_handler = true ↔ s.depth ≠ 0))
    (hQ : Q s) (hrelax : ∀ u, Sees s u → ∀ t, Sees u.relax t → Q t) :
    wp contract Sees Sound Routine.print Q R s := by
  rw [Routine.print, wp_maybe]
  refine ⟨?_, hQ⟩
  rw [wp_body_cons, wp_body_singleton, wp_call, wp_call]
  apply hJ.held
  intro u hu
  refine ⟨hs.sees hu, ?_⟩
  rintro t ⟨v, hv, rfl⟩
  have hsv : Sees s v := sees_trans _ _ _ hu hv
  have hb : v.Blockable := hs.sees hsv
  apply (Fixed.of_masked hb.masked).held ((hJ.sees hsv).block hb)
  refine ⟨⟨?_, hb.masked, ?_⟩, ?_⟩
  · exact Int.le_add_of_nonneg_left (hJ.sees hsv).count
  · intro h1
    have hv0 : v.already_blocking = 0 := by simpa [lift, Signals.block] using h1
    have h0 : s.already_blocking = 0 := by rcases hsv with rfl | ⟨-, rfl⟩ <;> exact hv0
    rcases hsv with rfl | ⟨-, rfl⟩ <;> exact hflag h0
  · intro t ht
    replace ht : Sees ((v.lift Signals.block).lift Signals.unblock) t := ht
    rw [unblock_block hb] at ht
    exact hrelax v hsv t ht

/-- `SIGIO` is masked if and only if it is blocked. -/
def Level (s : Watched) : Prop := s.masked = (s.already_blocking != 0)

lemma Level.relax {s : Watched} (hs : s.Level) : s.relax = s := by
  rw [Watched.relax, ← hs, Bool.and_self]
  rfl

lemma Level.blockable {s : Watched} (hs : s.Level) : s.Blockable := by
  by_cases h0 : s.already_blocking = 0
  · exact Or.inl h0
  · exact Or.inr (hs.trans (bne_iff_ne.mpr h0))

lemma Level.wp_print {s : Watched} {Q R : Watched → Prop} (hs : s.Level) (hJ : s.Sound)
    (hQ : ∀ t, Sees s t → Q t) : wp contract Sees Sound Routine.print Q R s := by
  apply Watched.wp_print hJ hs.blockable
  · intro h0
    exact hJ.flag (hs.trans (by rw [h0]; rfl))
  · exact hQ s (sees_refl s)
  · intro u hu t ht
    have hlevel : u.Level := by rcases hu with rfl | ⟨-, rfl⟩ <;> exact hs
    rw [hlevel.relax] at ht
    exact hQ t (sees_trans _ _ _ hu ht)

/-! ### Serving the sockets -/

lemma Serving.level {s : Watched} (hs : s.Serving) : s.Level := by
  have h0 : s.already_blocking ≠ 0 := by
    have := hs.count
    omega
  exact hs.masked.trans (bne_iff_ne.mpr h0).symm

lemma Serving.fixed {s : Watched} (hs : s.Serving) : s.Fixed := Fixed.of_masked hs.masked

/-- What a program of brackets does to the flag if no signal comes. -/
def after : Sections → Watched → Watched
  | .done, s => s
  | .work rest, s => after rest s
  | .protect inner rest, s => after rest (after inner s.startProtect).clearProtect

lemma after_eq (q : Sections) (s : Watched) :
    after q s = s.lift (Signals.setProtect (s.protect_from_sig_handler && !q.hasProtect)) := by
  induction q generalizing s with
  | done => simp [after, Sections.hasProtect, lift, Signals.setProtect]
  | work rest ih => exact ih s
  | protect inner rest ihi ihr =>
    rw [after, ihr, ihi]
    simp [Sections.hasProtect, lift, startProtect, clearProtect, Signals.setProtect]

lemma Serving.startProtect {s : Watched} (hs : s.Serving) : s.startProtect.Serving :=
  ⟨hs.masked, hs.count, hs.received, hs.missed⟩

lemma Serving.clearProtect {s : Watched} (hs : s.Serving) : s.clearProtect.Serving :=
  ⟨hs.masked, hs.count, hs.received, hs.missed⟩

lemma Serving.after {s : Watched} (hs : s.Serving) (q : Sections) : (after q s).Serving := by
  rw [after_eq]
  exact ⟨hs.masked, hs.count, hs.received, hs.missed⟩

lemma Serving.sound {s : Watched} (hs : s.Serving) (hv : s.violated = false) : s.Sound := by
  refine ⟨hv, Int.le_of_lt hs.count, fun hm => ?_⟩
  rw [hs.masked] at hm
  cases hm

/-- In the handler no interrupt comes, whatever brackets it opens. -/
lemma Serving.wp_code {q : Sections} {s : Watched} {Q R : Watched → Prop} (hs : s.Serving)
    (hv : s.violated = false) (hQ : Q (Watched.after q s)) :
    wp contract Sees Sound q.code Q R s := by
  induction q generalizing s Q with
  | done => exact hQ
  | work rest ih =>
    apply hs.level.wp_print (hs.sound hv)
    intro t ht
    rw [hs.fixed.eq ht]
    exact ih hs hv hQ
  | protect inner rest ihi ihr =>
    have hstart := hs.startProtect
    have hinner := hstart.after inner
    have hvi : (Watched.after inner s.startProtect).violated = false := by
      rw [after_eq]
      exact hv
    refine hs.fixed.held (hs.sound hv) (ihi hstart hv ?_)
    refine hinner.fixed.held (hinner.sound hvi) ⟨Or.inl hinner, ?_⟩
    rintro t rfl
    rw [if_pos hinner.masked]
    exact ihr hinner.clearProtect hvi hQ

/-! ### The end of a section -/

/-- Outside the brackets, with a signal noted or not, and waiting or not. -/
def outside (need received missed : Bool) : Watched :=
  ⟨⟨0, false, need, false, received⟩, 0, missed, false⟩

lemma inside_sees {b : Bool} {t : Watched} (h : Sees (inside b) t) : ∃ c, t = inside c := by
  rcases h with rfl | ⟨-, rfl⟩
  · exact ⟨b, rfl⟩
  · exact ⟨true, rfl⟩

lemma outside_sees {n b m : Bool} {t : Watched} (h : Sees (outside n b m) t) :
    t = outside n b m ∨ t = outside n false false := by
  rcases h with rfl | ⟨-, rfl⟩
  · exact Or.inl rfl
  · exact Or.inr rfl

lemma inside_sound (b : Bool) : (inside b).Sound :=
  ⟨rfl, le_rfl, fun _ => iff_of_true rfl Nat.one_ne_zero⟩

lemma outside_sound (n b m : Bool) : (outside n b m).Sound :=
  ⟨rfl, le_rfl, fun _ => iff_of_false Bool.false_ne_true fun h => h rfl⟩

/-- With nothing noted and nothing waiting. -/
lemma outside_held {n : Bool} {Q : Watched → Prop} (hQ : Q (outside n false false)) :
    Held Sees Sound Q (outside n false false) :=
  Fixed.held (Or.inr rfl) (outside_sound n false false) hQ

/-- The call of the handler in `stop_protect_from_sig_handler`. -/
lemma wp_serviced (m : Bool) {Q R : Watched → Prop} (hQ : Q init) :
    wp contract Sees Sound
      (.body [.op (lift (Signals.setNeed true)), .call .sigioHandler,
        .op (lift (Signals.setNeed false))]) Q R (outside false false m) := by
  have hhandler : ∀ k, wp contract Sees Sound
      (.body [.call .sigioHandler, .op (lift (Signals.setNeed false))]) Q R
      (outside true false k) := by
    intro k
    apply (outside_sound true false k).held
    intro u hu
    constructor
    · rcases outside_sees hu with rfl | rfl <;> exact ⟨rfl, Or.inr ⟨rfl, rfl⟩⟩
    · rintro t ⟨l, hl, rfl⟩
      -- the handler masks `SIGIO` only while it runs
      have hclear : u.noted.lift (Signals.setMask l) = outside true false false := by
        rcases outside_sees hu with rfl | rfl <;> rcases hl with rfl | rfl <;> rfl
      rw [hclear]
      exact outside_held hQ
  apply (outside_sound false false m).held
  intro u hu
  rcases outside_sees hu with rfl | rfl
  · exact hhandler m
  · exact hhandler false

/-- `stop_protect_from_sig_handler` behind a section of the program. -/
lemma stopProtect_inside (service p : Sections) {b : Bool} {R : Watched → Prop} :
    wp contract Sees Sound (Routine.code service p .stopProtect) (Held Sees Sound (· = init)) R
      (inside b) := by
  have hdone : wp contract Sees Sound (.op checkMissed) (Held Sees Sound (· = init)) R init :=
    outside_held (outside_held rfl)
  have hprinted : ∀ c m, wp contract Sees Sound
      (.body [.op (lift (Signals.setReceived false)), .op (lift (Signals.setNeed true)),
        .call .sigioHandler, .op (lift (Signals.setNeed false))])
      (wp contract Sees Sound (.op checkMissed) (Held Sees Sound (· = init)) R) R
      (outside false c m) := by
    intro c m
    apply (outside_sound false c m).held
    intro u hu
    rcases outside_sees hu with rfl | rfl
    · exact wp_serviced m hdone
    · exact wp_serviced false hdone
  apply (inside_sound b).held
  intro u hu
  obtain ⟨c, rfl⟩ := inside_sees hu
  -- the flag is clear, and a noted signal is still to be serviced
  have hclear : (inside c).clearProtect = outside false c c := rfl
  rw [hclear, wp_body_cons, wp_body_singleton, wp_cond]
  apply (outside_sound false c c).held
  intro v hv
  rcases outside_sees hv with rfl | rfl
  · cases c with
    | true =>
      have hreceived : (outside false true true).received_signal = true := rfl
      have hlevel : (outside false true true).Level := rfl
      rw [if_pos hreceived, wp_body_cons]
      apply hlevel.wp_print (outside_sound false true true)
      intro t ht
      rcases outside_sees ht with rfl | rfl
      · exact hprinted true true
      · exact hprinted false false
    | false => exact hdone
  · exact hdone

/-- `stop_protect_from_sig_handler` in the handler. -/
lemma stopProtect_serving (service p : Sections) {s : Watched} {R : Watched → Prop}
    (hs : s.Serving) (hJ : s.Sound) :
    wp contract Sees Sound (Routine.code service p .stopProtect)
      (Held Sees Sound (· = s.clearProtect)) R s := by
  have hclear := hs.clearProtect
  have hJ' : s.clearProtect.Sound := hclear.sound hJ.violated
  have hcheck : s.clearProtect.checkMissed = s.clearProtect := by
    rw [checkMissed, hclear.missed, Bool.and_false, Bool.or_false, ← hclear.missed]
  refine hs.fixed.held hJ (hclear.fixed.held hJ' ?_)
  have hreceived : ¬ s.clearProtect.received_signal = true :=
    Bool.eq_false_iff.mp hclear.received
  rw [if_neg hreceived]
  refine hclear.fixed.held hJ' ?_
  rw [hcheck]
  exact hclear.fixed.held hJ' rfl

/-! ### The handler -/

lemma Enterable.sees {s t : Watched} (hs : s.Enterable) (h : Sees s t) : t.Enterable := by
  rcases h with rfl | ⟨hm, rfl⟩
  · exact hs
  · cases hp : s.protect_from_sig_handler with
    | true =>
      simp only [Enterable, hp, if_true, hm] at hs
      cases hs.1
    | false =>
      simpa [Enterable, noted, lift, Signals.setReceived, hp] using hs

/-- In the handler, past its first test. -/
structure Calm (s : Watched) : Prop where
  protect : s.protect_from_sig_handler = false
  received : s.received_signal = false
  missed : s.missed = false
  depth : s.depth = 0

lemma Calm.fixed {s : Watched} (hs : s.Calm) : s.Fixed := by
  right
  rcases s with ⟨⟨n, m, k, p, r⟩, d, w, v⟩
  obtain ⟨rfl, rfl, rfl, rfl⟩ := hs
  rfl

lemma Calm.flag {s : Watched} (hs : s.Calm) :
    s.protect_from_sig_handler = true ↔ s.depth ≠ 0 := by
  rw [hs.protect, hs.depth]
  simp

lemma Calm.sound {s : Watched} (hs : s.Calm) (hv : s.violated = false)
    (hn : 0 ≤ s.already_blocking) : s.Sound := ⟨hv, hn, fun _ => hs.flag⟩

lemma Calm.lift {s : Watched} (hs : s.Calm) {f : Signals → Signals}
    (hp : (f s.toSignals).protect_from_sig_handler = s.protect_from_sig_handler)
    (hr : (f s.toSignals).received_signal = s.received_signal) : (s.lift f).Calm :=
  ⟨hp.trans hs.protect, hr.trans hs.received, hs.missed, hs.depth⟩

lemma Calm.relax {s : Watched} (hs : s.Calm) : s.relax.Calm := hs.lift rfl rfl

lemma Blockable.relax {s : Watched} (hs : s.Blockable) : s.relax.Blockable := by
  by_cases h0 : s.already_blocking = 0
  · exact Or.inl h0
  · right
    have hm : s.masked = true := hs.resolve_left h0
    exact Bool.and_eq_true_iff.mpr ⟨hm, bne_iff_ne.mpr h0⟩

lemma relax_relax (s : Watched) : s.relax.relax = s.relax := by
  simp [relax, Watched.lift, Signals.setMask]

/-- The end of the handler: the last print may unmask `SIGIO`. -/
lemma Calm.wp_print {s : Watched} {Q R : Watched → Prop} (hs : s.Calm) (hJ : s.Sound)
    (hb : s.Blockable) (hQ : Q s) (hrelax : Q s.relax) :
    wp contract Sees Sound Routine.print Q R s := by
  apply Watched.wp_print hJ hb (fun _ => hs.flag) hQ
  intro u hu t ht
  rw [hs.fixed.eq hu] at ht
  rw [hs.relax.fixed.eq ht]
  exact hrelax

/-- The handler between its two changes of `already_blocking`. -/
lemma Calm.wp_middle {service : Sections} {s : Watched} {Q R : Watched → Prop} (hs : s.Calm)
    (hJ : s.Sound) (hm : s.masked = true) (hQ : Q s) :
    wp contract Sees Sound (.op (Watched.lift Signals.incr)) (wp contract Sees Sound Routine.print
      (wp contract Sees Sound service.code
        (wp contract Sees Sound (.op (Watched.lift Signals.decr)) Q R) R) R) R s := by
  have hserving : (s.lift Signals.incr).Serving :=
    ⟨hm, Int.le_add_of_nonneg_left hJ.count, hs.received, hs.missed⟩
  have hafter : Watched.after service (s.lift Signals.incr) = s.lift Signals.incr := by
    have hp : (s.lift Signals.incr).protect_from_sig_handler = false := hs.protect
    rw [after_eq, hp, Bool.false_and, ← hp]
    rfl
  have hback : (s.lift Signals.incr).lift Signals.decr = s := by
    rw [Watched.lift, Watched.lift, Signals.decr_incr]
  refine hs.fixed.held hJ (hserving.level.wp_print hJ.incr ?_)
  intro t ht
  rw [hserving.fixed.eq ht]
  apply hserving.wp_code hJ.violated
  rw [hafter]
  apply hserving.fixed.held hJ.incr
  rw [hback]
  exact hQ

/-- The body of the handler. -/
lemma Calm.wp_body {service : Sections} {s : Watched} {Q R : Watched → Prop} (hs : s.Calm)
    (hJ : s.Sound) (hm : s.masked = true ∨ s.need_to_block = true ∧ s.already_blocking = 0)
    (hQ : ∀ m, m = s.masked ∨ m = false → Q (s.lift (Signals.setMask m))) :
    wp contract Sees Sound (Routine.handlerBody service) Q R s := by
  have hb : s.Blockable := hm.elim Or.inr fun h => Or.inl h.2
  have hrelax : Q s.relax := by
    apply hQ
    cases s.already_blocking != 0
    · exact Or.inr (Bool.and_false _)
    · exact Or.inl (Bool.and_true _)
  simp only [Routine.handlerBody, wp_body_cons, wp_body_singleton]
  rw [wp_cond]
  apply hs.fixed.held hJ
  cases hneed : s.need_to_block with
  | true =>
    have hblock : (s.lift Signals.block).Calm := hs.lift rfl rfl
    have hJb : (s.lift Signals.block).Sound := hJ.block hb
    rw [if_pos rfl, wp_call]
    refine hs.fixed.held hJ ⟨hb, ?_⟩
    rintro t ⟨u, hu, rfl⟩
    rw [hs.fixed.eq hu]
    apply hblock.wp_middle hJb hb.masked
    have hneedb : (s.lift Signals.block).need_to_block = true := hneed
    rw [wp_cond]
    apply hblock.fixed.held hJb
    rw [if_pos hneedb, wp_call]
    refine hblock.fixed.held hJb ⟨⟨?_, hb.masked, fun _ => hblock.flag⟩, ?_⟩
    · exact Int.le_add_of_nonneg_left hJ.count
    · intro t ht
      replace ht : Sees ((s.lift Signals.block).lift Signals.unblock) t := ht
      rw [unblock_block hb] at ht
      rw [hs.relax.fixed.eq ht]
      apply hs.relax.wp_print (hs.relax.sound hJ.violated hJ.count) hb.relax hrelax
      rwa [relax_relax]
  | false =>
    have hmask : s.masked = true := by
      rcases hm with hm | ⟨hn, -⟩
      · exact hm
      · rw [hneed] at hn
        cases hn
    rw [if_neg Bool.false_ne_true, wp_skip]
    apply hs.wp_middle hJ hmask
    rw [wp_cond]
    apply hs.fixed.held hJ
    rw [if_neg (ne_true_of_eq_false hneed), wp_skip]
    exact hs.wp_print hJ hb (hQ s.masked (Or.inl rfl)) hrelax

/-- The state in which the body of the handler begins. -/
lemma enterBody_of_received {s : Watched} (hp : s.protect_from_sig_handler = false)
    (hr : s.received_signal = false) (hd : s.depth = 0) : s.enterBody = s.noted := by
  rcases s with ⟨⟨n, m, k, p, r⟩, d, w, v⟩
  obtain rfl : p = false := hp
  obtain rfl : r = false := hr
  obtain rfl : d = 0 := hd
  simp [enterBody, noted, lift, Signals.setReceived]

lemma Sees.noted {s t : Watched} (h : Sees s t) : t.noted = s.noted := by
  rcases h with rfl | ⟨-, rfl⟩ <;> rfl

/-- What the handler may leave. -/
lemma handled_held {s : Watched} (hJ : s.Sound) {m : Bool} (hm : m = s.masked ∨ m = false)
    (hflag : m = false → (s.protect_from_sig_handler = true ↔ s.depth ≠ 0)) :
    Held Sees Sound (contract.post .sigioHandler s) (s.noted.lift (Signals.setMask m)) :=
  Fixed.held (Or.inr rfl) ⟨hJ.violated, hJ.count, hflag⟩ ⟨m, hm, rfl⟩

/-- The handler inside a bracket. -/
lemma sigioHandler_inside (service p : Sections) {s : Watched} {Q : Watched → Prop} (hJ : s.Sound)
    (hp : s.protect_from_sig_handler = true) (hs : s.masked = true ∧ s.missed = true) :
    wp contract Sees Sound (Routine.code service p .sigioHandler) Q
      (Held Sees Sound (contract.post .sigioHandler s)) s := by
  have hnoted : s.lift (Signals.setReceived true) = s.noted.lift (Signals.setMask true) := by
    rcases s with ⟨⟨n, m, k, p', r⟩, d, w, v⟩
    obtain rfl : p' = true := hp
    obtain ⟨hm, hw⟩ := hs
    obtain rfl : m = true := hm
    obtain rfl : w = true := hw
    rfl
  rw [Routine.code, wp_body_cons, wp_cond]
  apply (Fixed.of_masked hs.1).held hJ
  rw [if_pos hp, wp_body_cons]
  apply (Fixed.of_masked hs.1).held hJ
  rw [hnoted]
  apply handled_held hJ (Or.inl hs.1.symm)
  intro hm
  cases hm

/-- The handler outside the brackets. -/
lemma sigioHandler_outside (service p : Sections) {s : Watched} {R : Watched → Prop} (hJ : s.Sound)
    (hp : s.protect_from_sig_handler = false)
    (hs : s.depth = 0 ∧ (s.masked = true ∨ s.need_to_block = true ∧ s.already_blocking = 0)) :
    wp contract Sees Sound (Routine.code service p .sigioHandler)
      (Held Sees Sound (contract.post .sigioHandler s)) R s := by
  have hcalm : s.noted.Calm := ⟨hp, hp, hp, hs.1⟩
  -- the body begins where no signal is noted
  have hbegin : ∀ u, u.Sound → u.received_signal = false → u.noted = s.noted →
      wp contract Sees Sound (.body [.op enterBody, Routine.handlerBody service])
        (Held Sees Sound (contract.post .sigioHandler s)) R u := by
    intro u hu hr hn
    apply hu.held
    intro v hv
    have hvn : v.noted = s.noted := hv.noted.trans hn
    have hvr : v.received_signal = false := by
      rcases hv with rfl | ⟨-, rfl⟩
      · exact hr
      · exact (congrArg (·.received_signal) hn).trans hp
    have hvp : v.protect_from_sig_handler = false :=
      (congrArg (·.protect_from_sig_handler) hvn).trans hp
    rw [enterBody_of_received hvp hvr ((congrArg (·.depth) hvn).trans hs.1), hvn]
    apply hcalm.wp_body hJ.noted hs.2
    intro m hm
    exact handled_held hJ hm fun _ => hcalm.flag
  rw [Routine.code, wp_body_cons, wp_cond]
  apply hJ.held
  intro u hu
  have hup : u.protect_from_sig_handler = false :=
    (congrArg (·.protect_from_sig_handler) hu.noted).trans hp
  rw [if_neg (ne_true_of_eq_false hup), wp_cond]
  apply (hJ.sees hu).held
  intro v hv
  have hJv : v.Sound := (hJ.sees hu).sees hv
  have hvn : v.noted = s.noted := hv.noted.trans hu.noted
  cases hvr : v.received_signal with
  | true =>
    rw [if_pos rfl]
    apply hJv.held
    intro w hw
    have hJw : w.Sound := hJv.sees hw
    have hJr : (w.lift (Signals.setReceived false)).Sound := ⟨hJw.violated, hJw.count, hJw.flag⟩
    exact hbegin (w.lift (Signals.setReceived false)) hJr rfl (hw.noted.trans hvn)
  | false =>
    rw [if_neg Bool.false_ne_true]
    exact hbegin v hJv hvr hvn

lemma sigioHandler_meets (service p : Sections) {s : Watched} (hJ : s.Sound) (hs : s.Enterable) :
    wp contract Sees Sound (Routine.code service p .sigioHandler)
      (Held Sees Sound (contract.post .sigioHandler s))
      (Held Sees Sound (contract.post .sigioHandler s)) s := by
  cases hp : s.protect_from_sig_handler with
  | true =>
    rw [Enterable, hp, if_pos rfl] at hs
    exact sigioHandler_inside service p hJ hp hs
  | false =>
    rw [Enterable, hp, if_neg Bool.false_ne_true] at hs
    exact sigioHandler_outside service p hJ hp hs

/-! ### The program -/

/-- Inside a bracket, the program opens no other. -/
lemma wp_inside {q : Sections} {b : Bool} {Q R : Watched → Prop} (hq : q.hasProtect = false)
    (hQ : ∀ c, Q (inside c)) : wp contract Sees Sound q.code Q R (inside b) := by
  induction q generalizing b with
  | done => exact hQ b
  | work rest ih =>
    have hlevel : (inside b).Level := rfl
    apply hlevel.wp_print (inside_sound b)
    intro t ht
    obtain ⟨c, rfl⟩ := inside_sees ht
    exact ih hq
  | protect inner rest => cases hq

/-- A flat program, from where no bracket is open. -/
lemma wp_flat {q : Sections} {Q R : Watched → Prop} (hq : q.flat = true) (hQ : Q init) :
    wp contract Sees Sound q.code Q R init := by
  induction q with
  | done => exact hQ
  | work rest ih =>
    have hlevel : init.Level := rfl
    apply hlevel.wp_print (outside_sound false false false)
    intro t ht
    have hinit : t = init := (outside_sees ht).elim id id
    rw [hinit]
    exact ih hq
  | protect inner rest _ ih =>
    rw [Sections.flat, Bool.and_eq_true_iff, Bool.not_eq_true'] at hq
    refine outside_held (wp_inside hq.1 fun c => ?_)
    apply (inside_sound c).held
    intro u hu
    refine ⟨Or.inr (inside_sees hu), ?_⟩
    rintro t rfl
    obtain ⟨d, rfl⟩ := inside_sees hu
    exact ih hq.2

theorem meets {service p : Sections} (hp : p.flat = true) :
    Meets contract Sees Sound (bracketed service p) := by
  intro q s hJ hs
  cases q with
  | main =>
    obtain rfl : s = init := hs
    exact wp_flat hp (outside_held rfl)
  | blockSignals => exact block_meets service p hJ hs
  | unblockSignals => exact unblock_meets service p hJ hs
  | stopProtect =>
    rcases hs with hs | ⟨b, rfl⟩
    · have hpost : contract.post .stopProtect s = (· = s.clearProtect) := by
        funext t
        simp only [contract, hs.masked, if_true]
      rw [hpost]
      exact stopProtect_serving service p hs hJ
    · exact stopProtect_inside service p
  | sigioHandler => exact sigioHandler_meets service p hJ hs

lemma Sound.enterable {s : Watched} (hJ : s.Sound) (hm : s.masked = false) :
    s.arrive.Enterable := by
  have hflag := hJ.flag hm
  cases hp : s.protect_from_sig_handler with
  | true =>
    have hd : s.depth ≠ 0 := hflag.mp hp
    simp [Enterable, arrive, lift, Signals.setMask, hp, hd]
  | false =>
    have hd : s.depth = 0 := by
      by_contra h
      simp [hflag.mpr h] at hp
    simp [Enterable, arrive, lift, Signals.setMask, hp, hd]

theorem interruptible {service p : Sections} :
    Interruptible contract Sees Sound (bracketed service p) := by
  intro s hJ he
  have hm : s.masked = false := by simpa [bracketed] using he
  have hJa : s.arrive.Sound := ⟨hJ.violated, hJ.count, fun h => by cases h⟩
  refine (Fixed.of_masked rfl).held hJa ⟨hJ.enterable hm, ?_⟩
  rintro t ⟨m, -, rfl⟩
  have hback : (s.arrive.noted.lift (Signals.setMask m)).lift (Signals.setMask s.masked) =
      s.noted := rfl
  refine Fixed.held (Or.inr rfl) ⟨hJ.violated, hJ.count, fun _ => hJ.flag hm⟩ (Or.inr ⟨hm, hback⟩)

/-- In a flat program the protection works. -/
lemma protected_of_flat {service p : Sections} (hp : p.flat = true) : Protected service p := by
  intro k s h
  have htop : ∀ q t, q = Routine.main → t = init →
      contract.pre q t ∧ ∀ u, contract.post q t u → Held Sees Sound (· = init) u := by
    rintro q t rfl rfl
    refine ⟨rfl, ?_⟩
    rintro u rfl
    exact outside_held rfl
  exact (h.sound sees_refl sees_trans (meets hp) interruptible htop
    (outside_held rfl)).1.violated

/-! ### A bracket inside another -/

section Nested

variable {service p : Sections} {k : List (Frame Watched Routine)} {s : Watched}

/-- `stop_protect_from_sig_handler` where no signal was noted. -/
lemma Runs.stopProtect (h : Runs service p (.cmd (.call .stopProtect) :: k) s)
    (hr : s.received_signal = false) (hm : s.missed = false) :
    Runs service p k s.clearProtect := by
  have hcheck : s.clearProtect.checkMissed = s.clearProtect := by
    have hm' : s.clearProtect.missed = false := hm
    rw [checkMissed, hm', Bool.and_false, Bool.or_false, ← hm']
  have htest := ((((h.step (.call _ _ _)).step (.seq _ _ _ _)).step (.op _ _ _)).step
    (.seq _ _ _ _)).step (.cond _ _ _ _ _)
  have hr' : ¬ s.clearProtect.received_signal = true := Bool.eq_false_iff.mp hr
  rw [if_neg hr'] at htest
  have hend := ((htest.step (.skip _ _)).step (.op _ _ _)).step (.fn _ _)
  rwa [hcheck] at hend

/-- A program of brackets runs to its end if no signal comes. -/
lemma Runs.code {q : Sections} (h : Runs service p (.cmd q.code :: k) s)
    (hr : s.received_signal = false) (hm : s.missed = false) : Runs service p k (after q s) := by
  induction q generalizing k s with
  | done => exact h.step (.skip _ _)
  | work rest ih =>
    have hrest := ((h.step (.seq _ _ _ _)).step (.right _ _ _ _)).step (.skip _ _)
    exact ih hrest hr hm
  | protect inner rest ihi ihr =>
    have hinner := ihi (((h.step (.seq _ _ _ _)).step (.op _ _ _)).step (.seq _ _ _ _)) hr hm
    rw [after_eq] at hinner
    have hstop := Runs.stopProtect (hinner.step (.seq _ _ _ _)) hr hm
    have hrest := ihr hstop hr hm
    rwa [← after_eq] at hrest

/-- A signal that comes inside a bracket, with the flag clear, is not kept out. -/
lemma Runs.exposed (h : Runs service p k s) (hm : s.masked = false)
    (hp : s.protect_from_sig_handler = false) (hr : s.received_signal = false)
    (hd : s.depth ≠ 0) : ∃ k' s', Runs service p k' s' ∧ s'.violated = true := by
  have henabled : (bracketed service p).enabled s = true := by simp [bracketed, hm]
  have htest := (((h.step (.interrupt _ henabled)).step (.call _ _ _)).step (.seq _ _ _ _)).step
    (.cond _ _ _ _ _)
  have hp' : ¬ ((bracketed service p).enter s).protect_from_sig_handler = true :=
    Bool.eq_false_iff.mp hp
  have hr' : ¬ ((bracketed service p).enter s).received_signal = true := Bool.eq_false_iff.mp hr
  rw [if_neg hp'] at htest
  have hreceived := htest.step (.cond _ _ _ _ _)
  rw [if_neg hr'] at hreceived
  have hbody := ((hreceived.step (.skip _ _)).step (.seq _ _ _ _)).step (.op _ _ _)
  refine ⟨_, _, hbody, ?_⟩
  simp [bracketed, enterBody, arrive, lift, hd]

/-- Behind the inner of two brackets the outer one has lost its protection. -/
lemma Runs.violated {q : Sections} (h : Runs service p (.cmd q.code :: k) s)
    (hmask : s.masked = false) (hr : s.received_signal = false) (hm : s.missed = false)
    (hq : q.flat = false) : ∃ k' s', Runs service p k' s' ∧ s'.violated = true := by
  induction q generalizing k s with
  | done => cases hq
  | work rest ih =>
    have hrest := ((h.step (.seq _ _ _ _)).step (.right _ _ _ _)).step (.skip _ _)
    exact ih hrest hmask hr hm hq
  | protect inner rest _ ih =>
    have hinner := Runs.code (((h.step (.seq _ _ _ _)).step (.op _ _ _)).step (.seq _ _ _ _)) hr hm
    rw [after_eq] at hinner
    cases hi : inner.hasProtect with
    | true =>
      rw [hi, Bool.not_true, Bool.and_false] at hinner
      exact Runs.exposed hinner hmask rfl hr (Nat.succ_ne_zero _)
    | false =>
      have hrest : rest.flat = false := by simpa [Sections.flat, hi] using hq
      have hstop := Runs.stopProtect (hinner.step (.seq _ _ _ _)) hr hm
      exact ih hstop hmask hr hm hrest

end Nested

lemma not_protected {service p : Sections} (hp : p.flat = false) : ¬ Protected service p := by
  intro h
  have htop : Runs service p [.cmd (.call .main)] init := .step .start (.top init rfl)
  have hmain : Runs service p [.cmd p.code, .fn] init := .step htop (.call Routine.main [] init)
  obtain ⟨k, s, hs, hv⟩ := hmain.violated rfl rfl rfl hp
  rw [h k s hs] at hv
  cases hv

/-- The body of `sigio_handler` stays out of the protected sections, and every signal that arrives
inside is serviced at the end, if and only if no section is opened inside another. -/
theorem protected_iff_flat (service p : Sections) : Protected service p ↔ p.flat = true := by
  constructor
  · intro h
    by_contra hp
    exact not_protected (Bool.eq_false_iff.mpr hp) h
  · exact protected_of_flat

/-- `rem_msgid`, which `MP_Wait` calls with the signals unblocked, frees the entry inside its
section, and `add_msgid` allocates it there. -/
theorem nested_brackets_fail : ¬ Protected .done (.remMsgid .done) ∧
    ¬ Protected .done (.addMsgid .done) :=
  ⟨not_protected rfl, not_protected rfl⟩

/-- `show_head_msgid` neither allocates nor frees. -/
example : Sections.done.showHeadMsgid.flat = true := rfl

end Watched

end NetPipe.MpLite
