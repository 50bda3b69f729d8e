import NetPipe.MpLite.Signals

/-!
# Signal blocking is balanced

Every function of the library gives the signal variables back as it found them, except for
`MP_Testall`. The contracts say so where no signal handling is under way (`Steady`), and what
`dbprintf`, `malloc` and the handler do elsewhere.
-/

namespace NetPipe.MpLite

open Interrupts

namespace Signals

/-- What interrupts may change: with `SIGIO` unmasked `received_signal` is set while the handler
is kept out, and may be cleared. -/
def Sees (s t : Signals) : Prop :=
  ∃ b, t = s.setReceived b ∧ (s.masked = true → b = s.received_signal) ∧
    (b = true → s.protect_from_sig_handler = true ∨ s.received_signal = true)

/-- `already_blocking` is not negative. -/
def Counts (s : Signals) : Prop := 0 ≤ s.already_blocking

/-- Nothing an interrupt could change. -/
def Quiet (s : Signals) : Prop :=
  s.masked = true ∨ s.protect_from_sig_handler = false ∧ s.received_signal = false

/-- Between the parts that work on the signals: `SIGIO` is masked if and only if it is blocked. -/
structure Steady (s : Signals) : Prop where
  protect : s.protect_from_sig_handler = false
  received : s.received_signal = false
  mask : s.masked = true ∧ 1 ≤ s.already_blocking ∨
    s.masked = false ∧ s.already_blocking = 0 ∧ s.need_to_block = false

/-- `Block_Signals`. -/
def block (s : Signals) : Signals :=
  { s with already_blocking := s.already_blocking + 1
           masked := s.masked || s.already_blocking == 0 }

/-- `Unblock_Signals`. -/
def unblock (s : Signals) : Signals :=
  { s with already_blocking := s.already_blocking - 1
           masked := s.masked && s.already_blocking != 1 }

/-- The state behind a section that is protected from the handler. -/
def settle (s : Signals) : Signals := (s.setProtect false).setReceived false

/-- A state inside a protected section that was entered at `s`. -/
def Guarded (s t : Signals) : Prop :=
  t.settle = s ∧ (t.masked = true → t.received_signal = false)

/-- What a function may leave behind that blocks the signals and unblocks them again. -/
def Keeps (s t : Signals) : Prop :=
  ∃ b m, t = (s.setReceived b).setMask m ∧ (s.masked = true → b = s.received_signal) ∧
    (b = true → s.protect_from_sig_handler = true ∨ s.received_signal = true) ∧
    (m = s.masked ∨ m = false ∧ s.already_blocking = 0)

/-- Where the handler may be entered. -/
def Enterable (s : Signals) : Prop :=
  s.masked = true ∨ s.need_to_block = true ∧ s.already_blocking = 0 ∧
    s.protect_from_sig_handler = false ∧ s.received_signal = false

/-- What the handler leaves. -/
def Handled (s t : Signals) : Prop :=
  ∃ m, t = (s.setReceived s.protect_from_sig_handler).setMask m ∧
    (m = s.masked ∨ m = false ∧ s.already_blocking = 0 ∧ s.protect_from_sig_handler = false)

/-- A step whose effect is `f`, with interrupts before and after. -/
def Via (f : Signals → Signals) (s t : Signals) : Prop := ∃ u, Sees s u ∧ Sees (f u) t

/-- The contracts. -/
def contract : Contract Signals Proc where
  pre
    | .blockSignals, _ => True
    | .unblockSignals, s => 1 ≤ s.already_blocking
    | .dbprintf, s => s.masked = true → s.already_blocking = 0 →
        s.protect_from_sig_handler = false ∧ s.received_signal = false
    | .sigioHandler, s => s.Enterable
    | .stopProtect, t | .mpMalloc, t | .mpFree, t | .addMsgid, t | .remMsgid, t
    | .showHeadMsgid, t => ∃ s, s.Steady ∧ Guarded s t
    | .tcpArecv, s => s.Steady ∧ s.masked = true
    | _, s => s.Steady
  post
    | .blockSignals, s => Via block s
    | .unblockSignals, s => Via unblock s
    | .dbprintf, s => Keeps s
    | .sigioHandler, s => Handled s
    | .stopProtect, s | .mpMalloc, s | .mpFree, s | .addMsgid, s | .remMsgid, s
    | .showHeadMsgid, s => fun t => t = s.settle
    | .mpTestall, s => fun t => t = s.block
    | _, s => fun t => t = s

/-! ### Interrupts -/

lemma sees_refl (s : Signals) : Sees s s := ⟨s.received_signal, rfl, fun _ => rfl, Or.inr⟩

lemma sees_trans (s t u : Signals) (hst : Sees s t) (htu : Sees t u) : Sees s u := by
  obtain ⟨b, rfl, hb, hb'⟩ := hst
  obtain ⟨c, rfl, hc, hc'⟩ := htu
  refine ⟨c, rfl, fun hm => (hc hm).trans (hb hm), fun h => ?_⟩
  rcases hc' h with h | h
  · exact Or.inl h
  · exact hb' h

lemma Quiet.eq {s t : Signals} (hs : s.Quiet) (h : Sees s t) : t = s := by
  obtain ⟨b, rfl, hm, hb⟩ := h
  have hb' : b = s.received_signal := by
    rcases hs with hs | ⟨hp, hr⟩
    · exact hm hs
    · rw [hp, hr] at hb
      rw [hr]
      simpa using hb
  subst hb'
  rfl

lemma Quiet.held {s : Signals} {Q : Signals → Prop} (hs : s.Quiet) (hJ : s.Counts) (hQ : Q s) :
    Held Sees Counts Q s := by
  intro t ht
  rw [hs.eq ht]
  exact ⟨hJ, hQ⟩

lemma Sees.counts {s t : Signals} (h : Sees s t) (hs : s.Counts) : t.Counts := by
  obtain ⟨b, rfl, -⟩ := h
  exact hs

lemma Steady.quiet {s : Signals} (hs : s.Steady) : s.Quiet := Or.inr ⟨hs.protect, hs.received⟩

lemma Steady.counts {s : Signals} (hs : s.Steady) : s.Counts := by
  unfold Counts
  rcases hs.mask with ⟨-, h⟩ | ⟨-, h, -⟩ <;> omega

lemma Steady.held {s : Signals} {Q : Signals → Prop} (hs : s.Steady) (hQ : Q s) :
    Held Sees Counts Q s := hs.quiet.held hs.counts hQ

lemma Steady.block {s : Signals} (hs : s.Steady) : s.block.Steady := by
  have hc := hs.counts
  unfold Counts at hc
  refine ⟨hs.protect, hs.received, Or.inl ⟨?_, ?_⟩⟩
  · rcases hs.mask with ⟨h, -⟩ | ⟨-, h, -⟩ <;> simp [Signals.block, h]
  · simp only [Signals.block]
    omega

lemma Steady.unblock_block {s : Signals} (hs : s.Steady) : s.block.unblock = s := by
  rcases s with ⟨ab, m, n, p, r⟩
  rcases hs.mask with ⟨h, h'⟩ | ⟨h, h', -⟩
  · simp only at h h'
    subst h
    have hne : ¬ ab + 1 = 1 := by omega
    simp [Signals.block, unblock, hne]
  · simp only at h h'
    subst h h'
    simp [Signals.block, unblock]

lemma Steady.settle {s : Signals} (hs : s.Steady) : s.settle = s := by
  rcases s with ⟨ab, m, n, p, r⟩
  have hp : p = false := hs.protect
  have hr : r = false := hs.received
  subst hp hr
  rfl

lemma Steady.guarded {s : Signals} (hs : s.Steady) : Guarded s s :=
  ⟨hs.settle, fun _ => hs.received⟩

lemma Steady.keeps {s t : Signals} (hs : s.Steady) (h : Keeps s t) : t = s := by
  obtain ⟨b, m, rfl, hb, hb', hm⟩ := h
  rcases s with ⟨ab, m', n, p, r⟩
  have hp := hs.protect
  have hr := hs.received
  have hmask := hs.mask
  simp only at *
  subst hp hr
  have hbf : b = false := by simpa using hb'
  subst hbf
  rcases hm with rfl | ⟨rfl, rfl⟩
  · rfl
  · rcases hmask with ⟨-, h⟩ | ⟨rfl, -⟩
    · omega
    · rfl

lemma Sees.incr {s t : Signals} (h : Sees s.incr t) : ∃ u, Sees s u ∧ t = u.incr := by
  obtain ⟨b, rfl, hb⟩ := h
  exact ⟨s.setReceived b, ⟨b, rfl, hb⟩, rfl⟩

lemma Sees.decr {s t : Signals} (h : Sees s.decr t) : ∃ u, Sees s u ∧ t = u.decr := by
  obtain ⟨b, rfl, hb⟩ := h
  exact ⟨s.setReceived b, ⟨b, rfl, hb⟩, rfl⟩

lemma held_intro {s : Signals} {Q : Signals → Prop} (hs : s.Counts) (h : ∀ t, Sees s t → Q t) :
    Held Sees Counts Q s := fun t ht => ⟨ht.counts hs, h t ht⟩

lemma Via.held {f : Signals → Signals} {s u : Signals} (hu : Sees s u) (hf : (f u).Counts) :
    Held Sees Counts (Via f s) (f u) := held_intro hf fun _ ht => ⟨u, hu, ht⟩

lemma Counts.incr {s : Signals} (hs : s.Counts) : s.incr.Counts :=
  Int.add_nonneg hs Int.one_nonneg

/-! ### The functions that change the mask -/

lemma block_of_first {s : Signals} (h : s.incr.already_blocking = 1) :
    s.block = s.incr.setMask true := by
  have h0 : s.already_blocking = 0 := by simpa [Signals.incr] using h
  simp [Signals.block, setMask, Signals.incr, h0]

lemma block_of_nested {s : Signals} (h : s.incr.already_blocking ≠ 1) : s.block = s.incr := by
  have h0 : s.already_blocking ≠ 0 := by simpa [Signals.incr] using h
  simp [Signals.block, Signals.incr, h0]

lemma unblock_of_last {s : Signals} (h : s.decr.already_blocking = 0) :
    s.unblock = s.decr.setMask false := by
  have h1 : s.already_blocking = 1 := by
    simp only [Signals.decr] at h
    omega
  simp [Signals.unblock, setMask, Signals.decr, h1]

lemma unblock_of_nested {s : Signals} (h : s.decr.already_blocking ≠ 0) : s.unblock = s.decr := by
  have h1 : s.already_blocking ≠ 1 := by
    simp only [Signals.decr] at h
    omega
  simp [Signals.unblock, Signals.decr, h1]

lemma block_meets {s : Signals} (hs : s.Counts) :
    wp contract Sees Counts (Proc.code .blockSignals) (Held Sees Counts (Via block s))
      (Held Sees Counts (Via block s)) s := by
  simp only [Proc.code, wp_body_cons, wp_body_singleton, wp_op, wp_cond, wp_skip]
  refine held_intro hs fun s₁ h₁ => held_intro (h₁.counts hs).incr fun s₂ h₂ => ?_
  have hs₂ : s₂.Counts := h₂.counts (h₁.counts hs).incr
  split
  · refine held_intro hs₂ fun s₃ h₃ => ?_
    obtain ⟨u, hu, rfl⟩ := (sees_trans _ _ _ h₂ h₃).incr
    have hfirst : u.incr.already_blocking = 1 := by
      obtain ⟨b, hb, -⟩ := h₃
      have h1 : s₂.already_blocking = 1 := by simpa using ‹(s₂.already_blocking == 1) = true›
      rw [hb]
      exact h1
    rw [← block_of_first hfirst]
    exact Via.held (sees_trans _ _ _ h₁ hu) (hu.counts (h₁.counts hs)).incr
  · obtain ⟨u, hu, rfl⟩ := h₂.incr
    rw [← block_of_nested (by simpa using ‹¬(u.incr.already_blocking == 1) = true›)]
    exact Via.held (sees_trans _ _ _ h₁ hu) (hu.counts (h₁.counts hs)).incr

lemma unblock_meets {s : Signals} (hs : 1 ≤ s.already_blocking) :
    wp contract Sees Counts (Proc.code .unblockSignals) (Held Sees Counts (Via unblock s))
      (Held Sees Counts (Via unblock s)) s := by
  have hcounts : s.Counts := by
    unfold Counts
    omega
  have hdecr : ∀ u, Sees s u → u.decr.Counts := by
    rintro u ⟨b, rfl, -⟩
    exact Int.sub_nonneg_of_le hs
  simp only [Proc.code, wp_body_cons, wp_body_singleton, wp_op, wp_cond, wp_skip]
  refine held_intro hcounts fun s₁ h₁ => held_intro (hdecr s₁ h₁) fun s₂ h₂ => ?_
  split
  · refine held_intro (h₂.counts (hdecr s₁ h₁)) fun s₃ h₃ => ?_
    obtain ⟨u, hu, rfl⟩ := (sees_trans _ _ _ h₂ h₃).decr
    have hlast : u.decr.already_blocking = 0 := by
      obtain ⟨b, hb, -⟩ := h₃
      have h0 : s₂.already_blocking = 0 := by simpa using ‹(s₂.already_blocking == 0) = true›
      rw [hb]
      exact h0
    rw [← unblock_of_last hlast]
    exact Via.held (sees_trans _ _ _ h₁ hu) (hdecr u (sees_trans _ _ _ h₁ hu))
  · obtain ⟨u, hu, rfl⟩ := h₂.decr
    rw [← unblock_of_nested (by simpa using ‹¬(u.decr.already_blocking == 0) = true›)]
    exact Via.held (sees_trans _ _ _ h₁ hu) (hdecr u (sees_trans _ _ _ h₁ hu))

lemma Sees.keeps {s t : Signals} (h : Sees s t) : Keeps s t := by
  obtain ⟨b, rfl, hm, hb⟩ := h
  exact ⟨b, s.masked, rfl, hm, hb, Or.inl rfl⟩

lemma keeps_of_unblock {s u w v : Signals} (hs : s.masked = true → s.already_blocking = 0 →
      s.protect_from_sig_handler = false ∧ s.received_signal = false)
    (hu : Sees s u) (hw : Sees u.block w) (hv : Sees w.unblock v) : Keeps s v := by
  obtain ⟨b, rfl, hb, hb'⟩ := hu
  obtain ⟨c, rfl, hc, hc'⟩ := hw
  obtain ⟨d, rfl, hd, hd'⟩ := hv
  have hset : d = true → s.protect_from_sig_handler = true ∨ s.received_signal = true :=
    fun h => (hd' h).elim Or.inl fun h => (hc' h).elim Or.inl hb'
  refine ⟨d, (s.masked || s.already_blocking == 0) && s.already_blocking + 1 != 1, ?_, ?_,
    hset, ?_⟩
  · simp [Signals.unblock, Signals.block, setReceived, setMask]
  · intro hm
    by_cases h0 : s.already_blocking = 0
    · obtain ⟨hp, hr⟩ := hs hm h0
      rw [hp, hr] at hset
      rw [hr]
      simpa using hset
    · have hcb : c = b := hc (by simp [Signals.block, setReceived, hm])
      have hdc : d = c := hd (by simp [Signals.unblock, Signals.block, setReceived, hm, h0])
      rw [hdc, hcb, hb hm]
  · by_cases h0 : s.already_blocking = 0
    · refine Or.inr ⟨?_, h0⟩
      simp [h0]
    · have hne : s.already_blocking + 1 ≠ 1 := by simpa using h0
      left
      rw [beq_eq_false_iff_ne.mpr h0, bne_iff_ne.mpr hne, Bool.or_false, Bool.and_true]

lemma dbprintf_meets {s : Signals} (hJ : s.Counts) (hs : contract.pre .dbprintf s) :
    wp contract Sees Counts (Proc.code .dbprintf) (Held Sees Counts (Keeps s))
      (Held Sees Counts (Keeps s)) s := by
  simp only [Proc.code, wp_maybe, wp_body_cons, wp_body_singleton, wp_call]
  refine ⟨held_intro hJ fun s₁ h₁ => ⟨trivial, ?_⟩, held_intro hJ fun t ht => ht.keeps⟩
  rintro t ⟨u, hu, ht⟩
  have hu' : Sees s u := sees_trans _ _ _ h₁ hu
  have hblock : u.block.Counts := (hu'.counts hJ).incr
  refine held_intro (ht.counts hblock) fun t₁ h₂ => ?_
  have ht₁ : Sees u.block t₁ := sees_trans _ _ _ ht h₂
  have hpos : 1 ≤ t₁.already_blocking := by
    obtain ⟨b, rfl, -⟩ := ht₁
    exact Int.le_add_of_nonneg_left (hu'.counts hJ)
  refine ⟨hpos, ?_⟩
  rintro v ⟨w, hw, hv⟩
  have hw' : Sees u.block w := sees_trans _ _ _ ht₁ hw
  have hunblock : w.unblock.Counts := by
    obtain ⟨b, rfl, -⟩ := hw
    exact Int.sub_nonneg_of_le hpos
  exact held_intro (hv.counts hunblock) fun v' h₃ =>
    keeps_of_unblock hs hu' hw' (sees_trans _ _ _ hv h₃)

/-! ### Protected sections -/

lemma Guarded.sees {s t u : Signals} (h : Guarded s t) (htu : Sees t u) : Guarded s u := by
  obtain ⟨b, rfl, hm, hb⟩ := htu
  exact ⟨h.1, fun hmask => (hm hmask).trans (h.2 hmask)⟩

lemma Guarded.counts {s t : Signals} (hs : s.Steady) (h : Guarded s t) : t.Counts := by
  have hc := hs.counts
  rw [← h.1] at hc
  exact hc

lemma Guarded.held {s t : Signals} {Q : Signals → Prop} (hs : s.Steady) (h : Guarded s t)
    (hQ : ∀ u, Guarded s u → Q u) : Held Sees Counts Q t :=
  held_intro (h.counts hs) fun _ hu => hQ _ (h.sees hu)

/-- Inside a protected section `SIGIO` is masked as it was before. -/
lemma Guarded.mask {s t : Signals} (hs : s.Steady) (h : Guarded s t) :
    t.masked = true ∧ 1 ≤ t.already_blocking ∨
      t.masked = false ∧ t.already_blocking = 0 ∧ t.need_to_block = false := by
  have hm := hs.mask
  rw [← h.1] at hm
  exact hm

lemma Guarded.pre_dbprintf {s t : Signals} (hs : s.Steady) (h : Guarded s t) :
    contract.pre .dbprintf t := by
  intro hm h0
  rcases h.mask hs with ⟨-, hpos⟩ | ⟨hm', -⟩
  · omega
  · simp [hm] at hm'

lemma Guarded.keeps {s t u : Signals} (hs : s.Steady) (h : Guarded s t) (hu : Keeps t u) :
    Guarded s u := by
  obtain ⟨b, m, rfl, hb, -, hm⟩ := hu
  have hmask : m = t.masked := by
    rcases hm with rfl | ⟨rfl, h0⟩
    · rfl
    · rcases h.mask hs with ⟨-, hpos⟩ | ⟨hm', -⟩
      · omega
      · exact hm'.symm
  subst hmask
  exact ⟨h.1, fun hm => (hb hm).trans (h.2 hm)⟩

lemma Guarded.eq_of_calm {s t : Signals} (h : Guarded s t)
    (hp : t.protect_from_sig_handler = false) (hr : t.received_signal = false) : t = s := by
  rw [← h.1]
  rcases t with ⟨ab, m, n, p, r⟩
  simp only at hp hr
  subst hp hr
  rfl

lemma Guarded.setProtect {s t : Signals} (h : Guarded s t) (b : Bool) :
    Guarded s (t.setProtect b) := h

lemma Handled.of_explicit {s t : Signals} (hs : s.Steady) (hm : s.masked = false)
    (h : Handled (s.setNeed true) t) : t = s.setNeed true := by
  obtain ⟨m, rfl, h⟩ := h
  have hm' : m = s.masked := by
    rcases h with h | ⟨h, -⟩
    · exact h
    · exact h.trans hm.symm
  subst hm'
  rcases s with ⟨ab, m, n, p, r⟩
  have hp : p = false := hs.protect
  have hr : r = false := hs.received
  subst hp hr
  rfl

lemma Sees.protect {s t : Signals} (h : Sees s t) :
    t.protect_from_sig_handler = s.protect_from_sig_handler := by
  obtain ⟨b, rfl, -⟩ := h
  rfl

lemma Keeps.protect {s t : Signals} (h : Keeps s t) :
    t.protect_from_sig_handler = s.protect_from_sig_handler := by
  obtain ⟨b, m, rfl, -⟩ := h
  rfl

/-- `stop_protect_from_sig_handler` calls the handler only where `SIGIO` is not masked. -/
lemma stopProtect_meets {s t : Signals} (hs : s.Steady) (ht : Guarded s t) :
    wp contract Sees Counts (Proc.code .stopProtect) (Held Sees Counts (· = s))
      (Held Sees Counts (· = s)) t := by
  simp only [Proc.code, wp_body_cons, wp_body_singleton, wp_op, wp_cond, wp_skip, wp_call,
    Proc.print]
  have hdone : Held Sees Counts (· = s) s := hs.held rfl
  refine ht.held hs fun t₁ h₁ => held_intro (h₁.counts hs) fun t₂ h₂ => ?_
  have hg₂ : Guarded s t₂ := (h₁.setProtect false).sees h₂
  have hp₂ : t₂.protect_from_sig_handler = false := h₂.protect
  split
  · have hm : s.masked = false := by
      have hm₂ : ¬ t₂.masked = true := fun hm => by simp_all [hg₂.2 hm]
      have hm' : s.masked = t₂.masked := by rw [← hg₂.1]; rfl
      rw [hm']
      simpa using hm₂
    have hneed : (s.setNeed true).Quiet := Or.inr ⟨hs.protect, hs.received⟩
    refine held_intro (hg₂.counts hs) fun t₃ h₃ => ⟨(hg₂.sees h₃).pre_dbprintf hs, fun t₄ h₄ => ?_⟩
    refine held_intro (((hg₂.sees h₃).keeps hs h₄).counts hs) fun t₅ h₅ => ?_
    have hg₅ : Guarded s t₅ := ((hg₂.sees h₃).keeps hs h₄).sees h₅
    have hp₅ : t₅.protect_from_sig_handler = false :=
      h₅.protect.trans (h₄.protect.trans (h₃.protect.trans hp₂))
    have hclear : setReceived false t₅ = s := by
      rw [← hg₅.1, Signals.settle, ← hp₅]
      rfl
    rw [hclear]
    refine hs.held (hneed.held hs.counts ⟨?_, fun u hu => ?_⟩)
    · rcases hs.mask with ⟨h, -⟩ | ⟨-, h0, -⟩
      · simp [h] at hm
      · exact Or.inr ⟨rfl, h0, hs.protect, hs.received⟩
    · rw [Handled.of_explicit hs hm hu]
      refine hneed.held hs.counts ?_
      have hback : setNeed false (s.setNeed true) = s := by
        rcases hs.mask with ⟨h, -⟩ | ⟨-, -, hn⟩
        · simp [h] at hm
        · rcases s with ⟨ab, m, n, p, r⟩
          simp only at hn
          rw [hn]
          rfl
      rw [hback]
      exact hdone
  · have hr : t₂.received_signal = false := by simpa using ‹¬t₂.received_signal = true›
    rw [hg₂.eq_of_calm hp₂ hr]
    exact hdone

/-- The commands that a protected section is made of. -/
def SafeInside : Cmd Signals Proc → Bool
  | .skip | .exit => true
  | .seq c d | .choice c d => SafeInside c && SafeInside d
  | .loop c => SafeInside c
  | .call p => p == .dbprintf || p == .mpMalloc || p == .mpFree
  | _ => false

lemma stable_guarded {s : Signals} (hs : s.Steady) : Stable Sees Counts (Guarded s) :=
  fun _ ht => ht.held hs fun _ hu => hu

lemma wp_guarded {s t : Signals} (hs : s.Steady) {c : Cmd Signals Proc}
    (hc : SafeInside c = true) (ht : Guarded s t) {Q R : Signals → Prop}
    (hQ : ∀ u, Guarded s u → Q u) : wp contract Sees Counts c Q R t := by
  induction c generalizing t Q with
  | skip => exact hQ t ht
  | ret => simp [SafeInside] at hc
  | exit => exact ht.held hs fun _ _ => trivial
  | op f => simp [SafeInside] at hc
  | seq c d ihc ihd =>
    obtain ⟨hc, hd⟩ := Bool.and_eq_true_iff.mp hc
    exact ihc hc ht fun u hu => ihd hd hu hQ
  | cond b c d => simp [SafeInside] at hc
  | choice c d ihc ihd =>
    obtain ⟨hc, hd⟩ := Bool.and_eq_true_iff.mp hc
    exact ⟨ihc hc ht hQ, ihd hd ht hQ⟩
  | loop c ih =>
    exact ⟨Guarded s, stable_guarded hs, ht, fun u hu => ⟨hQ u hu, ih hc hu fun _ h => h⟩⟩
  | call p =>
    have hsettle : ∀ u, Guarded s u → ∀ v, v = u.settle → Q v := by
      rintro u hu v rfl
      rw [hu.1]
      exact hQ s hs.guarded
    refine ht.held hs fun u hu => ?_
    cases p with
    | dbprintf => exact ⟨hu.pre_dbprintf hs, fun v hv => hQ v (hu.keeps hs hv)⟩
    | mpMalloc => exact ⟨⟨s, hs, hu⟩, hsettle u hu⟩
    | mpFree => exact ⟨⟨s, hs, hu⟩, hsettle u hu⟩
    | _ => exact absurd hc Bool.false_ne_true

/-- A section between `start_protect_from_sig_handler` and `stop_protect_from_sig_handler`. -/
lemma protected_meets {s t : Signals} (hs : s.Steady) (ht : Guarded s t)
    {l : List (Cmd Signals Proc)} (hl : ∀ c ∈ l, SafeInside c = true) {R : Signals → Prop} :
    wp contract Sees Counts (.body (Proc.startProtect :: (l ++ [.call .stopProtect])))
      (Held Sees Counts (· = s)) R t := by
  have hrest : ∀ l : List (Cmd Signals Proc), (∀ c ∈ l, SafeInside c = true) → ∀ u, Guarded s u →
      wp contract Sees Counts (.body (l ++ [.call .stopProtect])) (Held Sees Counts (· = s)) R u := by
    intro l hl
    induction l with
    | nil =>
      refine fun u hu => hu.held hs fun v hv => ⟨⟨s, hs, hv⟩, ?_⟩
      rintro w rfl
      rw [hv.1]
      exact hs.held rfl
    | cons c l ih =>
      intro u hu
      rw [List.cons_append, wp_body_cons_of_ne_nil _ (by simp)]
      exact wp_guarded hs (hl c (by simp)) hu (ih fun d hd => hl d (by simp [hd]))
  rw [wp_body_cons_of_ne_nil _ (by simp), Proc.startProtect, wp_op]
  exact ht.held hs fun u hu => hrest l hl _ (hu.setProtect true)

/-! ### Nested blocking -/

/-- The depth behind a call at depth `d`, if the call is allowed there; `m` says that `SIGIO` is
masked from the start. -/
def callDepth (m : Bool) (d : ℕ) : Proc → Option ℕ
  | .blockSignals => some (d + 1)
  | .unblockSignals => if d = 0 then none else some (d - 1)
  | .sigioHandler | .tcpArecv => if m = true ∨ d ≠ 0 then some d else none
  | .stopProtect | .mpTestall => none
  | _ => some d

/-- The common depth behind two branches. -/
def joinDepth : Option (Option ℕ) → Option (Option ℕ) → Option (Option ℕ)
  | some none, r => r
  | some (some d), some none => some (some d)
  | some (some d), some (some e) => if d = e then some (some d) else none
  | _, _ => none

/-- How deep a command that begins at depth `d` has the signals blocked when it ends; `some none`
if it never gets to its end, `none` if its calls are not paired. -/
def depthAfter (m : Bool) : Cmd Signals Proc → ℕ → Option (Option ℕ)
  | .skip, d => some (some d)
  | .ret, d => if d = 0 then some none else none
  | .exit, _ => some none
  | .seq c e, d =>
    match depthAfter m c d with
    | some (some d') => depthAfter m e d'
    | r => r
  | .choice c e, d => joinDepth (depthAfter m c d) (depthAfter m e d)
  | .loop c, d => joinDepth (depthAfter m c d) (some (some d))
  | .call p, d => (callDepth m d p).map some
  | .op _, _ => none
  | .cond _ _ _, _ => none

/-- The state at depth `d`. -/
def deeper (d : ℕ) (s : Signals) : Signals := block^[d] s

lemma deeper_succ (d : ℕ) (s : Signals) : deeper (d + 1) s = (deeper d s).block :=
  Function.iterate_succ_apply' block d s

lemma Steady.deeper {s : Signals} (hs : s.Steady) (d : ℕ) : (deeper d s).Steady := by
  induction d with
  | zero => exact hs
  | succ d ih =>
    rw [deeper_succ]
    exact ih.block

lemma Steady.deeper_masked {s : Signals} (hs : s.Steady) {m : Bool} {d : ℕ}
    (hm : m = true → s.masked = true) (h : m = true ∨ d ≠ 0) :
    (Signals.deeper d s).masked = true := by
  have hblock : ∀ t : Signals, t.Steady → t.block.masked = true := fun t ht => by
    rcases ht.mask with ⟨h, -⟩ | ⟨-, h, -⟩ <;> simp [Signals.block, h]
  cases d with
  | zero => exact hm (h.resolve_right fun h => h rfl)
  | succ d =>
    rw [deeper_succ]
    exact hblock _ (hs.deeper d)

lemma joinDepth_eq_some {a b : Option (Option ℕ)} {r : Option ℕ} (h : joinDepth a b = some r) :
    ∃ x y, a = some x ∧ b = some y ∧ (∀ e, x = some e → r = some e) ∧
      ∀ e, y = some e → r = some e := by
  rcases a with _ | _ | d
  · simp [joinDepth] at h
  · exact ⟨none, r, rfl, h, by simp, fun _ he => he⟩
  · rcases b with _ | _ | e
    · simp [joinDepth] at h
    · simp only [joinDepth, Option.some.injEq] at h
      exact ⟨some d, none, rfl, rfl, fun _ he => h ▸ he, by simp⟩
    · simp only [joinDepth] at h
      split at h
      · rename_i hde
        subst hde
        simp only [Option.some.injEq] at h
        exact ⟨some d, some d, rfl, rfl, fun _ he => h ▸ he, fun _ he => h ▸ he⟩
      · simp at h

lemma Handled.of_masked {s t : Signals} (hs : s.Steady) (hm : s.masked = true) (h : Handled s t) :
    t = s := by
  obtain ⟨m, rfl, h⟩ := h
  have hm' : m = s.masked := by
    rcases h with h | ⟨-, h0, -⟩
    · exact h
    · rcases hs.mask with ⟨-, hpos⟩ | ⟨hf, -⟩
      · omega
      · simp [hm] at hf
  subst hm'
  rcases s with ⟨ab, m, n, p, r⟩
  have hp : p = false := hs.protect
  have hr : r = false := hs.received
  subst hp hr
  rfl

/-- A call of any function leads to the depth that `callDepth` says. -/
lemma call_deeper {s : Signals} (hs : s.Steady) {m : Bool} (hm : m = true → s.masked = true)
    {p : Proc} {d e : ℕ} (h : callDepth m d p = some e) :
    contract.pre p (deeper d s) ∧ ∀ t, contract.post p (deeper d s) t → t = deeper e s := by
  have hd := hs.deeper d
  cases p with
  | blockSignals =>
    obtain rfl : d + 1 = e := by simpa [callDepth] using h
    refine ⟨trivial, ?_⟩
    rintro t ⟨u, hu, ht⟩
    rw [hd.quiet.eq hu] at ht
    rw [deeper_succ]
    exact hd.block.quiet.eq ht
  | unblockSignals =>
    cases d with
    | zero => simp [callDepth] at h
    | succ d =>
      obtain rfl : d = e := by simpa [callDepth] using h
      have hd' := hs.deeper d
      refine ⟨?_, ?_⟩
      · rw [deeper_succ]
        exact Int.le_add_of_nonneg_left hd'.counts
      · rintro t ⟨u, hu, ht⟩
        rw [hd.quiet.eq hu, deeper_succ, hd'.unblock_block] at ht
        exact hd'.quiet.eq ht
  | sigioHandler =>
    simp only [callDepth] at h
    split at h
    · obtain rfl : d = e := by simpa using h
      have hmask : (deeper d s).masked = true := hs.deeper_masked hm ‹_›
      exact ⟨Or.inl hmask, fun t ht => Handled.of_masked hd hmask ht⟩
    · simp at h
  | tcpArecv =>
    simp only [callDepth] at h
    split at h
    · obtain rfl : d = e := by simpa using h
      exact ⟨⟨hd, hs.deeper_masked hm ‹_›⟩, fun t ht => ht⟩
    · simp at h
  | stopProtect => simp [callDepth] at h
  | mpTestall => simp [callDepth] at h
  | dbprintf =>
    obtain rfl : d = e := by simpa [callDepth] using h
    exact ⟨hd.guarded.pre_dbprintf hd, fun t ht => hd.keeps ht⟩
  | mpMalloc | mpFree | addMsgid | remMsgid | showHeadMsgid =>
    obtain rfl : d = e := by simpa [callDepth] using h
    exact ⟨⟨_, hd, hd.guarded⟩, fun t ht => ht.trans hd.settle⟩
  | _ =>
    obtain rfl : d = e := by simpa [callDepth] using h
    exact ⟨hd, fun t ht => ht⟩

lemma wp_of_depthAfter {s : Signals} (hs : s.Steady) {m : Bool} (hm : m = true → s.masked = true)
    {c : Cmd Signals Proc} {d : ℕ} {r : Option ℕ} (h : depthAfter m c d = some r)
    {Q R : Signals → Prop} (hQ : ∀ e, r = some e → Q (deeper e s))
    (hR : c.hasRet = true → R s) : wp contract Sees Counts c Q R (deeper d s) := by
  induction c generalizing d r Q with
  | skip =>
    obtain rfl : some d = r := by simpa [depthAfter] using h
    exact hQ d rfl
  | ret =>
    simp only [depthAfter] at h
    split at h
    · subst d
      exact hR rfl
    · simp at h
  | exit => exact (hs.deeper d).held trivial
  | op f => simp [depthAfter] at h
  | cond b c e => simp [depthAfter] at h
  | seq c e ihc ihe =>
    have hRc : c.hasRet = true → R s := fun hc => hR (by simp [Cmd.hasRet, hc])
    have hRe : e.hasRet = true → R s := fun he => hR (by simp [Cmd.hasRet, he])
    simp only [depthAfter] at h
    split at h
    · rename_i d' hd'
      refine ihc hd' (fun d₁ h₁ => ?_) hRc
      obtain rfl : d' = d₁ := by simpa using h₁
      exact ihe h hQ hRe
    · rename_i hne
      cases r with
      | none => exact ihc h (fun e he => by simp at he) hRc
      | some d₁ => exact absurd h (hne d₁)
  | choice c e ihc ihe =>
    have hRc : c.hasRet = true → R s := fun hc => hR (by simp [Cmd.hasRet, hc])
    have hRe : e.hasRet = true → R s := fun he => hR (by simp [Cmd.hasRet, he])
    obtain ⟨x, y, hx, hy, hxr, hyr⟩ := joinDepth_eq_some h
    exact ⟨ihc hx (fun e he => hQ e (hxr e he)) hRc, ihe hy (fun e he => hQ e (hyr e he)) hRe⟩
  | loop c ih =>
    obtain ⟨x, y, hx, hy, hxr, hyr⟩ := joinDepth_eq_some h
    obtain rfl : some d = y := by simpa using hy
    obtain rfl : r = some d := hyr d rfl
    refine ⟨(· = deeper d s), ?_, rfl, ?_⟩
    · rintro t rfl
      exact (hs.deeper d).held rfl
    · rintro t rfl
      refine ⟨hQ d rfl, ih hx (fun e he => ?_) hR⟩
      obtain rfl : d = e := by simpa using hxr e he
      rfl
  | call p =>
    obtain ⟨e, he, rfl⟩ := Option.map_eq_some_iff.mp h
    have hcall := call_deeper hs hm he
    refine (hs.deeper d).held ⟨hcall.1, fun t ht => ?_⟩
    rw [hcall.2 t ht]
    exact hQ e rfl

/-! ### All functions keep their contracts -/

lemma steady_meets {s : Signals} (hs : s.Steady) {m : Bool} (hm : m = true → s.masked = true)
    {c : Cmd Signals Proc} (h : depthAfter m c 0 = some (some 0)) :
    wp contract Sees Counts c (Held Sees Counts (· = s)) (Held Sees Counts (· = s)) s := by
  refine wp_of_depthAfter (d := 0) hs hm h (fun e he => ?_) fun _ => hs.held rfl
  obtain rfl : 0 = e := by simpa using he
  exact hs.held rfl

lemma Keeps.received {u t : Signals} (hp : u.protect_from_sig_handler = false)
    (hr : u.received_signal = false) (h : Keeps u t) : t.received_signal = false := by
  obtain ⟨b, m, rfl, -, hb, -⟩ := h
  rw [hp, hr] at hb
  simpa [setReceived, setMask] using hb

lemma Keeps.handled {s t u : Signals} (hp : s.protect_from_sig_handler = false)
    (hu : u = s.setReceived false ∨
      s.already_blocking = 0 ∧ u = (s.setReceived false).setMask false)
    (h : Keeps u t) : Handled s t := by
  have hr : t.received_signal = false := by
    rcases hu with rfl | ⟨-, rfl⟩
    · exact Keeps.received (u := s.setReceived false) hp rfl h
    · exact Keeps.received (u := (s.setReceived false).setMask false) hp rfl h
  obtain ⟨b, m, rfl, -, -, hm⟩ := h
  have hb : b = s.protect_from_sig_handler := hr.trans hp.symm
  rcases hu with rfl | ⟨h0, rfl⟩
  · exact ⟨m, by rw [← hb]; rfl, hm.imp id fun h => ⟨h.1, h.2, hp⟩⟩
  · refine ⟨m, by rw [← hb]; rfl, Or.inr ⟨?_, h0, hp⟩⟩
    rcases hm with rfl | ⟨rfl, -⟩ <;> rfl

lemma Counts.steady_incr {s : Signals} (hJ : s.Counts) (hm : s.masked = true)
    (hp : s.protect_from_sig_handler = false) (hr : s.received_signal = false) : s.incr.Steady :=
  ⟨hp, hr, Or.inl ⟨hm, Int.le_add_of_nonneg_left hJ⟩⟩

lemma decr_incr (s : Signals) : s.incr.decr = s := by
  rcases s with ⟨ab, m, n, p, r⟩
  simp [Signals.incr, Signals.decr]

/-- The handler between its two tests of `need_to_block` changes nothing. -/
lemma handler_middle {s : Signals} (hJ : s.Counts) (hm : s.masked = true)
    (hp : s.protect_from_sig_handler = false) (hr : s.received_signal = false)
    {Q R : Signals → Prop} {l : List (Cmd Signals Proc)} (hl : l ≠ [])
    (hrest : wp contract Sees Counts (.body l) Q R s) :
    wp contract Sees Counts (.body (.op Signals.incr :: Proc.print :: Proc.serviceSockets ::
      .op Signals.decr :: l)) Q R s := by
  have hs := hJ.steady_incr hm hp hr
  have hquiet : s.Quiet := Or.inl hm
  rw [wp_body_cons, wp_op]
  refine hquiet.held hJ ?_
  rw [wp_body_cons, Proc.print, wp_call]
  refine hs.held ⟨hs.guarded.pre_dbprintf hs, fun t ht => ?_⟩
  rw [hs.keeps ht, wp_body_cons, wp_body_cons_of_ne_nil _ hl]
  refine wp_of_depthAfter (d := 0) (m := false) hs (by simp) (r := some 0) rfl (fun e he => ?_) ?_
  · obtain rfl : 0 = e := by simpa using he
    rw [wp_op]
    refine hs.held ?_
    show wp contract Sees Counts (.body l) Q R s.incr.decr
    rwa [decr_incr]
  · intro h
    exact absurd h Bool.false_ne_true

lemma unblock_block_of_zero {s : Signals} (h : s.already_blocking = 0) :
    s.block.unblock = s.setMask false := by
  rcases s with ⟨ab, m, n, p, r⟩
  simp only at h
  subst h
  simp [Signals.block, Signals.unblock, setMask]

lemma unblock_block_of_ne_zero {s : Signals} (h : s.already_blocking ≠ 0) :
    s.block.unblock = s := by
  rcases s with ⟨ab, m, n, p, r⟩
  have h0 : (ab == 0) = false := beq_eq_false_iff_ne.mpr h
  have h1 : (ab + 1 != 1) = true := bne_iff_ne.mpr (by simpa using h)
  simp only [Signals.block, Signals.unblock, h0, h1, Bool.or_false, Bool.and_true,
    add_sub_cancel_right]

/-- The handler's last `dbprintf`. -/
lemma handler_end {s u : Signals} (hJ : s.Counts) (hp : s.protect_from_sig_handler = false)
    (hu : u = s.setReceived false ∨
      s.already_blocking = 0 ∧ u = (s.setReceived false).setMask false) {R : Signals → Prop} :
    wp contract Sees Counts Proc.print (Held Sees Counts (Handled s)) R u := by
  have hc : u.Counts := by
    rcases hu with rfl | ⟨-, rfl⟩ <;> exact hJ
  have hcalm : u.protect_from_sig_handler = false ∧ u.received_signal = false := by
    rcases hu with rfl | ⟨-, rfl⟩ <;> exact ⟨hp, rfl⟩
  rw [Proc.print, wp_call]
  refine Quiet.held (Or.inr hcalm) hc ⟨fun _ _ => hcalm, fun t ht => ?_⟩
  have hct : t.Counts := by
    obtain ⟨b, m, rfl, -⟩ := ht
    exact hc
  have hquiet : t.Quiet :=
    Or.inr ⟨(Keeps.protect ht).trans hcalm.1, Keeps.received hcalm.1 hcalm.2 ht⟩
  exact hquiet.held hct (Keeps.handled hp hu ht)

/-- The handler behind its test of the flags. -/
lemma handler_rest {s : Signals} (hJ : s.Counts) (hs : s.Enterable)
    (hp : s.protect_from_sig_handler = false) {R : Signals → Prop} :
    wp contract Sees Counts (.body [
      .cond Signals.need_to_block (.call .blockSignals) .skip,
      .op Signals.incr,
      Proc.print,
      Proc.serviceSockets,
      .op Signals.decr,
      .cond Signals.need_to_block (.call .unblockSignals) .skip,
      Proc.print]) (Held Sees Counts (Handled s)) R (s.setReceived false) := by
  have hcalm : (s.setReceived false).Quiet := Or.inr ⟨hp, rfl⟩
  have hc : (s.setReceived false).Counts := hJ
  rw [wp_body_cons, wp_cond]
  refine hcalm.held hc ?_
  split
  · rename_i hn
    have hmask : (s.setReceived false).block.masked = true := by
      rcases hs with h | ⟨-, h, -⟩ <;> simp [Signals.block, setReceived, h]
    have hquiet : (s.setReceived false).block.Quiet := Or.inl hmask
    have hcb : (s.setReceived false).block.Counts := hc.incr
    rw [wp_call]
    refine hcalm.held hc ⟨trivial, ?_⟩
    rintro t ⟨u, hu, ht⟩
    rw [hcalm.eq hu] at ht
    rw [hquiet.eq ht]
    refine handler_middle hcb hmask hp rfl (by simp) ?_
    rw [wp_body_cons, wp_cond]
    refine hquiet.held hcb ?_
    rw [if_pos (show (s.setReceived false).block.need_to_block = true from hn), wp_call]
    refine hquiet.held hcb ⟨Int.le_add_of_nonneg_left hc, ?_⟩
    rintro t ⟨u, hu, ht⟩
    rw [hquiet.eq hu] at ht
    have hu' : ∀ v, v = (s.setReceived false).block.unblock →
        v = s.setReceived false ∨
          s.already_blocking = 0 ∧ v = (s.setReceived false).setMask false := by
      rintro v rfl
      by_cases h0 : s.already_blocking = 0
      · exact Or.inr ⟨h0, unblock_block_of_zero h0⟩
      · exact Or.inl (unblock_block_of_ne_zero h0)
    have hquiet' : (s.setReceived false).block.unblock.Quiet := Or.inr ⟨hp, rfl⟩
    rw [hquiet'.eq ht, wp_body_singleton]
    exact handler_end hJ hp (hu' _ rfl)
  · rename_i hn
    have hmask : s.masked = true := by
      rcases hs with h | ⟨h, -⟩
      · exact h
      · exact absurd h hn
    rw [wp_skip]
    refine handler_middle hc hmask hp rfl (by simp) ?_
    rw [wp_body_cons, wp_cond]
    refine hcalm.held hc ?_
    rw [if_neg (show ¬(s.setReceived false).need_to_block = true from hn), wp_skip,
      wp_body_singleton]
    exact handler_end hJ hp (Or.inl rfl)

lemma sigioHandler_meets {s : Signals} (hJ : s.Counts) (hs : s.Enterable) :
    wp contract Sees Counts (Proc.code .sigioHandler) (Held Sees Counts (Handled s))
      (Held Sees Counts (Handled s)) s := by
  have hquiet : s.Quiet := hs.imp id fun h => h.2.2
  rw [Proc.code, wp_body_cons, wp_cond]
  refine hquiet.held hJ ?_
  split
  · rename_i hp
    have hmask : s.masked = true := by
      rcases hs with h | ⟨-, -, hp', -⟩
      · exact h
      · simp [hp] at hp'
    have hrec : (s.setReceived true).Quiet := Or.inl hmask
    rw [wp_body_cons, wp_body_singleton, wp_op]
    exact hquiet.held hJ (hrec.held hJ ⟨s.masked, by rw [hp]; rfl, Or.inl rfl⟩)
  · rename_i hp
    have hp' : s.protect_from_sig_handler = false := by simpa using hp
    rw [wp_cond]
    refine hquiet.held hJ ?_
    split
    · rw [wp_op]
      exact hquiet.held hJ (handler_rest hJ hs hp')
    · rename_i hr
      have hclear : s = s.setReceived false := by
        rcases s with ⟨ab, m, n, p, r⟩
        have hr' : r = false := by simpa using hr
        rw [hr']
        rfl
      rw [wp_skip]
      have hrest := handler_rest hJ hs hp' (R := Held Sees Counts (Handled s))
      rwa [← hclear] at hrest

lemma mpTestall_meets {s : Signals} (hs : s.Steady) :
    wp contract Sees Counts (Proc.code .mpTestall) (Held Sees Counts (· = s.block))
      (Held Sees Counts (· = s.block)) s := by
  refine wp_of_depthAfter (d := 0) (m := false) hs (by simp) (r := some 1) rfl (fun e he => ?_) ?_
  · obtain rfl : 1 = e := by simpa using he
    exact hs.block.held rfl
  · intro h
    exact absurd h Bool.false_ne_true

theorem meets : Meets contract Sees Counts mpLite := by
  intro p s hJ hs
  cases p with
  | blockSignals => exact block_meets hJ
  | unblockSignals => exact unblock_meets hs
  | dbprintf => exact dbprintf_meets hJ hs
  | sigioHandler => exact sigioHandler_meets hJ hs
  | stopProtect =>
    obtain ⟨t, ht, hg⟩ := hs
    obtain rfl := hg.1
    exact stopProtect_meets ht hg
  | mpMalloc | mpFree =>
    obtain ⟨t, ht, hg⟩ := hs
    obtain rfl := hg.1
    exact protected_meets (l := []) ht hg (by simp)
  | addMsgid =>
    obtain ⟨t, ht, hg⟩ := hs
    obtain rfl := hg.1
    exact protected_meets ht hg
      (l := [Proc.print, .call .mpMalloc, Proc.check, Proc.print]) (by decide)
  | remMsgid =>
    obtain ⟨t, ht, hg⟩ := hs
    obtain rfl := hg.1
    exact protected_meets ht hg
      (l := [Proc.print, .loop (.maybe (.call .mpFree)), Proc.check, Proc.print]) (by decide)
  | showHeadMsgid =>
    obtain ⟨t, ht, hg⟩ := hs
    obtain rfl := hg.1
    exact protected_meets (l := [Proc.print, Proc.print]) ht hg (by decide)
  | tcpArecv => exact steady_meets (m := true) hs.1 (fun _ => hs.2) rfl
  | mpTestall => exact mpTestall_meets hs
  | _ => exact steady_meets (m := false) hs (by simp) rfl

/-- The handler may come whenever `SIGIO` is not masked. -/
theorem interruptible : Interruptible contract Sees Counts mpLite := by
  intro s hJ he
  have hm : s.masked = false := by simpa [mpLite] using he
  have henter : (s.setMask true).Quiet := Or.inl rfl
  refine henter.held hJ ⟨Or.inl rfl, ?_⟩
  rintro t ⟨m, rfl, hmask⟩
  have hquiet : (((s.setMask true).setReceived s.protect_from_sig_handler).setMask m).Quiet := by
    rcases hmask with h | ⟨-, -, h⟩
    · exact Or.inl h
    · exact Or.inr ⟨h, h⟩
  refine hquiet.held hJ ⟨s.protect_from_sig_handler, rfl, fun h => ?_, Or.inl⟩
  rw [hm] at h
  exact absurd h Bool.false_ne_true

/-- Outside the library: nothing is under way and the signals are not blocked. -/
def Idle (s : Signals) : Prop := s.Steady ∧ s.already_blocking = 0 ∧ s.masked = false

lemma top_keeps {S : Set Proc} (hS : Proc.mpTestall ∉ S) {p : Proc} {s : Signals}
    (hp : p.TopLevel ∧ p ∈ S) (hs : s.Idle) :
    contract.pre p s ∧ ∀ t, contract.post p s t → Held Sees Counts Idle t := by
  have hsame : ∀ t, t = s → Held Sees Counts Idle t := by
    rintro t rfl
    exact hs.1.held hs
  obtain ⟨htop, hmem⟩ := hp
  cases p with
  | mpTestall => exact absurd hmem hS
  | mpASend | mpARecv | mpWait | mpTest | mpAProbe | mpAPut | mpAGet | mpAAccumulate | mpWinLock
  | mpWinUnlock => exact ⟨hs.1, hsame⟩
  | _ => exact htop.elim

lemma init_idle : init.Idle := ⟨⟨rfl, rfl, Or.inr ⟨rfl, rfl, rfl⟩⟩, rfl, rfl⟩

lemma balanced_of_not_mem {S : Set Proc} (hS : Proc.mpTestall ∉ S) : Balanced S := by
  intro k s h
  obtain ⟨hJ, hidle⟩ := h.sound sees_refl sees_trans meets interruptible
    (fun p s hp hs => top_keeps hS hp hs) (init_idle.1.held init_idle)
  exact ⟨hJ, fun hk => (hidle hk).2⟩

/-! ### `MP_Testall` -/

/-- One call of `MP_Testall` with one message that is not complete. -/
lemma mpTestall_leaves {S : Set Proc} (hS : Proc.mpTestall ∈ S) :
    Reachable S [] { init with already_blocking := 1, masked := true } := by
  have hstart : Reachable S [] init := .start
  have hcall := (hstart.step (.top (p := Proc.mpTestall) init ⟨trivial, hS⟩)).step (.call ..)
  have hblock := (((hcall.step (.seq ..)).step (.call ..)).step (.seq ..)).step (.op ..)
  have hmask := ((hblock.step (.cond ..)).step (.op ..)).step (.fn ..)
  have hloop := (((hmask.step (.seq ..)).step (.more ..)).step (.right ..)).step (.skip ..)
  have hend := ((hloop.step (.stop ..)).step (.right ..)).step (.skip ..)
  exact hend.step (.fn ..)

/-- The exact condition: the signals stay balanced in every run if and only if the program never
calls `MP_Testall`. -/
theorem balanced_iff (S : Set Proc) : Balanced S ↔ Proc.mpTestall ∉ S := by
  constructor
  · intro hbal hS
    have h := (hbal _ _ (mpTestall_leaves hS)).2 rfl
    exact absurd h.1 one_ne_zero
  · exact balanced_of_not_mem

/-- After one call of `MP_Testall` the handler is masked for good. -/
theorem not_balanced : ¬Balanced Set.univ := by
  intro hbal
  have h := (hbal _ _ (mpTestall_leaves (Set.mem_univ _))).2 rfl
  exact absurd h.1 one_ne_zero

end Signals

end NetPipe.MpLite
