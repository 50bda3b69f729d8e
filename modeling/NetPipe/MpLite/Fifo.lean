import NetPipe.Library.Ring

/-!
# FIFOs in shared memory

One FIFO between a sender, which calls `FIFOwrite`, and a receiver, which calls `FIFOread`. The calls
interleave at each access to the memory they share. `FIFOwrite` tries a limited number of times; if
there is no room even then, it returns without having stored the offset.
-/

namespace NetPipe.MpLite

/-- The entries of a FIFO. -/
def FIFO_MAX : ℕ := 40

/-- Where the sender is, in try `j`. The condition reads `recvpos` in its first comparison, and once
more where `sendpos` wraps. -/
inductive WritePc where
  | outside
  | first (j : ℕ)
  | second (j : ℕ)
  | store
  | advance
  deriving DecidableEq, Repr

/-- Where the receiver is. -/
inductive ReadPc where
  | outside
  | wait
  | load
  | advance (offset : ℕ)
  deriving DecidableEq, Repr

/-- A FIFO and the two processes at it, with the argument of the last call of `FIFOwrite`, the
arguments of its completed calls, and what `FIFOread` has returned. -/
structure FifoState where
  recvpos : ℕ
  sendpos : ℕ
  offset : ℕ → ℕ
  writer : WritePc
  reader : ReadPc
  current : ℕ
  passed : List ℕ
  returned : List ℕ

/-- The sender or the receiver makes a call, or its next access. -/
inductive FifoAct where
  | callWrite (offset : ℕ)
  | write
  | callRead
  | read
  deriving DecidableEq, Repr

namespace FifoState

/-- After `init_fifo`, on whatever the memory contains. -/
def init (offset : ℕ → ℕ) : FifoState := ⟨0, 0, offset, .outside, .outside, 0, [], []⟩

/-- `FIFOwrite` returns. -/
def endWrite (s : FifoState) : FifoState :=
  { s with writer := .outside, passed := s.passed ++ [s.current] }

/-- Try `j` of `FIFOwrite`, as long as there are tries left. -/
def tryWrite (nsmp j : ℕ) (s : FifoState) : FifoState :=
  if j < nsmp then { s with writer := .first j } else s.endWrite

/-- The position behind `pos`. -/
def nextPos (pos : ℕ) : ℕ := if pos = FIFO_MAX - 1 then 0 else pos + 1

/-- The next access of the sender. -/
def stepWrite (nsmp : ℕ) (s : FifoState) : FifoState :=
  match s.writer with
  | .outside => s
  | .first j =>
    if s.sendpos + 1 = s.recvpos then s.tryWrite nsmp (j + 1)
    else if s.sendpos + 1 = FIFO_MAX then { s with writer := .second j }
    else { s with writer := .store }
  | .second j => if s.recvpos = 0 then s.tryWrite nsmp (j + 1) else { s with writer := .store }
  | .store =>
    { s with offset := Function.update s.offset s.sendpos s.current, writer := .advance }
  | .advance => { s with sendpos := nextPos s.sendpos }.endWrite

/-- The next access of the receiver. -/
def stepRead (s : FifoState) : FifoState :=
  match s.reader with
  | .outside => s
  | .wait => if s.recvpos = s.sendpos then s else { s with reader := .load }
  | .load => { s with reader := .advance (s.offset s.recvpos) }
  | .advance offset =>
    { s with recvpos := nextPos s.recvpos, reader := .outside, returned := s.returned ++ [offset] }

/-- What happens next. A process in a call makes no other one. -/
def step (nsmp : ℕ) (s : FifoState) : FifoAct → FifoState
  | .callWrite offset =>
    if s.writer = .outside then { s with current := offset }.tryWrite nsmp 0 else s
  | .write => s.stepWrite nsmp
  | .callRead => if s.reader = .outside then { s with reader := .wait } else s
  | .read => s.stepRead

/-- Calls and accesses in the order in which they happen. -/
def run (nsmp : ℕ) (s : FifoState) (acts : List FifoAct) : FifoState := acts.foldl (step nsmp) s

/-- The sender finds no room, and it was its last try. -/
inductive GivesUp (nsmp : ℕ) (s : FifoState) : FifoAct → Prop
  | none (offset : ℕ) (hpc : s.writer = .outside) (hlast : nsmp = 0) :
      GivesUp nsmp s (.callWrite offset)
  | first (j : ℕ) (hpc : s.writer = .first j) (hlast : ¬ j + 1 < nsmp)
      (hfull : s.sendpos + 1 = s.recvpos) : GivesUp nsmp s .write
  | second (j : ℕ) (hpc : s.writer = .second j) (hlast : ¬ j + 1 < nsmp) (hfull : s.recvpos = 0) :
      GivesUp nsmp s .write

/-- The sender finds room in every call before its tries are used up. -/
def Stores (nsmp : ℕ) (s : FifoState) : List FifoAct → Prop
  | [] => True
  | act :: acts => ¬ s.GivesUp nsmp act ∧ (s.step nsmp act).Stores nsmp acts

variable {nsmp j : ℕ} {s : FifoState} {items : List ℕ}

/-- What was passed and not yet returned is in the ring, and the places of the two processes tell
what they know of it. -/
structure Holds (s : FifoState) (items : List ℕ) : Prop where
  passed : s.passed = s.returned ++ items
  ring : Ring FIFO_MAX s.offset s.recvpos s.sendpos items
  wraps : ∀ j, s.writer = .second j → s.sendpos + 1 = FIFO_MAX
  room : s.writer = .store ∨ s.writer = .advance → items.length + 1 < FIFO_MAX
  stored : s.writer = .advance → s.offset s.sendpos = s.current
  filled : s.reader = .load → items ≠ []
  loaded : ∀ offset, s.reader = .advance offset → items.head? = some offset

lemma holds_init (offset : ℕ → ℕ) : Holds (init offset) [] where
  passed := rfl
  ring := Ring.empty (by simp [FIFO_MAX]) offset
  wraps := by simp [init]
  room := by simp [init]
  stored := by simp [init]
  filled := by simp [init]
  loaded := by simp [init]

lemma nextPos_eq {pos : ℕ} (hpos : pos < FIFO_MAX) : nextPos pos = (pos + 1) % FIFO_MAX := by
  rw [FIFO_MAX] at hpos
  by_cases hlast : pos = 39
  · simp [nextPos, FIFO_MAX, hlast]
  · have hlt : pos + 1 < 40 := by omega
    simp [nextPos, FIFO_MAX, hlast, Nat.mod_eq_of_lt hlt]

/-- The next try begins. -/
lemma Holds.tryWrite (h : Holds s items) (hj : j < nsmp) : Holds (s.tryWrite nsmp j) items where
  passed := by simpa [FifoState.tryWrite, hj] using h.passed
  ring := by simpa [FifoState.tryWrite, hj] using h.ring
  wraps := by simp [FifoState.tryWrite, hj]
  room := by simp [FifoState.tryWrite, hj]
  stored := by simp [FifoState.tryWrite, hj]
  filled := by simpa [FifoState.tryWrite, hj] using h.filled
  loaded := by simpa [FifoState.tryWrite, hj] using h.loaded

/-- The sender has found room. -/
lemma Holds.found (h : Holds s items) (hroom : (s.sendpos + 1) % FIFO_MAX ≠ s.recvpos) :
    Holds { s with writer := .store } items where
  passed := h.passed
  ring := h.ring
  wraps := by simp
  room := fun _ => h.ring.room_of_succ_tail_ne hroom
  stored := by simp
  filled := h.filled
  loaded := h.loaded

lemma Holds.stepWrite (h : Holds s items) (hstores : ¬ s.GivesUp nsmp .write) :
    ∃ items, Holds (s.stepWrite nsmp) items := by
  have hlt := h.ring.tail_lt
  cases hpc : s.writer with
  | outside =>
    have heq : s.stepWrite nsmp = s := by simp [FifoState.stepWrite, hpc]
    rw [heq]
    exact ⟨items, h⟩
  | first j =>
    simp only [FifoState.stepWrite, hpc]
    split_ifs with hfull hwrap
    · have hj : j + 1 < nsmp := by
        by_contra hlast
        exact hstores (.first j hpc hlast hfull)
      exact ⟨items, h.tryWrite hj⟩
    · exact ⟨items, h.passed, h.ring, fun _ _ => hwrap, by simp, by simp, h.filled, h.loaded⟩
    · refine ⟨items, h.found ?_⟩
      rwa [Nat.mod_eq_of_lt (lt_of_le_of_ne hlt hwrap)]
  | second j =>
    simp only [FifoState.stepWrite, hpc]
    split_ifs with hfull
    · have hj : j + 1 < nsmp := by
        by_contra hlast
        exact hstores (.second j hpc hlast hfull)
      exact ⟨items, h.tryWrite hj⟩
    · refine ⟨items, h.found ?_⟩
      rw [h.wraps j hpc, Nat.mod_self]
      exact Ne.symm hfull
  | store =>
    simp only [FifoState.stepWrite, hpc]
    refine ⟨items, h.passed, h.ring.store s.current, by simp, fun _ => h.room (.inl hpc), ?_,
      h.filled, h.loaded⟩
    simp
  | advance =>
    simp only [FifoState.stepWrite, hpc, endWrite]
    refine ⟨items ++ [s.current], ?_, ?_, by simp, by simp, by simp, by simp, ?_⟩
    · simp [h.passed]
    · rw [nextPos_eq hlt]
      exact h.ring.advance (h.room (.inr hpc)) (h.stored hpc)
    · intro offset hreader
      simp [h.loaded offset hreader]

lemma Holds.stepRead (h : Holds s items) : ∃ items, Holds s.stepRead items := by
  cases hpc : s.reader with
  | outside =>
    have heq : s.stepRead = s := by simp [FifoState.stepRead, hpc]
    rw [heq]
    exact ⟨items, h⟩
  | wait =>
    simp only [FifoState.stepRead, hpc]
    split_ifs with hempty
    · exact ⟨items, h⟩
    · exact ⟨items, h.passed, h.ring, h.wraps, h.room, h.stored,
        fun _ => mt h.ring.head_eq_tail.mpr hempty, by simp⟩
  | load =>
    simp only [FifoState.stepRead, hpc]
    refine ⟨items, h.passed, h.ring, h.wraps, h.room, h.stored, by simp, ?_⟩
    intro offset hoffset
    obtain ⟨x, xs, rfl⟩ := List.exists_cons_of_ne_nil (h.filled hpc)
    have hx := h.ring.head_eq
    simpa [hx] using hoffset
  | advance offset =>
    simp only [FifoState.stepRead, hpc]
    obtain ⟨xs, rfl⟩ := List.head?_eq_some_iff.mp (h.loaded offset hpc)
    refine ⟨xs, ?_, ?_, h.wraps, ?_, h.stored, by simp, by simp⟩
    · simp [h.passed]
    · rw [nextPos_eq h.ring.head_lt]
      exact h.ring.pop
    · intro hwriter
      exact Nat.lt_of_succ_lt (h.room hwriter)

lemma Holds.step {act : FifoAct} (h : Holds s items) (hstores : ¬ s.GivesUp nsmp act) :
    ∃ items, Holds (s.step nsmp act) items := by
  cases act with
  | callWrite offset =>
    simp only [FifoState.step]
    split_ifs with hpc
    · have hpos : 0 < nsmp := by
        apply Nat.pos_of_ne_zero
        exact fun hzero => hstores (.none offset hpc hzero)
      refine ⟨items, Holds.tryWrite ?_ hpos⟩
      exact ⟨h.passed, h.ring, h.wraps, h.room, by simp [hpc], h.filled, h.loaded⟩
    · exact ⟨items, h⟩
  | write => exact h.stepWrite hstores
  | callRead =>
    simp only [FifoState.step]
    split_ifs with hpc
    · exact ⟨items, h.passed, h.ring, h.wraps, h.room, h.stored, by simp, by simp⟩
    · exact ⟨items, h⟩
  | read => exact h.stepRead

lemma Holds.run {acts : List FifoAct} (h : Holds s items) (hstores : s.Stores nsmp acts) :
    ∃ items, Holds (s.run nsmp acts) items := by
  induction acts generalizing s items with
  | nil => exact ⟨items, h⟩
  | cons act acts ih =>
    obtain ⟨items', h'⟩ := h.step hstores.1
    exact ih h' hstores.2

/-- What the receiver gets is what the sender has passed, as far as it has got, if no call runs out of
tries. -/
theorem returned_as_passed (offset : ℕ → ℕ) {acts : List FifoAct}
    (hstores : (init offset).Stores nsmp acts) :
    ((init offset).run nsmp acts).returned <+: ((init offset).run nsmp acts).passed := by
  obtain ⟨items, h⟩ := (holds_init offset).run hstores
  exact ⟨items, h.passed.symm⟩

/-- A call that stores its offset. -/
def writeCall (offset : ℕ) : List FifoAct := [.callWrite offset, .write, .write, .write]

/-- A call that finds an offset. -/
def readCall : List FifoAct := [.callRead, .read, .read, .read]

/-- With the FIFO full, the sender tries twice to write 39 and gives up; it writes 40 when one offset
has been read. -/
def lossy : List FifoAct :=
  (List.range 39).flatMap writeCall ++ [.callWrite 39, .write, .write, .write, .write] ++ readCall ++
    [.callWrite 40, .write, .write, .write, .write] ++ (List.replicate 39 readCall).flatten

theorem not_returned_as_passed :
    ¬ ((init fun _ => 0).run 2 lossy).returned <+: ((init fun _ => 0).run 2 lossy).passed := by
  decide +kernel

/-- One offset goes through. -/
theorem returned_as_passed_one :
    ((init fun _ => 0).run 2 (writeCall 7 ++ readCall)).returned <+:
      ((init fun _ => 0).run 2 (writeCall 7 ++ readCall)).passed := by
  apply returned_as_passed
  refine ⟨?_, ?_, ?_, ?_, ?_, ?_, ?_, ?_, trivial⟩ <;> rintro ⟨⟩ <;> contradiction

end FifoState

end NetPipe.MpLite
