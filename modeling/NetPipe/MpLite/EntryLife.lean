import NetPipe.MpLite.RecvQueue

/-!
# The life of an entry in shared memory

`smp_send` sets the flag of an entry to 0, copies the message, passes the offset through the FIFO and
then sets the flag to 1. `smp_recv` sets it to -1 once it has copied the message. When it reads the
FIFO it waits for the flag first; when it takes a message from its queue it does not.
-/

namespace NetPipe.MpLite

/-- An entry of the pool, with the number of bytes of its message that `smp_send` has copied, and the
values that its flag was given since the last call of `smp_send` took it. -/
structure LifeEntry where
  src : ℕ
  nbytes : ℤ
  tag : ℤ
  flag : ℤ
  written : ℕ
  history : List ℤ
  deriving DecidableEq, Repr

/-- Where a process is: in `smp_send` before it passes the offset, or before it sets the flag to 1; in
`smp_recv` in the loop that reads the FIFO, where `hdr` is the local variable of that name, in the
loop that waits for the flag, before it copies the message, or before it sets the flag to -1; or
ended by `quitall` or by an access outside the ring. -/
inductive LifePc where
  | outside
  | copyIn (a dest : ℕ)
  | publish (a : ℕ)
  | reading (msg : RecvMsg) (hdr : ℕ)
  | waiting (a : ℕ)
  | copyOut (a : ℕ)
  | marking (a : ℕ)
  | ended
  deriving DecidableEq, Repr

/-- The pool, the FIFOs from each process to each other one with the offsets in them, and of each
process the variables of `smp_recv` and where it is. -/
structure LifeState where
  entry : ℕ → LifeEntry
  fifo : ℕ → ℕ → List ℕ
  recv : ℕ → RecvState
  pc : ℕ → LifePc

/-- A process calls `smp_send`, which places the message at offset `a`, or `smp_recv`, with whatever
value the variable `hdr` has in its frame; or it goes on; or `FIFOwrite` gives up. -/
inductive LifeAct where
  | send (p dest a : ℕ) (nbytes tag : ℤ)
  | recv (q : ℕ) (msg : RecvMsg) (hdr : ℕ)
  | go (p : ℕ)
  | giveUp (p : ℕ)
  deriving DecidableEq, Repr

/-- The message is in the entry as a whole. -/
abbrev LifeEntry.Written (e : LifeEntry) : Prop := e.nbytes ≤ e.written

/-- `e->flag = v`. -/
def LifeEntry.setFlag (v : ℤ) (e : LifeEntry) : LifeEntry :=
  { e with flag := v, history := e.history ++ [v] }

/-- `smp_send` may use the entry: it is new or marked as received. -/
abbrev LifeEntry.Collectable (e : LifeEntry) : Prop := e.history = [] ∨ e.flag = -1

namespace LifeState

/-- What `smp_recv` reads of an entry. -/
def header (s : LifeState) (a : ℕ) : PoolEntry :=
  ⟨a, (s.entry a).src, (s.entry a).nbytes, (s.entry a).tag⟩

/-- Process `p` goes on at another place. -/
def goto (p : ℕ) (pc : LifePc) (s : LifeState) : LifeState :=
  { s with pc := Function.update s.pc p pc }

/-- An entry changes. -/
def setEntry (a : ℕ) (e : LifeEntry) (s : LifeState) : LifeState :=
  { s with entry := Function.update s.entry a e }

/-- The FIFO from `src` to `dest` changes. -/
def setFifo (src dest : ℕ) (l : List ℕ) (s : LifeState) : LifeState :=
  { s with fifo := Function.update s.fifo src (Function.update (s.fifo src) dest l) }

/-- The variables of `smp_recv` of process `q` change. -/
def setRecv (q : ℕ) (r : RecvState) (s : LifeState) : LifeState :=
  { s with recv := Function.update s.recv q r }

/-- After `init_smp`. -/
def init : LifeState where
  entry := fun _ => ⟨0, 0, 0, 0, 0, []⟩
  fifo := fun _ _ => []
  recv := fun _ => RecvState.init fun _ => []
  pc := fun _ => .outside

/-- `smp_send` takes an entry. The region of process `owner a` contains offset `a`. -/
def send (owner : ℕ → ℕ) (p dest a : ℕ) (nbytes tag : ℤ) (s : LifeState) : LifeState :=
  if s.pc p = .outside ∧ owner a = p ∧ (s.entry a).Collectable then
    (s.setEntry a ⟨p, nbytes, tag, 0, 0, [0]⟩).goto p (.copyIn a dest)
  else s

/-- `smp_recv` searches its queue. -/
def search (q : ℕ) (msg : RecvMsg) (hdr : ℕ) (s : LifeState) : LifeState :=
  if s.pc q = .outside then
    if (s.recv q).n_buffered = 0 then s.goto q (.reading msg hdr)
    else
      match (s.recv q).search msg 0 ((s.recv q).next 0) (s.recv q).n_buffered with
      | .found prev hdr contents =>
        (s.setRecv q ((s.recv q).takeNode prev hdr contents msg)).goto q
          (.copyOut contents.entry.offset)
      | .notFound hdr => s.goto q (.reading msg hdr)
      | .invalid => s.goto q .ended
  else s

/-- `smp_recv` takes an offset from the FIFO. -/
def read (q : ℕ) (msg : RecvMsg) (hdr : ℕ) (s : LifeState) : LifeState :=
  match s.fifo msg.src q with
  | [] => s
  | a :: rest =>
    if msg.accepts (s.header a) then
      ((s.setFifo msg.src q rest).setRecv q ((s.recv q).takeEntry (s.header a) [] msg)).goto q
        (.waiting a)
    else if (s.recv q).n_buffered = MSG_Q_SIZE then s.goto q .ended
    else if hdr < MSG_Q_SIZE then
      (s.setFifo msg.src q rest).setRecv q ((s.recv q).skipEntry hdr (s.header a))
    else s.goto q .ended

/-- Process `p` makes its next access. -/
def go (p : ℕ) (s : LifeState) : LifeState :=
  match s.pc p with
  | .outside | .ended => s
  | .copyIn a dest =>
    if (s.entry a).Written then (s.setFifo p dest (s.fifo p dest ++ [a])).goto p (.publish a)
    else s.setEntry a { s.entry a with written := (s.entry a).written + 1 }
  | .publish a => (s.setEntry a ((s.entry a).setFlag 1)).goto p .outside
  | .reading msg hdr => s.read p msg hdr
  | .waiting a => if (s.entry a).flag = 0 then s else s.goto p (.copyOut a)
  | .copyOut a => s.goto p (.marking a)
  | .marking a => (s.setEntry a ((s.entry a).setFlag (-1))).goto p .outside

/-- `FIFOwrite` returns without having stored the offset. -/
def giveUp (p : ℕ) (s : LifeState) : LifeState :=
  match s.pc p with
  | .copyIn a _ => if (s.entry a).Written then s.goto p (.publish a) else s
  | _ => s

/-- What an act does. Acts that are not possible do nothing. -/
def next (owner : ℕ → ℕ) (s : LifeState) : LifeAct → LifeState
  | .send p dest a nbytes tag => s.send owner p dest a nbytes tag
  | .recv q msg hdr => s.search q msg hdr
  | .go p => s.go p
  | .giveUp p => s.giveUp p

/-- What a run does. -/
def run (owner : ℕ → ℕ) (s : LifeState) (acts : List LifeAct) : LifeState := acts.foldl (next owner) s

/-- The flags go through 0, 1 and -1, and keep the last value; only complete messages are copied. -/
structure Sound (s : LifeState) : Prop where
  order : ∀ a, (s.entry a).history <+: [0, 1, -1]
  kept : ∀ a, -1 ∈ (s.entry a).history → (s.entry a).flag = -1
  complete : ∀ q a, s.pc q = .copyOut a → (s.entry a).Written

/-- If the next header is skipped, it goes to the node behind `tail_q`, and that is a free one. -/
abbrev SkipsBehind (s : LifeState) (q : ℕ) (msg : RecvMsg) (hdr : ℕ) : Prop :=
  ∀ a ∈ (s.fifo msg.src q).head?, ¬ msg.accepts (s.header a) →
    hdr = (s.recv q).next (s.recv q).tail_q ∧ hdr ≠ 0

/-- A header that is skipped in the act goes there. -/
def Behind (s : LifeState) : LifeAct → Prop
  | .go q =>
    match s.pc q with
    | .reading msg hdr => s.SkipsBehind q msg hdr
    | _ => True
  | _ => True

/-- Every act of the run is like that. -/
def AllBehind (owner : ℕ → ℕ) (s : LifeState) : List LifeAct → Prop
  | [] => True
  | act :: acts => s.Behind act ∧ (s.next owner act).AllBehind owner acts

instance decidableBehind (s : LifeState) : (act : LifeAct) → Decidable (s.Behind act)
  | .go q =>
    match hpc : s.pc q with
    | .reading msg hdr => decidable_of_iff (s.SkipsBehind q msg hdr) (by rw [Behind, hpc])
    | .outside | .ended | .copyIn _ _ | .publish _ | .waiting _ | .copyOut _ | .marking _ =>
      isTrue (by simp [Behind, hpc])
  | .send _ _ _ _ _ | .recv _ _ _ | .giveUp _ => instDecidableTrue

instance decidableAllBehind (owner : ℕ → ℕ) (s : LifeState) :
    (acts : List LifeAct) → Decidable (s.AllBehind owner acts)
  | [] => instDecidableTrue
  | act :: acts =>
    have := decidableAllBehind owner (s.next owner act) acts
    inferInstanceAs (Decidable (_ ∧ _))

end LifeState

/-- Where an entry is that was passed and not yet received. -/
inductive LifePlace where
  | nowhere
  | fifo (src dest : ℕ)
  | queue (q : ℕ)
  | reader (q : ℕ)
  deriving DecidableEq

/-- The flag and the values it was given agree with each other. -/
def LifeEntry.Cycle (e : LifeEntry) : Prop :=
  e.history = [] ∨ e.history = [0] ∧ e.flag = 0 ∨ e.history = [0, 1] ∧ e.flag = 1 ∨
    e.history = [0, 1, -1] ∧ e.flag = -1

namespace LifeState

section

variable (s : LifeState) (p q a b : ℕ) (pc : LifePc) (e : LifeEntry) (l : List ℕ) (r : RecvState)

@[simp, grind =] lemma goto_pc : (s.goto p pc).pc q = if q = p then pc else s.pc q :=
  Function.update_apply ..

@[simp, grind =] lemma goto_entry : (s.goto p pc).entry = s.entry := rfl

@[simp, grind =] lemma goto_fifo : (s.goto p pc).fifo = s.fifo := rfl

@[simp, grind =] lemma goto_recv : (s.goto p pc).recv = s.recv := rfl

@[simp, grind =] lemma setEntry_entry : (s.setEntry a e).entry b = if b = a then e else s.entry b :=
  Function.update_apply ..

@[simp, grind =] lemma setEntry_pc : (s.setEntry a e).pc = s.pc := rfl

@[simp, grind =] lemma setEntry_fifo : (s.setEntry a e).fifo = s.fifo := rfl

@[simp, grind =] lemma setEntry_recv : (s.setEntry a e).recv = s.recv := rfl

@[simp, grind =] lemma setFifo_fifo (p' q' : ℕ) :
    (s.setFifo p q l).fifo p' q' = if p' = p ∧ q' = q then l else s.fifo p' q' := by
  by_cases hp : p' = p
  · subst hp
    simp [setFifo, Function.update_apply]
  · simp [setFifo, hp]

@[simp, grind =] lemma setFifo_pc : (s.setFifo p q l).pc = s.pc := rfl

@[simp, grind =] lemma setFifo_entry : (s.setFifo p q l).entry = s.entry := rfl

@[simp, grind =] lemma setFifo_recv : (s.setFifo p q l).recv = s.recv := rfl

@[simp, grind =] lemma setRecv_recv (q' : ℕ) :
    (s.setRecv q r).recv q' = if q' = q then r else s.recv q' :=
  Function.update_apply ..

@[simp, grind =] lemma setRecv_pc : (s.setRecv q r).pc = s.pc := rfl

@[simp, grind =] lemma setRecv_entry : (s.setRecv q r).entry = s.entry := rfl

@[simp, grind =] lemma setRecv_fifo : (s.setRecv q r).fifo = s.fifo := rfl

end

/-- What is known where a process is. -/
def Here (owner : ℕ → ℕ) (place : ℕ → LifePlace) (s : LifeState) (p : ℕ) : LifePc → Prop
  | .outside | .ended | .reading _ _ => True
  | .copyIn a _ => owner a = p ∧ (s.entry a).history = [0] ∧ place a = .nowhere
  | .publish a => owner a = p ∧ (s.entry a).history = [0]
  | .waiting a => place a = .reader p
  | .copyOut a | .marking a => place a = .reader p ∧ (s.entry a).history = [0, 1]

/-- The invariant: an entry that was passed is in one place until it is received. -/
structure Inv (owner : ℕ → ℕ) (place : ℕ → LifePlace) (queue : ℕ → List QHdr) (s : LifeState) :
    Prop where
  ring : ∀ q, (s.recv q).Holds (queue q)
  fifo : ∀ p q, ∀ a ∈ s.fifo p q, place a = .fifo p q
  fifo_nodup : ∀ p q, (s.fifo p q).Nodup
  queued : ∀ q, ∀ hdr ∈ queue q, place hdr.entry.offset = .queue q
  queued_nodup : ∀ q, ((queue q).map fun hdr => hdr.entry.offset).Nodup
  here : ∀ p, Here owner place s p (s.pc p)
  placed : ∀ a, place a ≠ .nowhere →
    (s.entry a).Written ∧ ((s.entry a).history = [0] ∨ (s.entry a).history = [0, 1])
  cycle : ∀ a, (s.entry a).Cycle

/-- Only the message that a process has passed last may have the flag 0 still. It is the last one in
its FIFO, or was taken from there by a call of `smp_recv` that is waiting for the next one. -/
structure Late (queue : ℕ → List QHdr) (s : LifeState) : Prop where
  fifo : ∀ p q, ∀ a ∈ s.fifo p q, (s.entry a).history = [0, 1] ∨
    s.pc p = .publish a ∧ (s.fifo p q).getLast? = some a
  queued : ∀ q, ∀ hdr ∈ queue q, (s.entry hdr.entry.offset).history = [0, 1] ∨
    ∃ msg n, s.pc q = .reading msg n ∧ s.pc msg.src = .publish hdr.entry.offset ∧
      s.fifo msg.src q = []

variable {owner : ℕ → ℕ} {place place' : ℕ → LifePlace} {queue : ℕ → List QHdr} {s s' : LifeState}
  {p q a b : ℕ} {pc : LifePc} {l : List ℕ}

/-- An entry that `smp_send` may use is in no place. -/
lemma Inv.nowhere (h : s.Inv owner place queue) (hfree : (s.entry a).Collectable) :
    place a = .nowhere := by
  by_contra hne
  have hplaced := h.placed a hne
  have hcycle := h.cycle a
  simp only [LifeEntry.Cycle, LifeEntry.Collectable] at hcycle hfree
  grind

/-- What is known of a process does not depend on entries that it does not use. -/
lemma Here.frame (h : Here owner place s q pc)
    (hsends : ∀ b, owner b = q → (s.entry b).history = [0] → (s'.entry b).history = [0] ∧
      (place b = .nowhere → place' b = .nowhere))
    (hreads : ∀ b, place b = .reader q → place' b = .reader q ∧
      ((s.entry b).history = [0, 1] → (s'.entry b).history = [0, 1])) :
    Here owner place' s' q pc := by
  cases pc with
  | outside => trivial
  | ended => trivial
  | reading msg hdr => trivial
  | copyIn a dest =>
    obtain ⟨howner, hhist, hplace⟩ := h
    obtain ⟨hhist', hhide⟩ := hsends a howner hhist
    exact ⟨howner, hhist', hhide hplace⟩
  | publish a => exact ⟨h.1, (hsends a h.1 h.2).1⟩
  | waiting a => exact (hreads a h).1
  | copyOut a => exact ⟨(hreads a h.1).1, (hreads a h.1).2 h.2⟩
  | marking a => exact ⟨(hreads a h.1).1, (hreads a h.1).2 h.2⟩

/-- A process goes on. -/
lemma here_goto (hp : Here owner place' s' p pc)
    (hother : ∀ q, q ≠ p → Here owner place' s' q (s'.pc q)) :
    ∀ q, Here owner place' (s'.goto p pc) q ((s'.goto p pc).pc q) := by
  intro q
  rw [goto_pc]
  split_ifs with hq
  · subst hq
    exact hp.frame (fun _ _ h => ⟨h, id⟩) fun _ h => ⟨h, id⟩
  · exact (hother q hq).frame (fun _ _ h => ⟨h, id⟩) fun _ h => ⟨h, id⟩

/-- Entries that are elsewhere stay where they are. -/
lemma update_place {x y z : LifePlace} (hb : place b = x) (ha : place a = y) (hne : x ≠ y) :
    Function.update place a z b = x := by
  rw [Function.update_of_ne, hb]
  rintro rfl
  exact hne (hb.symm.trans ha)

lemma cycle_setEntry {e : LifeEntry} (h : ∀ b, (s.entry b).Cycle) (he : e.Cycle) (b : ℕ) :
    ((s.setEntry a e).entry b).Cycle := by
  rw [setEntry_entry]
  split_ifs
  · exact he
  · exact h b

/-- An offset that is in no FIFO is added to one. -/
lemma Inv.push_fifo (h : s.Inv owner place queue) (ha : place a = .nowhere) (p dest : ℕ) :
    (∀ p' q, ∀ b ∈ (s.setFifo p dest (s.fifo p dest ++ [a])).fifo p' q,
      Function.update place a (.fifo p dest) b = .fifo p' q) ∧
    ∀ p' q, ((s.setFifo p dest (s.fifo p dest ++ [a])).fifo p' q).Nodup := by
  constructor
  · intro p' q b hb
    rw [setFifo_fifo] at hb
    split_ifs at hb with heq
    · obtain ⟨rfl, rfl⟩ := heq
      rcases List.mem_append.mp hb with hb | hb
      · exact update_place (h.fifo _ _ b hb) ha (by simp)
      · rw [List.mem_singleton.mp hb, Function.update_self]
    · exact update_place (h.fifo p' q b hb) ha (by simp)
  · intro p' q
    rw [setFifo_fifo]
    split_ifs with heq
    · refine List.nodup_append.mpr ⟨h.fifo_nodup p dest, List.nodup_singleton a, ?_⟩
      rintro b hb c hc rfl
      have hplace := h.fifo p dest b hb
      rw [List.mem_singleton.mp hc, ha] at hplace
      exact absurd hplace (by simp)
    · exact h.fifo_nodup p' q

/-- The first offset of a FIFO is taken out, and goes to another place. -/
lemma Inv.pop_fifo {rest : List ℕ} {x : LifePlace} (h : s.Inv owner place queue)
    (hfifo : s.fifo p q = a :: rest) :
    (∀ p' q', ∀ b ∈ (s.setFifo p q rest).fifo p' q', Function.update place a x b = .fifo p' q') ∧
    ∀ p' q', ((s.setFifo p q rest).fifo p' q').Nodup := by
  have hnodup := h.fifo_nodup p q
  rw [hfifo] at hnodup
  obtain ⟨ha, hrest⟩ := List.nodup_cons.mp hnodup
  have hplace := h.fifo p q a (hfifo ▸ List.mem_cons_self)
  constructor
  · intro p' q' b hb
    rw [setFifo_fifo] at hb
    split_ifs at hb with heq
    · obtain ⟨rfl, rfl⟩ := heq
      rw [Function.update_of_ne (by rintro rfl; exact ha hb)]
      exact h.fifo _ _ b (hfifo ▸ List.mem_cons_of_mem a hb)
    · refine update_place (h.fifo p' q' b hb) hplace ?_
      rintro ⟨⟩
      exact heq ⟨rfl, rfl⟩
  · intro p' q'
    rw [setFifo_fifo]
    split_ifs with heq
    · exact hrest
    · exact h.fifo_nodup p' q'

/-- A header is added to a queue. -/
lemma Inv.push_queue {hdr : QHdr} (h : s.Inv owner place queue) {x y : ℕ}
    (ha : place hdr.entry.offset = .fifo x y) (q : ℕ) :
    (∀ q', ∀ c ∈ Function.update queue q (queue q ++ [hdr]) q',
      Function.update place hdr.entry.offset (.queue q) c.entry.offset = .queue q') ∧
    ∀ q', ((Function.update queue q (queue q ++ [hdr]) q').map fun c => c.entry.offset).Nodup := by
  constructor
  · intro q' c hc
    rw [Function.update_apply] at hc
    split_ifs at hc with heq
    · subst heq
      rcases List.mem_append.mp hc with hc | hc
      · exact update_place (h.queued _ c hc) ha (by simp)
      · rw [List.mem_singleton.mp hc, Function.update_self]
    · exact update_place (h.queued q' c hc) ha (by simp)
  · intro q'
    rw [Function.update_apply]
    split_ifs with heq
    · rw [List.map_append]
      refine List.nodup_append.mpr ⟨h.queued_nodup q, List.nodup_singleton _, ?_⟩
      rintro b hb c hc rfl
      obtain ⟨d, hd, rfl⟩ := List.mem_map.mp hb
      have hplace := h.queued q d hd
      rw [List.mem_singleton.mp hc, ha] at hplace
      exact absurd hplace (by simp)
    · exact h.queued_nodup q'

/-- A header is taken out of a queue, and its entry goes to another place. -/
lemma Inv.erase_queue {hdr : QHdr} {h₁ h₂ : List QHdr} {x : LifePlace}
    (h : s.Inv owner place queue) (hqueue : queue q = h₁ ++ hdr :: h₂) :
    (∀ q', ∀ c ∈ Function.update queue q (h₁ ++ h₂) q',
      Function.update place hdr.entry.offset x c.entry.offset = .queue q') ∧
    ∀ q', ((Function.update queue q (h₁ ++ h₂) q').map fun c => c.entry.offset).Nodup := by
  have hperm : (queue q).Perm (hdr :: (h₁ ++ h₂)) := by
    rw [hqueue]
    exact List.perm_middle
  have hnodup := h.queued_nodup q
  rw [(hperm.map fun c => c.entry.offset).nodup_iff, List.map_cons] at hnodup
  obtain ⟨ha, hrest⟩ := List.nodup_cons.mp hnodup
  have hplace := h.queued q hdr (hperm.mem_iff.mpr List.mem_cons_self)
  constructor
  · intro q' c hc
    rw [Function.update_apply] at hc
    split_ifs at hc with heq
    · subst heq
      have hne : c.entry.offset ≠ hdr.entry.offset := by
        intro heq
        rw [← heq] at ha
        exact ha (List.mem_map_of_mem hc)
      rw [Function.update_of_ne hne]
      exact h.queued _ c (hperm.mem_iff.mpr (List.mem_cons_of_mem hdr hc))
    · refine update_place (h.queued q' c hc) hplace ?_
      rintro ⟨⟩
      exact heq rfl
  · intro q'
    rw [Function.update_apply]
    split_ifs with heq
    · exact hrest
    · exact h.queued_nodup q'

/-- An entry is given to a process that receives it. -/
lemma Inv.here_update {x : LifePlace} (h : s.Inv owner place queue) (ha : place a = x)
    (hx : x ≠ .nowhere) (hreader : ∀ q, q ≠ p → x ≠ .reader q) (y : LifePlace) :
    ∀ q, q ≠ p → Here owner (Function.update place a y) s q (s.pc q) := by
  intro q hq
  refine (h.here q).frame (fun b _ hhist => ⟨hhist, fun hb => ?_⟩) fun b hb => ⟨?_, id⟩
  · exact update_place hb ha hx.symm
  · exact update_place hb ha (hreader q hq).symm

/-- An entry that was passed has been published if its flag is not 0. -/
lemma Inv.published_of_flag (h : s.Inv owner place queue) (hne : place a ≠ .nowhere)
    (hflag : (s.entry a).flag ≠ 0) : (s.entry a).history = [0, 1] := by
  refine (h.placed a hne).2.resolve_left fun hhist => hflag ?_
  rcases h.cycle a with hcycle | hcycle | hcycle | hcycle
  · simp [hcycle] at hhist
  · exact hcycle.2
  · simp [hcycle.1] at hhist
  · simp [hcycle.1] at hhist

/-! ### Steps -/

lemma Inv.send (h : s.Inv owner place queue) (howner : owner a = p)
    (hfree : (s.entry a).Collectable) (dest : ℕ) (nbytes tag : ℤ) :
    Inv owner place queue ((s.setEntry a ⟨p, nbytes, tag, 0, 0, [0]⟩).goto p (.copyIn a dest)) := by
  have hplace := h.nowhere hfree
  refine ⟨h.ring, h.fifo, h.fifo_nodup, h.queued, h.queued_nodup, ?_, fun b hb => ?_,
    cycle_setEntry h.cycle (Or.inr (Or.inl ⟨rfl, rfl⟩))⟩
  · refine here_goto ⟨howner, by simp, hplace⟩ fun q hq => (h.here q).frame ?_ ?_
    · intro b hb hhist
      have hne : b ≠ a := by
        rintro rfl
        exact hq (hb.symm.trans howner)
      simp [hne, hhist]
    · intro b hb
      have hne : b ≠ a := by
        rintro rfl
        simp [hplace] at hb
      simp [hne, hb]
  · have hne : b ≠ a := by
      rintro rfl
      exact hb hplace
    rw [goto_entry, setEntry_entry, if_neg hne]
    exact h.placed b hb

lemma Inv.copyIn {dest : ℕ} (h : s.Inv owner place queue) (hpc : s.pc p = .copyIn a dest) :
    Inv owner place queue (s.setEntry a { s.entry a with written := (s.entry a).written + 1 }) := by
  have ha := h.here p
  rw [hpc] at ha
  obtain ⟨howner, hhist, hplace⟩ := ha
  have hhistory : ∀ b, ((s.setEntry a { s.entry a with
      written := (s.entry a).written + 1 }).entry b).history = (s.entry b).history := by
    intro b
    rw [setEntry_entry]
    split_ifs with hb
    · rw [hb]
    · rfl
  refine ⟨h.ring, h.fifo, h.fifo_nodup, h.queued, h.queued_nodup, fun q => ?_, fun b hb => ?_,
    cycle_setEntry h.cycle (h.cycle a)⟩
  · exact (h.here q).frame (fun b _ hb => ⟨(hhistory b).trans hb, id⟩)
      fun b hb => ⟨hb, fun hb' => (hhistory b).trans hb'⟩
  · have hne : b ≠ a := by
      rintro rfl
      exact hb hplace
    rw [setEntry_entry, if_neg hne]
    exact h.placed b hb

lemma Inv.fifoWrite {dest : ℕ} (h : s.Inv owner place queue) (hpc : s.pc p = .copyIn a dest)
    (hdone : (s.entry a).Written) :
    Inv owner (Function.update place a (.fifo p dest)) queue
      ((s.setFifo p dest (s.fifo p dest ++ [a])).goto p (.publish a)) := by
  have ha := h.here p
  rw [hpc] at ha
  obtain ⟨howner, hhist, hplace⟩ := ha
  obtain ⟨hfifo, hnodup⟩ := h.push_fifo hplace p dest
  refine ⟨h.ring, hfifo, hnodup, fun q hdr hmem => update_place (h.queued q hdr hmem) hplace (by simp),
    h.queued_nodup, ?_, fun b hb => ?_, h.cycle⟩
  · refine here_goto ⟨howner, hhist⟩ fun q hq => (h.here q).frame (fun b hb hhist => ?_) ?_
    · have hne : b ≠ a := by
        rintro rfl
        exact hq (hb.symm.trans howner)
      exact ⟨hhist, fun hb' => by rw [Function.update_of_ne hne, hb']⟩
    · exact fun b hb => ⟨update_place hb hplace (by simp), id⟩
  · rcases eq_or_ne b a with rfl | hne
    · exact ⟨hdone, Or.inl hhist⟩
    · rw [Function.update_of_ne hne] at hb
      exact h.placed b hb

lemma Inv.publish (h : s.Inv owner place queue) (hpc : s.pc p = .publish a) :
    Inv owner place queue ((s.setEntry a ((s.entry a).setFlag 1)).goto p .outside) := by
  have ha := h.here p
  rw [hpc] at ha
  obtain ⟨howner, hhist⟩ := ha
  have hnew : ((s.entry a).setFlag 1).history = [0, 1] := by simp [LifeEntry.setFlag, hhist]
  refine ⟨h.ring, h.fifo, h.fifo_nodup, h.queued, h.queued_nodup, ?_, fun b hb => ?_,
    cycle_setEntry h.cycle (Or.inr (Or.inr (Or.inl ⟨hnew, rfl⟩)))⟩
  · refine here_goto trivial fun q hq => (h.here q).frame (fun b hb hbhist => ?_) fun b hb => ?_
    · have hne : b ≠ a := by
        rintro rfl
        exact hq (hb.symm.trans howner)
      simp [hne, hbhist]
    · refine ⟨hb, fun hready => ?_⟩
      rw [setEntry_entry]
      split_ifs
      · exact hnew
      · exact hready
  · rw [goto_entry, setEntry_entry]
    split_ifs with hba
    · exact ⟨(h.placed a (hba ▸ hb)).1, Or.inr hnew⟩
    · exact h.placed b hb

/-- An entry that was passed goes from one place to another. -/
lemma Inv.placed_update {x : LifePlace} (h : s.Inv owner place queue) (ha : place a ≠ .nowhere) :
    ∀ b, Function.update place a x b ≠ .nowhere →
      (s.entry b).Written ∧ ((s.entry b).history = [0] ∨ (s.entry b).history = [0, 1]) := by
  intro b hb
  rcases eq_or_ne b a with rfl | hne
  · exact h.placed b ha
  · rw [Function.update_of_ne hne] at hb
    exact h.placed b hb

/-- The queue of one process changes. -/
lemma Inv.ring_update {r : RecvState} (h : s.Inv owner place queue) {headers : List QHdr}
    (hr : r.Holds headers) (q : ℕ) :
    ∀ q', ((s.setRecv q r).recv q').Holds (Function.update queue q headers q') := by
  intro q'
  rw [setRecv_recv, Function.update_apply]
  split_ifs
  · exact hr
  · exact h.ring q'

lemma Inv.found {hdr : QHdr} {h₁ h₂ : List QHdr} {r : RecvState} (h : s.Inv owner place queue)
    (hqueue : queue q = h₁ ++ hdr :: h₂) (hr : r.Holds (h₁ ++ h₂))
    (hhist : (s.entry hdr.entry.offset).history = [0, 1]) :
    Inv owner (Function.update place hdr.entry.offset (.reader q))
      (Function.update queue q (h₁ ++ h₂))
      ((s.setRecv q r).goto q (.copyOut hdr.entry.offset)) := by
  have hplace := h.queued q hdr (by simp [hqueue])
  obtain ⟨hplaced, hnodup⟩ := h.erase_queue hqueue
  have hhere := h.here_update hplace (by simp) (p := q) (by simp) (.reader q)
  exact ⟨h.ring_update hr q, fun p' q' b hb => update_place (h.fifo p' q' b hb) hplace (by simp),
    h.fifo_nodup, hplaced, hnodup, here_goto ⟨Function.update_self .., hhist⟩ hhere,
    h.placed_update (by simp [hplace]), h.cycle⟩

lemma Inv.accept {src : ℕ} {rest : List ℕ} {r : RecvState} (h : s.Inv owner place queue)
    (hfifo : s.fifo src q = a :: rest) (hr : r.Holds (queue q)) :
    Inv owner (Function.update place a (.reader q)) queue
      (((s.setFifo src q rest).setRecv q r).goto q (.waiting a)) := by
  have hplace := h.fifo src q a (by simp [hfifo])
  obtain ⟨hfifo', hnodup⟩ := h.pop_fifo hfifo (x := .reader q)
  have hhere := h.here_update hplace (by simp) (p := q) (by simp) (.reader q)
  refine ⟨?_, hfifo', hnodup, fun q' hdr hmem => update_place (h.queued q' hdr hmem) hplace (by simp),
    h.queued_nodup, here_goto (Function.update_self ..) hhere, h.placed_update (by simp [hplace]),
    h.cycle⟩
  have hring := h.ring_update hr q
  rwa [Function.update_eq_self] at hring

lemma Inv.skip {src n : ℕ} {msg : RecvMsg} {rest : List ℕ} {hdr : QHdr} {r : RecvState}
    (h : s.Inv owner place queue) (hpc : s.pc q = .reading msg n)
    (hfifo : s.fifo src q = hdr.entry.offset :: rest) (hr : r.Holds (queue q ++ [hdr])) :
    Inv owner (Function.update place hdr.entry.offset (.queue q))
      (Function.update queue q (queue q ++ [hdr])) ((s.setFifo src q rest).setRecv q r) := by
  have hplace := h.fifo src q hdr.entry.offset (by simp [hfifo])
  obtain ⟨hfifo', hnodup⟩ := h.pop_fifo hfifo (x := .queue q)
  obtain ⟨hplaced, hqnodup⟩ := h.push_queue hplace q
  refine ⟨h.ring_update hr q, hfifo', hnodup, hplaced, hqnodup, fun q' => ?_,
    h.placed_update (by simp [hplace]), h.cycle⟩
  rcases eq_or_ne q' q with rfl | hne
  · show Here _ _ _ _ (s.pc q')
    rw [hpc]
    trivial
  · exact h.here_update hplace (by simp) (by simp) (.queue q) q' hne

lemma Inv.mark (h : s.Inv owner place queue) (hpc : s.pc q = .marking a) :
    Inv owner (Function.update place a .nowhere) queue
      ((s.setEntry a ((s.entry a).setFlag (-1))).goto q .outside) := by
  have ha := h.here q
  rw [hpc] at ha
  obtain ⟨hplace, hhist⟩ := ha
  have hnew : ((s.entry a).setFlag (-1)).history = [0, 1, -1] := by simp [LifeEntry.setFlag, hhist]
  refine ⟨h.ring, fun p' q' b hb => update_place (h.fifo p' q' b hb) hplace (by simp), h.fifo_nodup,
    fun q' hdr hmem => update_place (h.queued q' hdr hmem) hplace (by simp), h.queued_nodup, ?_,
    fun b hb => ?_, cycle_setEntry h.cycle (Or.inr (Or.inr (Or.inr ⟨hnew, rfl⟩)))⟩
  · refine here_goto trivial fun q' hq => (h.here q').frame (fun b hb hbhist => ?_) fun b hb => ?_
    · have hne : b ≠ a := by
        rintro rfl
        simp [hhist] at hbhist
      simp [hne, hbhist]
    · have hne : b ≠ a := by
        rintro rfl
        rw [hplace] at hb
        exact hq (LifePlace.reader.inj hb).symm
      simp [hne, hb]
  · have hne : b ≠ a := by
      rintro rfl
      exact hb (Function.update_self ..)
    rw [Function.update_of_ne hne] at hb
    rw [goto_entry, setEntry_entry, if_neg hne]
    exact h.placed b hb

/-- A process goes on without any change. -/
lemma Inv.goto (h : s.Inv owner place queue) (hpc : Here owner place s p pc) :
    Inv owner place queue (s.goto p pc) :=
  ⟨h.ring, h.fifo, h.fifo_nodup, h.queued, h.queued_nodup, here_goto hpc fun q _ => h.here q,
    h.placed, h.cycle⟩

/-! ### Late messages -/

lemma ne_of_pc {pc' : LifePc} (hq : s.pc q = pc') (hp : s.pc p = pc) (hne : pc' ≠ pc) : q ≠ p := by
  rintro rfl
  exact hne (hq.symm.trans hp)

/-- What a process does that is neither at the end of `smp_send` nor in the loop of `smp_recv`. -/
lemma Late.step (h : s.Late queue) (hpc : ∀ a, s.pc p ≠ .publish a)
    (hread : ∀ msg n, s.pc p ≠ .reading msg n) (hother : ∀ q, q ≠ p → s'.pc q = s.pc q)
    (hfifo : s'.fifo = s.fifo)
    (hhist : ∀ b, (s.entry b).history = [0, 1] → (∃ p q, b ∈ s.fifo p q) ∨
      (∃ q, ∃ hdr ∈ queue q, hdr.entry.offset = b) → (s'.entry b).history = [0, 1]) :
    s'.Late queue := by
  refine ⟨fun p' q b hb => ?_, fun q hdr hmem => ?_⟩
  · rw [hfifo] at hb ⊢
    rcases h.fifo p' q b hb with hb' | ⟨hpub, hlast⟩
    · exact Or.inl (hhist b hb' (Or.inl ⟨p', q, hb⟩))
    · exact Or.inr ⟨(hother p' (ne_of_pc hpub rfl (hpc b).symm)).trans hpub, hlast⟩
  · rcases h.queued q hdr hmem with hb | ⟨msg, n, hq, hpub, hnil⟩
    · exact Or.inl (hhist _ hb (Or.inr ⟨q, hdr, hmem, rfl⟩))
    · have hreader := hother q (ne_of_pc hq rfl (hread msg n).symm)
      have hsender := hother msg.src (ne_of_pc hpub rfl (hpc _).symm)
      exact Or.inr ⟨msg, n, hreader.trans hq, hsender.trans hpub, hfifo ▸ hnil⟩

/-- A process goes on without any change. -/
lemma Late.goto (h : s.Late queue) (hpc : ∀ a, s.pc p ≠ .publish a)
    (hread : ∀ msg n, s.pc p ≠ .reading msg n) (pc : LifePc) : Late queue (s.goto p pc) :=
  h.step hpc hread (by simp +contextual) rfl fun _ hb _ => hb

lemma Late.fifoWrite {dest : ℕ} (h : s.Late queue) (hpc : s.pc p = .copyIn a dest) :
    Late queue ((s.setFifo p dest (s.fifo p dest ++ [a])).goto p (.publish a)) := by
  refine ⟨fun p' q b hb => ?_, fun q hdr hmem => ?_⟩
  · rw [goto_fifo, setFifo_fifo] at hb ⊢
    split_ifs at hb ⊢ with heq
    · obtain ⟨rfl, rfl⟩ := heq
      rcases List.mem_append.mp hb with hb | hb
      · rcases h.fifo _ _ b hb with hb' | ⟨hpub, -⟩
        · exact Or.inl hb'
        · simp [hpc] at hpub
      · rw [List.mem_singleton.mp hb]
        exact Or.inr ⟨by simp, by simp⟩
    · rcases h.fifo p' q b hb with hb' | ⟨hpub, hlast⟩
      · exact Or.inl hb'
      · exact Or.inr ⟨by simp [ne_of_pc hpub hpc (by simp), hpub], hlast⟩
  · rcases h.queued q hdr hmem with hb | ⟨msg, n, hq, hpub, hnil⟩
    · exact Or.inl hb
    · have hreader : q ≠ p := ne_of_pc hq hpc (by simp)
      have hsender : msg.src ≠ p := ne_of_pc hpub hpc (by simp)
      exact Or.inr ⟨msg, n, by simp [hreader, hq], by simp [hsender, hpub], by simp [hsender, hnil]⟩

lemma Late.publish (h : s.Late queue) (hpc : s.pc p = .publish a)
    (hhist : (s.entry a).history = [0]) :
    Late queue ((s.setEntry a ((s.entry a).setFlag 1)).goto p .outside) := by
  have hnew : ((s.entry a).setFlag 1).history = [0, 1] := by simp [LifeEntry.setFlag, hhist]
  have hkeep : ∀ b, b = a ∨ (s.entry b).history = [0, 1] →
      ((s.setEntry a ((s.entry a).setFlag 1)).entry b).history = [0, 1] := by
    intro b hb
    rw [setEntry_entry]
    split_ifs with hba
    · exact hnew
    · exact hb.resolve_left hba
  have hlate : ∀ p' b, s.pc p' = .publish b → b = a ∨ p' ≠ p := by
    intro p' b hpub
    rw [or_iff_not_imp_right, not_not]
    rintro rfl
    rw [hpc] at hpub
    exact (LifePc.publish.inj hpub).symm
  refine ⟨fun p' q b hb => ?_, fun q hdr hmem => ?_⟩
  · rcases h.fifo p' q b hb with hb' | ⟨hpub, hlast⟩
    · exact Or.inl (hkeep b (Or.inr hb'))
    · rcases hlate p' b hpub with hba | hne
      · exact Or.inl (hkeep b (Or.inl hba))
      · exact Or.inr ⟨by simp [hne, hpub], hlast⟩
  · rcases h.queued q hdr hmem with hb | ⟨msg, n, hq, hpub, hnil⟩
    · exact Or.inl (hkeep _ (Or.inr hb))
    · rcases hlate msg.src _ hpub with hba | hne
      · exact Or.inl (hkeep _ (Or.inl hba))
      · have hreader : q ≠ p := ne_of_pc hq hpc (by simp)
        exact Or.inr ⟨msg, n, by simp [hreader, hq], by simp [hne, hpub], hnil⟩

/-- The messages in the queue of a process are published while it is outside `smp_recv`, and also
when there is another message in the FIFO that it is reading. -/
lemma Late.published {hdr : QHdr} (h : s.Late queue) (hmem : hdr ∈ queue q)
    (hnot : ∀ msg n, s.pc q = .reading msg n → s.fifo msg.src q ≠ []) :
    (s.entry hdr.entry.offset).history = [0, 1] := by
  rcases h.queued q hdr hmem with hhist | ⟨msg, n, hq, -, hnil⟩
  · exact hhist
  · exact absurd hnil (hnot msg n hq)

/-- The FIFOs after the first offset of one of them was taken out by its reader. -/
lemma Late.pop_fifo {n : ℕ} {msg : RecvMsg} {rest : List ℕ} (h : s.Late queue)
    (hpc : s.pc q = .reading msg n) (hfifo : s.fifo msg.src q = a :: rest)
    (hsender : ∀ p b, s.pc p = .publish b → s'.pc p = .publish b) (hentry : s'.entry = s.entry)
    (hfifo' : s'.fifo = (s.setFifo msg.src q rest).fifo) :
    ∀ p' q', ∀ b ∈ s'.fifo p' q', (s'.entry b).history = [0, 1] ∨
      s'.pc p' = .publish b ∧ (s'.fifo p' q').getLast? = some b := by
  intro p' q' b hb
  rw [hfifo', setFifo_fifo] at hb ⊢
  rw [hentry]
  split_ifs at hb ⊢ with heq
  · obtain ⟨rfl, rfl⟩ := heq
    rcases h.fifo _ _ b (hfifo ▸ List.mem_cons_of_mem a hb) with hb' | ⟨hpub, hlast⟩
    · exact Or.inl hb'
    · rw [hfifo, List.getLast?_cons_of_ne_nil (List.ne_nil_of_mem hb)] at hlast
      exact Or.inr ⟨hsender _ b hpub, hlast⟩
  · exact (h.fifo p' q' b hb).imp_right fun hlate => ⟨hsender p' b hlate.1, hlate.2⟩

/-- The queues of the other processes after an offset was taken out of a FIFO. -/
lemma Late.queued_of_ne {q' : ℕ} {hdr : QHdr} {msg : RecvMsg} {n : ℕ} {rest : List ℕ}
    (h : s.Late queue) (hmem : hdr ∈ queue q') (hne : q' ≠ q) (hpc : s.pc q = .reading msg n)
    (hother : ∀ p, p ≠ q → s'.pc p = s.pc p) (hentry : s'.entry = s.entry)
    (hfifo' : s'.fifo = (s.setFifo msg.src q rest).fifo) :
    (s'.entry hdr.entry.offset).history = [0, 1] ∨ ∃ msg n, s'.pc q' = .reading msg n ∧
      s'.pc msg.src = .publish hdr.entry.offset ∧ s'.fifo msg.src q' = [] := by
  rw [hentry]
  refine (h.queued q' hdr hmem).imp_right ?_
  rintro ⟨msg', n', hq, hpub, hnil⟩
  have hsender : msg'.src ≠ q := ne_of_pc hpub hpc (by simp)
  exact ⟨msg', n', (hother q' hne).trans hq, (hother _ hsender).trans hpub, by simp [hfifo', hne, hnil]⟩

lemma Late.accept {n : ℕ} {msg : RecvMsg} {rest : List ℕ} {r : RecvState} (h : s.Late queue)
    (hpc : s.pc q = .reading msg n) (hfifo : s.fifo msg.src q = a :: rest) :
    Late queue (((s.setFifo msg.src q rest).setRecv q r).goto q (.waiting a)) := by
  refine ⟨h.pop_fifo hpc hfifo (fun p b hpub => ?_) rfl rfl, fun q' hdr hmem => ?_⟩
  · simp [ne_of_pc hpub hpc (by simp), hpub]
  · rcases eq_or_ne q' q with rfl | hne
    · refine Or.inl (h.published hmem fun msg' n' hread => ?_)
      rw [hpc] at hread
      cases hread
      simp [hfifo]
    · exact h.queued_of_ne hmem hne hpc (by simp +contextual) rfl rfl

lemma Late.skip {n : ℕ} {msg : RecvMsg} {rest : List ℕ} {hdr : QHdr} {r : RecvState}
    (h : s.Late queue) (hpc : s.pc q = .reading msg n)
    (hfifo : s.fifo msg.src q = hdr.entry.offset :: rest) (hnodup : (s.fifo msg.src q).Nodup) :
    Late (Function.update queue q (queue q ++ [hdr])) ((s.setFifo msg.src q rest).setRecv q r) := by
  refine ⟨h.pop_fifo hpc hfifo (fun p b hpub => hpub) rfl rfl, fun q' c hmem => ?_⟩
  rw [Function.update_apply] at hmem
  split_ifs at hmem with hq
  · subst hq
    rcases List.mem_append.mp hmem with hmem | hmem
    · refine Or.inl (h.published hmem fun msg' n' hread => ?_)
      rw [hpc] at hread
      cases hread
      simp [hfifo]
    · rw [List.mem_singleton.mp hmem]
      refine (h.fifo msg.src q' hdr.entry.offset (by simp [hfifo])).imp_right ?_
      rintro ⟨hpub, hlast⟩
      refine ⟨msg, n, hpc, hpub, ?_⟩
      -- The last offset of the FIFO is also the first one.
      rw [setRecv_fifo, setFifo_fifo, if_pos ⟨rfl, rfl⟩]
      by_contra hrest
      rw [hfifo, List.getLast?_cons_of_ne_nil hrest] at hlast
      rw [hfifo] at hnodup
      exact (List.nodup_cons.mp hnodup).1 (List.mem_of_getLast? hlast)
  · exact h.queued_of_ne hmem hq hpc (fun _ _ => rfl) rfl rfl

/-- A header was taken out of a queue. -/
lemma Late.found {headers : List QHdr} {r : RecvState} (h : s.Late queue) (hpc : s.pc q = .outside)
    (hsub : headers ⊆ queue q) :
    Late (Function.update queue q headers) ((s.setRecv q r).goto q (.copyOut a)) := by
  have hgo : Late queue (s.goto q (.copyOut a)) := h.goto (by simp [hpc]) (by simp [hpc]) _
  refine ⟨hgo.fifo, fun q' hdr hmem => ?_⟩
  rw [Function.update_apply] at hmem
  split_ifs at hmem with hq
  · exact hgo.queued q' hdr (hq ▸ hsub hmem)
  · exact hgo.queued q' hdr hmem

lemma Late.ended {n : ℕ} {msg : RecvMsg} (h : s.Late queue) (hpc : s.pc q = .reading msg n)
    (hfifo : s.fifo msg.src q ≠ []) : Late queue (s.goto q .ended) := by
  obtain ⟨a, rest, hfifo⟩ := List.exists_cons_of_ne_nil hfifo
  have hsame : s.fifo = (s.setFifo msg.src q (s.fifo msg.src q)).fifo := by
    funext p' q'
    rw [setFifo_fifo]
    split_ifs with heq
    · rw [heq.1, heq.2]
    · rfl
  refine ⟨fun p' q' b hb => ?_, fun q' hdr hmem => ?_⟩
  · refine (h.fifo p' q' b hb).imp_right fun hlate => ⟨?_, hlate.2⟩
    simp [ne_of_pc hlate.1 hpc (by simp), hlate.1]
  · rcases eq_or_ne q' q with rfl | hne
    · refine Or.inl (h.published hmem fun msg' n' hread => ?_)
      rw [hpc] at hread
      cases hread
      simp [hfifo]
    · exact h.queued_of_ne hmem hne hpc (by simp +contextual) rfl hsame

/-! ### Runs -/

/-- What holds of every state of a run. -/
def Good (owner : ℕ → ℕ) (s : LifeState) : Prop :=
  ∃ place queue, s.Inv owner place queue ∧ s.Late queue

lemma good_init (owner : ℕ → ℕ) : init.Good owner := by
  refine ⟨fun _ => .nowhere, fun _ => [], ⟨fun _ => RecvState.holds_init _, ?_, ?_, ?_, ?_,
    fun _ => trivial, ?_, fun _ => Or.inl rfl⟩, ?_, ?_⟩ <;> simp [init]

lemma Good.send (h : s.Good owner) (p dest a : ℕ) (nbytes tag : ℤ) :
    (s.send owner p dest a nbytes tag).Good owner := by
  rw [LifeState.send]
  split_ifs with hsend
  · obtain ⟨place, queue, hinv, hlate⟩ := h
    obtain ⟨hpc, howner, hfree⟩ := hsend
    have hplace := hinv.nowhere hfree
    refine ⟨place, queue, hinv.send howner hfree dest nbytes tag, ?_⟩
    refine hlate.step (p := p) (by simp [hpc]) (by simp [hpc]) (by simp +contextual) rfl
      fun b hb hused => ?_
    have hne : b ≠ a := by
      rintro rfl
      rcases hused with ⟨p', q', hmem⟩ | ⟨q', hdr, hmem, rfl⟩
      · simp [hinv.fifo p' q' b hmem] at hplace
      · simp [hinv.queued q' hdr hmem] at hplace
    simpa [hne] using hb
  · exact h

lemma Good.search (h : s.Good owner) (q : ℕ) (msg : RecvMsg) (hdr : ℕ) :
    (s.search q msg hdr).Good owner := by
  rw [LifeState.search]
  split_ifs with hpc hcount
  · obtain ⟨place, queue, hinv, hlate⟩ := h
    exact ⟨place, queue, hinv.goto trivial, hlate.goto (by simp [hpc]) (by simp [hpc]) _⟩
  · obtain ⟨place, queue, hinv, hlate⟩ := h
    cases hsearch : (s.recv q).search msg 0 ((s.recv q).next 0) (s.recv q).n_buffered with
    | found prev hdr contents =>
      obtain ⟨h₁, h₂, hqueue, hr⟩ := (hinv.ring q).takeNode hsearch
      have hhist := hlate.published (show contents ∈ queue q by simp [hqueue])
        fun msg n hread => by simp [hpc] at hread
      refine ⟨_, _, hinv.found hqueue hr hhist, hlate.found hpc ?_⟩
      rw [hqueue]
      grind
    | notFound hdr =>
      exact ⟨place, queue, hinv.goto trivial, hlate.goto (by simp [hpc]) (by simp [hpc]) _⟩
    | invalid =>
      exact ⟨place, queue, hinv.goto trivial, hlate.goto (by simp [hpc]) (by simp [hpc]) _⟩
  · exact h

lemma Good.read {msg : RecvMsg} {n : ℕ} (h : s.Good owner) (hpc : s.pc q = .reading msg n)
    (hbehind : s.Behind (.go q)) : (s.read q msg n).Good owner := by
  obtain ⟨place, queue, hinv, hlate⟩ := h
  rw [LifeState.read]
  cases hfifo : s.fifo msg.src q with
  | nil => exact ⟨place, queue, hinv, hlate⟩
  | cons a rest =>
    dsimp only
    split_ifs with haccepts hfull hbound
    · exact ⟨_, queue, hinv.accept hfifo ((hinv.ring q).congr rfl rfl rfl rfl),
        hlate.accept hpc hfifo⟩
    · exact ⟨place, queue, hinv.goto trivial, hlate.ended hpc (by simp [hfifo])⟩
    · simp only [Behind, hpc] at hbehind
      obtain ⟨hnext, hhead⟩ := hbehind a (by simp [hfifo]) haccepts
      have hring := (hinv.ring q).skipEntry hnext hhead (s.header a)
      have hnodup := hinv.fifo_nodup msg.src q
      exact ⟨_, _, hinv.skip hpc hfifo hring, hlate.skip hpc hfifo hnodup⟩
    · exact ⟨place, queue, hinv.goto trivial, hlate.ended hpc (by simp [hfifo])⟩

lemma Good.go (h : s.Good owner) (p : ℕ) (hbehind : s.Behind (.go p)) : (s.go p).Good owner := by
  rw [LifeState.go]
  cases hpc : s.pc p with
  | outside => exact h
  | ended => exact h
  | copyIn a dest =>
    obtain ⟨place, queue, hinv, hlate⟩ := h
    dsimp only
    split_ifs with hdone
    · exact ⟨_, queue, hinv.fifoWrite hpc hdone, hlate.fifoWrite hpc⟩
    · refine ⟨place, queue, hinv.copyIn hpc,
        hlate.step (p := p) (by simp [hpc]) (by simp [hpc]) (fun _ _ => rfl) rfl fun b hb _ => ?_⟩
      rw [setEntry_entry]
      split_ifs with hba
      · exact hba ▸ hb
      · exact hb
  | publish a =>
    obtain ⟨place, queue, hinv, hlate⟩ := h
    have ha := hinv.here p
    rw [hpc] at ha
    exact ⟨place, queue, hinv.publish hpc, hlate.publish hpc ha.2⟩
  | reading msg n => exact h.read hpc hbehind
  | waiting a =>
    dsimp only
    split_ifs with hflag
    · exact h
    · obtain ⟨place, queue, hinv, hlate⟩ := h
      have ha := hinv.here p
      rw [hpc] at ha
      have hne : place a ≠ .nowhere := by simp [show place a = _ from ha]
      exact ⟨place, queue, hinv.goto ⟨ha, hinv.published_of_flag hne hflag⟩,
        hlate.goto (by simp [hpc]) (by simp [hpc]) _⟩
  | copyOut a =>
    obtain ⟨place, queue, hinv, hlate⟩ := h
    have ha := hinv.here p
    rw [hpc] at ha
    exact ⟨place, queue, hinv.goto ha, hlate.goto (by simp [hpc]) (by simp [hpc]) _⟩
  | marking a =>
    obtain ⟨place, queue, hinv, hlate⟩ := h
    have ha := hinv.here p
    rw [hpc] at ha
    refine ⟨_, queue, hinv.mark hpc,
      hlate.step (p := p) (by simp [hpc]) (by simp [hpc]) (by simp +contextual) rfl
        fun b hb hused => ?_⟩
    have hne : b ≠ a := by
      rintro rfl
      rcases hused with ⟨p', q', hmem⟩ | ⟨q', hdr, hmem, rfl⟩
      · exact absurd ((hinv.fifo p' q' b hmem).symm.trans ha.1) (by simp)
      · exact absurd ((hinv.queued q' hdr hmem).symm.trans ha.1) (by simp)
    simpa [hne] using hb

lemma Good.giveUp (h : s.Good owner) (p : ℕ) : (s.giveUp p).Good owner := by
  rw [LifeState.giveUp]
  cases hpc : s.pc p with
  | copyIn a dest =>
    dsimp only
    split_ifs with hdone
    · obtain ⟨place, queue, hinv, hlate⟩ := h
      have ha := hinv.here p
      rw [hpc] at ha
      exact ⟨place, queue, hinv.goto ⟨ha.1, ha.2.1⟩,
        hlate.goto (by simp [hpc]) (by simp [hpc]) _⟩
    · exact h
  | _ => exact h

lemma Good.next {act : LifeAct} (h : s.Good owner) (hbehind : s.Behind act) :
    (s.next owner act).Good owner := by
  cases act with
  | send p dest a nbytes tag => exact h.send p dest a nbytes tag
  | recv q msg hdr => exact h.search q msg hdr
  | go p => exact h.go p hbehind
  | giveUp p => exact h.giveUp p

lemma Good.run {acts : List LifeAct} (h : s.Good owner) (hbehind : s.AllBehind owner acts) :
    (s.run owner acts).Good owner := by
  induction acts generalizing s with
  | nil => exact h
  | cons act acts ih => exact ih (h.next hbehind.1) hbehind.2

lemma Good.sound (h : s.Good owner) : s.Sound := by
  obtain ⟨place, queue, hinv, -⟩ := h
  refine ⟨fun a => ?_, fun a ha => ?_, fun q a hpc => ?_⟩
  · rcases hinv.cycle a with hcycle | hcycle | hcycle | hcycle <;> simp [hcycle]
  · rcases hinv.cycle a with hcycle | hcycle | hcycle | hcycle
    · simp [hcycle] at ha
    · simp [hcycle.1] at ha
    · simp [hcycle.1] at ha
    · exact hcycle.2
  · have ha := hinv.here q
    rw [hpc] at ha
    exact (hinv.placed a (by simp [ha.1])).1

/-- As long as every header that is skipped goes to the free node behind `tail_q`, the entries go
through their life as they should, also those that are received from the queue. -/
theorem sound_of_allBehind (owner : ℕ → ℕ) {acts : List LifeAct}
    (hbehind : init.AllBehind owner acts) : (init.run owner acts).Sound :=
  ((good_init owner).run hbehind).sound

/-- Two messages are skipped in one call and go to one node, which stays in use when the second of
them is received. When its sender uses the entry again, it is received again. -/
def stale : List LifeAct :=
  [.send 0 1 64 0 1, .go 0, .go 0, .send 0 1 128 0 2, .go 0, .go 0, .send 0 1 192 0 3, .go 0, .go 0,
    .recv 1 ⟨0, 8, 3⟩ 1, .go 1, .go 1, .go 1, .go 1, .go 1, .go 1,
    .recv 1 ⟨0, 8, 2⟩ 1, .go 1, .go 1, .send 0 1 128 8 4, .recv 1 ⟨0, 8, 2⟩ 1, .go 1, .go 1] ++
    List.replicate 10 (.go 0)

theorem not_sound_stale : ¬ (init.run (fun _ => 0) stale).Sound := by
  intro h
  have horder := h.order 128
  revert horder
  decide +kernel

/-- A message is skipped and then received from the queue. -/
theorem sound_of_allBehind_one : (init.run (fun _ => 0)
    [.send 0 1 64 0 1, .go 0, .go 0, .send 0 1 128 0 2, .go 0, .go 0, .recv 1 ⟨0, 8, 2⟩ 1,
      .go 1, .go 1, .go 1, .go 1, .go 1, .recv 1 ⟨0, 8, 1⟩ 1, .go 1, .go 1]).Sound := by
  apply sound_of_allBehind
  decide +kernel

end LifeState

end NetPipe.MpLite
