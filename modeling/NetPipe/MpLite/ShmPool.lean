import Mathlib.Tactic

/-!
# The pool of a process in shared memory

`smp_send` places each message in the region of its process, behind an entry of a circular list that
starts at `nil_entry`. It first takes the entries out of the list that were received. Addresses are
counted from the start of the region, so that `nil_entry` is 0. A receiver may mark an entry at any
time, also while `smp_send` is at work.
-/

namespace NetPipe.MpLite

/-- The largest number of processes. -/
def MAX_PROCS : ℕ := 1024

/-- `sizeof(Pool_entry)`. -/
def sizeofPoolEntry : ℕ := 64

/-- The fields of a `Pool_entry` that the allocator uses. -/
structure PoolHeader where
  next : ℕ
  prev : ℕ
  nbytes : ℕ
  flag : ℤ
  deriving DecidableEq, Repr

/-- The headers at their addresses. -/
abbrev PoolMem := ℕ → PoolHeader

namespace PoolMem

/-- `a->next = v`. -/
def setNext (a v : ℕ) (mem : PoolMem) : PoolMem := Function.update mem a { mem a with next := v }

/-- `a->prev = v`. -/
def setPrev (a v : ℕ) (mem : PoolMem) : PoolMem := Function.update mem a { mem a with prev := v }

/-- `a->flag = v`. -/
def setFlag (a : ℕ) (v : ℤ) (mem : PoolMem) : PoolMem :=
  Function.update mem a { mem a with flag := v }

/-- `a->nbytes = v`. -/
def setNbytes (a v : ℕ) (mem : PoolMem) : PoolMem :=
  Function.update mem a { mem a with nbytes := v }

/-- The first byte behind an entry and its data. -/
def endOf (mem : PoolMem) (a : ℕ) : ℕ := a + sizeofPoolEntry + (mem a).nbytes

variable (mem : PoolMem) (a b v : ℕ) (w : ℤ)

@[simp] lemma setNext_next : (mem.setNext a v b).next = if b = a then v else (mem b).next := by
  by_cases hb : b = a <;> simp [setNext, hb]

@[simp] lemma setNext_prev : (mem.setNext a v b).prev = (mem b).prev := by
  by_cases hb : b = a <;> simp [setNext, hb]

@[simp] lemma setNext_nbytes : (mem.setNext a v b).nbytes = (mem b).nbytes := by
  by_cases hb : b = a <;> simp [setNext, hb]

@[simp] lemma setNext_flag : (mem.setNext a v b).flag = (mem b).flag := by
  by_cases hb : b = a <;> simp [setNext, hb]

@[simp] lemma setPrev_prev : (mem.setPrev a v b).prev = if b = a then v else (mem b).prev := by
  by_cases hb : b = a <;> simp [setPrev, hb]

@[simp] lemma setPrev_next : (mem.setPrev a v b).next = (mem b).next := by
  by_cases hb : b = a <;> simp [setPrev, hb]

@[simp] lemma setPrev_nbytes : (mem.setPrev a v b).nbytes = (mem b).nbytes := by
  by_cases hb : b = a <;> simp [setPrev, hb]

@[simp] lemma setPrev_flag : (mem.setPrev a v b).flag = (mem b).flag := by
  by_cases hb : b = a <;> simp [setPrev, hb]

@[simp] lemma setFlag_flag : (mem.setFlag a w b).flag = if b = a then w else (mem b).flag := by
  by_cases hb : b = a <;> simp [setFlag, hb]

@[simp] lemma setFlag_next : (mem.setFlag a w b).next = (mem b).next := by
  by_cases hb : b = a <;> simp [setFlag, hb]

@[simp] lemma setFlag_prev : (mem.setFlag a w b).prev = (mem b).prev := by
  by_cases hb : b = a <;> simp [setFlag, hb]

@[simp] lemma setFlag_nbytes : (mem.setFlag a w b).nbytes = (mem b).nbytes := by
  by_cases hb : b = a <;> simp [setFlag, hb]

@[simp] lemma setNbytes_nbytes : (mem.setNbytes a v b).nbytes = if b = a then v else (mem b).nbytes := by
  by_cases hb : b = a <;> simp [setNbytes, hb]

@[simp] lemma setNbytes_next : (mem.setNbytes a v b).next = (mem b).next := by
  by_cases hb : b = a <;> simp [setNbytes, hb]

@[simp] lemma setNbytes_prev : (mem.setNbytes a v b).prev = (mem b).prev := by
  by_cases hb : b = a <;> simp [setNbytes, hb]

@[simp] lemma setNbytes_flag : (mem.setNbytes a v b).flag = (mem b).flag := by
  by_cases hb : b = a <;> simp [setNbytes, hb]

end PoolMem

/-- Where `smp_send` is: in the loop that collects the current entry, in the loop that collects the
next one, before the comparison with the space that is left, or before it sets the flag. -/
inductive PoolPc where
  | outside
  | collect
  | collectNext
  | test
  | publish
  | quit
  deriving DecidableEq, Repr

/-- The region, the static variable `current`, the local variables of `smp_send`, and the entries that
were sent and not yet received, with their sizes. -/
structure PoolState where
  mem : PoolMem
  current : ℕ
  pc : PoolPc
  next : ℕ
  prev : ℕ
  begin : ℕ
  nbytes : ℕ
  live : List (ℕ × ℕ)

/-- The process sends a message of `n` bytes or goes on with it, or a receiver marks an entry. -/
inductive PoolAct where
  | send (n : ℕ)
  | go
  | mark (a : ℕ)
  deriving DecidableEq, Repr

/-- The bytes of the region of each process. -/
def q_size (nsmp : ℕ) : ℕ := 4000 / nsmp * 4096

/-- The comparison of a gap, a signed number, with the unsigned size of an entry. -/
def fits (gap : ℤ) (n : ℕ) : Bool := (sizeofPoolEntry + n : ℤ) < gap % 2 ^ 64

namespace PoolState

open PoolMem

/-- After `init_smp`. The segment is new, so it contains zeros. -/
def init : PoolState := ⟨fun _ => ⟨0, 0, 0, 0⟩, 0, .outside, 0, 0, 0, 0, []⟩

/-- The space behind the current entry, up to the next one or the end of the region. -/
def gap (nsmp : ℕ) (s : PoolState) : ℤ :=
  if s.next = 0 then q_size nsmp - 1 - (s.current + sizeofPoolEntry) - (s.mem s.current).nbytes
  else s.next - 1 - (s.current + sizeofPoolEntry) - (s.mem s.current).nbytes

/-- The new entry, behind the current one, and its offset in the FIFO. -/
def place (s : PoolState) : PoolState :=
  { s with
    mem := (((((s.mem.setNext s.current (s.mem.endOf s.current)).setPrev (s.mem.endOf s.current)
      s.current).setNext (s.mem.endOf s.current) s.next).setPrev s.next
        (s.mem.endOf s.current)).setFlag (s.mem.endOf s.current) 0).setNbytes
          (s.mem.endOf s.current) s.nbytes
    current := s.mem.endOf s.current
    pc := .publish
    live := (s.mem.endOf s.current, s.nbytes) :: s.live }

/-- The search goes on at the next entry, or at the first one behind the last. -/
def advance (s : PoolState) : PoolState :=
  { s with current := s.next, pc := if s.next = s.begin then .quit else .collect }

/-- The next step of `smp_send`. -/
def stepSend (nsmp : ℕ) (s : PoolState) : PoolState :=
  match s.pc with
  | .outside => s
  | .collect =>
    if (s.mem s.current).flag = -1 then
      { s with
        mem := (s.mem.setNext s.prev s.next).setPrev s.next s.prev
        current := s.prev
        prev := (((s.mem.setNext s.prev s.next).setPrev s.next s.prev) s.prev).prev }
    else { s with pc := .collectNext }
  | .collectNext =>
    if (s.mem s.next).flag = -1 then
      { s with
        mem := (s.mem.setNext s.current (s.mem s.next).next).setPrev
          ((s.mem.setNext s.current (s.mem s.next).next) s.next).next s.current
        next := (((s.mem.setNext s.current (s.mem s.next).next).setPrev
          ((s.mem.setNext s.current (s.mem s.next).next) s.next).next s.current) s.next).next }
    else { s with pc := .test }
  | .test => if fits (s.gap nsmp) s.nbytes then s.place else s.advance
  | .publish => { s with mem := s.mem.setFlag s.current 1, pc := .outside }
  | .quit => s

/-- What happens next. -/
def step (nsmp : ℕ) (s : PoolState) : PoolAct → PoolState
  | .send n =>
    if s.pc = .outside then
      { s with
        pc := .collect
        next := (s.mem s.current).next
        prev := (s.mem s.current).prev
        begin := s.current
        nbytes := n }
    else s
  | .go => s.stepSend nsmp
  | .mark a =>
    if a ∈ s.live.map Prod.fst then
      { s with mem := s.mem.setFlag a (-1), live := s.live.eraseP fun e => e.1 = a }
    else s

/-- Sends and receives in the order in which they happen. -/
def run (nsmp : ℕ) (s : PoolState) (acts : List PoolAct) : PoolState := acts.foldl (step nsmp) s

/-- Behind the current entry, once the received ones are collected, there is room for the message, or
the list is empty. -/
def Room (nsmp : ℕ) (s : PoolState) (act : PoolAct) : Prop :=
  act = .go → s.pc = .test → s.current = 0 ∨ fits (s.gap nsmp) s.nbytes

/-- Every message finds room behind the current entry. -/
def Roomy (nsmp : ℕ) (s : PoolState) : List PoolAct → Prop
  | [] => True
  | act :: acts => s.Room nsmp act ∧ (s.step nsmp act).Roomy nsmp acts

instance (nsmp : ℕ) (s : PoolState) (act : PoolAct) : Decidable (s.Room nsmp act) :=
  inferInstanceAs (Decidable (_ → _ → _ ∨ _))

instance decidableRoomy (nsmp : ℕ) : (s : PoolState) → (acts : List PoolAct) →
    Decidable (s.Roomy nsmp acts)
  | _, [] => .isTrue trivial
  | s, act :: acts =>
    have := decidableRoomy nsmp (s.step nsmp act) acts
    inferInstanceAs (Decidable (_ ∧ _))

/-- `next` and `prev` lead from `nil_entry` round a list and back. -/
def Circular (mem : PoolMem) (l : List ℕ) : Prop :=
  List.IsChain (fun a b => (mem a).next = b ∧ (mem b).prev = a) (0 :: l ++ [0])

/-- The messages under way lie in the region, behind `nil_entry` and apart from each other, and the
circular list goes through them in increasing order. -/
structure Sound (nsmp : ℕ) (s : PoolState) : Prop where
  inside : ∀ e ∈ s.live, sizeofPoolEntry ≤ e.1 ∧ e.1 + sizeofPoolEntry + e.2 ≤ q_size nsmp
  apart : s.live.Pairwise fun e f =>
    e.1 + sizeofPoolEntry + e.2 ≤ f.1 ∨ f.1 + sizeofPoolEntry + f.2 ≤ e.1
  listed : ∃ l, Circular s.mem l ∧ l.Pairwise (· < ·) ∧ ∀ e ∈ s.live, e.1 ∈ l

/-! ### Pushing and popping -/

/-- The entries behind `nil_entry` from the last one to the first, linked both ways and without
overlap. -/
def Stacked (mem : PoolMem) : List ℕ → Prop
  | [] => True
  | a :: r => (mem (r.headD 0)).next = a ∧ (mem a).prev = r.headD 0 ∧ mem.endOf (r.headD 0) ≤ a ∧
      Stacked mem r

variable {mem mem' : PoolMem} {r : List ℕ} {nsmp a : ℕ} {s : PoolState}

lemma lt_endOf (mem : PoolMem) (a : ℕ) : a < mem.endOf a := by
  simp only [endOf, sizeofPoolEntry]
  omega

lemma Stacked.head_lt (h : Stacked mem (a :: r)) : r.headD 0 < a :=
  (lt_endOf mem _).trans_le h.2.2.1

/-- Entries are apart from all below them. -/
lemma Stacked.endOf_le (h : Stacked mem (a :: r)) : ∀ b ∈ 0 :: r, mem.endOf b ≤ a := by
  induction r generalizing a with
  | nil =>
    intro b hb
    rw [List.mem_singleton.mp hb]
    exact h.2.2.1
  | cons c r ih =>
    intro b hb
    obtain ⟨-, -, hca, hc⟩ := h
    have hcle : mem.endOf c ≤ a := hca
    have hlow := ih hc
    rcases List.mem_cons.mp hb with rfl | hb
    · exact (hlow 0 List.mem_cons_self).trans ((lt_endOf mem c).le.trans hcle)
    · rcases List.mem_cons.mp hb with rfl | hb
      · exact hcle
      · exact (hlow b (List.mem_cons_of_mem 0 hb)).trans ((lt_endOf mem c).le.trans hcle)

lemma Stacked.pairwise (h : Stacked mem r) : r.Pairwise fun a b => mem.endOf b ≤ a := by
  induction r with
  | nil => exact List.Pairwise.nil
  | cons a r ih =>
    rw [List.pairwise_cons]
    exact ⟨fun b hb => h.endOf_le b (List.mem_cons_of_mem 0 hb), ih h.2.2.2⟩

lemma Stacked.sizeof_le (h : Stacked mem r) : ∀ a ∈ r, sizeofPoolEntry ≤ a := by
  induction r with
  | nil => simp
  | cons c r ih =>
    intro a ha
    rcases List.mem_cons.mp ha with rfl | ha
    · have hzero := h.endOf_le 0 List.mem_cons_self
      simp only [endOf, Nat.zero_add] at hzero
      exact (Nat.le_add_right _ _).trans hzero
    · exact ih h.2.2.2 a ha

lemma Stacked.pos (h : Stacked mem r) (ha : a ∈ r) : 0 < a :=
  Nat.lt_of_lt_of_le (by simp [sizeofPoolEntry]) (h.sizeof_le a ha)

lemma Stacked.le_head (h : Stacked mem r) : ∀ b ∈ 0 :: r, b ≤ r.headD 0 := by
  cases r with
  | nil => simp
  | cons a r =>
    intro b hb
    have hb' : b = a ∨ b ∈ 0 :: r := by
      simp only [List.mem_cons] at hb ⊢
      tauto
    rcases hb' with rfl | hb
    · exact le_rfl
    · exact (lt_endOf mem b).le.trans (h.endOf_le b hb)

/-- What is written elsewhere leaves the entries linked. -/
lemma Stacked.congr (h : Stacked mem r) (hnext : ∀ b < r.headD 0, (mem' b).next = (mem b).next)
    (hprev : ∀ b, 0 < b → b ≤ r.headD 0 → (mem' b).prev = (mem b).prev)
    (hnbytes : ∀ b ≤ r.headD 0, (mem' b).nbytes = (mem b).nbytes) : Stacked mem' r := by
  induction r with
  | nil => trivial
  | cons a r ih =>
    have hlt := h.head_lt
    obtain ⟨hn, hp, he, hr⟩ := h
    simp only [List.headD_cons] at hnext hprev hnbytes
    refine ⟨?_, ?_, ?_, ?_⟩
    · rw [hnext _ hlt, hn]
    · rw [hprev a (Nat.zero_lt_of_lt hlt) le_rfl, hp]
    · rwa [endOf, hnbytes _ hlt.le]
    · apply ih hr
      · exact fun b hb => hnext b (hb.trans hlt)
      · exact fun b hpos hb => hprev b hpos (hb.trans hlt.le)
      · exact fun b hb => hnbytes b (hb.trans hlt.le)

/-- The list that starts at `nil_entry` is circular. -/
lemma Stacked.circular (h : Stacked mem r) (hnext : (mem (r.headD 0)).next = 0)
    (hprev : (mem 0).prev = r.headD 0) : Circular mem r.reverse := by
  have hchain : List.IsChain (fun a b => (mem a).next = b ∧ (mem b).prev = a) (0 :: r.reverse) ∧
      (0 :: r.reverse).getLast? = some (r.headD 0) := by
    clear hnext hprev
    induction r with
    | nil => simp
    | cons a r ih =>
      obtain ⟨hn, hp, -, hr⟩ := h
      obtain ⟨hc, hlast⟩ := ih hr
      rw [List.reverse_cons, ← List.cons_append]
      constructor
      · rw [List.isChain_append]
        refine ⟨hc, List.isChain_singleton _, ?_⟩
        intro x hx y hy
        rw [hlast] at hx
        simp only [Option.mem_def, Option.some.injEq, List.head?_cons] at hx hy
        subst hx hy
        exact ⟨hn, hp⟩
      · exact List.getLast?_concat
  rw [Circular, List.isChain_append]
  refine ⟨hchain.1, List.isChain_singleton _, ?_⟩
  intro x hx y hy
  rw [hchain.2] at hx
  simp only [Option.mem_def, Option.some.injEq, List.head?_cons] at hx hy
  subst hx hy
  exact ⟨hnext, hprev⟩

/-- The list is a stack with `current` on top, and no entry under way is marked as received. -/
structure Inv (nsmp : ℕ) (s : PoolState) (r : List ℕ) : Prop where
  stacked : Stacked s.mem r
  top : s.current = r.headD 0
  room : s.mem.endOf (r.headD 0) < q_size nsmp
  next : (s.mem (r.headD 0)).next = 0
  prev : (s.mem 0).prev = r.headD 0
  nil_nbytes : (s.mem 0).nbytes = 0
  nil_flag : (s.mem 0).flag = 0
  live : ∀ e ∈ s.live, e.1 ∈ r ∧ (s.mem e.1).nbytes = e.2 ∧ (s.mem e.1).flag ≠ -1
  nodup : (s.live.map Prod.fst).Nodup
  locals : s.pc = .collect ∨ s.pc = .collectNext ∨ s.pc = .test →
    s.next = 0 ∧ s.prev = (s.mem (r.headD 0)).prev
  published : s.pc = .publish → 0 < s.current

lemma q_size_pos (hpos : 0 < nsmp) (hmax : nsmp ≤ MAX_PROCS) : 4096 ≤ q_size nsmp := by
  have hdiv : 1 ≤ 4000 / nsmp := by
    rw [Nat.le_div_iff_mul_le hpos, Nat.one_mul]
    exact hmax.trans (by simp [MAX_PROCS])
  calc 4096 = 1 * 4096 := (Nat.one_mul _).symm
    _ ≤ q_size nsmp := Nat.mul_le_mul_right 4096 hdiv

lemma inv_init (hpos : 0 < nsmp) (hmax : nsmp ≤ MAX_PROCS) : Inv nsmp init [] where
  stacked := trivial
  top := rfl
  room := by
    have hsize := q_size_pos hpos hmax
    simp only [List.headD_nil, endOf, init, sizeofPoolEntry]
    omega
  next := rfl
  prev := rfl
  nil_nbytes := rfl
  nil_flag := rfl
  live := by simp [init]
  nodup := by simp [init]
  locals := by simp [init]
  published := by simp [init]

lemma q_size_lt (nsmp : ℕ) : q_size nsmp < 2 ^ 63 := by
  have hdiv : 4000 / nsmp ≤ 4000 := Nat.div_le_self 4000 nsmp
  calc q_size nsmp ≤ 4000 * 4096 := Nat.mul_le_mul_right 4096 hdiv
    _ < 2 ^ 63 := by norm_num

/-- Behind the last entry the comparison is what it seems to be. -/
lemma Inv.fits_iff (h : Inv nsmp s r) (hnext : s.next = 0) :
    fits (s.gap nsmp) s.nbytes = true ↔
      s.mem.endOf (r.headD 0) + sizeofPoolEntry + s.nbytes + 1 < q_size nsmp := by
  have hroom := h.room
  have hlt := q_size_lt nsmp
  have htop := h.top
  rw [endOf] at hroom ⊢
  have hgap : s.gap nsmp = q_size nsmp - 1 - (r.headD 0 + sizeofPoolEntry) -
      (s.mem (r.headD 0)).nbytes := by rw [gap, if_pos hnext, htop]
  have hmod : s.gap nsmp % 2 ^ 64 = s.gap nsmp := by
    apply Int.emod_eq_of_lt
    · omega
    · omega
  rw [fits, hmod, hgap, decide_eq_true_iff]
  omega

lemma Inv.collect (h : Inv nsmp s r) (hpc : s.pc = .collect) :
    ∃ r, Inv nsmp (s.stepSend nsmp) r := by
  have hlocals := h.locals (.inl hpc)
  simp only [stepSend, hpc]
  split_ifs with hflag
  · cases r with
    | nil =>
      rw [h.top] at hflag
      exact absurd (hflag.symm.trans h.nil_flag) (by simp)
    | cons c r =>
      obtain ⟨hn, hp, he, hr⟩ := h.stacked
      have hlt := h.stacked.head_lt
      have hnext := hlocals.1
      have hprev : s.prev = r.headD 0 := hlocals.2.trans hp
      have htop : s.current = c := h.top
      rw [htop] at hflag
      refine ⟨r, ?_, hprev, ?_, ?_, ?_, ?_, ?_, ?_, h.nodup, ?_, by simp⟩
      · apply hr.congr
        · intro b hb
          rw [setPrev_next, setNext_next, if_neg (hprev ▸ hb.ne)]
        · intro b hpos _
          simp [hnext, hpos.ne']
        · simp
      · simp only [endOf, setPrev_nbytes, setNext_nbytes]
        exact he.trans_lt ((lt_endOf s.mem c).trans h.room)
      · simp [hprev, hnext]
      · simp [hprev, hnext]
      · simp [h.nil_nbytes]
      · simp [h.nil_flag]
      · intro e hlive
        obtain ⟨hmem, hnb, hfl⟩ := h.live e hlive
        have hec : e.1 ≠ c := fun heq => hfl (heq ▸ hflag)
        simpa [hnb, hfl] using (List.mem_cons.mp hmem).resolve_left hec
      · exact fun _ => ⟨hnext, by rw [hprev]⟩
  · exact ⟨r, h.stacked, h.top, h.room, h.next, h.prev, h.nil_nbytes, h.nil_flag, h.live, h.nodup,
      fun _ => hlocals, by simp⟩

lemma Inv.collectNext (h : Inv nsmp s r) (hpc : s.pc = .collectNext) :
    ∃ r, Inv nsmp (s.stepSend nsmp) r := by
  have hlocals := h.locals (.inr (.inl hpc))
  have hflag : (s.mem s.next).flag ≠ -1 := by
    rw [hlocals.1, h.nil_flag]
    simp
  simp only [stepSend, hpc, if_neg hflag]
  exact ⟨r, h.stacked, h.top, h.room, h.next, h.prev, h.nil_nbytes, h.nil_flag, h.live, h.nodup,
    fun _ => hlocals, by simp⟩

lemma Inv.place (h : Inv nsmp s r) (hnext : s.next = 0) (hfits : fits (s.gap nsmp) s.nbytes = true) :
    Inv nsmp s.place (s.mem.endOf (r.headD 0) :: r) := by
  have hroom := (h.fits_iff hnext).mp hfits
  have hlt := lt_endOf s.mem (r.headD 0)
  have hle := h.stacked.le_head
  have htop := h.top
  obtain ⟨p, hp⟩ : ∃ p, p = r.headD 0 := ⟨_, rfl⟩
  obtain ⟨c, hc⟩ : ∃ c, c = s.mem.endOf p := ⟨_, rfl⟩
  rw [← hp, ← hc] at hroom
  rw [← hp, ← hc] at hlt ⊢
  rw [← hp] at hle htop
  have hcpos : c ≠ 0 := Nat.ne_of_gt (Nat.zero_lt_of_lt hlt)
  have hfresh : c ∉ r := fun hmem => Nat.not_le.mpr hlt (hle c (List.mem_cons_of_mem 0 hmem))
  have hn : ∀ b, (s.place.mem b).next =
      if b = c then 0 else if b = p then c else (s.mem b).next := by
    intro b
    simp [PoolState.place, htop, hnext, ← hc]
  have hpr : ∀ b, (s.place.mem b).prev =
      if b = 0 then c else if b = c then p else (s.mem b).prev := by
    intro b
    simp [PoolState.place, htop, hnext, ← hc]
  have hfl : ∀ b, (s.place.mem b).flag = if b = c then 0 else (s.mem b).flag := by
    intro b
    simp [PoolState.place, htop, ← hc]
  have hnb : ∀ b, (s.place.mem b).nbytes = if b = c then s.nbytes else (s.mem b).nbytes := by
    intro b
    simp [PoolState.place, htop, ← hc]
  have hcurrent : s.place.current = c := by rw [PoolState.place, htop, hc]
  have hlive : s.place.live = (c, s.nbytes) :: s.live := by rw [PoolState.place, htop, hc]
  refine ⟨⟨?_, ?_, ?_, ?_⟩, ?_, ?_, ?_, ?_, ?_, ?_, ?_, ?_, by simp [PoolState.place], ?_⟩
  · rw [← hp, hn, if_neg hlt.ne, if_pos rfl]
  · rw [← hp, hpr, if_neg hcpos, if_pos rfl]
  · rw [← hp, endOf, hnb, if_neg hlt.ne, hc, endOf]
  · apply h.stacked.congr
    · intro b hb
      rw [← hp] at hb
      rw [hn, if_neg (hb.trans hlt).ne, if_neg hb.ne]
    · intro b hpos hb
      rw [← hp] at hb
      rw [hpr, if_neg hpos.ne', if_neg (hb.trans_lt hlt).ne]
    · intro b hb
      rw [← hp] at hb
      rw [hnb, if_neg (hb.trans_lt hlt).ne]
  · exact hcurrent
  · rw [List.headD_cons, endOf, hnb, if_pos rfl]
    exact Nat.lt_of_succ_lt hroom
  · rw [List.headD_cons, hn, if_pos rfl]
  · rw [List.headD_cons, hpr, if_pos rfl]
  · rw [hnb, if_neg hcpos.symm, h.nil_nbytes]
  · rw [hfl, if_neg hcpos.symm, h.nil_flag]
  · intro e he
    rw [hlive] at he
    rcases List.mem_cons.mp he with rfl | he
    · refine ⟨List.mem_cons_self, ?_, ?_⟩
      · rw [hnb, if_pos rfl]
      · rw [hfl, if_pos rfl]
        simp
    · obtain ⟨hmem, hsize, hflag⟩ := h.live e he
      have hec : e.1 ≠ c := fun heq => hfresh (heq ▸ hmem)
      refine ⟨List.mem_cons_of_mem c hmem, ?_, ?_⟩
      · rw [hnb, if_neg hec, hsize]
      · rwa [hfl, if_neg hec]
  · rw [hlive, List.map_cons, List.nodup_cons]
    refine ⟨fun hmem => ?_, h.nodup⟩
    obtain ⟨e, he, heq⟩ := List.mem_map.mp hmem
    rw [← show e.1 = c from heq] at hfresh
    exact hfresh (h.live e he).1
  · intro _
    rw [hcurrent]
    exact Nat.pos_of_ne_zero hcpos

lemma Inv.test (h : Inv nsmp s r) (hpc : s.pc = .test) (hcond : s.Room nsmp .go) :
    ∃ r, Inv nsmp (s.stepSend nsmp) r := by
  have hlocals := h.locals (.inr (.inr hpc))
  simp only [stepSend, hpc]
  split_ifs with hfits
  · exact ⟨_, h.place hlocals.1 hfits⟩
  · -- the list is empty, and the search begins again or ends
    have hempty : s.current = 0 := (hcond rfl hpc).resolve_right hfits
    refine ⟨r, h.stacked, ?_, h.room, h.next, h.prev, h.nil_nbytes, h.nil_flag, h.live, h.nodup,
      fun _ => hlocals, ?_⟩
    · exact hlocals.1.trans (hempty.symm.trans h.top)
    · intro hpublish
      simp only [advance] at hpublish
      split_ifs at hpublish

lemma Inv.publish (h : Inv nsmp s r) (hpc : s.pc = .publish) :
    ∃ r, Inv nsmp (s.stepSend nsmp) r := by
  have hcurrent := h.published hpc
  simp only [stepSend, hpc]
  refine ⟨r, ?_, h.top, ?_, by simpa using h.next, by simpa using h.prev,
    by simpa using h.nil_nbytes, ?_, ?_, h.nodup, by simp, by simp⟩
  · exact h.stacked.congr (by simp) (by simp) (by simp)
  · simpa [endOf] using h.room
  · rw [setFlag_flag, if_neg hcurrent.ne, h.nil_flag]
  · intro e he
    obtain ⟨hmem, hsize, hflag⟩ := h.live e he
    refine ⟨hmem, by simpa using hsize, ?_⟩
    rw [setFlag_flag]
    split_ifs
    · simp
    · exact hflag

lemma Inv.send (h : Inv nsmp s r) (n : ℕ) (hpc : s.pc = .outside) :
    ∃ r, Inv nsmp (s.step nsmp (.send n)) r := by
  simp only [step, if_pos hpc]
  refine ⟨r, h.stacked, h.top, h.room, h.next, h.prev, h.nil_nbytes, h.nil_flag, h.live, h.nodup,
    fun _ => ⟨?_, ?_⟩, by simp⟩
  · rw [h.top, h.next]
  · rw [h.top]

lemma fst_ne_of_mem_eraseP {l : List (ℕ × ℕ)} (hnodup : (l.map Prod.fst).Nodup)
    (ha : a ∈ l.map Prod.fst) {e : ℕ × ℕ} (he : e ∈ l.eraseP fun e => e.1 = a) : e.1 ≠ a := by
  obtain ⟨f, hf, hfa⟩ := List.mem_map.mp ha
  obtain ⟨g, l₁, l₂, -, hg, rfl, herase⟩ :=
    List.exists_of_eraseP (p := fun e : ℕ × ℕ => decide (e.1 = a)) hf (decide_eq_true hfa)
  rw [herase] at he
  rw [List.map_append, List.map_cons, List.nodup_middle, List.nodup_cons, ← List.map_append,
    of_decide_eq_true hg] at hnodup
  intro heq
  exact hnodup.1 (List.mem_map.mpr ⟨e, he, heq⟩)

/-- A receiver marks an entry, wherever `smp_send` is. -/
lemma Inv.mark (h : Inv nsmp s r) {a : ℕ} (ha : a ∈ s.live.map Prod.fst) :
    ∃ r, Inv nsmp (s.step nsmp (.mark a)) r := by
  have hmem : a ∈ r := by
    obtain ⟨e, he, rfl⟩ := List.mem_map.mp ha
    exact (h.live e he).1
  have hpos := h.stacked.pos hmem
  simp only [step, if_pos ha]
  refine ⟨r, ?_, h.top, ?_, by simpa using h.next, by simpa using h.prev,
    by simpa using h.nil_nbytes, ?_, ?_, ?_, ?_, h.published⟩
  · exact h.stacked.congr (by simp) (by simp) (by simp)
  · simpa [endOf] using h.room
  · rw [setFlag_flag, if_neg hpos.ne, h.nil_flag]
  · intro e he
    have hlive : e ∈ s.live := List.mem_of_mem_eraseP he
    obtain ⟨hmem, hsize, hflag⟩ := h.live e hlive
    have hea : e.1 ≠ a := fst_ne_of_mem_eraseP h.nodup ha he
    refine ⟨hmem, by simpa using hsize, ?_⟩
    rwa [setFlag_flag, if_neg hea]
  · exact h.nodup.sublist ((List.eraseP_sublist).map _)
  · intro hsearch
    obtain ⟨hnext, hprev⟩ := h.locals hsearch
    exact ⟨hnext, by simpa using hprev⟩

lemma Inv.step {act : PoolAct} (h : Inv nsmp s r) (hroom : s.Room nsmp act) :
    ∃ r, Inv nsmp (s.step nsmp act) r := by
  cases act with
  | send n =>
    by_cases hpc : s.pc = .outside
    · exact h.send n hpc
    · rw [PoolState.step, if_neg hpc]
      exact ⟨r, h⟩
  | go =>
    cases hpc : s.pc with
    | outside =>
      have heq : s.stepSend nsmp = s := by simp [stepSend, hpc]
      rw [PoolState.step, heq]
      exact ⟨r, h⟩
    | collect => exact h.collect hpc
    | collectNext => exact h.collectNext hpc
    | test => exact h.test hpc hroom
    | publish => exact h.publish hpc
    | quit =>
      have heq : s.stepSend nsmp = s := by simp [stepSend, hpc]
      rw [PoolState.step, heq]
      exact ⟨r, h⟩
  | mark a =>
    by_cases ha : a ∈ s.live.map Prod.fst
    · exact h.mark ha
    · rw [PoolState.step, if_neg ha]
      exact ⟨r, h⟩

lemma Inv.run {acts : List PoolAct} (h : Inv nsmp s r) (hroomy : s.Roomy nsmp acts) :
    ∃ r, Inv nsmp (s.run nsmp acts) r := by
  induction acts generalizing s r with
  | nil => exact ⟨r, h⟩
  | cons act acts ih =>
    obtain ⟨r', h'⟩ := h.step hroomy.1
    exact ih h' hroomy.2

lemma Inv.sound (h : Inv nsmp s r) : Sound nsmp s where
  inside e he := by
    obtain ⟨hmem, hsize, -⟩ := h.live e he
    have hroom := h.room
    refine ⟨h.stacked.sizeof_le e.1 hmem, ?_⟩
    cases r with
    | nil => simp at hmem
    | cons c r =>
      have hend : s.mem.endOf e.1 ≤ s.mem.endOf c := by
        rcases List.mem_cons.mp hmem with heq | hmem
        · rw [heq]
        · exact (h.stacked.endOf_le _ (List.mem_cons_of_mem 0 hmem)).trans (lt_endOf s.mem c).le
      rw [← hsize]
      exact (hend.trans_lt hroom).le
  apart := by
    have hpairs : s.live.Pairwise fun e f => e.1 ≠ f.1 := List.pairwise_map.mp h.nodup
    refine hpairs.imp_of_mem fun {e f} he hf hne => ?_
    obtain ⟨hmem, hsize, -⟩ := h.live e he
    obtain ⟨hmem', hsize', -⟩ := h.live f hf
    rw [← hsize, ← hsize']
    have hpair : r.Pairwise fun a b => s.mem.endOf b ≤ a ∨ s.mem.endOf a ≤ b :=
      h.stacked.pairwise.imp Or.inl
    have : Std.Symm fun a b => s.mem.endOf b ≤ a ∨ s.mem.endOf a ≤ b := ⟨fun _ _ => Or.symm⟩
    exact (hpair.forall hmem hmem' hne).symm
  listed := by
    refine ⟨r.reverse, h.stacked.circular h.next h.prev, ?_, fun e he => ?_⟩
    · rw [List.pairwise_reverse]
      exact h.stacked.pairwise.imp fun hle => (lt_endOf s.mem _).trans_le hle
    · exact List.mem_reverse.mpr (h.live e he).1

/-- As long as every message finds room behind the current entry, the messages under way are apart
from each other and on the list. -/
theorem sound_of_roomy (hpos : 0 < nsmp) (hmax : nsmp ≤ MAX_PROCS) {acts : List PoolAct}
    (hroomy : init.Roomy nsmp acts) : Sound nsmp (init.run nsmp acts) := by
  obtain ⟨r, h⟩ := (inv_init hpos hmax).run hroomy
  exact h.sound

/-- Two messages fill half of the region each, and a third one is placed over the first. -/
def overrun : List PoolAct :=
  [.send 4000000, .go, .go, .go, .go, .send 4000000, .go, .go, .go, .go,
    .send 1000000, .go, .go, .go, .go, .go, .go]

theorem not_sound : ¬ Sound 2 (init.run 2 overrun) := by
  intro h
  have hpair := h.apart
  revert hpair
  decide +kernel

/-- A message is sent and received, and another one sent. -/
theorem sound_of_roomy_two :
    Sound 2 (init.run 2 [.send 100, .go, .go, .go, .go, .mark 64, .send 50, .go, .go, .go, .go]) := by
  apply sound_of_roomy (by simp) (by simp [MAX_PROCS])
  decide +kernel

end PoolState

end NetPipe.MpLite
