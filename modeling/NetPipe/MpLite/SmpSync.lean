import Mathlib.Tactic

/-!
# The barrier in shared memory

`smp_sync` of any number of processes on one node. Each flips its byte of `sync_array`, a counter
modulo 10, and waits until every other byte shows the same barrier or the next one. Every read and
write of the array is a step of its own.
-/

namespace NetPipe.MpLite

/-- Where a process is: before the write of its byte, or before the first or the second read in the
condition of the waiting loop. -/
inductive SmpPc where
  | outside
  | write
  | first (i : ℕ)
  | second (i : ℕ)
  deriving DecidableEq, Repr

/-- A process, with its static `sync_byte` and the barriers it has entered. -/
structure SmpProc where
  sync_byte : ℕ
  entered : ℕ
  pc : SmpPc

/-- The processes of a node by their ranks, and the shared array. -/
structure SmpState where
  proc : ℕ → SmpProc
  sync_array : ℕ → ℕ

/-- The barriers a process has returned from. -/
def SmpProc.returned (q : SmpProc) : ℕ := if q.pc = .outside then q.entered else q.entered - 1

/-- The barriers a process has announced in the array. -/
def SmpProc.announced (q : SmpProc) : ℕ := if q.pc = .write then q.entered - 1 else q.entered

namespace SmpState

/-- No process has called `smp_sync`. -/
def init : SmpState := ⟨fun _ => ⟨0, 0, .outside⟩, fun _ => 0⟩

/-- Process `p` goes on at another place. -/
def goto (p : ℕ) (pc : SmpPc) (s : SmpState) : SmpState :=
  { s with proc := Function.update s.proc p { s.proc p with pc := pc } }

/-- The loop over the processes, at process `i`. -/
def loopAt (nsmp i : ℕ) : SmpPc := if i < nsmp then .first i else .outside

/-- `sync_array[p] = byte`. -/
def setByte (p byte : ℕ) (s : SmpState) : SmpState :=
  { s with sync_array := Function.update s.sync_array p byte }

/-- Process `p` calls `smp_sync`. -/
def enter (nsmp p : ℕ) (s : SmpState) : SmpState :=
  { s with
    proc := Function.update s.proc p
      (if nsmp < 2 then ⟨(s.proc p).sync_byte, (s.proc p).entered + 1, .outside⟩
      else ⟨((s.proc p).sync_byte + 1) % 10, (s.proc p).entered + 1, .write⟩) }

/-- Process `p` calls `smp_sync`, or makes its next access to the array. -/
def step (nsmp : ℕ) (s : SmpState) (p : ℕ) : SmpState :=
  match (s.proc p).pc with
  | .outside => s.enter nsmp p
  | .write => (s.setByte p (s.proc p).sync_byte).goto p (loopAt nsmp 0)
  | .first i =>
    if s.sync_array i ≠ (s.proc p).sync_byte then s.goto p (.second i)
    else s.goto p (loopAt nsmp (i + 1))
  | .second i =>
    if s.sync_array i ≠ ((s.proc p).sync_byte + 1) % 10 then s.goto p (.first i)
    else s.goto p (loopAt nsmp (i + 1))

/-- The processes take steps in the order of a schedule. -/
def run (nsmp : ℕ) (s : SmpState) (schedule : List ℕ) : SmpState := schedule.foldl (step nsmp) s

variable {n p i j k : ℕ} {s : SmpState}

@[simp] lemma run_nil (s : SmpState) : run n s [] = s := rfl

@[simp] lemma run_cons (s : SmpState) (p : ℕ) (ps : List ℕ) :
    run n s (p :: ps) = run n (step n s p) ps := rfl

@[simp] lemma goto_pc (s : SmpState) (p : ℕ) (pc : SmpPc) : ((s.goto p pc).proc p).pc = pc := by
  simp [goto]

@[simp] lemma goto_entered (s : SmpState) (p : ℕ) (pc : SmpPc) (j : ℕ) :
    ((s.goto p pc).proc j).entered = (s.proc j).entered := by
  by_cases hj : j = p
  · subst hj
    simp [goto]
  · simp [goto, hj]

@[simp] lemma goto_sync_byte (s : SmpState) (p : ℕ) (pc : SmpPc) (j : ℕ) :
    ((s.goto p pc).proc j).sync_byte = (s.proc j).sync_byte := by
  by_cases hj : j = p
  · subst hj
    simp [goto]
  · simp [goto, hj]

@[simp] lemma goto_sync_array (s : SmpState) (p : ℕ) (pc : SmpPc) :
    (s.goto p pc).sync_array = s.sync_array := rfl

@[simp] lemma setByte_proc (s : SmpState) (p b : ℕ) : (s.setByte p b).proc = s.proc := rfl

lemma goto_proc_of_ne (s : SmpState) (pc : SmpPc) (hj : j ≠ p) :
    (s.goto p pc).proc j = s.proc j := by
  simp [goto, hj]

/-- The processes below this one have been waited for. -/
def passed (n : ℕ) : SmpPc → ℕ
  | .outside => n
  | .write => 0
  | .first i => i
  | .second i => i

/-- The array shows what was announced, nobody is past a process that has not announced the same
barrier, and nobody is more than one barrier ahead. -/
structure Inv (n : ℕ) (s : SmpState) : Prop where
  sync_byte : ∀ i < n, (s.proc i).sync_byte = (s.proc i).entered % 10
  sync_array : ∀ i < n, s.sync_array i = (s.proc i).announced % 10
  entered : ∀ i < n, (s.proc i).pc ≠ .outside → 0 < (s.proc i).entered
  inside : ∀ i < n, (s.proc i).pc ≠ .outside → passed n (s.proc i).pc < n
  waited : ∀ i < n, ∀ j < passed n (s.proc i).pc, (s.proc i).entered ≤ (s.proc j).announced
  near : ∀ i < n, ∀ j < n, (s.proc i).entered ≤ (s.proc j).announced + 1

lemma inv_init : Inv n init where
  sync_byte := by simp [init]
  sync_array := by simp [init, SmpProc.announced]
  entered := by simp [init]
  inside := by simp [init]
  waited := by simp [init, SmpProc.announced]
  near := by simp [init]

lemma passed_loopAt (hi : i ≤ n) : passed n (loopAt n i) = i := by
  rcases Nat.lt_or_eq_of_le hi with hlt | rfl
  · simp [loopAt, hlt, passed]
  · simp [loopAt, passed]

lemma loopAt_ne_write (n i : ℕ) : loopAt n i ≠ .write := by
  by_cases hi : i < n <;> simp [loopAt, hi]

lemma loopAt_inside (h : loopAt n i ≠ .outside) : i < n := by
  by_contra hi
  simp [loopAt, hi] at h

lemma goto_announced {pc : SmpPc} (hp : (s.proc p).pc ≠ .write) (hpc : pc ≠ .write) (j : ℕ) :
    ((s.goto p pc).proc j).announced = (s.proc j).announced := by
  by_cases hj : j = p
  · subst hj
    simp [SmpProc.announced, hp, hpc]
  · rw [goto_proc_of_ne s pc hj]

lemma announced_le (q : SmpProc) : q.announced ≤ q.entered := by
  by_cases hq : q.pc = .write <;> simp [SmpProc.announced, hq]

lemma announced_of_ne_write {q : SmpProc} (hq : q.pc ≠ .write) : q.announced = q.entered := by
  simp [SmpProc.announced, hq]

/-- One process changes, and what was announced stays announced: the invariant has to hold of that
process only. -/
lemma Inv.of_change {s' : SmpState} (h : Inv n s) (hother : ∀ i, i ≠ p → s'.proc i = s.proc i)
    (hle : ∀ i, (s.proc i).announced ≤ (s'.proc i).announced)
    (hbyte : (s'.proc p).sync_byte = (s'.proc p).entered % 10)
    (harray : ∀ i < n, s'.sync_array i = (s'.proc i).announced % 10)
    (hentered : (s'.proc p).pc ≠ .outside → 0 < (s'.proc p).entered)
    (hinside : (s'.proc p).pc ≠ .outside → passed n (s'.proc p).pc < n)
    (hwaited : ∀ j < passed n (s'.proc p).pc, (s'.proc p).entered ≤ (s'.proc j).announced)
    (hnear : ∀ j < n, (s'.proc p).entered ≤ (s'.proc j).announced + 1) : Inv n s' where
  sync_byte i hi := by
    by_cases hip : i = p
    · subst hip
      exact hbyte
    · rw [hother i hip]
      exact h.sync_byte i hi
  sync_array := harray
  entered i hi hne := by
    by_cases hip : i = p
    · subst hip
      exact hentered hne
    · rw [hother i hip] at hne ⊢
      exact h.entered i hi hne
  inside i hi hne := by
    by_cases hip : i = p
    · subst hip
      exact hinside hne
    · rw [hother i hip] at hne ⊢
      exact h.inside i hi hne
  waited i hi j hj := by
    by_cases hip : i = p
    · subst hip
      exact hwaited j hj
    · rw [hother i hip] at hj ⊢
      exact (h.waited i hi j hj).trans (hle j)
  near i hi j hj := by
    by_cases hip : i = p
    · subst hip
      exact hnear j hj
    · rw [hother i hip]
      exact (h.near i hi j hj).trans (Nat.succ_le_succ (hle j))

/-- A process moves in the waiting loop. -/
lemma Inv.goto {pc : SmpPc} (h : Inv n s) (hp : p < n) (hout : (s.proc p).pc ≠ .outside)
    (hwrite : (s.proc p).pc ≠ .write) (hpc : pc ≠ .write)
    (hinside : pc ≠ .outside → passed n pc < n)
    (hwaited : ∀ j < passed n pc, (s.proc p).entered ≤ (s.proc j).announced) :
    Inv n (s.goto p pc) := by
  have hannounced := goto_announced hwrite hpc
  apply h.of_change (fun i => goto_proc_of_ne s pc) (fun i => (hannounced i).ge)
  · rw [goto_sync_byte, goto_entered]
    exact h.sync_byte p hp
  · intro i hi
    rw [hannounced]
    exact h.sync_array i hi
  · intro _
    rw [goto_entered]
    exact h.entered p hp hout
  · rwa [goto_pc]
  · intro j hj
    rw [goto_entered, hannounced]
    rw [goto_pc] at hj
    exact hwaited j hj
  · intro j hj
    rw [goto_entered, hannounced]
    exact h.near p hp j hj

/-- Behind the test of process `i` it has announced the barrier as well. -/
lemma Inv.next (h : Inv n s) (hp : p < n) (hout : (s.proc p).pc ≠ .outside)
    (hwrite : (s.proc p).pc ≠ .write) (hi : passed n (s.proc p).pc = i)
    (hpass : (s.proc p).entered ≤ (s.proc i).announced) : Inv n (s.goto p (loopAt n (i + 1))) := by
  have hlt : i < n := hi ▸ h.inside p hp hout
  refine h.goto hp hout hwrite (loopAt_ne_write n _) (fun hne => ?_) fun j hj => ?_
  · rw [passed_loopAt hlt]
    exact loopAt_inside hne
  · rw [passed_loopAt hlt] at hj
    rcases Nat.lt_succ_iff_lt_or_eq.mp hj with hj | rfl
    · exact h.waited p hp j (hi ▸ hj)
    · exact hpass

/-- A process in the loop is at most one barrier away from any other. -/
lemma Inv.window (h : Inv n s) (hp : p < n) (hi : i < n) (hwrite : (s.proc p).pc ≠ .write) :
    (s.proc p).entered ≤ (s.proc i).announced + 1 ∧
      (s.proc i).announced ≤ (s.proc p).entered + 1 := by
  have hback := h.near i hi p hp
  rw [announced_of_ne_write hwrite] at hback
  exact ⟨h.near p hp i hi, (announced_le _).trans hback⟩

/-- The first comparison tells which barrier the other process has announced. -/
lemma Inv.first_eq (h : Inv n s) (hp : p < n) (hi : i < n) (hwrite : (s.proc p).pc ≠ .write) :
    s.sync_array i = (s.proc p).sync_byte ↔ (s.proc i).announced = (s.proc p).entered := by
  have hwindow := h.window hp hi hwrite
  rw [h.sync_array i hi, h.sync_byte p hp]
  omega

/-- So does the second one. -/
lemma Inv.second_eq (h : Inv n s) (hp : p < n) (hi : i < n) (hwrite : (s.proc p).pc ≠ .write) :
    s.sync_array i = ((s.proc p).sync_byte + 1) % 10 ↔
      (s.proc i).announced = (s.proc p).entered + 1 := by
  have hwindow := h.window hp hi hwrite
  rw [h.sync_array i hi, h.sync_byte p hp]
  omega

lemma Inv.enter (hn : 2 ≤ n) (h : Inv n s) (hp : p < n) (hout : (s.proc p).pc = .outside) :
    Inv n (s.enter n p) := by
  have hlarge : ¬ n < 2 := Nat.not_lt.mpr hn
  have hproc : (s.enter n p).proc = Function.update s.proc p
      ⟨((s.proc p).sync_byte + 1) % 10, (s.proc p).entered + 1, .write⟩ := by
    simp [SmpState.enter, hlarge]
  have hself : (s.enter n p).proc p =
      ⟨((s.proc p).sync_byte + 1) % 10, (s.proc p).entered + 1, .write⟩ := by
    simp [hproc]
  have hother : ∀ i, i ≠ p → (s.enter n p).proc i = s.proc i := fun i hi => by simp [hproc, hi]
  have hannounced : ∀ i, ((s.enter n p).proc i).announced = (s.proc i).announced := by
    intro i
    by_cases hip : i = p
    · subst hip
      simp [hself, SmpProc.announced, hout]
    · rw [hother i hip]
  apply h.of_change hother (fun i => (hannounced i).ge)
  · simp [hself, h.sync_byte p hp]
  · intro i hi
    rw [hannounced]
    exact h.sync_array i hi
  · intro _
    simp [hself]
  · intro _
    simpa [hself, passed] using Nat.zero_lt_of_lt hp
  · intro j hj
    simp [hself, passed] at hj
  · -- it comes from outside, where it has waited for everybody
    intro j hj
    have hwaited := h.waited p hp j (by simpa [hout, passed] using hj)
    rw [hannounced]
    simpa [hself] using hwaited

lemma Inv.write (hn : 2 ≤ n) (h : Inv n s) (hp : p < n) (hw : (s.proc p).pc = .write) :
    Inv n ((s.setByte p (s.proc p).sync_byte).goto p (loopAt n 0)) := by
  have hzero : loopAt n 0 = .first 0 := if_pos (Nat.lt_of_lt_of_le Nat.two_pos hn)
  rw [hzero]
  set s' := (s.setByte p (s.proc p).sync_byte).goto p (.first 0) with hs'
  have hself : (s'.proc p).announced = (s.proc p).entered := by
    rw [announced_of_ne_write (by simp [hs'])]
    simp [hs']
  have hother : ∀ i, i ≠ p → s'.proc i = s.proc i := fun i hi => goto_proc_of_ne _ _ hi
  have hentered : ∀ i, (s'.proc i).entered = (s.proc i).entered := fun i => by simp [hs']
  have hle : ∀ i, (s.proc i).announced ≤ (s'.proc i).announced := by
    intro i
    by_cases hip : i = p
    · subst hip
      rw [hself]
      exact announced_le _
    · rw [hother i hip]
  apply h.of_change hother hle
  · simpa [hs'] using h.sync_byte p hp
  · intro i hi
    by_cases hip : i = p
    · subst hip
      rw [hself, ← h.sync_byte i hi]
      simp [hs', setByte]
    · rw [hother i hip, ← h.sync_array i hi]
      simp [hs', setByte, hip]
  · intro _
    rw [hentered]
    exact h.entered p hp (by simp [hw])
  · intro _
    simpa [hs', passed] using Nat.zero_lt_of_lt hp
  · intro j hj
    simp [hs', passed] at hj
  · intro j hj
    rw [hentered]
    exact (h.near p hp j hj).trans (Nat.succ_le_succ (hle j))

lemma step_outside (hpc : (s.proc p).pc = .outside) : s.step n p = s.enter n p := by
  simp [step, hpc]

lemma step_write (hpc : (s.proc p).pc = .write) :
    s.step n p = (s.setByte p (s.proc p).sync_byte).goto p (loopAt n 0) := by
  simp [step, hpc]

lemma Inv.lt (h : Inv n s) (hp : p < n) (hpc : (s.proc p).pc = .first i ∨ (s.proc p).pc = .second i) :
    i < n := by
  rcases hpc with hpc | hpc
  · simpa [hpc, passed] using h.inside p hp (by simp [hpc])
  · simpa [hpc, passed] using h.inside p hp (by simp [hpc])

/-- The first read ends the wait for process `i` if it is in the same barrier. -/
lemma Inv.step_first (h : Inv n s) (hp : p < n) (hpc : (s.proc p).pc = .first i) :
    s.step n p = if (s.proc i).announced = (s.proc p).entered then s.goto p (loopAt n (i + 1))
      else s.goto p (.second i) := by
  have heq := h.first_eq hp (h.lt hp (.inl hpc)) (by simp [hpc])
  simp only [SmpState.step, hpc, ne_eq, ite_not, heq]

/-- The second read ends it if process `i` is in the next one. -/
lemma Inv.step_second (h : Inv n s) (hp : p < n) (hpc : (s.proc p).pc = .second i) :
    s.step n p = if (s.proc i).announced = (s.proc p).entered + 1 then s.goto p (loopAt n (i + 1))
      else s.goto p (.first i) := by
  have heq := h.second_eq hp (h.lt hp (.inr hpc)) (by simp [hpc])
  simp only [SmpState.step, hpc, ne_eq, ite_not, heq]

lemma Inv.step (hn : 2 ≤ n) (h : Inv n s) (hp : p < n) : Inv n (s.step n p) := by
  cases hpc : (s.proc p).pc with
  | outside =>
    rw [step_outside hpc]
    exact h.enter hn hp hpc
  | write =>
    rw [step_write hpc]
    exact h.write hn hp hpc
  | first i =>
    have hwaited : ∀ j < i, (s.proc p).entered ≤ (s.proc j).announced := by
      simpa [hpc, passed] using h.waited p hp
    rw [h.step_first hp hpc]
    split_ifs with heq
    · exact h.next hp (by simp [hpc]) (by simp [hpc]) (by simp [hpc, passed]) heq.ge
    · exact h.goto hp (by simp [hpc]) (by simp [hpc]) (by simp) (fun _ => h.lt hp (.inl hpc)) hwaited
  | second i =>
    have hwaited : ∀ j < i, (s.proc p).entered ≤ (s.proc j).announced := by
      simpa [hpc, passed] using h.waited p hp
    rw [h.step_second hp hpc]
    split_ifs with heq
    · apply h.next hp (by simp [hpc]) (by simp [hpc]) (by simp [hpc, passed])
      exact heq ▸ Nat.le_succ _
    · exact h.goto hp (by simp [hpc]) (by simp [hpc]) (by simp) (fun _ => h.lt hp (.inr hpc)) hwaited

/-- What a schedule does keeps the invariant. -/
lemma Inv.run (hn : 2 ≤ n) {schedule : List ℕ} (h : Inv n s) (hs : ∀ p ∈ schedule, p < n) :
    Inv n (s.run n schedule) := by
  induction schedule generalizing s with
  | nil => exact h
  | cons p ps ih =>
    rw [List.forall_mem_cons] at hs
    exact ih (h.step hn hs.1) hs.2

/-- A process that is outside has waited for all the others. -/
lemma Inv.returned_le_entered (h : Inv n s) (hi : i < n) (hj : j < n) :
    (s.proc i).returned ≤ (s.proc j).entered := by
  have hle := announced_le (s.proc j)
  by_cases hout : (s.proc i).pc = .outside
  · have hwaited := h.waited i hi j (by simpa [hout, passed] using hj)
    simpa [SmpProc.returned, hout] using hwaited.trans hle
  · have hnear := h.near i hi j hj
    simp only [SmpProc.returned, hout, if_false]
    omega

/-! ### Progress -/

lemma step_proc_of_ne (hj : j ≠ p) : (s.step n p).proc j = s.proc j := by
  unfold step
  split
  · simp [SmpState.enter, hj]
  · exact goto_proc_of_ne _ _ hj
  all_goals
    split_ifs
    · exact goto_proc_of_ne _ _ hj
    · exact goto_proc_of_ne _ _ hj

/-- A process inside goes on in the barrier it is in. -/
lemma Inv.step_entered (h : Inv n s) (hp : p < n) (hin : (s.proc p).pc ≠ .outside) :
    ((s.step n p).proc p).entered = (s.proc p).entered := by
  cases hpc : (s.proc p).pc with
  | outside => exact absurd hpc hin
  | write => simp [step_write hpc]
  | first i =>
    rw [h.step_first hp hpc]
    split_ifs <;> simp
  | second i =>
    rw [h.step_second hp hpc]
    split_ifs <;> simp

/-- The steps a process has still to take in the barrier, once everybody has announced it. -/
def togo (n : ℕ) (s : SmpState) (p : ℕ) : ℕ :=
  match (s.proc p).pc with
  | .outside => 0
  | .write => 3 * n
  | .first i => 3 * (n - i) - 1
  | .second i =>
    if (s.proc i).announced = (s.proc p).entered + 1 then 3 * (n - i) - 2 else 3 * (n - i)

lemma togo_loopAt (hi : i < n) (hpc : (s.proc p).pc = loopAt n (i + 1)) :
    togo n s p < 3 * (n - i) - 2 := by
  by_cases hlt : i + 1 < n
  · simp only [togo, hpc, loopAt, if_pos hlt]
    omega
  · simp only [togo, hpc, loopAt, if_neg hlt]
    omega

/-- Each step of a process brings it nearer to the end, if the others have announced the barrier. -/
lemma Inv.togo_self (hn : 2 ≤ n) (h : Inv n s) (hp : p < n) (hin : (s.proc p).pc ≠ .outside)
    (hall : ∀ i < n, i ≠ p → (s.proc p).entered ≤ (s.proc i).announced) :
    togo n (s.step n p) p < togo n s p := by
  have hannounced : ∀ i < n, (s.proc p).pc ≠ .write →
      (s.proc p).entered ≤ (s.proc i).announced := by
    intro i hi hwrite
    by_cases hip : i = p
    · subst hip
      rw [announced_of_ne_write hwrite]
    · exact hall i hi hip
  cases hpc : (s.proc p).pc with
  | outside => exact absurd hpc hin
  | write =>
    have hzero : loopAt n 0 = .first 0 := if_pos (Nat.lt_of_lt_of_le Nat.two_pos hn)
    have hbefore : togo n s p = 3 * n := by simp [togo, hpc]
    rw [hbefore, step_write hpc, hzero]
    simp only [togo, goto_pc]
    omega
  | first i =>
    have hi := h.lt hp (.inl hpc)
    have hbefore : togo n s p = 3 * (n - i) - 1 := by simp [togo, hpc]
    have hle := hannounced i hi (by simp [hpc])
    rw [hbefore, h.step_first hp hpc]
    split_ifs with heq
    · have hafter := togo_loopAt hi (goto_pc s p (loopAt n (i + 1)))
      omega
    · -- it is in the next barrier, and will be seen there
      have hwindow := (h.window hp hi (by simp [hpc])).2
      have hnext : (s.proc i).announced = (s.proc p).entered + 1 := by omega
      have hkeep : ((s.goto p (.second i)).proc i).announced = (s.proc i).announced :=
        goto_announced (by simp [hpc]) (by simp) i
      have hsecond : togo n (s.goto p (.second i)) p = 3 * (n - i) - 2 := by
        simp [togo, hkeep, hnext]
      omega
  | second i =>
    have hi := h.lt hp (.inr hpc)
    rw [h.step_second hp hpc]
    split_ifs with heq
    · have hbefore : togo n s p = 3 * (n - i) - 2 := by simp [togo, hpc, heq]
      rw [hbefore]
      exact togo_loopAt hi (goto_pc s p (loopAt n (i + 1)))
    · have hbefore : togo n s p = 3 * (n - i) := by simp [togo, hpc, heq]
      rw [hbefore]
      simp only [togo, goto_pc]
      omega

/-- What was announced stays announced. -/
lemma Inv.announced_mono (hn : 2 ≤ n) (h : Inv n s) (hp : p < n) (i : ℕ) :
    (s.proc i).announced ≤ ((s.step n p).proc i).announced := by
  by_cases hip : i = p
  · subst hip
    by_cases hout : (s.proc i).pc = .outside
    · have hlarge : ¬ n < 2 := Nat.not_lt.mpr hn
      simp [step_outside hout, SmpState.enter, SmpProc.announced, hout, hlarge]
    · by_cases hwrite : ((s.step n i).proc i).pc = .write
      · cases hpc : (s.proc i).pc with
        | outside => exact absurd hpc hout
        | write => simp [step_write hpc, loopAt_ne_write] at hwrite
        | first j =>
          rw [h.step_first hp hpc] at hwrite
          split_ifs at hwrite <;> simp [loopAt_ne_write] at hwrite
        | second j =>
          rw [h.step_second hp hpc] at hwrite
          split_ifs at hwrite <;> simp [loopAt_ne_write] at hwrite
      · rw [announced_of_ne_write hwrite, h.step_entered hp hout]
        exact announced_le _
  · rw [step_proc_of_ne hip]

/-- The steps of the others do not take a process back. -/
lemma Inv.togo_other (hn : 2 ≤ n) (h : Inv n s) (hp : p < n) (hj : j < n) (hne : p ≠ j) :
    togo n (s.step n j) p ≤ togo n s p := by
  have hproc : (s.step n j).proc p = s.proc p := step_proc_of_ne hne
  cases hpc : (s.proc p).pc with
  | outside => simp [togo, hproc, hpc]
  | write => simp [togo, hproc, hpc]
  | first i => simp [togo, hproc, hpc]
  | second i =>
    have hmono := h.announced_mono hn hj i
    have hinv := h.step hn hj
    have hi := h.lt hp (.inr hpc)
    have hwindow := (hinv.window hp hi (by simp [hproc, hpc])).2
    rw [hproc] at hwindow
    simp only [togo, hproc, hpc]
    split_ifs with hafter hbefore hbefore
    · exact le_rfl
    · exact Nat.sub_le _ _
    · exact absurd (by omega) hafter
    · exact le_rfl

lemma Inv.returned_mono (hn : 2 ≤ n) (h : Inv n s) (hj : j < n) (p : ℕ) :
    (s.proc p).returned ≤ ((s.step n j).proc p).returned := by
  by_cases hpj : p = j
  · subst hpj
    by_cases hout : (s.proc p).pc = .outside
    · have hlarge : ¬ n < 2 := Nat.not_lt.mpr hn
      simp [step_outside hout, SmpState.enter, SmpProc.returned, hout, hlarge]
    · have hentered := h.step_entered hj hout
      simp only [SmpProc.returned, hout, if_false, hentered]
      split_ifs
      · exact Nat.sub_le _ _
      · exact le_rfl
  · rw [step_proc_of_ne hpj]

lemma Inv.run_returned_mono (hn : 2 ≤ n) {schedule : List ℕ} (h : Inv n s)
    (hs : ∀ q ∈ schedule, q < n) (p : ℕ) :
    (s.proc p).returned ≤ ((s.run n schedule).proc p).returned := by
  induction schedule generalizing s with
  | nil => exact le_rfl
  | cons q qs ih =>
    rw [List.forall_mem_cons] at hs
    exact (h.returned_mono hn hs.1 p).trans (ih (h.step hn hs.1) hs.2)

lemma Inv.togo_pos (h : Inv n s) (hp : p < n) (hin : (s.proc p).pc ≠ .outside) :
    0 < togo n s p := by
  cases hpc : (s.proc p).pc with
  | outside => exact absurd hpc hin
  | write =>
    simp only [togo, hpc]
    omega
  | first i =>
    have hi := h.lt hp (.inl hpc)
    simp only [togo, hpc]
    omega
  | second i =>
    have hi := h.lt hp (.inr hpc)
    simp only [togo, hpc]
    split_ifs
    · omega
    · omega

/-- A process returns once it has had the steps it has still to take. -/
lemma Inv.returns (hn : 2 ≤ n) {schedule : List ℕ} (h : Inv n s) (hs : ∀ q ∈ schedule, q < n)
    (hp : p < n) (hall : ∀ i < n, i ≠ p → (s.proc p).entered ≤ (s.proc i).announced)
    (hsteps : togo n s p ≤ schedule.count p) :
    (s.proc p).entered ≤ ((s.run n schedule).proc p).returned := by
  induction schedule generalizing s with
  | nil =>
    have hout : (s.proc p).pc = .outside := by
      by_contra hin
      exact absurd hsteps (Nat.not_le.mpr (h.togo_pos hp hin))
    simp [SmpProc.returned, hout]
  | cons q qs ih =>
    rw [List.forall_mem_cons] at hs
    by_cases hout : (s.proc p).pc = .outside
    · have hreturned : (s.proc p).entered = (s.proc p).returned := by simp [SmpProc.returned, hout]
      rw [hreturned]
      exact h.run_returned_mono hn (List.forall_mem_cons.mpr hs) p
    · have hmono := h.announced_mono hn hs.1
      have hentered : ((s.step n q).proc p).entered = (s.proc p).entered := by
        by_cases hpq : p = q
        · subst hpq
          exact h.step_entered hp hout
        · rw [step_proc_of_ne hpq]
      rw [run_cons, ← hentered]
      apply ih (h.step hn hs.1) hs.2
      · intro i hi hip
        rw [hentered]
        exact (hall i hi hip).trans (hmono i)
      · by_cases hpq : p = q
        · subst hpq
          rw [List.count_cons_self] at hsteps
          exact Nat.le_of_lt_succ ((h.togo_self hn hp hout hall).trans_le hsteps)
        · rw [List.count_cons_of_ne (Ne.symm hpq)] at hsteps
          exact (h.togo_other hn hp hs.1 hpq).trans hsteps

lemma togo_le (n : ℕ) (s : SmpState) (p : ℕ) : togo n s p ≤ 3 * n := by
  cases hpc : (s.proc p).pc with
  | outside => simp [togo, hpc]
  | write => simp [togo, hpc]
  | first i =>
    simp only [togo, hpc]
    omega
  | second i =>
    simp only [togo, hpc]
    split_ifs
    · omega
    · omega

/-- No process returns from a barrier before all have entered it, and a process that is in a
barrier which all the others have announced, be they in it still or already in the next one, returns
after at most `3 * n` steps of its own. -/
theorem smp_sync_barrier (hn : 2 ≤ n) {schedule : List ℕ} (hs : ∀ p ∈ schedule, p < n) :
    (∀ i < n, ∀ j < n, ((init.run n schedule).proc i).returned ≤
      ((init.run n schedule).proc j).entered) ∧
    ∀ p < n, (∀ i < n, i ≠ p → ((init.run n schedule).proc p).entered ≤
        ((init.run n schedule).proc i).announced) →
      ∀ later : List ℕ, (∀ q ∈ later, q < n) → 3 * n ≤ later.count p →
        ((init.run n schedule).proc p).entered ≤
          (((init.run n schedule).run n later).proc p).returned := by
  have hinv : Inv n (init.run n schedule) := inv_init.run hn hs
  refine ⟨fun i hi j hj => hinv.returned_le_entered hi hj, ?_⟩
  intro p hp hall later hlater hcount
  exact hinv.returns hn hlater hp hall ((togo_le n _ p).trans hcount)

/-- Process 1 has returned and entered the next barrier, and process 0 still returns. -/
theorem smp_sync_barrier_two :
    1 ≤ (((init.run 2 [0, 0, 0, 1, 1, 1, 1, 1]).run 2 [1, 0, 0, 0, 0, 0, 0]).proc 0).returned := by
  have hs : ∀ p ∈ [0, 0, 0, 1, 1, 1, 1, 1], p < 2 := by decide
  exact (smp_sync_barrier le_rfl hs).2 0 (by decide) (by decide) [1, 0, 0, 0, 0, 0, 0] (by decide)
    (by decide)

end SmpState

end NetPipe.MpLite
