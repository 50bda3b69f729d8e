import NetPipe.Library.RingCounts

/-!
# The barrier on the ring of adapters

`MP_Sync` of `ib.c`. A token goes round the ring twice. Sends and receives of a process have one
completion queue, and a process that waits takes the next completion from it, whatever it is of: the
token of the next round, or of the next barrier, may be taken for the completion of a send.
-/

namespace NetPipe.Vapi

/-- `VAPI_post_rr`, `VAPI_post_sr`, and the loop over `VAPI_poll_cq`. -/
inductive SyncOp where
  | postRr
  | postSr
  | pollCq
deriving DecidableEq

/-- The calls in `MP_Sync`, in program order -/
def mpSync (myproc : ℕ) : List SyncOp :=
  List.replicate 2 .postRr ++ (List.replicate 2
    (if myproc = 0 then [.postSr, .pollCq, .pollCq] else [.pollCq, .postSr, .pollCq])).flatten

/-- What a completion is of. -/
inductive SyncWc where
  | send
  | recv
deriving DecidableEq

/-- A process: how often it has called `MP_Sync`, what is left of the last call, its posted receives,
the sends that the adapter has not carried out, those that it has and the completion of which is
still to come, and the completion queue. `sent` and `got` are histories: the sends that have been
posted and the tokens that have arrived. -/
structure SyncProc where
  entered : ℕ
  todo : List SyncOp
  rr : ℕ
  sr : ℕ
  acks : ℕ
  syncCq : List SyncWc
  sent : ℕ
  got : ℕ

namespace SyncProc

/-- A call of `MP_Sync` by process `i` -/
def enter (i : ℕ) (p : SyncProc) : SyncProc := { p with entered := p.entered + 1, todo := mpSync i }

/-- The next call in `MP_Sync` -/
def op (p : SyncProc) : SyncProc :=
  match p.todo with
  | [] => p
  | .postRr :: ops => { p with todo := ops, rr := p.rr + 1 }
  | .postSr :: ops => { p with todo := ops, sr := p.sr + 1, sent := p.sent + 1 }
  | .pollCq :: ops => { p with todo := ops, syncCq := p.syncCq.tail }

/-- The adapter has sent a token. -/
def carry (p : SyncProc) : SyncProc := { p with sr := p.sr - 1, acks := p.acks + 1 }

/-- A token arrives; `none` if no receive has been posted. -/
def arrive (p : SyncProc) : Option SyncProc :=
  if p.rr = 0 then none
  else some { p with rr := p.rr - 1, syncCq := p.syncCq ++ [.recv], got := p.got + 1 }

/-- The completion of a send -/
def complete (p : SyncProc) : SyncProc :=
  { p with acks := p.acks - 1, syncCq := p.syncCq ++ [.send] }

/-- The calls of `MP_Sync` that have returned. -/
def returned (p : SyncProc) : ℕ := if p.todo = [] then p.entered else p.entered - 1

end SyncProc

/-- The processes -/
abbrev SyncRing := ℕ → SyncProc

namespace SyncRing

/-- What can happen next: a process calls `MP_Sync` or makes the next call in it, a token goes to the
next process, a send completes. -/
inductive Event where
  | enter (i : ℕ)
  | op (i : ℕ)
  | deliver (i : ℕ)
  | complete (i : ℕ)

/-- When it can happen. A process that polls waits for a completion. -/
def Enabled (n : ℕ) (s : SyncRing) : Event → Prop
  | .enter i => i < n ∧ (s i).todo = []
  | .op i => i < n ∧ (s i).todo ≠ [] ∧ ((s i).todo.head? = some .pollCq → (s i).syncCq ≠ [])
  | .deliver i => i < n ∧ 0 < (s i).sr
  | .complete i => i < n ∧ 0 < (s i).acks

instance (n : ℕ) (s : SyncRing) : (e : Event) → Decidable (s.Enabled n e)
  | .enter i => inferInstanceAs (Decidable (i < n ∧ (s i).todo = []))
  | .op i => inferInstanceAs (Decidable (i < n ∧ (s i).todo ≠ [] ∧
      ((s i).todo.head? = some .pollCq → (s i).syncCq ≠ [])))
  | .deliver i => inferInstanceAs (Decidable (i < n ∧ 0 < (s i).sr))
  | .complete i => inferInstanceAs (Decidable (i < n ∧ 0 < (s i).acks))

/-- What it does; `none` if the adapter reports an error, and `MP_Sync` quits. -/
def step (n : ℕ) (s : SyncRing) : Event → Option SyncRing
  | .enter i => some (Function.update s i ((s i).enter i))
  | .op i => some (Function.update s i (s i).op)
  | .deliver i =>
    let s : SyncRing := Function.update s i (s i).carry
    (s ((i + 1) % n)).arrive.map (Function.update s ((i + 1) % n))
  | .complete i => some (Function.update s i (s i).complete)

/-- The state after `ib_init`, which posts one receive. -/
def init : SyncRing := fun _ => ⟨0, [], 1, 0, 0, [], 0, 0⟩

/-- What `n` processes can reach. -/
inductive Reachable (n : ℕ) : SyncRing → Prop where
  | init : Reachable n init
  | step {s s' e} : Reachable n s → s.Enabled n e → s.step n e = some s' → Reachable n s'

end SyncRing

variable {n i j : ℕ} {p : SyncProc} {s s' : SyncRing} {ops : List SyncOp}

/-! ### One process -/

lemma SyncProc.got_op : p.op.got = p.got := by
  unfold SyncProc.op
  split <;> rfl

/-- A send that is posted waits for the adapter. -/
lemma SyncProc.sr_op : p.op.sr + p.sent = p.op.sent + p.sr := by
  unfold SyncProc.op
  split
  · exact Nat.add_comm _ _
  · exact Nat.add_comm _ _
  · dsimp only
    omega
  · exact Nat.add_comm _ _

/-- What is left of `MP_Sync` on process 0 -/
lemma todo_zero : ops <:+ mpSync 0 ↔
    ops = [.postRr, .postRr, .postSr, .pollCq, .pollCq, .postSr, .pollCq, .pollCq] ∨
    ops = [.postRr, .postSr, .pollCq, .pollCq, .postSr, .pollCq, .pollCq] ∨
    ops = [.postSr, .pollCq, .pollCq, .postSr, .pollCq, .pollCq] ∨
    ops = [.pollCq, .pollCq, .postSr, .pollCq, .pollCq] ∨
    ops = [.pollCq, .postSr, .pollCq, .pollCq] ∨ ops = [.postSr, .pollCq, .pollCq] ∨
    ops = [.pollCq, .pollCq] ∨ ops = [.pollCq] ∨ ops = [] := by
  simp [mpSync, List.suffix_cons_iff]

/-- What is left of `MP_Sync` on another process -/
lemma todo_pos (hi : 0 < i) : ops <:+ mpSync i ↔
    ops = [.postRr, .postRr, .pollCq, .postSr, .pollCq, .pollCq, .postSr, .pollCq] ∨
    ops = [.postRr, .pollCq, .postSr, .pollCq, .pollCq, .postSr, .pollCq] ∨
    ops = [.pollCq, .postSr, .pollCq, .pollCq, .postSr, .pollCq] ∨
    ops = [.postSr, .pollCq, .pollCq, .postSr, .pollCq] ∨
    ops = [.pollCq, .pollCq, .postSr, .pollCq] ∨ ops = [.pollCq, .postSr, .pollCq] ∨
    ops = [.postSr, .pollCq] ∨ ops = [.pollCq] ∨ ops = [] := by
  simp [mpSync, List.suffix_cons_iff, hi.ne']

/-- The counts of a process: there are two sends and four polls in a barrier, and receives are posted
for one token more than the barrier needs. -/
structure SyncProc.Inv (i : ℕ) (p : SyncProc) : Prop where
  todo : p.todo <:+ mpSync i
  entered : p.todo ≠ [] → 0 < p.entered
  sent : p.sent + p.todo.count .postSr = 2 * p.entered
  rr : p.rr + p.got + p.todo.count .postRr = 2 * p.entered + 1
  cq : p.syncCq.length + p.sr + p.acks + 4 * p.entered =
    p.got + p.sent + p.todo.count .pollCq
  ahead : p.sent ≤ p.got + if i = 0 then 1 else 0

namespace SyncProc.Inv

lemma init : SyncProc.Inv i ⟨0, [], 1, 0, 0, [], 0, 0⟩ where
  todo := List.nil_suffix
  entered h := absurd rfl h
  sent := rfl
  rr := rfl
  cq := rfl
  ahead := Nat.zero_le _

lemma count_mpSync (op : SyncOp) : (mpSync i).count op = if op = .pollCq then 4 else 2 := by
  by_cases hi : i = 0 <;> cases op <;> simp [mpSync, hi]

lemma enter (h : p.Inv i) (hout : p.todo = []) : (p.enter i).Inv i where
  todo := List.suffix_rfl
  entered _ := Nat.succ_pos _
  sent := by
    have := h.sent
    simp [hout, count_mpSync, SyncProc.enter] at this ⊢
    omega
  rr := by
    have := h.rr
    simp [hout, count_mpSync, SyncProc.enter] at this ⊢
    omega
  cq := by
    have := h.cq
    simp [hout, count_mpSync, SyncProc.enter] at this ⊢
    omega
  ahead := h.ahead

/-- A send is posted when it is its turn: as many tokens have arrived as the polls that have ended
leave over for them. -/
lemma postSr (h : p.Inv i) (htodo : p.todo = .postSr :: ops) :
    p.sent + 1 ≤ p.got + if i = 0 then 1 else 0 := by
  have hsent := h.sent
  have hcq := h.cq
  have hsuffix := h.todo
  rw [htodo] at hsuffix hsent hcq
  rcases Nat.eq_zero_or_pos i with rfl | hi
  · rw [todo_zero] at hsuffix
    rcases hsuffix with h | h | h | h | h | h | h | h | h <;> cases h <;>
      simp at hsent hcq ⊢ <;> omega
  · rw [todo_pos hi] at hsuffix
    rcases hsuffix with h | h | h | h | h | h | h | h | h <;> cases h <;>
      simp [hi.ne'] at hsent hcq ⊢ <;> omega

lemma op (h : p.Inv i) (htodo : p.todo ≠ [])
    (hpoll : p.todo.head? = some .pollCq → p.syncCq ≠ []) : p.op.Inv i := by
  have hpos := h.entered htodo
  have hsent := h.sent
  have hrr := h.rr
  have hcq := h.cq
  cases hops : p.todo with
  | nil => exact absurd hops htodo
  | cons o ops =>
    have hsuffix : ops <:+ mpSync i := (List.suffix_cons o ops).trans (hops ▸ h.todo)
    rw [hops] at hsent hrr hcq
    cases o with
    | postRr =>
      rw [SyncProc.op, hops]
      simp at hsent hrr hcq
      exact ⟨hsuffix, fun _ => hpos, hsent, by dsimp only; omega, hcq, h.ahead⟩
    | postSr =>
      have hahead := h.postSr hops
      rw [SyncProc.op, hops]
      simp at hsent hrr hcq
      exact ⟨hsuffix, fun _ => hpos, by dsimp only; omega, hrr, by dsimp only; omega, hahead⟩
    | pollCq =>
      have hne := List.length_pos_of_ne_nil (hpoll (by rw [hops]; rfl))
      rw [SyncProc.op, hops]
      simp at hsent hrr hcq
      refine ⟨hsuffix, fun _ => hpos, hsent, hrr, ?_, h.ahead⟩
      rw [List.length_tail]
      dsimp only
      omega

lemma carry (h : p.Inv i) (hsr : 0 < p.sr) : p.carry.Inv i := by
  have hcq := h.cq
  refine ⟨h.todo, h.entered, h.sent, h.rr, ?_, h.ahead⟩
  simp only [SyncProc.carry]
  omega

lemma complete (h : p.Inv i) (hacks : 0 < p.acks) : p.complete.Inv i := by
  have hcq := h.cq
  refine ⟨h.todo, h.entered, h.sent, h.rr, ?_, h.ahead⟩
  simp only [SyncProc.complete, List.length_append, List.length_singleton]
  omega

lemma arrive (h : p.Inv i) (hrr : 0 < p.rr) : ∃ p', p.arrive = some p' ∧ p'.Inv i ∧
    p'.entered = p.entered ∧ p'.todo = p.todo ∧ p'.sr = p.sr ∧ p'.sent = p.sent ∧
    p'.got = p.got + 1 := by
  have hrr' := h.rr
  have hcq := h.cq
  refine ⟨_, if_neg hrr.ne', ⟨h.todo, h.entered, h.sent, by dsimp only; omega, ?_,
    h.ahead.trans (by simp)⟩, rfl, rfl, rfl, rfl, rfl⟩
  simp only [List.length_append, List.length_singleton]
  omega

/-- Both receives are posted before the first send. -/
lemma count_postRr_le (h : p.Inv i) : p.todo.count .postRr ≤ p.todo.count .postSr := by
  have hsuffix := h.todo
  rcases Nat.eq_zero_or_pos i with rfl | hi
  · rw [todo_zero] at hsuffix
    rcases hsuffix with h | h | h | h | h | h | h | h | h <;> rw [h] <;> decide
  · rw [todo_pos hi] at hsuffix
    rcases hsuffix with h | h | h | h | h | h | h | h | h <;> rw [h] <;> decide

/-- Two tokens have arrived for each barrier that a process has left. -/
lemma returned_le (h : p.Inv i) : 2 * p.returned ≤ p.got := by
  have hsent := h.sent
  have hcq := h.cq
  have hahead := h.ahead
  have hsuffix := h.todo
  rw [SyncProc.returned]
  rcases Nat.eq_zero_or_pos i with rfl | hi
  · rw [todo_zero] at hsuffix
    rcases hsuffix with h | h | h | h | h | h | h | h | h <;> rw [h] at hsent hcq ⊢ <;>
      simp at hsent hcq hahead ⊢ <;> omega
  · rw [todo_pos hi] at hsuffix
    rcases hsuffix with h | h | h | h | h | h | h | h | h <;> rw [h] at hsent hcq ⊢ <;>
      simp [hi.ne'] at hsent hcq hahead ⊢ <;> omega

/-- The completion queue -/
lemma length_le (h : p.Inv i) (hgot : p.got ≤ p.sent + if i = 0 then 0 else 1) :
    p.syncCq.length ≤ 2 := by
  have hsent := h.sent
  have hcq := h.cq
  have hsuffix := h.todo
  rcases Nat.eq_zero_or_pos i with rfl | hi
  · rw [todo_zero] at hsuffix
    rcases hsuffix with h | h | h | h | h | h | h | h | h <;> rw [h] at hsent hcq <;>
      simp at hsent hcq hgot <;> omega
  · rw [todo_pos hi] at hsuffix
    rcases hsuffix with h | h | h | h | h | h | h | h | h <;> rw [h] at hsent hcq <;>
      simp [hi.ne'] at hsent hcq hgot <;> omega

/-- A process other than 0 that waits in vain has sent on what it has got. -/
lemma waits_pos (h : p.Inv i) (hi : 0 < i) (hpoll : p.todo.head? = some .pollCq)
    (hempty : p.syncCq = []) (hsr : p.sr = 0) (hacks : p.acks = 0) :
    p.got = p.sent ∧ p.sent < 2 * p.entered := by
  have hsent := h.sent
  have hcq := h.cq
  have hahead := h.ahead
  have hsuffix := h.todo
  rw [todo_pos hi] at hsuffix
  rcases hsuffix with h | h | h | h | h | h | h | h | h <;> rw [h] at hsent hcq hpoll <;>
    simp [hi.ne', hempty, hsr, hacks] at hsent hcq hahead hpoll <;> omega

/-- Process 0 has sent one token more. -/
lemma waits_zero (h : p.Inv 0) (hpoll : p.todo.head? = some .pollCq)
    (hempty : p.syncCq = []) (hsr : p.sr = 0) (hacks : p.acks = 0) :
    p.got < p.sent ∧ p.sent ≤ 2 * p.entered := by
  have hsent := h.sent
  have hcq := h.cq
  have hahead := h.ahead
  have hsuffix := h.todo
  rw [todo_zero] at hsuffix
  rcases hsuffix with h | h | h | h | h | h | h | h | h <;> rw [h] at hsent hcq hpoll <;>
    simp [hempty, hsr, hacks] at hsent hcq hahead hpoll <;> omega

end SyncProc.Inv

/-! ### The ring -/

namespace SyncRing

/-- Every process counts right, and between two processes there are the sends that the adapter has not
carried out. -/
structure Inv (n : ℕ) (s : SyncRing) : Prop where
  proc : ∀ i < n, (s i).Inv i
  link : ∀ i < n, (s ((i + 1) % n)).got + (s i).sr = (s i).sent

namespace Inv

lemma counts (h : Inv n s) (hn : 0 < n) : RingCounts n (fun i => (s i).sent) fun i => (s i).got where
  first := (h.proc 0 hn).ahead
  later i hi hin := by simpa [hi.ne'] using (h.proc i hin).ahead
  link i hi := (Nat.le_add_right _ _).trans (h.link i hi).le

/-- A step of one process that sends as much as it posts -/
lemma update (h : Inv n s) (hp : i < n → p.Inv i) (hgot : p.got = (s i).got)
    (hsr : p.sr + (s i).sent = p.sent + (s i).sr) : Inv n (Function.update s i p) where
  proc k hk := by
    by_cases hki : k = i
    · subst hki
      rw [Function.update_self]
      exact hp hk
    · rw [Function.update_of_ne hki]
      exact h.proc k hk
  link k hk := by
    have hlink := h.link k hk
    have hgot' : (Function.update s i p ((k + 1) % n)).got = (s ((k + 1) % n)).got := by
      by_cases hki : (k + 1) % n = i
      · rw [hki, Function.update_self, hgot]
      · rw [Function.update_of_ne hki]
    rw [hgot']
    by_cases hki : k = i
    · subst hki
      rw [Function.update_self]
      omega
    · rwa [Function.update_of_ne hki]

lemma op (h : Inv n s) (hi : i < n) (htodo : (s i).todo ≠ [])
    (hpoll : (s i).todo.head? = some .pollCq → (s i).syncCq ≠ []) :
    Inv n (Function.update s i (s i).op) := by
  exact h.update (fun _ => (h.proc i hi).op htodo hpoll) SyncProc.got_op SyncProc.sr_op

/-- A receive has been posted for the token that is under way. -/
lemma rr_pos (h : Inv n s) (hi : i < n) (hsr : 0 < (s i).sr) : 0 < (s ((i + 1) % n)).rr := by
  have hn := Nat.zero_lt_of_lt hi
  have hj := Nat.mod_lt (i + 1) hn
  have hproc := h.proc _ hj
  have hlink := h.link i hi
  have hle := (h.counts hn).sent_le_succ hi hj
  have hcount := hproc.count_postRr_le
  have hsent := hproc.sent
  have hrr := hproc.rr
  omega

lemma deliver (h : Inv n s) (hi : i < n) (hsr : 0 < (s i).sr) :
    ∃ s', s.step n (.deliver i) = some s' ∧ Inv n s' := by
  have hj : (i + 1) % n < n := Nat.mod_lt _ (Nat.zero_lt_of_lt hi)
  have hrr := h.rr_pos hi hsr
  generalize hs₁ : (Function.update s i (s i).carry : SyncRing) = s₁
  have hself : s₁ i = (s i).carry := by rw [← hs₁, Function.update_self]
  have hother : ∀ k, k ≠ i → s₁ k = s k := fun k hk => by rw [← hs₁, Function.update_of_ne hk]
  have hproc : ∀ k < n, (s₁ k).Inv k ∧ (s₁ k).rr = (s k).rr ∧ (s₁ k).got = (s k).got ∧
      (s₁ k).sent = (s k).sent := fun k hk => by
    by_cases hki : k = i
    · subst hki
      rw [hself]
      exact ⟨(h.proc k hk).carry hsr, rfl, rfl, rfl⟩
    · rw [hother k hki]
      exact ⟨h.proc k hk, rfl, rfl, rfl⟩
  obtain ⟨hinv, hrr₁, -⟩ := hproc _ hj
  obtain ⟨p', harrive, hp', -, -, hsr', hsent', hgot'⟩ := hinv.arrive (hrr₁ ▸ hrr)
  refine ⟨Function.update s₁ ((i + 1) % n) p', by simp only [step, hs₁, harrive, Option.map_some],
    fun k hk => ?_, fun k hk => ?_⟩
  · by_cases hkj : k = (i + 1) % n
    · subst hkj
      rwa [Function.update_self]
    · rw [Function.update_of_ne hkj]
      exact (hproc k hk).1
  · have hlink := h.link k hk
    have hmid : (Function.update s₁ ((i + 1) % n) p' k).sr = (s₁ k).sr ∧
        (Function.update s₁ ((i + 1) % n) p' k).sent = (s k).sent := by
      by_cases hkj : k = (i + 1) % n
      · rw [hkj, Function.update_self, hsr', hsent']
        exact ⟨rfl, (hproc _ hj).2.2.2⟩
      · rw [Function.update_of_ne hkj]
        exact ⟨rfl, (hproc k hk).2.2.2⟩
    rw [hmid.1, hmid.2]
    by_cases hki : k = i
    · subst hki
      rw [Function.update_self, hgot', (hproc _ hj).2.2.1, hself]
      simp only [SyncProc.carry]
      omega
    · have hne : (k + 1) % n ≠ (i + 1) % n := fun heq => hki (succ_mod_inj hk hi heq)
      rw [Function.update_of_ne hne, hother k hki,
        (hproc _ (Nat.mod_lt _ (Nat.zero_lt_of_lt hk))).2.2.1, hlink]

lemma step (h : Inv n s) {e : Event} (hen : s.Enabled n e) :
    ∃ s', s.step n e = some s' ∧ Inv n s' := by
  cases e with
  | enter i =>
    obtain ⟨hi, htodo⟩ := hen
    exact ⟨_, rfl, h.update (fun _ => (h.proc i hi).enter htodo) rfl (Nat.add_comm _ _)⟩
  | op i =>
    obtain ⟨hi, htodo, hpoll⟩ := hen
    exact ⟨_, rfl, h.op hi htodo hpoll⟩
  | deliver i => exact h.deliver hen.1 hen.2
  | complete i =>
    obtain ⟨hi, hacks⟩ := hen
    exact ⟨_, rfl, h.update (fun _ => (h.proc i hi).complete hacks) rfl (Nat.add_comm _ _)⟩

lemma returned_le (h : Inv n s) (hi : i < n) (hj : j < n) : (s i).returned ≤ (s j).entered := by
  have hgot := (h.proc i hi).returned_le
  have hsent := (h.proc j hj).sent
  have hle := (h.counts (Nat.zero_lt_of_lt hi)).got_le_succ hi hj
  omega

lemma length_le (h : Inv n s) (hi : i < n) : (s i).syncCq.length ≤ 2 := by
  have hcounts := h.counts (Nat.zero_lt_of_lt hi)
  refine (h.proc i hi).length_le ?_
  split
  · rename_i hzero
    subst hzero
    exact hcounts.got_zero_le hi
  · exact hcounts.got_le_succ hi hi

end Inv

lemma inv_init : Inv n init where
  proc _ _ := .init
  link _ _ := rfl

lemma Reachable.inv (h : Reachable n s) : Inv n s := by
  induction h with
  | init => exact inv_init
  | step _ hen hs ih =>
    obtain ⟨t, ht, hi⟩ := ih.step hen
    rw [hs, Option.some.injEq] at ht
    exact ht ▸ hi

/-- Runs a list of events, as far as they can happen. -/
def exec (n : ℕ) (s : SyncRing) : List Event → Option SyncRing
  | [] => some s
  | e :: es => if s.Enabled n e then (s.step n e).bind fun s' => exec n s' es else none

lemma Reachable.exec {es : List Event} (h : Reachable n s) (he : s.exec n es = some s') :
    Reachable n s' := by
  induction es generalizing s with
  | nil =>
    cases he
    exact h
  | cons e es ih =>
    simp only [SyncRing.exec, Option.ite_none_right_eq_some, Option.bind_eq_some_iff] at he
    obtain ⟨hen, t, ht, he⟩ := he
    exact ih (h.step hen ht) he

/-- No process leaves a barrier before all have entered it, although a process may take a token for
the completion of a send; a receive is posted for every token; and no more than two completions are in
a queue. -/
theorem Reachable.barrier (h : Reachable n s) :
    (∀ i < n, ∀ j < n, (s i).returned ≤ (s j).entered) ∧
    (∀ e, s.Enabled n e → s.step n e ≠ none) ∧ ∀ i < n, (s i).syncCq.length ≤ 2 := by
  have hinv := h.inv
  refine ⟨fun i hi j hj => hinv.returned_le hi hj, fun e hen => ?_, fun i hi => hinv.length_le hi⟩
  obtain ⟨t, ht, -⟩ := hinv.step hen
  simp [ht]

lemma exists_exec (n : ℕ) (es : List Event) (P : SyncRing → Prop) [DecidablePred P]
    (h : (exec n init es).any (fun s => P s) = true) : ∃ s, exec n init es = some s ∧ P s := by
  cases hs : exec n init es with
  | none => simp [hs] at h
  | some s => exact ⟨s, rfl, by simpa [hs] using h⟩

/-- Process 0 sends its token, and process 1 has not called `MP_Sync`. -/
def sampleFirst : List Event := [.enter 0, .op 0, .op 0, .op 0, .deliver 0]

/-- A barrier of two processes. Both take a token for the completion of their first send. -/
def sampleBarrier : List Event :=
  sampleFirst ++ [.enter 1, .op 1, .op 1, .op 1, .op 1, .deliver 1, .op 0, .complete 0, .op 0, .op 0,
    .deliver 0, .op 1, .complete 1, .op 1, .op 1, .deliver 1, .complete 0, .op 0, .op 0, .complete 1,
    .op 1]

theorem barrier_sample : ∃ s, exec 2 init sampleBarrier = some s ∧ (s 0).returned = 1 ∧
    (s 0).returned ≤ (s 1).entered := by
  obtain ⟨s, hs, hreturned⟩ := exists_exec 2 sampleBarrier (fun s => (s 0).returned = 1) (by decide)
  exact ⟨s, hs, hreturned, (Reachable.init.exec hs).barrier.1 0 (by decide) 1 (by decide)⟩

/-! ### Progress -/

/-- Nothing can happen unless a process calls `MP_Sync`. -/
def Stuck (n : ℕ) (s : SyncRing) : Prop := ∀ e, s.Enabled n e → ∃ i, e = .enter i

lemma Stuck.waits (hs : s.Stuck n) (hi : i < n) :
    (s i).sr = 0 ∧ (s i).acks = 0 ∧
      ((s i).todo ≠ [] → (s i).todo.head? = some .pollCq ∧ (s i).syncCq = []) := by
  refine ⟨?_, ?_, fun htodo => ?_⟩
  · by_contra hsr
    obtain ⟨k, hk⟩ := hs (.deliver i) ⟨hi, Nat.pos_of_ne_zero hsr⟩
    cases hk
  · by_contra hacks
    obtain ⟨k, hk⟩ := hs (.complete i) ⟨hi, Nat.pos_of_ne_zero hacks⟩
    cases hk
  · by_contra hno
    obtain ⟨k, hk⟩ := hs (.op i) ⟨hi, htodo, fun hhead hempty => hno ⟨hhead, hempty⟩⟩
    cases hk

/-- The process that has kept a token is outside. -/
lemma Inv.outside (h : Inv n s) (hs : s.Stuck n) (hi : 0 < i) (hin : i < n)
    (hlt : (s i).sent < (s i).got) : (s i).todo = [] ∧ (s i).sent = 2 * (s i).entered := by
  obtain ⟨hsr, hacks, hwait⟩ := hs.waits hin
  have hproc := h.proc i hin
  have htodo : (s i).todo = [] := by
    by_contra htodo
    obtain ⟨hhead, hempty⟩ := hwait htodo
    exact hlt.ne' (hproc.waits_pos hi hhead hempty hsr hacks).1
  have hsent := hproc.sent
  rw [htodo] at hsent
  exact ⟨htodo, hsent⟩

lemma Inv.waits_for (h : Inv n s) (hs : s.Stuck n) (hi : i < n) (htodo : (s i).todo ≠ []) :
    ∃ j < n, (s j).todo = [] ∧ (s j).entered < (s i).entered := by
  have hn := Nat.zero_lt_of_lt hi
  have hcounts := h.counts hn
  obtain ⟨hsr, hacks, hwait⟩ := hs.waits hi
  obtain ⟨hhead, hempty⟩ := hwait htodo
  have hlink : ∀ k < n, (s ((k + 1) % n)).got = (s k).sent := fun k hk => by
    have := h.link k hk
    rwa [(hs.waits hk).1] at this
  by_cases hback : (s 0).got < (s 0).sent
  · obtain ⟨j, hj, hjn, hlt⟩ := hcounts.exists_lt hn hlink hback
    obtain ⟨hout, hsent⟩ := h.outside hs hj hjn hlt
    have hfirst := hcounts.first
    have hle := hcounts.got_le_sent_zero hjn
    refine ⟨j, hjn, hout, ?_⟩
    rcases Nat.eq_zero_or_pos i with rfl | hpos
    · have hwaits := (h.proc 0 hi).waits_zero hhead hempty hsr hacks
      omega
    · have hwaits := (h.proc i hi).waits_pos hpos hhead hempty hsr hacks
      have hround := hcounts.got_zero_le hi
      omega
  · have hpos : 0 < i := by
      rcases Nat.eq_zero_or_pos i with rfl | hpos
      · exact absurd ((h.proc 0 hi).waits_zero hhead hempty hsr hacks).1 hback
      · exact hpos
    have hwaits := (h.proc i hi).waits_pos hpos hhead hempty hsr hacks
    have heq := hcounts.sent_eq hi (not_lt.1 hback)
    obtain ⟨hsr₀, hacks₀, hwait₀⟩ := hs.waits hn
    have hout : (s 0).todo = [] := by
      by_contra hin
      obtain ⟨hhead₀, hempty₀⟩ := hwait₀ hin
      exact hback ((h.proc 0 hn).waits_zero hhead₀ hempty₀ hsr₀ hacks₀).1
    have hsent := (h.proc 0 hn).sent
    rw [hout, List.count_nil] at hsent
    refine ⟨0, hn, hout, ?_⟩
    omega

/-- What is still to happen to one process before it waits for others. -/
def todoOf (p : SyncProc) : ℕ :=
  3 * p.todo.count .postSr + p.todo.count .pollCq + p.todo.count .postRr + 2 * p.sr + p.acks

/-- What is still to happen before a process calls `MP_Sync` again. -/
def left (n : ℕ) (s : SyncRing) : ℕ := ∑ i ∈ Finset.range n, todoOf (s i)

lemma left_update (hi : i < n) (hp : todoOf p < todoOf (s i)) :
    left n (Function.update s i p) < left n s := by
  refine Finset.sum_lt_sum (fun k _ => ?_) ⟨i, Finset.mem_range.2 hi, by rwa [Function.update_self]⟩
  by_cases hki : k = i
  · subst hki
    rw [Function.update_self]
    exact hp.le
  · rw [Function.update_of_ne hki]

lemma todoOf_op (h : p.todo ≠ []) : todoOf p.op < todoOf p := by
  unfold SyncProc.op todoOf
  split
  · contradiction
  all_goals
    rename_i hops
    rw [hops]
    simp
    try omega

lemma left_deliver (hi : i < n) (hsr : 0 < (s i).sr) (hs : s.step n (.deliver i) = some s') :
    left n s' < left n s := by
  obtain ⟨p', hp', rfl⟩ := Option.map_eq_some_iff.1 hs
  have hcarry : left n (Function.update s i (s i).carry) < left n s := left_update hi (by
    simp only [todoOf, SyncProc.carry]
    omega)
  refine lt_of_le_of_lt (Finset.sum_le_sum fun k _ => ?_) hcarry
  by_cases hkj : k = (i + 1) % n
  · subst hkj
    rw [Function.update_self]
    simp only [SyncProc.arrive, Option.ite_none_left_eq_some, Option.some.injEq] at hp'
    rw [← hp'.2]
    exact le_rfl
  · rw [Function.update_of_ne hkj]

lemma left_step {e : Event} (hen : s.Enabled n e) (hs : s.step n e = some s')
    (he : ∀ i, e ≠ .enter i) : left n s' < left n s := by
  cases e with
  | enter i => exact absurd rfl (he i)
  | op i =>
    cases hs
    exact left_update hen.1 (todoOf_op hen.2.1)
  | deliver i => exact left_deliver hen.1 hen.2 hs
  | complete i =>
    cases hs
    refine left_update hen.1 ?_
    have := hen.2
    simp only [todoOf, SyncProc.complete]
    omega

lemma length_le_left {es : List Event} (hes : ∀ e ∈ es, ∀ i, e ≠ .enter i)
    (he : s.exec n es = some s') : es.length + left n s' ≤ left n s := by
  induction es generalizing s with
  | nil =>
    cases he
    simp
  | cons e es ih =>
    simp only [SyncRing.exec, Option.ite_none_right_eq_some, Option.bind_eq_some_iff] at he
    obtain ⟨hen, t, ht, he⟩ := he
    have hstep := left_step hen ht (hes e List.mem_cons_self)
    have hrest := ih (fun e he => hes e (List.mem_cons_of_mem _ he)) he
    rw [List.length_cons]
    omega

/-- Without a further call the ring comes to rest, and then a process that is still in a barrier waits
for one that has not called it. If all have called `MP_Sync` equally often, all have returned. -/
theorem Reachable.comes_to_rest {es : List Event} (h : Reachable n s)
    (hes : ∀ e ∈ es, ∀ i, e ≠ .enter i) (he : s.exec n es = some s') :
    es.length ≤ left n s ∧ (s'.Stuck n → ∀ i < n, (s' i).todo ≠ [] →
      ∃ j < n, (s' j).todo = [] ∧ (s' j).entered < (s' i).entered) :=
  ⟨(Nat.le_add_right _ _).trans (length_le_left hes he),
    fun hs _ hi htodo => (h.exec he).inv.waits_for hs hi htodo⟩

theorem comes_to_rest_sample : ∃ s s', exec 2 init sampleFirst = some s ∧
    s.exec 2 [.complete 0, .op 0] = some s' ∧ (s' 0).todo ≠ [] ∧
    ∃ j < 2, (s' j).todo = [] ∧ (s' j).entered < (s' 0).entered := by
  obtain ⟨s, hs, hrun⟩ := exists_exec 2 sampleFirst (fun s =>
    (s.exec 2 [.complete 0, .op 0]).any (fun s' => (s' 0).todo ≠ [] ∧ (s' 1).todo = [] ∧
      (s' 0).todo.head? = some .pollCq ∧ (s' 0).syncCq = [] ∧ (s' 0).sr = 0 ∧ (s' 0).acks = 0 ∧
      (s' 1).sr = 0 ∧ (s' 1).acks = 0) = true) (by decide)
  obtain ⟨s', hs', hwait⟩ := (Option.any_eq_true _ _).1 hrun
  obtain ⟨htodo, hout, hhead, hempty, hsr, hacks, hsr', hacks'⟩ := of_decide_eq_true hwait
  have hstuck : s'.Stuck 2 := fun e hen => by
    cases e with
    | enter i => exact ⟨i, rfl⟩
    | op i =>
      obtain ⟨hi, hin, hpoll⟩ := hen
      interval_cases i
      · exact absurd hempty (hpoll hhead)
      · exact absurd hout hin
    | deliver i =>
      obtain ⟨hi, hpos⟩ := hen
      interval_cases i
      · exact absurd hsr hpos.ne'
      · exact absurd hsr' hpos.ne'
    | complete i =>
      obtain ⟨hi, hpos⟩ := hen
      interval_cases i
      · exact absurd hacks hpos.ne'
      · exact absurd hacks' hpos.ne'
  exact ⟨s, s', hs, hs', htodo, ((Reachable.init.exec hs).comes_to_rest (by simp) hs').2 hstuck 0
    (by decide) htodo⟩

end SyncRing

end NetPipe.Vapi
