import Mathlib.Tactic

/-!
# The barrier on the ring sockets

`tcp_sync` of any number of processes. A token goes from each process to the next one, one and a
half times round the ring: process 0 sends before it receives, the others receive before they send.
-/

namespace NetPipe.MpLite

/-- A blocking call on the sockets of the ring. -/
inductive RingOp where
  | send
  | recv
  deriving DecidableEq, Repr

/-- The blocking calls of `tcp_sync`, in program order. -/
def tcp_sync (nprocs myproc : ℕ) : List RingOp :=
  if nprocs = 1 then []
  else
    (if myproc = 0 then [.send] else []) ++ [.recv, .send, .recv] ++
      (if myproc ≠ 0 then [.send] else [])

/-- The barriers a process has entered, and what it has still to do in the last one. -/
structure RingProc where
  entered : ℕ
  todo : List RingOp

/-- The processes, and on the socket `sd_prev` of each what is under way to it: for each token the
barrier in which it was sent. -/
structure RingState where
  proc : ℕ → RingProc
  sd_prev : ℕ → List ℕ

/-- The barriers a process has returned from. -/
def RingProc.returned (p : RingProc) : ℕ := if p.todo = [] then p.entered else p.entered - 1

/-- The tokens a process has sent. -/
def RingProc.sent (p : RingProc) : ℕ := 2 * p.entered - p.todo.count .send

/-- The tokens a process has received. -/
def RingProc.received (p : RingProc) : ℕ := 2 * p.entered - p.todo.count .recv

/-- The barrier in which a process sends its token number `m`. -/
def barrierOf (m : ℕ) : ℕ := m / 2 + 1

namespace RingState

/-- The next process of the ring. -/
def next (nprocs i : ℕ) : ℕ := (i + 1) % nprocs

/-- No process has called `tcp_sync`. -/
def init : RingState := ⟨fun _ => ⟨0, []⟩, fun _ => []⟩

/-- Process `i` calls `tcp_sync`. -/
def enter (nprocs i : ℕ) (s : RingState) : RingState :=
  { s with proc := Function.update s.proc i ⟨(s.proc i).entered + 1, tcp_sync nprocs i⟩ }

/-- Process `i` goes on behind a call. -/
def goOn (i : ℕ) (ops : List RingOp) (s : RingState) : RingState :=
  { s with proc := Function.update s.proc i ⟨(s.proc i).entered, ops⟩ }

/-- A token of process `i` goes to the next process. -/
def sendToken (nprocs i : ℕ) (s : RingState) : RingState :=
  { s with
    sd_prev := Function.update s.sd_prev (next nprocs i)
      (s.sd_prev (next nprocs i) ++ [(s.proc i).entered]) }

/-- Process `i` takes a token from its socket. -/
def recvToken (i : ℕ) (s : RingState) : RingState :=
  { s with sd_prev := Function.update s.sd_prev i (s.sd_prev i).tail }

/-- A process calls `tcp_sync`, or makes the next blocking call of it. -/
inductive Step (nprocs : ℕ) (s : RingState) : RingState → Prop where
  | enter (i : ℕ) (hi : i < nprocs) (hout : (s.proc i).todo = []) : Step nprocs s (s.enter nprocs i)
  | send (i : ℕ) (ops : List RingOp) (hi : i < nprocs) (hop : (s.proc i).todo = .send :: ops) :
      Step nprocs s ((s.sendToken nprocs i).goOn i ops)
  | recv (i : ℕ) (ops : List RingOp) (hi : i < nprocs) (hop : (s.proc i).todo = .recv :: ops)
      (htoken : s.sd_prev i ≠ []) : Step nprocs s ((s.recvToken i).goOn i ops)

/-- What the processes come to in any interleaving of their calls. -/
inductive Reachable (nprocs : ℕ) : RingState → Prop where
  | init : Reachable nprocs init
  | step {s s' : RingState} (h : Reachable nprocs s) (hs : Step nprocs s s') : Reachable nprocs s'

end RingState

variable {n i j : ℕ} {p : RingProc} {s s' : RingState} {ops : List RingOp}

/-! ### One process -/

/-- A process is somewhere in `tcp_sync`, or outside. -/
structure RingProc.Well (n i : ℕ) (p : RingProc) : Prop where
  todo : p.todo <:+ tcp_sync n i
  entered : p.todo ≠ [] → 0 < p.entered

lemma tcp_sync_zero (hn : 2 ≤ n) : tcp_sync n 0 = [.send, .recv, .send, .recv] := by
  have hne : n ≠ 1 := Nat.ne_of_gt hn
  simp [tcp_sync, hne]

lemma tcp_sync_pos (hn : 2 ≤ n) (hi : 0 < i) : tcp_sync n i = [.recv, .send, .recv, .send] := by
  have hne : n ≠ 1 := Nat.ne_of_gt hn
  simp [tcp_sync, hne, Nat.ne_of_gt hi]

namespace RingProc

lemma Well.tail (h : p.Well n i) {op : RingOp} (hop : p.todo = op :: ops) :
    (RingProc.mk p.entered ops).Well n i where
  todo := (List.suffix_cons op ops).trans (hop ▸ h.todo)
  entered := fun _ => h.entered (by simp [hop])

lemma Well.again : (RingProc.mk (p.entered + 1) (tcp_sync n i)).Well n i where
  todo := List.suffix_rfl
  entered := fun _ => Nat.succ_pos _

/-- What is left of `tcp_sync` on process 0. -/
lemma Well.todo_zero (hn : 2 ≤ n) (h : p.Well n 0) :
    p.todo = [.send, .recv, .send, .recv] ∨ p.todo = [.recv, .send, .recv] ∨
      p.todo = [.send, .recv] ∨ p.todo = [.recv] ∨ p.todo = [] := by
  have htodo := h.todo
  rw [tcp_sync_zero hn] at htodo
  simpa only [List.suffix_cons_iff, List.suffix_nil] using htodo

/-- What is left of `tcp_sync` on another process. -/
lemma Well.todo_pos (hn : 2 ≤ n) (hi : 0 < i) (h : p.Well n i) :
    p.todo = [.recv, .send, .recv, .send] ∨ p.todo = [.send, .recv, .send] ∨
      p.todo = [.recv, .send] ∨ p.todo = [.send] ∨ p.todo = [] := by
  have htodo := h.todo
  rw [tcp_sync_pos hn hi] at htodo
  simpa only [List.suffix_cons_iff, List.suffix_nil] using htodo

/-- Process 0 sends first, and its second token only when the first one is back. -/
lemma Well.zero (hn : 2 ≤ n) (h : p.Well n 0) :
    p.sent ≤ p.received + 1 ∧ p.sent ≤ 2 * p.entered ∧ 2 * p.returned ≤ p.received := by
  have hpos := h.entered
  unfold received sent returned
  rcases h.todo_zero hn with h | h | h | h | h <;> simp [h] at hpos ⊢ <;> omega

/-- The other processes pass on what they have received. -/
lemma Well.pos (hn : 2 ≤ n) (hi : 0 < i) (h : p.Well n i) :
    p.sent ≤ p.received ∧ p.sent ≤ 2 * p.entered ∧ 2 * p.returned ≤ p.received := by
  have hpos := h.entered
  unfold received sent returned
  rcases h.todo_pos hn hi with h | h | h | h | h <;> simp [h] at hpos ⊢ <;> omega

/-- A barrier has two tokens on every process: no more are sent than that, and none is left out. -/
lemma Well.bounds (hn : 2 ≤ n) (h : p.Well n i) :
    p.sent ≤ 2 * p.entered ∧ 2 * p.returned ≤ p.received := by
  rcases Nat.eq_zero_or_pos i with rfl | hi
  · exact (h.zero hn).2
  · exact (h.pos hn hi).2

lemma count_tcp_sync (hn : 2 ≤ n) (op : RingOp) : (tcp_sync n i).count op = 2 := by
  rcases Nat.eq_zero_or_pos i with rfl | hi
  · rw [tcp_sync_zero hn]
    cases op <;> rfl
  · rw [tcp_sync_pos hn hi]
    cases op <;> rfl

lemma Well.count_le (hn : 2 ≤ n) (h : p.Well n i) (op : RingOp) : p.todo.count op ≤ 2 := by
  rw [← count_tcp_sync (i := i) hn op]
  exact h.todo.sublist.count_le op

/-- The token that is sent next belongs to the barrier the process is in. -/
lemma Well.send (hn : 2 ≤ n) (h : p.Well n i) (hop : p.todo = .send :: ops) :
    barrierOf p.sent = p.entered ∧ (RingProc.mk p.entered ops).sent = p.sent + 1 ∧
      (RingProc.mk p.entered ops).received = p.received := by
  have hpos := h.entered (by simp [hop])
  have hcount := h.count_le hn .send
  simp only [barrierOf, sent, received, hop, List.count_cons_self] at hcount ⊢
  refine ⟨?_, ?_, ?_⟩
  · omega
  · omega
  · simp

/-- The token that is received next is to belong to the barrier the process is in. -/
lemma Well.recv (hn : 2 ≤ n) (h : p.Well n i) (hop : p.todo = .recv :: ops) :
    barrierOf p.received = p.entered ∧ (RingProc.mk p.entered ops).received = p.received + 1 ∧
      (RingProc.mk p.entered ops).sent = p.sent := by
  have hpos := h.entered (by simp [hop])
  have hcount := h.count_le hn .recv
  simp only [barrierOf, sent, received, hop, List.count_cons_self] at hcount ⊢
  refine ⟨?_, ?_, ?_⟩
  · omega
  · omega
  · simp

lemma again_sent (hn : 2 ≤ n) (h : p.todo = []) :
    (RingProc.mk (p.entered + 1) (tcp_sync n i)).sent = p.sent := by
  simp [sent, count_tcp_sync hn, h, Nat.mul_add]

lemma again_received (hn : 2 ≤ n) (h : p.todo = []) :
    (RingProc.mk (p.entered + 1) (tcp_sync n i)).received = p.received := by
  simp [received, count_tcp_sync hn, h, Nat.mul_add]

end RingProc

namespace RingState

/-! ### The ring -/

lemma next_inj (hi : i < n) (hj : j < n) (h : next n i = next n j) : i = j := by
  have hmod : i ≡ j [MOD n] := Nat.ModEq.add_right_cancel' 1 h
  rwa [Nat.ModEq, Nat.mod_eq_of_lt hi, Nat.mod_eq_of_lt hj] at hmod

lemma next_eq_succ (hj : j + 1 < n) : next n j = j + 1 := Nat.mod_eq_of_lt hj

lemma exists_next (hj : j < n) : ∃ i < n, next n i = j := by
  cases j with
  | zero =>
    refine ⟨n - 1, Nat.sub_lt hj Nat.one_pos, ?_⟩
    rw [next, Nat.sub_add_cancel hj, Nat.mod_self]
  | succ j => exact ⟨j, Nat.lt_of_succ_lt hj, next_eq_succ hj⟩

/-- A socket holds the tokens its sender has sent and its reader has not yet received, in order. -/
structure Inv (n : ℕ) (s : RingState) : Prop where
  proc : ∀ i < n, (s.proc i).Well n i
  le : ∀ i < n, (s.proc (next n i)).received ≤ (s.proc i).sent
  socket : ∀ i < n, s.sd_prev (next n i) =
    ((List.range (s.proc i).sent).drop (s.proc (next n i)).received).map barrierOf

lemma inv_init : Inv n init where
  proc := fun i _ => ⟨List.nil_suffix, by simp [init]⟩
  le := by simp [init, RingProc.sent, RingProc.received]
  socket := by simp [init, RingProc.sent, RingProc.received]

lemma enter_sent (hn : 2 ≤ n) (hout : (s.proc i).todo = []) (k : ℕ) :
    ((s.enter n i).proc k).sent = (s.proc k).sent := by
  by_cases hk : k = i
  · subst hk
    simpa [enter] using RingProc.again_sent hn hout
  · simp [enter, hk]

lemma enter_received (hn : 2 ≤ n) (hout : (s.proc i).todo = []) (k : ℕ) :
    ((s.enter n i).proc k).received = (s.proc k).received := by
  by_cases hk : k = i
  · subst hk
    simpa [enter] using RingProc.again_received hn hout
  · simp [enter, hk]

lemma well_update {p : RingProc} (h : ∀ k < n, (s.proc k).Well n k) (hp : p.Well n i) :
    ∀ k < n, (Function.update s.proc i p k).Well n k := by
  intro k hk
  by_cases hki : k = i
  · subst hki
    rwa [Function.update_self]
  · rw [Function.update_of_ne hki]
    exact h k hk

lemma Inv.enter (hn : 2 ≤ n) (h : Inv n s) (hout : (s.proc i).todo = []) :
    Inv n (s.enter n i) where
  proc := well_update h.proc .again
  le k hk := by
    rw [enter_sent hn hout, enter_received hn hout]
    exact h.le k hk
  socket k hk := by
    rw [enter_sent hn hout, enter_received hn hout]
    exact h.socket k hk

lemma Inv.send (hn : 2 ≤ n) (h : Inv n s) (hi : i < n) (hop : (s.proc i).todo = .send :: ops) :
    Inv n ((s.sendToken n i).goOn i ops) := by
  obtain ⟨hbarrier, hsent, hreceived⟩ := (h.proc i hi).send hn hop
  have hrec : ∀ k, (((s.sendToken n i).goOn i ops).proc k).received = (s.proc k).received := by
    intro k
    by_cases hk : k = i
    · subst hk
      simpa [sendToken, goOn] using hreceived
    · simp [sendToken, goOn, hk]
  have hself : (((s.sendToken n i).goOn i ops).proc i).sent = (s.proc i).sent + 1 := by
    simpa [sendToken, goOn] using hsent
  have hother : ∀ k, k ≠ i →
      (((s.sendToken n i).goOn i ops).proc k).sent = (s.proc k).sent := by
    intro k hk
    simp [sendToken, goOn, hk]
  refine ⟨well_update h.proc ((h.proc i hi).tail hop), fun k hk => ?_, fun k hk => ?_⟩
  · rw [hrec]
    by_cases hki : k = i
    · subst hki
      rw [hself]
      exact Nat.le_succ_of_le (h.le k hk)
    · rw [hother k hki]
      exact h.le k hk
  · rw [hrec]
    by_cases hki : k = i
    · subst hki
      -- the token is appended behind those under way
      have hle : (s.proc (next n k)).received ≤ (List.range (s.proc k).sent).length := by
        simpa using h.le k hk
      rw [hself, List.range_succ, List.drop_append_of_le_length hle, List.map_append, ← h.socket k hk]
      simp [sendToken, goOn, hbarrier]
    · have hne : next n k ≠ next n i := fun heq => hki (next_inj hk hi heq)
      rw [hother k hki, ← h.socket k hk]
      simp [sendToken, goOn, hne]

lemma Inv.recv (hn : 2 ≤ n) (h : Inv n s) (hi : i < n) (hop : (s.proc i).todo = .recv :: ops)
    (htoken : s.sd_prev i ≠ []) : Inv n ((s.recvToken i).goOn i ops) := by
  obtain ⟨-, hreceived, hsent⟩ := (h.proc i hi).recv hn hop
  have hsnt : ∀ k, (((s.recvToken i).goOn i ops).proc k).sent = (s.proc k).sent := by
    intro k
    by_cases hk : k = i
    · subst hk
      simpa [recvToken, goOn] using hsent
    · simp [recvToken, goOn, hk]
  have hself : (((s.recvToken i).goOn i ops).proc i).received = (s.proc i).received + 1 := by
    simpa [recvToken, goOn] using hreceived
  have hother : ∀ k, k ≠ i →
      (((s.recvToken i).goOn i ops).proc k).received = (s.proc k).received := by
    intro k hk
    simp [recvToken, goOn, hk]
  refine ⟨well_update h.proc ((h.proc i hi).tail hop), fun k hk => ?_, fun k hk => ?_⟩
  · rw [hsnt]
    by_cases hki : next n k = i
    · rw [hki, hself]
      -- a token is there, so fewer were received than sent
      subst hki
      by_contra hle
      rw [h.socket k hk, List.drop_of_length_le] at htoken
      · simp at htoken
      · simpa using Nat.le_of_lt_succ (Nat.lt_of_not_le hle)
    · rw [hother _ hki]
      exact h.le k hk
  · rw [hsnt]
    by_cases hki : next n k = i
    · rw [hki, hself, ← List.tail_drop, List.map_tail, ← hki, ← h.socket k hk]
      simp [recvToken, goOn]
    · rw [hother _ hki, ← h.socket k hk]
      simp [recvToken, goOn, hki]

lemma Reachable.inv (hn : 2 ≤ n) (h : Reachable n s) : Inv n s := by
  induction h with
  | init => exact inv_init
  | step _ hs ih =>
    cases hs with
    | enter i _ hout => exact ih.enter hn hout
    | send i ops hi hop => exact ih.send hn hi hop
    | recv i ops hi hop htoken => exact ih.recv hn hi hop htoken

/-! ### The barrier -/

/-- Behind process 0 no process has sent more than the one before it. -/
lemma Inv.sent_le (hn : 2 ≤ n) (h : Inv n s) (hij : i ≤ j) (hj : j < n) :
    (s.proc j).sent ≤ (s.proc i).sent := by
  induction j, hij using Nat.le_induction with
  | base => exact le_rfl
  | succ j hij ih =>
    have hle := h.le j (Nat.lt_of_succ_lt hj)
    rw [next_eq_succ hj] at hle
    calc (s.proc (j + 1)).sent ≤ (s.proc (j + 1)).received :=
          ((h.proc (j + 1) hj).pos hn (Nat.succ_pos j)).1
      _ ≤ (s.proc j).sent := hle
      _ ≤ (s.proc i).sent := ih (Nat.lt_of_succ_lt hj)

/-- Process 0 has received only what has gone all round the ring. -/
lemma Inv.received_zero_le (hn : 2 ≤ n) (h : Inv n s) (hj : j < n) :
    (s.proc 0).received ≤ (s.proc j).sent := by
  obtain ⟨i, hi, hnext⟩ := exists_next (Nat.zero_lt_of_lt hj)
  have hle := h.le i hi
  rw [hnext] at hle
  have hlast : i = n - 1 := by
    by_contra hne
    have hsucc : i + 1 < n := Nat.lt_of_le_of_ne hi (by omega)
    rw [next_eq_succ hsucc] at hnext
    exact Nat.succ_ne_zero i hnext
  exact hle.trans (h.sent_le hn (by omega) hi)

/-- A process that has received its second token of a barrier knows that the first one of process
0 has come back there, through all the others. -/
lemma Inv.returned_le_entered (hn : 2 ≤ n) (h : Inv n s) (hi : i < n) (hj : j < n) :
    (s.proc i).returned ≤ (s.proc j).entered := by
  have hround := h.received_zero_le hn hj
  have hsent : (s.proc j).sent ≤ 2 * (s.proc j).entered := ((h.proc j hj).bounds hn).1
  have hzero := (h.proc 0 (Nat.zero_lt_of_lt hi)).zero hn
  rcases Nat.eq_zero_or_pos i with rfl | hpos
  · omega
  · have hle : (s.proc i).received ≤ (s.proc 0).sent := by
      obtain ⟨k, rfl⟩ := Nat.exists_eq_succ_of_ne_zero (Nat.ne_of_gt hpos)
      have hprev := h.le k (Nat.lt_of_succ_lt hi)
      rw [next_eq_succ hi] at hprev
      exact hprev.trans (h.sent_le hn (Nat.zero_le k) (Nat.lt_of_succ_lt hi))
    have hreturned := ((h.proc i hi).bounds hn).2
    omega

/-- No process returns from a barrier before all have entered it, and a barrier takes its tokens
and no others from the sockets. -/
theorem tcp_sync_barrier (hn : 2 ≤ n) (h : Reachable n s) :
    (∀ i < n, ∀ j < n, (s.proc i).returned ≤ (s.proc j).entered) ∧
      (∀ i < n, ∀ token ∈ s.sd_prev i, (s.proc i).returned < token) ∧
      (∀ i < n, ∀ ops token tokens, (s.proc i).todo = .recv :: ops →
        s.sd_prev i = token :: tokens → token = (s.proc i).entered) := by
  have hinv := h.inv hn
  refine ⟨fun i hi j hj => hinv.returned_le_entered hn hi hj, ?_, ?_⟩
  · intro j hj token hmem
    obtain ⟨i, hi, rfl⟩ := exists_next hj
    rw [hinv.socket i hi, List.mem_map] at hmem
    obtain ⟨m, hm, rfl⟩ := hmem
    obtain ⟨k, hk, rfl⟩ := List.mem_drop_iff_getElem.mp hm
    have hreturned : 2 * (s.proc (next n i)).returned ≤ (s.proc (next n i)).received :=
      ((hinv.proc _ hj).bounds hn).2
    simp only [List.getElem_range, barrierOf]
    omega
  · intro j hj ops token tokens hop hsocket
    obtain ⟨i, hi, rfl⟩ := exists_next hj
    obtain ⟨hbarrier, -⟩ := (hinv.proc _ hj).recv hn hop
    rw [← hbarrier]
    have hhead : (s.sd_prev (next n i)).head? = some token := by rw [hsocket]; rfl
    rw [hinv.socket i hi, List.head?_map, List.head?_drop, List.getElem?_range] at hhead
    · simpa [eq_comm] using hhead
    · by_contra hge
      rw [hinv.socket i hi, List.drop_of_length_le (by simpa using hge)] at hsocket
      simp at hsocket

/-- Two processes go through one barrier. -/
lemma reachable_once : ∃ s, Reachable 2 s ∧ (s.proc 0).returned = 1 := by
  refine ⟨_, Reachable.init
    |>.step (.enter 0 (by simp) rfl) |>.step (.send 0 _ (by simp) rfl)
    |>.step (.enter 1 (by simp) rfl) |>.step (.recv 1 _ (by simp) rfl (by decide))
    |>.step (.send 1 _ (by simp) rfl) |>.step (.recv 0 _ (by simp) rfl (by decide))
    |>.step (.send 0 _ (by simp) rfl) |>.step (.recv 1 _ (by simp) rfl (by decide))
    |>.step (.send 1 _ (by simp) rfl) |>.step (.recv 0 _ (by simp) rfl (by decide)), rfl⟩

theorem tcp_sync_barrier_two :
    ∃ s, Reachable 2 s ∧ (s.proc 0).returned = 1 ∧ 1 ≤ (s.proc 1).entered := by
  obtain ⟨s, hs, hreturned⟩ := reachable_once
  refine ⟨s, hs, hreturned, ?_⟩
  apply le_of_eq_of_le hreturned.symm
  exact (tcp_sync_barrier le_rfl hs).1 0 (by simp) 1 (by simp)

end RingState

end NetPipe.MpLite
