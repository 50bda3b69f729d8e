import NetPipe.Driver.Buffers

/-!
# The integrity check, one process

The state of a process between the calls of a trial: which message each window holds and, in an
integrity run, what is left in a receive window before its next message arrives.
-/

namespace NetPipe

open StraightLine

/-! ### What is left in a receive window -/

/-- In cache mode without streaming the receive window was the send window `lag` messages ago, if
there were as many in this test: its bytes are those of that message. `t` messages were received in
the test, `c` in the run. -/
def staleByte (lag t c b i : ℕ) : ℤ := if t < lag then -1 else pattern b ((c + 1 - lag) % 100) i

/-- The last message of the test whose byte `i` was stored in the window `w`. -/
def lastTag (lost : Loss) (log : List (ℕ × ℤ)) (w : ℤ) (i : ℕ) : Option ℕ :=
  (log.find? fun y => decide (y.2 = w) && !lost y.1 i).map Prod.fst

/-- In the other modes the interior of a receive window is cleared after the check, its ends hold
the tag of the last message that reached them. -/
def leftover (lost : Loss) (log : List (ℕ × ℤ)) (b : ℕ) (w : ℤ) (i : ℕ) : ℤ :=
  if i = 0 ∨ i + 1 = b then
    match lastTag lost log w i with
    | none => -1
    | some k => ((k + 1) % 100 : ℕ)
  else -1

/-- The addresses that are cleared at the start of each test. In nocache mode `InitBufferData` clears
`MEMSIZE + soffset` bytes of a pool that may be larger. -/
def Cleared (x : BufArgs) (s : BufState) (a : ℤ) : Prop :=
  x.flags.cache = true ∨ a < s.ptrs.ptrs.s_buf + (memsize + x.layout.soffset)

/-- Whether the check shows the loss of bytes of the message just received. -/
def Visible (f : Flags) (side : Side) (lost : Loss) (s : BufState) : Prop :=
  if f.cache = true ∧ f.stream = false then
    s.log.length < side.lag ∨ ∃ i < s.buflen, (i = 0 ∨ i + 1 = s.buflen) ∧
      lost (s.received - 1) i = true
  else ∃ i < s.buflen, lost (s.received - 1) i = true ∧ ((i = 0 ∨ i + 1 = s.buflen) →
    ∀ k, lastTag lost s.log s.r_ptr i = some k → k % 100 ≠ (s.received - 1) % 100)

/-- What has to hold when `CheckBufferData` is called. Without loss it counts nothing; in an
integrity run a loss is counted exactly if it is visible. -/
structure CheckOk (x : BufArgs) (side : Side) (lost : Loss) (s : BufState) : Prop where
  window : s.window = s.r_ptr
  tag : ∃ m, s.inbox[s.received - 1]? = some m ∧ (s.rtag + 1) % 100 = m.stag
  complete : (∀ i < s.buflen, lost (s.received - 1) i = false) → s.failureCount x.integrity = 0
  sound : x.integrity = true → (∃ i < s.buflen, lost (s.received - 1) i = true) →
    (∀ i < s.buflen, Cleared x s (s.r_ptr + i)) →
    (0 < s.failureCount x.integrity ↔ Visible x.flags side lost s)

/-- What has to hold when a call is made. -/
def BufContract (x : BufArgs) (side : Side) (lost : Loss) (sizes : List ℕ) :
    Call → BufState → Prop
  | .sendData, s => s.outgoing.Good x.integrity sizes s.sent
  | .checkBufferData, s => CheckOk x side lost s
  | _, _ => True

/-- What happens to a process while it runs: a message is sent to it, or a byte of the awaited
message is stored in the posted window. -/
inductive BufEnv (x : BufArgs) (lost : Loss) (sizes : List ℕ) : BufState → BufState → Prop where
  | arrive (s : BufState) (m : Message) (h : m.Good x.integrity sizes s.inbox.length) :
      BufEnv x lost sizes s { s with inbox := s.inbox ++ [m] }
  | land (s : BufState) (w : ℤ) (m : Message) (i : ℕ) (hw : s.posted = some w)
      (hm : s.inbox[s.received]? = some m) (hi : i < m.length)
      (hlost : lost s.received i = false) : BufEnv x lost sizes s (s.land w m i)

/-- One process in a run whose messages have the given sizes. -/
def bufMachine (x : BufArgs) (side : Side) (lost : Loss) (sizes : List ℕ) :
    Machine Call BufState where
  env := BufEnv x lost sizes
  step c := c.Buffers x lost
  ok := BufContract x side lost sizes

/-! ### Invariants -/

/-- Messages of size `b`: `a` sent, `p` receives posted, `c` messages received and `r` checked, all
counted from the start of the run; the test began after `start` messages. -/
structure Core (x : BufArgs) (lost : Loss) (sizes : List ℕ) (b start a p c r : ℕ)
    (s : BufState) : Prop where
  windows : Windows x.flags.cache x.layout b s.ptrs.ptrs
  buflen : s.buflen = b
  inbox : ∀ i (m : Message), s.inbox[i]? = some m → m.Good x.integrity sizes i
  sent : s.sent = a
  start_le : x.flags.stream = false → start ≤ a
  received : s.received = c
  rtag : s.rtag = r % 100
  log : s.log.length + start = r
  posted : s.posted = if c < p then some s.r_ptr else none
  size : c < p → sizes[c]? = some b
  landed : ∀ i, s.landed i = true → c < p ∧ i < b ∧ lost c i = false ∧
    ∃ m, s.inbox[c]? = some m ∧ s.mem (s.r_ptr + i) = m.byte i

/-- The bytes of the receive windows before message `c`, except those that are exempt. -/
structure OldBytes (x : BufArgs) (side : Side) (lost : Loss) (b c : ℕ) (exempt : ℕ → Prop)
    (s : BufState) : Prop where
  swapping : x.flags.cache = true → x.flags.stream = false → ∀ i < b, ¬ exempt i →
    s.mem (s.r_ptr + i) = staleByte side.lag s.log.length c b i
  walking : (x.flags.cache = true → x.flags.stream = true) → side.receives x.flags = true →
    ∀ w, Slot x.flags.cache x.layout b s.ptrs.ptrs w → ∀ i < b, Cleared x s (w + i) →
      (w = s.r_ptr → ¬ exempt i) → s.mem (w + i) = leftover lost s.log b w i

/-- The send window of a cache test that will be the next receive window. -/
def OldSend (x : BufArgs) (side : Side) (b a c t : ℕ) (s : BufState) : Prop :=
  x.flags.cache = true → x.flags.stream = false → a + side.lag = c + 1 → ∀ i < b,
    s.mem (s.s_ptr + i) = staleByte side.lag t c b i

/-- Between the calls that receive, with the next message possibly on its way. -/
structure Receiving (x : BufArgs) (side : Side) (lost : Loss) (sizes : List ℕ)
    (b start a p c : ℕ) (s : BufState) : Prop extends Core x lost sizes b start a p c c s where
  old : x.integrity = true → OldBytes x side lost b c (fun i => s.landed i = true) s

/-- Between the calls of a trial that concern one message. -/
structure Waiting (x : BufArgs) (side : Side) (lost : Loss) (sizes : List ℕ)
    (b start a p c : ℕ) (s : BufState) : Prop
    extends Receiving x side lost sizes b start a p c s where
  stag : s.stag = a % 100
  oldSend : x.integrity = true → OldSend x side b a (c + 1) (s.log.length + 1) s

/-- The send window holds message `a`. -/
structure Filled (x : BufArgs) (side : Side) (lost : Loss) (sizes : List ℕ)
    (b start a a' p c : ℕ) (s : BufState) : Prop
    extends Receiving x side lost sizes b start a' p c s where
  begun : x.flags.stream = false → start ≤ a
  stag : s.stag = (a + 1) % 100
  filled : ∀ i < b, Looked x.integrity b i → s.mem (s.s_ptr + i) = pattern b ((a + 1) % 100) i

/-- The receive window holds message `c`, but for the lost bytes. -/
structure Got (x : BufArgs) (side : Side) (lost : Loss) (sizes : List ℕ) (b start a c : ℕ)
    (s : BufState) : Prop extends Core x lost sizes b start a (c + 1) (c + 1) c s where
  stag : s.stag = a % 100
  window : s.window = s.r_ptr
  got : ∃ m, s.inbox[c]? = some m ∧ m.length = b ∧
    ∀ i < b, lost c i = false → s.mem (s.r_ptr + i) = m.byte i
  old : x.integrity = true → OldBytes x side lost b c (fun i => lost c i = false) s
  oldSend : x.integrity = true → OldSend x side b a (c + 1) (s.log.length + 1) s

/-- Message `c` has been checked, the windows have not moved yet. -/
structure Checked (x : BufArgs) (side : Side) (lost : Loss) (sizes : List ℕ) (b start a c : ℕ)
    (s : BufState) : Prop extends Core x lost sizes b start a (c + 1) (c + 1) (c + 1) s where
  stag : s.stag = a % 100
  walking : x.integrity = true → (x.flags.cache = true → x.flags.stream = true) →
    side.receives x.flags = true → ∀ w, Slot x.flags.cache x.layout b s.ptrs.ptrs w → ∀ i < b,
      Cleared x s (w + i) → s.mem (w + i) = leftover lost s.log b w i
  oldSend : x.integrity = true → OldSend x side b a (c + 1) s.log.length s

section

variable {x : BufArgs} {side : Side} {lost : Loss} {sizes : List ℕ}
  {b start a a' p c r : ℕ} {s s' : BufState}

/-! ### Changes of the environment -/

/-- What holds of all messages with their numbers holds after one more. -/
lemma forall_getElem?_concat {P : ℕ → Message → Prop} {l : List Message} {m : Message}
    (hl : ∀ i m', l[i]? = some m' → P i m') (hm : P l.length m) (i : ℕ) (m' : Message)
    (hi : (l ++ [m])[i]? = some m') : P i m' := by
  rcases Nat.lt_trichotomy i l.length with hlt | rfl | hgt
  · exact hl i m' (by rwa [List.getElem?_append_left hlt] at hi)
  · rw [List.getElem?_concat_length, Option.some.injEq] at hi
    exact hi ▸ hm
  · have hlen := (List.getElem?_eq_some_iff.mp hi).1
    rw [List.length_append, List.length_singleton] at hlen
    exact absurd hlen (Nat.not_lt.mpr hgt)

lemma Core.inbox_append (h : Core x lost sizes b start a p c r s) {m : Message}
    (hm : m.Good x.integrity sizes s.inbox.length) :
    Core x lost sizes b start a p c r { s with inbox := s.inbox ++ [m] } := by
  refine { h with inbox := forall_getElem?_concat h.inbox hm, landed := fun i hi => ?_ }
  · obtain ⟨hcp, hib, hl, m', hm', hmem⟩ := h.landed i hi
    refine ⟨hcp, hib, hl, m', ?_, hmem⟩
    rw [List.getElem?_append_left (List.getElem?_eq_some_iff.mp hm').1]
    exact hm'

/-- The awaited message has the size of the window. -/
lemma Core.length_eq (h : Core x lost sizes b start a p c r s) {m : Message}
    (hsize : sizes[c]? = some b) (hm : s.inbox[c]? = some m) : m.length = b := by
  have hgood := (h.inbox c m hm).length
  rw [hsize, Option.some.injEq] at hgood
  exact hgood.symm

/-- What a landing byte changes. -/
lemma Core.land_cases (h : Core x lost sizes b start a p c r s) {w : ℤ} {m : Message} {i : ℕ}
    (hw : s.posted = some w) (hm : s.inbox[s.received]? = some m) (hi : i < m.length) :
    c < p ∧ w = s.r_ptr ∧ s.inbox[c]? = some m ∧ i < b := by
  rw [h.received] at hm
  rw [h.posted] at hw
  split_ifs at hw with hcp
  · rw [Option.some.injEq] at hw
    exact ⟨hcp, hw.symm, hm, (h.length_eq (h.size hcp) hm) ▸ hi⟩

lemma land_mem_of_ne {w y : ℤ} {m : Message} {i : ℕ} (hy : y ≠ w + i) :
    (s.land w m i).mem y = s.mem y :=
  Function.update_of_ne hy _ _

lemma land_mem_window {w : ℤ} {m : Message} {i j : ℕ} (hj : j ≠ i) :
    (s.land w m i).mem (w + j) = s.mem (w + j) :=
  land_mem_of_ne fun h => hj (Int.ofNat_inj.mp (add_left_cancel h))

lemma landed_land {w : ℤ} {m : Message} {i j : ℕ} :
    (s.land w m i).landed j = true ↔ j = i ∨ s.landed j = true := by
  by_cases hj : j = i
  · subst hj
    simp [BufState.land]
  · simp [BufState.land, hj]

lemma Receiving.arrive (h : Receiving x side lost sizes b start a p c s) {m : Message}
    (hm : m.Good x.integrity sizes s.inbox.length) :
    Receiving x side lost sizes b start a p c { s with inbox := s.inbox ++ [m] } :=
  ⟨h.toCore.inbox_append hm, fun hi => ⟨(h.old hi).swapping, (h.old hi).walking⟩⟩

/-- A byte that lands is exempt from then on, all others stay. -/
lemma Receiving.land (h : Receiving x side lost sizes b start a p c s)
    (hfit : Fits x.flags.cache x.layout b) {w : ℤ} {m : Message} {i : ℕ}
    (hw : s.posted = some w) (hm : s.inbox[s.received]? = some m) (hi : i < m.length)
    (hlost : lost s.received i = false) :
    Receiving x side lost sizes b start a p c (s.land w m i) := by
  obtain ⟨hcp, rfl, hmc, hib⟩ := h.land_cases hw hm hi
  rw [h.received] at hlost
  refine ⟨{ h.toCore with landed := fun j hj => ?_ }, fun hint => ⟨fun hc hs j hj hex => ?_,
    fun hmode hr w hslot j hj hclr hex => ?_⟩⟩
  · rcases eq_or_ne j i with rfl | hne
    · exact ⟨hcp, hib, hlost, m, hmc, Function.update_self _ _ _⟩
    · obtain ⟨-, hjb, hl, m', hm', hmem⟩ := h.landed j ((landed_land.mp hj).resolve_left hne)
      exact ⟨hcp, hjb, hl, m', hm', (land_mem_window hne).trans hmem⟩
  · have hne : j ≠ i := fun hji => hex (landed_land.mpr (Or.inl hji))
    refine (land_mem_window hne).trans ?_
    exact (h.old hint).swapping hc hs j hj fun hl => hex (landed_land.mpr (Or.inr hl))
  · rcases eq_or_ne w s.r_ptr with rfl | hwr
    · have hne : j ≠ i := fun hji => hex rfl (landed_land.mpr (Or.inl hji))
      refine (land_mem_window hne).trans ?_
      exact (h.old hint).walking hmode hr _ hslot j hj hclr
        fun _ hl => hex rfl (landed_land.mpr (Or.inr hl))
    · have hne := h.windows.slot_ne hfit hslot h.windows.slot hwr hj hib
      refine (land_mem_of_ne hne).trans ?_
      exact (h.old hint).walking hmode hr w hslot j hj hclr fun heq => absurd heq hwr

/-- The send window is not touched by landing bytes. -/
lemma Receiving.land_send (h : Receiving x side lost sizes b start a p c s)
    (hfit : Fits x.flags.cache x.layout b) {w : ℤ} {m : Message} {i j : ℕ}
    (hw : s.posted = some w) (hm : s.inbox[s.received]? = some m) (hi : i < m.length)
    (hj : j < b) : (s.land w m i).mem (s.s_ptr + j) = s.mem (s.s_ptr + j) := by
  obtain ⟨-, rfl, -, hib⟩ := h.land_cases hw hm hi
  exact land_mem_of_ne (h.windows.send_ne hfit hj hib)

lemma waiting_stable (hfit : Fits x.flags.cache x.layout b) :
    (bufMachine x side lost sizes).Stable (Waiting x side lost sizes b start a p c) := by
  intro s s' h henv
  cases henv with
  | arrive m hm => exact ⟨h.toReceiving.arrive hm, h.stag, h.oldSend⟩
  | land w m i hw hm hi hlost =>
    refine ⟨h.toReceiving.land hfit hw hm hi hlost, h.stag, fun hint hc hs hpace j hj => ?_⟩
    exact (h.land_send hfit hw hm hi hj).trans (h.oldSend hint hc hs hpace j hj)

lemma filled_stable (hfit : Fits x.flags.cache x.layout b) :
    (bufMachine x side lost sizes).Stable (Filled x side lost sizes b start a a' p c) := by
  intro s s' h henv
  cases henv with
  | arrive m hm => exact ⟨h.toReceiving.arrive hm, h.begun, h.stag, h.filled⟩
  | land w m i hw hm hi hlost =>
    refine ⟨h.toReceiving.land hfit hw hm hi hlost, h.begun, h.stag, fun j hj hl => ?_⟩
    exact (h.land_send hfit hw hm hi hj).trans (h.filled j hj hl)

/-- No byte lands without a posted receive. -/
lemma Core.not_posted (h : Core x lost sizes b start a c c r s) (w : ℤ) : s.posted ≠ some w := by
  rw [h.posted, if_neg (Nat.lt_irrefl c)]
  nofun

lemma got_stable : (bufMachine x side lost sizes).Stable (Got x side lost sizes b start a c) := by
  intro s s' h henv
  cases henv with
  | arrive m hm =>
    obtain ⟨m', hm', hgot⟩ := h.got
    refine ⟨h.toCore.inbox_append hm, h.stag, h.window, ⟨m', ?_, hgot⟩,
      fun hint => ⟨(h.old hint).swapping, (h.old hint).walking⟩, h.oldSend⟩
    rw [List.getElem?_append_left (List.getElem?_eq_some_iff.mp hm').1]
    exact hm'
  | land w m i hw => exact absurd hw (h.not_posted w)

lemma checked_stable :
    (bufMachine x side lost sizes).Stable (Checked x side lost sizes b start a c) := by
  intro s s' h henv
  cases henv with
  | arrive m hm => exact ⟨h.toCore.inbox_append hm, h.stag, h.walking, h.oldSend⟩
  | land w m i hw => exact absurd hw (h.not_posted w)

/-! ### Single calls -/

/-- A call that does not move the pointers. -/
lemma Call.Buffers.eq {k : Call} (h : k.Buffers x lost s s')
    (hk : ∀ a, ∃ w, k.runPtrs x.flags.cache x.layout a s.ptrs = some (s.ptrs, w)) :
    s' = k.effect x.layout x.integrity lost s := by
  obtain ⟨-, a, -, hrun⟩ := h
  obtain ⟨w, hw⟩ := hk a
  rw [Call.runBuffers, hw] at hrun
  exact (Option.some.inj hrun).symm

/-- A call that only moves the pointers. -/
lemma Call.Buffers.moved {v v' u : PtrVar} {u' : Option PtrVar}
    (h : (Call.advancePtrs v v' u' u).Buffers x lost s s') :
    ∃ q, NetPipe.advancePtrs x.flags.cache x.layout s.buflen v v' u' u s.ptrs.ptrs = some q ∧
      s' = { s with ptrs := { s.ptrs with ptrs := q } } := by
  obtain ⟨-, a, -, hrun⟩ := h
  simp only [Call.runBuffers, Call.runPtrs, Option.map_map, Option.map_eq_some_iff] at hrun
  obtain ⟨q, hq, rfl⟩ := hrun
  exact ⟨q, hq, rfl⟩

/-- The calls that concern neither pointers nor buffers. -/
def Call.idle : Call → Bool
  | .flushcache | .sync | .doWork | .reset | .gather | .freeBufs => true
  | _ => false

lemma idle_triple {P : BufState → Prop} {k : Call} (hk : k.idle = true)
    (hP : (bufMachine x side lost sizes).Stable P) :
    Triple (bufMachine x side lost sizes) P [k] P := by
  refine .call hP hP (fun s _ => ?_) fun s s' hs hstep => ?_
  · cases k <;> first | exact trivial | cases hk
  · have heq : s' = s := by
      cases k <;> cases hk <;> exact Call.Buffers.eq hstep fun _ => ⟨_, rfl⟩
    exact heq ▸ hs

/-- A process never both sends and receives in streaming mode. -/
lemma Side.not_both {f : Flags} (hs : side.sends f = true) (hr : side.receives f = true) :
    f.stream = false := by
  cases hstream : f.stream with
  | false => rfl
  | true =>
    rw [Side.sends, hstream] at hs
    rw [Side.receives, hstream] at hr
    cases side
    · cases hr
    · cases hs

variable (hfit : Fits x.flags.cache x.layout b)
include hfit

/-! ### Sending -/

lemma prepostRecv_buffers (hsize : sizes[c]? = some b) :
    Triple (bufMachine x side lost sizes) (Waiting x side lost sizes b start a c c)
      [.prepostRecv] (Waiting x side lost sizes b start a (c + 1) c) := by
  refine .call (waiting_stable hfit) (waiting_stable hfit) (fun _ _ => trivial)
    fun s s' h hstep => ?_
  obtain rfl : s' = s.prepostRecv := Call.Buffers.eq hstep fun _ => ⟨_, rfl⟩
  have hidle : ∀ i, ¬ s.landed i = true := fun i hi => Nat.lt_irrefl c (h.landed i hi).1
  refine ⟨⟨{ h.toCore with
    posted := (if_pos (Nat.lt_succ_self c)).symm
    size := fun _ => hsize
    landed := fun i hi => absurd hi Bool.false_ne_true }, fun hint => ⟨?_, ?_⟩⟩, h.stag, h.oldSend⟩
  · intro hc hs i hi _
    exact (h.old hint).swapping hc hs i hi (hidle i)
  · intro hmode hr w hw i hi hclr _
    exact (h.old hint).walking hmode hr w hw i hi hclr fun _ => hidle i

lemma setupBufferData_buffers (hpos : 0 < b) (hsends : side.sends x.flags = true) :
    Triple (bufMachine x side lost sizes) (Waiting x side lost sizes b start a p c)
      [.setupBufferData] (Filled x side lost sizes b start a a p c) := by
  refine .call (waiting_stable hfit) (filled_stable hfit) (fun _ _ => trivial)
    fun s s' h hstep => ?_
  obtain rfl : s' = s.setupBufferData x.integrity := Call.Buffers.eq hstep fun _ => ⟨_, rfl⟩
  have hb : 0 < s.buflen := h.buflen ▸ hpos
  -- only bytes of the send window change
  have hrecv : ∀ i < b, (s.setupBufferData x.integrity).mem (s.r_ptr + i) =
      s.mem (s.r_ptr + i) := by
    intro i hi
    refine BufState.setupBufferData_mem_outside hb fun j hj => ?_
    exact h.windows.send_ne hfit (h.buflen ▸ hj) hi
  refine ⟨⟨{ h.toCore with landed := fun i hi => ?_ }, fun hint => ⟨?_, ?_⟩⟩, h.start_le, ?_, ?_⟩
  · obtain ⟨hcp, hib, hl, m, hm, hmem⟩ := h.landed i hi
    exact ⟨hcp, hib, hl, m, hm, (hrecv i hib).trans hmem⟩
  · intro hc hs i hi hex
    exact (hrecv i hi).trans ((h.old hint).swapping hc hs i hi hex)
  · intro hmode hr w hw i hi hclr hex
    have hcache : x.flags.cache = false := by
      by_contra hne
      have hstream := hmode (Bool.eq_true_of_not_eq_false hne)
      rw [Side.not_both hsends hr] at hstream
      exact absurd hstream Bool.false_ne_true
    refine Eq.trans ?_ ((h.old hint).walking hmode hr w hw i hi hclr hex)
    refine BufState.setupBufferData_mem_outside hb fun j hj => ?_
    have hwin := h.windows
    rw [hcache] at hwin hw hfit
    exact hwin.send_ne_slot hfit hw (h.buflen ▸ hj)
  · exact (congrArg (fun n => (n + 1) % 100) h.stag).trans (Nat.mod_add_mod a 100 1)
  · intro i hi hl
    rw [← h.buflen] at hi hl ⊢
    refine (BufState.setupBufferData_mem hi hl).trans ?_
    rw [h.stag, Nat.mod_add_mod]

lemma sendData_buffers (hsize : sizes[a]? = some b) :
    Triple (bufMachine x side lost sizes) (Filled x side lost sizes b start a a p c)
      [.sendData] (Filled x side lost sizes b start a (a + 1) p c) := by
  refine .call (filled_stable hfit) (filled_stable hfit) (fun s h => ?_) fun s s' h hstep => ?_
  · refine ⟨?_, h.stag.trans ?_, fun i hi hl => ?_⟩
    · rw [h.sent, hsize]
      exact congrArg some h.buflen.symm
    · rw [h.sent]
    · have hlen : s.outgoing.length = b := h.buflen
      have htag : s.outgoing.stag = (a + 1) % 100 := h.stag
      rw [hlen] at hi hl
      rw [hlen, htag]
      exact h.filled i hi hl
  · obtain rfl : s' = { s with sent := s.sent + 1 } := Call.Buffers.eq hstep fun _ => ⟨_, rfl⟩
    exact ⟨⟨{ h.toCore with
      sent := congrArg (· + 1) h.sent
      start_le := fun hs => (h.start_le hs).trans (Nat.le_succ a) },
      fun hint => ⟨(h.old hint).swapping, (h.old hint).walking⟩⟩, h.begun, h.stag, h.filled⟩

omit hfit in
/-- The window just sent will be the next receive window but one: its bytes are stale by then. -/
lemma staleByte_sent {lag t i : ℕ} (hlag : lag ≤ t + 1) (hpace : a + 1 + lag = c + 2) :
    staleByte lag (t + 1) (c + 1) b i = pattern b ((a + 1) % 100) i := by
  have htag : c + 1 + 1 - lag = a + 1 := by omega
  rw [staleByte, if_neg (Nat.not_lt.mpr hlag), htag]

omit hfit in
lemma Core.slot_moved {q : Ptrs} (hpool : SamePool s.ptrs.ptrs q) {w : ℤ}
    (h : Slot x.flags.cache x.layout b q w) : Slot x.flags.cache x.layout b s.ptrs.ptrs w :=
  hpool.slot.mp h

omit hfit in
lemma cleared_moved {q : Ptrs} (hpool : SamePool s.ptrs.ptrs q) {y : ℤ}
    (h : Cleared x { s with ptrs := { s.ptrs with ptrs := q } } y) : Cleared x s y :=
  h.imp_right fun hlt => lt_of_lt_of_eq hlt (by rw [← hpool.2.1])

lemma advanceSent_buffers (hpace : x.flags.stream = false → a + side.lag = c + 1) :
    Triple (bufMachine x side lost sizes) (Filled x side lost sizes b start a (a + 1) p c)
      [advanceSent] (Waiting x side lost sizes b start (a + 1) p c) := by
  refine .call (filled_stable hfit) (waiting_stable hfit) (fun _ _ => trivial)
    fun s s' h hstep => ?_
  obtain ⟨q, hq, rfl⟩ := hstep.moved
  rw [h.buflen] at hq
  obtain ⟨hwin, hpool, hr, hs⟩ := h.windows.sent hfit hq
  refine ⟨⟨{ h.toCore with windows := hwin, posted := ?_, landed := ?_ },
    fun hint => ⟨?_, ?_⟩⟩, h.stag, fun hint hc hst hpace' i hi => ?_⟩
  · rw [show s.posted = if c < p then some q.r_ptr else none from hr ▸ h.posted]
  · intro i hi
    rw [BufState.r_ptr, hr]
    exact h.landed i hi
  · intro hc hst i hi hex
    rw [BufState.r_ptr, hr]
    exact (h.old hint).swapping hc hst i hi hex
  · intro hmode hrecv w hw i hi hclr hex
    refine (h.old hint).walking hmode hrecv w (Core.slot_moved hpool hw) i hi
      (cleared_moved hpool hclr) fun heq => hex ?_
    rw [BufState.r_ptr, hr]
    exact heq
  · have hlag : side.lag ≤ s.log.length + 1 := by
      have hbegun := h.begun hst
      have hlog := h.log
      have hac := hpace hst
      cases side with
      | transmitter => exact Nat.le_add_left 1 _
      | receiver =>
        have hac : a + 2 = c + 1 := hac
        have hlog : s.log.length + start = c := hlog
        show 2 ≤ s.log.length + 1
        omega
    rw [BufState.s_ptr, hs hc, staleByte_sent hlag (by omega)]
    exact h.filled i hi (Or.inl hint)

end

end NetPipe
