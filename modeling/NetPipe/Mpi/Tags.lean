import NetPipe.Driver.Calls
import NetPipe.Library.StraightLine
import NetPipe.Library.TagMatch

/-!
# Tags and requests of the MPI module

The state of `mpi.c` in one process and what each call of a trial does to it. `Module_Setup` sets
`async`, so that all receives are preposted and `RecvData` waits for a request.
-/

namespace NetPipe

/-- An entry of `recvRequest`: what `malloc` left there, a receive in progress, or
`MPI_REQUEST_NULL`. Receives are numbered in the order they are posted; a `null` entry keeps the
number of the receive that was completed. -/
inductive Request where
  | unset
  | active (k : ℕ)
  | null (k : ℕ)
  deriving DecidableEq, Repr

/-- Whether the entry is of a receive in progress. -/
def Request.IsActive (r : Request) : Prop := ∃ k, r = .active k

/-- What a completed `MPI_Wait` or `MPI_Test` leaves in the entry. -/
def Request.complete : Request → Request
  | .active k => .null k
  | r => r

/-- A completed entry is not of a receive in progress. -/
lemma Request.not_isActive_complete (r : Request) : ¬ r.complete.IsActive := by
  rintro ⟨k, hk⟩
  cases r <;> cases hk

/-- Completing an entry keeps the number of its receive. -/
lemma Request.complete_holds {r : Request} {k : ℕ} (h : r = .active k ∨ r = .null k) :
    r.complete = .null k := by
  rcases h with rfl | rfl <;> rfl

/-- A message or a posted receive: its tag, its trial (counted over the run) and its place among
the messages of the trial. -/
structure Envelope where
  tag : ℕ
  trial : ℕ
  index : ℕ
  deriving DecidableEq, Repr

/-- The variables of `mpi.c`, the length `recvRequest` was allocated with, and the history of the
process: the trial, the number of `SendData`, `PrepostRecv` and `RecvData` calls made in it, and
the messages sent and receives posted over the run. -/
structure MpiState where
  nrepeats : ℕ
  stag : ℕ
  rtag : ℕ
  length : ℕ
  recvRequest : ℕ → Request
  trial : ℕ
  sent : ℕ
  posted : ℕ
  received : ℕ
  sends : List Envelope
  posts : List Envelope

namespace Mpi

/-- The state after `Module_Setup`. -/
def setup : MpiState := ⟨100, 0, 0, 1, fun _ => .unset, 0, 0, 0, 0, [], []⟩

/-- The index into `recvRequest` used by `PrepostRecv`, `RecvData` and
`Module_TestForCompletion`. -/
def requestIndex (f : Flags) (s : MpiState) : ℕ := if f.burst then s.rtag else 0

/-- `SendData`. -/
def sendData (s : MpiState) : MpiState :=
  { s with
    sends := s.sends ++ [⟨s.stag, s.trial, s.sent⟩]
    sent := s.sent + 1
    stag := (s.stag + 1) % s.nrepeats }

/-- `PrepostRecv`. -/
def prepostRecv (f : Flags) (s : MpiState) : MpiState :=
  { s with
    posts := s.posts ++ [⟨s.rtag, s.trial, s.posted⟩]
    recvRequest := Function.update s.recvRequest (requestIndex f s) (.active s.posts.length)
    posted := s.posted + 1
    rtag := (s.rtag + 1) % s.nrepeats }

/-- `RecvData`, once `MPI_Wait` returns. -/
def recvData (f : Flags) (s : MpiState) : MpiState :=
  { s with
    recvRequest := Function.update s.recvRequest (requestIndex f s)
      (s.recvRequest (requestIndex f s)).complete
    received := s.received + 1
    rtag := if f.burst then (s.rtag + 1) % s.nrepeats else s.rtag }

/-- `DoWork`, once `Module_TestForCompletion` has returned true. -/
def doWork (f : Flags) (s : MpiState) : MpiState :=
  { s with
    recvRequest := Function.update s.recvRequest (requestIndex f s)
      (s.recvRequest (requestIndex f s)).complete }

/-- `Broadcast` of the value `v`. -/
def broadcast (f : Flags) (v : ℕ) (s : MpiState) : MpiState :=
  let s := { s with nrepeats := v, stag := 0, rtag := 0 }
  if f.burst then { s with recvRequest := fun _ => .unset, length := v } else s

/-- `Reset` does nothing in `mpi.c`; it ends the trial. -/
def reset (s : MpiState) : MpiState :=
  { s with trial := s.trial + 1, sent := 0, posted := 0, received := 0 }

end Mpi

/-- The calls of a whole run. -/
inductive MpiCall where
  | broadcast (v : ℕ)
  | call (c : Call)
  deriving DecidableEq, Repr

/-- The effect of a call on the MPI module. The calls that do not communicate, the barriers and
the gathers have none. -/
def MpiCall.exec (f : Flags) (s : MpiState) : MpiCall → MpiState
  | .broadcast v => Mpi.broadcast f v s
  | .call .sendData => Mpi.sendData s
  | .call .prepostRecv => Mpi.prepostRecv f s
  | .call .recvData => Mpi.recvData f s
  | .call .doWork => Mpi.doWork f s
  | .call .reset => Mpi.reset s
  | .call _ => s

/-- The main loop is driven by the broadcasts: of the repeat count of a test, and of `finished`
after each centre. -/
inductive Segment where
  | test (t : Test)
  | finished (v : ℕ)
  deriving Repr

/-- The calls of one segment. -/
def Segment.calls (f : Flags) (ntrials : ℕ) (side : Side) : Segment → List MpiCall
  | .test t => .broadcast t.nrepeat :: (testCalls f 1 ntrials side t.buflen t.nrepeat).map .call
  | .finished v => [.broadcast v]

/-- The calls of a run with two processes. -/
def mpiCalls (f : Flags) (ntrials : ℕ) (side : Side) (segs : List Segment) : List MpiCall :=
  segs.flatMap (Segment.calls f ntrials side)

/-! ### The messages of a run -/

/-- The `j`-th message of a trial with `n` repeats. -/
def envelope (n trial j : ℕ) : Envelope := ⟨j % n, trial, j⟩

/-- The first `k` messages of a trial. -/
def trialEnvelopes (n trial k : ℕ) : List Envelope := (List.range k).map (envelope n trial)

/-- The repeat counts of the trials of a run. -/
def trialRepeats (ntrials : ℕ) (segs : List Segment) : List ℕ :=
  segs.flatMap fun
    | .test t => List.replicate ntrials t.nrepeat
    | .finished _ => []

/-- The messages of trials with the given repeat counts, numbered from `i`. -/
def envelopes : ℕ → List ℕ → List Envelope
  | _, [] => []
  | i, n :: ns => trialEnvelopes n i n ++ envelopes (i + 1) ns

lemma trialEnvelopes_succ (n i k : ℕ) :
    trialEnvelopes n i (k + 1) = trialEnvelopes n i k ++ [envelope n i k] := by
  rw [trialEnvelopes, List.range_succ, List.map_append]
  rfl

lemma trialEnvelopes_le (n i : ℕ) {k m : ℕ} (h : k ≤ m) :
    trialEnvelopes n i k <+: trialEnvelopes n i m := by
  obtain ⟨d, rfl⟩ := Nat.exists_eq_add_of_le h
  rw [trialEnvelopes, trialEnvelopes, List.range_add, List.map_append]
  exact List.prefix_append _ _

lemma envelopes_append (i : ℕ) (ns ms : List ℕ) :
    envelopes i (ns ++ ms) = envelopes i ns ++ envelopes (i + ns.length) ms := by
  induction ns generalizing i with
  | nil => rfl
  | cons n ns ih =>
    rw [List.cons_append, envelopes, envelopes, ih, List.append_assoc, List.length_cons,
      Nat.add_right_comm, Nat.add_assoc]

/-- Every message of a run has its place in its trial as its tag, modulo the repeat count. -/
lemma mem_envelopes {i : ℕ} {ns : List ℕ} {e : Envelope} (h : e ∈ envelopes i ns) :
    i ≤ e.trial ∧ ∃ n, ns[e.trial - i]? = some n ∧ e.index < n ∧ e.tag = e.index % n := by
  induction ns generalizing i with
  | nil => cases h
  | cons n ns ih =>
    rcases List.mem_append.mp h with h | h
    · obtain ⟨j, hj, rfl⟩ := List.mem_map.mp h
      refine ⟨le_refl _, n, ?_, List.mem_range.mp hj, rfl⟩
      rw [envelope, Nat.sub_self, List.getElem?_cons_zero]
    · obtain ⟨hle, m, hm, hlt, htag⟩ := ih h
      refine ⟨Nat.le_of_succ_le hle, m, ?_, hlt, htag⟩
      rw [← hm, show e.trial - i = e.trial - (i + 1) + 1 by omega, List.getElem?_cons_succ]

/-- The messages up to a trial are those of the first repeat counts. -/
lemma envelopes_filter (pre : List ℕ) (n : ℕ) (post : List ℕ) :
    (envelopes 0 (pre ++ n :: post)).filter (fun e => e.trial ≤ pre.length) =
      envelopes 0 pre ++ trialEnvelopes n pre.length n := by
  have hpre : ∀ e ∈ envelopes 0 (pre ++ [n]), decide (e.trial ≤ pre.length) = true := by
    intro e he
    obtain ⟨-, m, hm, -⟩ := mem_envelopes he
    have hlt := (List.getElem?_eq_some_iff.mp hm).1
    rw [List.length_append, List.length_singleton, Nat.sub_zero] at hlt
    exact decide_eq_true (Nat.le_of_lt_succ hlt)
  have hpost : ∀ e ∈ envelopes (pre.length + 1) post, ¬ decide (e.trial ≤ pre.length) = true := by
    intro e he
    obtain ⟨hle, -⟩ := mem_envelopes he
    rw [decide_eq_true_eq]
    exact Nat.not_le_of_lt hle
  have hsplit : envelopes 0 (pre ++ n :: post) =
      envelopes 0 (pre ++ [n]) ++ envelopes (pre.length + 1) post := by
    rw [List.append_cons, envelopes_append, List.length_append, Nat.zero_add]
    rfl
  rw [hsplit, List.filter_append, List.filter_eq_self.mpr hpre, List.filter_eq_nil_iff.mpr hpost,
    List.append_nil, envelopes_append, Nat.zero_add]
  exact congrArg _ (List.append_nil _)

/-! ### Contracts -/

/-- Whether the loop of a side sends, and whether it receives. -/
def sendsIn (f : Flags) (side : Side) : Bool := side.loop f == .transmitter || !f.stream

def receivesIn (f : Flags) (side : Side) : Bool := side.loop f == .receiver || !f.stream

/-- What has to hold when a call is made; `run` is the list of all messages of the run in one
direction. The `j`-th `SendData` and the `j`-th `PrepostRecv` of a trial use the tag of its `j`-th
message, entries of `recvRequest` exist and are not overwritten while a receive is in progress,
and the `j`-th `RecvData` waits for the `j`-th receive. -/
def MpiContract (f : Flags) (side : Side) (run : List Envelope) : MpiCall → MpiState → Prop
  | .broadcast _, s => ∀ m, ¬ (s.recvRequest m).IsActive
  | .call .sendData, s =>
    s.stag = s.sent % s.nrepeats ∧ s.sends ++ [⟨s.stag, s.trial, s.sent⟩] <+: run
  | .call .prepostRecv, s =>
    Mpi.requestIndex f s < s.length ∧ ¬ (s.recvRequest (Mpi.requestIndex f s)).IsActive ∧
      s.posts ++ [⟨s.rtag, s.trial, s.posted⟩] <+: run
  | .call .recvData, s | .call .doWork, s =>
    Mpi.requestIndex f s < s.length ∧
      ∃ k, (s.recvRequest (Mpi.requestIndex f s) = .active k ∨
        s.recvRequest (Mpi.requestIndex f s) = .null k) ∧
      s.posts[k]? = some (envelope s.nrepeats s.trial s.received)
  | .call .reset, s =>
    s.stag = 0 ∧ s.rtag = 0 ∧ (∀ m, ¬ (s.recvRequest m).IsActive) ∧
      s.sends = (if sendsIn f side then run.filter (fun e => e.trial ≤ s.trial) else []) ∧
      s.posts = if receivesIn f side then run.filter (fun e => e.trial ≤ s.trial) else []
  | _, _ => True

/-- One process on its own: nothing else changes the state of its MPI module. -/
def mpiMachine (f : Flags) (side : Side) (run : List Envelope) :
    StraightLine.Machine MpiCall MpiState where
  env _ _ := False
  step c s s' := s' = c.exec f s
  ok := MpiContract f side run

/-! ### The state within a trial -/

/-- The entry that holds the `j`-th receive of a trial. -/
def entryOf (f : Flags) (j : ℕ) : ℕ := if f.burst then j else 0

/-- Within a trial with `n` repeats that follows trials with repeat counts `pre`: `a` messages
sent, `b` receives posted and `c` of them completed. -/
structure Within (f : Flags) (side : Side) (n : ℕ) (pre : List ℕ) (a b c : ℕ) (s : MpiState) :
    Prop where
  nrepeats : s.nrepeats = n
  length : s.length = if f.burst then n else 1
  stag : s.stag = a % n
  rtag : s.rtag = (if f.burst then b + c else b) % n
  trial : s.trial = pre.length
  sent : s.sent = a
  posted : s.posted = b
  received : s.received = c
  sends : s.sends =
    (if sendsIn f side then envelopes 0 pre else []) ++ trialEnvelopes n pre.length a
  posts : s.posts =
    (if receivesIn f side then envelopes 0 pre else []) ++ trialEnvelopes n pre.length b
  active : ∀ m, (s.recvRequest m).IsActive → ∃ j, c ≤ j ∧ j < b ∧ m = entryOf f j
  pending : ∀ j, c ≤ j → j < b → ∃ k, (s.recvRequest (entryOf f j) = .active k ∨
    s.recvRequest (entryOf f j) = .null k) ∧ s.posts[k]? = some (envelope n pre.length j)

namespace Within

variable {f : Flags} {side : Side} {n a b c : ℕ} {pre post : List ℕ} {s : MpiState}

lemma requestIndex_posting (h : Within f side n pre a b c s) (hb : b < n)
    (hbc : if f.burst then c = 0 else b = c) : Mpi.requestIndex f s = entryOf f b := by
  unfold Mpi.requestIndex entryOf
  cases hf : f.burst with
  | true =>
    rw [hf] at hbc
    rw [if_pos rfl, if_pos rfl, h.rtag, hf, if_pos rfl, show c = 0 from hbc, Nat.add_zero,
      Nat.mod_eq_of_lt hb]
  | false => rfl

lemma requestIndex_waiting (h : Within f side n pre a b c s) (hc : c < n)
    (hbn : f.burst = true → b = n) : Mpi.requestIndex f s = entryOf f c := by
  unfold Mpi.requestIndex entryOf
  cases hf : f.burst with
  | true =>
    rw [if_pos rfl, if_pos rfl, h.rtag, hf, if_pos rfl, hbn hf, Nat.add_mod_left,
      Nat.mod_eq_of_lt hc]
  | false => rfl

lemma entryOf_lt_length (h : Within f side n pre a b c s) {j : ℕ} (hj : j < n) :
    entryOf f j < s.length := by
  rw [h.length]
  unfold entryOf
  split_ifs
  · exact hj
  · exact Nat.zero_lt_one

/-- `SendData` sends the next message of the trial. -/
lemma sendData (h : Within f side n pre a b c s) :
    Within f side n pre (a + 1) b c (Mpi.sendData s) := by
  obtain ⟨h₁, h₂, h₃, h₄, h₅, h₆, h₇, h₈, h₉, h₁₀, h₁₁, h₁₂⟩ := h
  refine ⟨h₁, h₂, ?_, h₄, h₅, ?_, h₇, h₈, ?_, h₁₀, h₁₁, h₁₂⟩
  · rw [Mpi.sendData, h₃, h₁, Nat.mod_add_mod]
  · rw [Mpi.sendData, h₆]
  · rw [Mpi.sendData, h₉, h₃, h₅, h₆, trialEnvelopes_succ, List.append_assoc]
    rfl

lemma sendData_ok (h : Within f side n pre a b c s) (ha : a < n) (hs : sendsIn f side = true) :
    MpiContract f side (envelopes 0 (pre ++ n :: post)) (.call .sendData) s := by
  refine ⟨by rw [h.stag, h.sent, h.nrepeats], ?_⟩
  have hlog : s.sends ++ [⟨s.stag, s.trial, s.sent⟩] =
      envelopes 0 pre ++ trialEnvelopes n pre.length (a + 1) := by
    rw [h.sends, h.stag, h.trial, h.sent, if_pos hs, trialEnvelopes_succ, List.append_assoc]
    rfl
  rw [hlog, envelopes_append, Nat.zero_add]
  refine (List.prefix_append_right_inj _).mpr ?_
  exact (trialEnvelopes_le n _ ha).trans (List.prefix_append _ _)

/-- `PrepostRecv` posts the receive of the next message of the trial. -/
lemma prepostRecv (h : Within f side n pre a b c s) (hb : b < n)
    (hbc : if f.burst then c = 0 else b = c) :
    Within f side n pre a (b + 1) c (Mpi.prepostRecv f s) := by
  have hidx := h.requestIndex_posting hb hbc
  obtain ⟨h₁, h₂, h₃, h₄, h₅, h₆, h₇, h₈, h₉, h₁₀, h₁₁, h₁₂⟩ := h
  have hposts : (Mpi.prepostRecv f s).posts = s.posts ++ [envelope n pre.length b] := by
    have htag : s.rtag = b % n := by
      rw [h₄]
      split_ifs at hbc ⊢
      · rw [hbc, Nat.add_zero]
      · rfl
    rw [Mpi.prepostRecv, htag, h₅, h₇]
    rfl
  have hreq : (Mpi.prepostRecv f s).recvRequest =
      Function.update s.recvRequest (entryOf f b) (.active s.posts.length) := by
    rw [Mpi.prepostRecv, hidx]
  refine ⟨h₁, h₂, h₃, ?_, h₅, h₆, ?_, h₈, h₉, ?_, ?_, ?_⟩
  · rw [Mpi.prepostRecv, h₄, h₁, Nat.mod_add_mod]
    split_ifs
    · rw [Nat.add_right_comm]
    · rfl
  · rw [Mpi.prepostRecv, h₇]
  · rw [hposts, h₁₀, trialEnvelopes_succ, List.append_assoc]
  · intro m hm
    rw [hreq] at hm
    by_cases hmb : m = entryOf f b
    · -- nothing is completed before the last receive of a burst is posted
      have hcb : c ≤ b := by
        split_ifs at hbc
        · exact hbc ▸ Nat.zero_le b
        · exact hbc.ge
      exact ⟨b, hcb, Nat.lt_succ_self b, hmb⟩
    · rw [Function.update_of_ne hmb] at hm
      obtain ⟨j, hcj, hjb, hmj⟩ := h₁₁ m hm
      exact ⟨j, hcj, Nat.lt_succ_of_lt hjb, hmj⟩
  · intro j hcj hjb
    rw [hreq, hposts]
    by_cases hj : j = b
    · subst hj
      refine ⟨s.posts.length, Or.inl (Function.update_self _ _ _), ?_⟩
      rw [List.getElem?_append_right (le_refl _), Nat.sub_self, List.getElem?_cons_zero]
    · have hlt : j < b := Nat.lt_of_le_of_ne (Nat.le_of_lt_succ hjb) hj
      obtain ⟨k, hk, hpost⟩ := h₁₂ j hcj hlt
      have hne : entryOf f j ≠ entryOf f b := by
        unfold entryOf
        split_ifs at hbc ⊢
        · exact hj
        · exact absurd (hbc ▸ hcj) (Nat.not_le_of_lt hlt)
      refine ⟨k, ?_, ?_⟩
      · rw [Function.update_of_ne hne]
        exact hk
      · rw [List.getElem?_append_left (List.getElem?_eq_some_iff.mp hpost).1]
        exact hpost

lemma prepostRecv_ok (h : Within f side n pre a b c s) (hb : b < n)
    (hbc : if f.burst then c = 0 else b = c) (hr : receivesIn f side = true) :
    MpiContract f side (envelopes 0 (pre ++ n :: post)) (.call .prepostRecv) s := by
  have hidx := h.requestIndex_posting hb hbc
  refine ⟨hidx ▸ h.entryOf_lt_length hb, ?_, ?_⟩
  · rw [hidx]
    intro hact
    obtain ⟨j, hcj, hjb, hj⟩ := h.active _ hact
    unfold entryOf at hj
    split_ifs at hbc hj
    · exact absurd hj.symm (Nat.ne_of_lt hjb)
    · exact absurd (hbc ▸ hcj) (Nat.not_le_of_lt hjb)
  · have hlog : s.posts ++ [⟨s.rtag, s.trial, s.posted⟩] =
        envelopes 0 pre ++ trialEnvelopes n pre.length (b + 1) := by
      have hpost := (h.prepostRecv hb hbc).posts
      rw [if_pos hr] at hpost
      exact hpost
    rw [hlog, envelopes_append, Nat.zero_add]
    refine (List.prefix_append_right_inj _).mpr ?_
    exact (trialEnvelopes_le n _ hb).trans (List.prefix_append _ _)

/-- Both `RecvData` and `DoWork` look at the entry of the next receive. -/
lemma waiting_ok (h : Within f side n pre a b c s) (hcb : c < b) (hbn : b ≤ n)
    (hburst : f.burst = true → b = n) :
    Mpi.requestIndex f s < s.length ∧
      ∃ k, (s.recvRequest (Mpi.requestIndex f s) = .active k ∨
        s.recvRequest (Mpi.requestIndex f s) = .null k) ∧
      s.posts[k]? = some (envelope s.nrepeats s.trial s.received) := by
  have hidx := h.requestIndex_waiting (hcb.trans_le hbn) hburst
  rw [hidx, h.nrepeats, h.trial, h.received]
  exact ⟨h.entryOf_lt_length (hcb.trans_le hbn), h.pending c (le_refl c) hcb⟩

/-- Completing an entry leaves the entries of the other receives as they are. -/
lemma holds_update {j k m : ℕ} (r : ℕ → Request) (h : r j = .active k ∨ r j = .null k) :
    Function.update r m (r m).complete j = .active k ∨
      Function.update r m (r m).complete j = .null k := by
  by_cases hjm : j = m
  · subst hjm
    rw [Function.update_self]
    exact Or.inr (Request.complete_holds h)
  · rw [Function.update_of_ne hjm]
    exact h

lemma isActive_of_update {j m : ℕ} (r : ℕ → Request)
    (h : (Function.update r m (r m).complete j).IsActive) : j ≠ m ∧ (r j).IsActive := by
  by_cases hjm : j = m
  · subst hjm
    rw [Function.update_self] at h
    exact absurd h (Request.not_isActive_complete _)
  · rw [Function.update_of_ne hjm] at h
    exact ⟨hjm, h⟩

/-- `DoWork` may complete the next receive early. -/
lemma doWork (h : Within f side n pre a b c s) : Within f side n pre a b c (Mpi.doWork f s) := by
  obtain ⟨h₁, h₂, h₃, h₄, h₅, h₆, h₇, h₈, h₉, h₁₀, h₁₁, h₁₂⟩ := h
  refine ⟨h₁, h₂, h₃, h₄, h₅, h₆, h₇, h₈, h₉, h₁₀, ?_, ?_⟩
  · intro m hm
    exact h₁₁ m (isActive_of_update _ hm).2
  · intro j hcj hjb
    obtain ⟨k, hk, hpost⟩ := h₁₂ j hcj hjb
    exact ⟨k, holds_update _ hk, hpost⟩

/-- `RecvData` completes the next receive. -/
lemma recvData (h : Within f side n pre a b c s) (hcb : c < b) (hbn : b ≤ n)
    (hburst : if f.burst then b = n else b = c + 1) :
    Within f side n pre a b (c + 1) (Mpi.recvData f s) := by
  have hidx : Mpi.requestIndex f s = entryOf f c := by
    refine h.requestIndex_waiting (hcb.trans_le hbn) fun hf => ?_
    rw [if_pos hf] at hburst
    exact hburst
  obtain ⟨h₁, h₂, h₃, h₄, h₅, h₆, h₇, h₈, h₉, h₁₀, h₁₁, h₁₂⟩ := h
  refine ⟨h₁, h₂, h₃, ?_, h₅, h₆, h₇, ?_, h₉, h₁₀, ?_, ?_⟩
  · rw [Mpi.recvData, h₁, h₄]
    split_ifs
    · rw [Nat.mod_add_mod, Nat.add_assoc]
    · rfl
  · rw [Mpi.recvData, h₈]
  · intro m hm
    rw [Mpi.recvData, hidx] at hm
    obtain ⟨hne, hact⟩ := isActive_of_update _ hm
    obtain ⟨j, hcj, hjb, rfl⟩ := h₁₁ m hact
    have hjc : j ≠ c := by
      rintro rfl
      exact hne rfl
    exact ⟨j, Nat.lt_of_le_of_ne hcj hjc.symm, hjb, rfl⟩
  · intro j hcj hjb
    obtain ⟨k, hk, hpost⟩ := h₁₂ j (Nat.le_of_succ_le hcj) hjb
    exact ⟨k, holds_update _ hk, hpost⟩

end Within

end NetPipe
