import NetPipe.Mpi.Trials

/-!
# Two processes with the MPI module

Both processes of a pair run their calls in any interleaving; messages are matched with posted
receives by tag, at any time. Barriers, gathers and broadcasts are not required to synchronize:
what is shown holds in more interleavings than a real run has.
-/

namespace NetPipe

open StraightLine Relation

/-- Both processes with the calls they have left, and the pairs of a message of a side and a
receive posted by its peer that were matched so far. -/
structure MpiSystem where
  todo : Side → List MpiCall
  mpi : Side → MpiState
  matched : Side → List (ℕ × ℕ)

namespace MpiSystem

variable (f : Flags)

/-- The start of a run. -/
def init (ntrials : ℕ) (segs : List Segment) : MpiSystem where
  todo side := mpiCalls f ntrials (side.loop f) segs
  mpi _ := Mpi.setup
  matched _ := []

/-- `MPI_Wait` and the polling of `DoWork` return once the receive of the entry is matched, at once
if there is none in progress. -/
def Ready (g : MpiSystem) (side : Side) : MpiCall → Prop
  | .call .recvData | .call .doWork => ∀ k,
    (g.mpi side).recvRequest (Mpi.requestIndex f (g.mpi side)) = .active k →
      ∃ i, (i, k) ∈ g.matched side.peer
  | _ => True

/-- A step of the system: a process makes its next call, or a message is matched with a receive
that has its tag. -/
inductive Step : MpiSystem → MpiSystem → Prop where
  | call (g : MpiSystem) (side : Side) (c : MpiCall) (cs : List MpiCall)
      (hc : g.todo side = c :: cs) (hready : g.Ready f side c) :
      Step g { g with
        todo := Function.update g.todo side cs
        mpi := Function.update g.mpi side (c.exec f (g.mpi side)) }
  | deliver (g : MpiSystem) (side : Side) (i k : ℕ)
      (h : TagMatch.CanMatch Envelope.tag (g.mpi side).sends (g.mpi side.peer).posts
        (g.matched side) i k) :
      Step g { g with matched := Function.update g.matched side ((i, k) :: g.matched side) }

/-- The states of a run. -/
def Reach (ntrials : ℕ) (segs : List Segment) : MpiSystem → Prop :=
  ReflTransGen (Step f) (init f ntrials segs)

/-- The messages of a run, in either direction. -/
def messages (ntrials : ℕ) (segs : List Segment) : List Envelope :=
  envelopes 0 (trialRepeats ntrials segs)

/-- The invariant of a run. -/
structure Inv (run : List Envelope) (g : MpiSystem) : Prop where
  safe : ∀ side, Safe (mpiMachine f side run) (g.todo side) (fun _ => True) (g.mpi side)
  sends : ∀ side, (g.mpi side).sends <+: run
  posts : ∀ side, (g.mpi side).posts <+: run
  aligned : ∀ side, TagMatch.Aligned (g.matched side)
  bound : ∀ side, ∀ x ∈ g.matched side,
    x.1 < (g.mpi side).sends.length ∧ x.2 < (g.mpi side.peer).posts.length
  -- a receive that is not matched is in progress in some entry
  pending : ∀ side k, k < (g.mpi side).posts.length →
    (∃ i, (i, k) ∈ g.matched side.peer) ∨ ∃ m, (g.mpi side).recvRequest m = .active k

/-! ### One call -/

section

variable {f} {side : Side} {run : List Envelope} {c : MpiCall} {s : MpiState}

/-- A call appends to the history, and stays within the messages of the run. -/
lemma exec_sends (hok : MpiContract f side run c s) (h : s.sends <+: run) :
    s.sends <+: (c.exec f s).sends ∧ (c.exec f s).sends <+: run := by
  cases c with
  | broadcast v =>
    have heq : (Mpi.broadcast f v s).sends = s.sends := by
      unfold Mpi.broadcast
      split_ifs <;> rfl
    rw [MpiCall.exec, heq]
    exact ⟨List.prefix_rfl, h⟩
  | call c =>
    cases c
    case sendData => exact ⟨List.prefix_append _ _, hok.2⟩
    all_goals exact ⟨List.prefix_rfl, h⟩

lemma exec_posts (hok : MpiContract f side run c s) (h : s.posts <+: run) :
    s.posts <+: (c.exec f s).posts ∧ (c.exec f s).posts <+: run := by
  cases c with
  | broadcast v =>
    have heq : (Mpi.broadcast f v s).posts = s.posts := by
      unfold Mpi.broadcast
      split_ifs <;> rfl
    rw [MpiCall.exec, heq]
    exact ⟨List.prefix_rfl, h⟩
  | call c =>
    cases c
    case prepostRecv => exact ⟨List.prefix_append _ _, hok.2.2⟩
    all_goals exact ⟨List.prefix_rfl, h⟩

/-- Completing an entry whose receive is matched loses no receive. -/
lemma pending_update {matched : ℕ → Prop} {r : ℕ → Request} {m k : ℕ}
    (hready : ∀ k, r m = .active k → matched k) (h : matched k ∨ ∃ m, r m = .active k) :
    matched k ∨ ∃ m', Function.update r m (r m).complete m' = .active k := by
  rcases h with h | ⟨m', hm'⟩
  · exact Or.inl h
  · by_cases heq : m' = m
    · exact Or.inl (hready k (heq ▸ hm'))
    · refine Or.inr ⟨m', ?_⟩
      rw [Function.update_of_ne heq]
      exact hm'

/-- After a call, a receive that is not matched is still in progress in some entry. -/
lemma exec_pending {matched : ℕ → Prop} (hok : MpiContract f side run c s)
    (hready : c = .call .recvData ∨ c = .call .doWork →
      ∀ k, s.recvRequest (Mpi.requestIndex f s) = .active k → matched k)
    (h : ∀ k, k < s.posts.length → matched k ∨ ∃ m, s.recvRequest m = .active k) :
    ∀ k, k < (c.exec f s).posts.length →
      matched k ∨ ∃ m, (c.exec f s).recvRequest m = .active k := by
  intro k hk
  cases c with
  | broadcast v =>
    -- no receive is in progress when `recvRequest` is allocated anew
    have heq : (Mpi.broadcast f v s).posts = s.posts := by
      unfold Mpi.broadcast
      split_ifs <;> rfl
    rw [MpiCall.exec, heq] at hk
    rcases h k hk with hmatched | ⟨m, hm⟩
    · exact Or.inl hmatched
    · exact absurd ⟨k, hm⟩ (hok m)
  | call c =>
    cases c
    case prepostRecv =>
      obtain ⟨-, hidle, -⟩ := hok
      have hlen : k < s.posts.length + 1 := by
        rwa [MpiCall.exec, Mpi.prepostRecv, List.length_append] at hk
      rcases Nat.lt_succ_iff_lt_or_eq.mp hlen with hlt | rfl
      · rcases h k hlt with hmatched | ⟨m, hm⟩
        · exact Or.inl hmatched
        · have hne : m ≠ Mpi.requestIndex f s := by
            rintro rfl
            exact hidle ⟨k, hm⟩
          exact Or.inr ⟨m, (Function.update_of_ne hne _ _).trans hm⟩
      · exact Or.inr ⟨Mpi.requestIndex f s, Function.update_self _ _ _⟩
    case recvData => exact pending_update (hready (Or.inl rfl)) (h k hk)
    case doWork => exact pending_update (hready (Or.inr rfl)) (h k hk)
    all_goals exact h k hk

end

/-! ### Runs -/

section

variable {f} {run : List Envelope} {g g' : MpiSystem}

/-- A call keeps the invariant. -/
lemma Inv.call (h : Inv f run g) {side : Side} {c : MpiCall} {cs : List MpiCall}
    (hc : g.todo side = c :: cs) (hready : g.Ready f side c) :
    Inv f run { g with
      todo := Function.update g.todo side cs
      mpi := Function.update g.mpi side (c.exec f (g.mpi side)) } := by
  obtain ⟨hsafe, hsends, hposts, haligned, hbound, hpending⟩ := h
  have hrun := hsafe side
  rw [hc] at hrun
  have hok := hrun.ok
  obtain ⟨hsgrow, hsrun⟩ := exec_sends hok (hsends side)
  obtain ⟨hpgrow, hprun⟩ := exec_posts hok (hposts side)
  have hlens : ∀ t, (g.mpi t).sends.length ≤
        (Function.update g.mpi side (c.exec f (g.mpi side)) t).sends.length ∧
      (g.mpi t).posts.length ≤
        (Function.update g.mpi side (c.exec f (g.mpi side)) t).posts.length :=
    (Function.forall_update_iff _ fun t (s : MpiState) =>
      (g.mpi t).sends.length ≤ s.sends.length ∧ (g.mpi t).posts.length ≤ s.posts.length).mpr
      ⟨⟨hsgrow.length_le, hpgrow.length_le⟩, fun _ _ => ⟨le_refl _, le_refl _⟩⟩
  refine ⟨fun t => ?_, ?_, ?_, haligned, fun t x hx => ?_, ?_⟩
  · by_cases ht : t = side
    · subst ht
      simp only [Function.update_self]
      exact hrun.step rfl
    · simp only [Function.update_of_ne ht]
      exact hsafe t
  · exact (Function.forall_update_iff _ fun _ (s : MpiState) => s.sends <+: run).mpr
      ⟨hsrun, fun t _ => hsends t⟩
  · exact (Function.forall_update_iff _ fun _ (s : MpiState) => s.posts <+: run).mpr
      ⟨hprun, fun t _ => hposts t⟩
  · obtain ⟨h₁, h₂⟩ := hbound t x hx
    exact ⟨h₁.trans_le (hlens t).1, h₂.trans_le (hlens t.peer).2⟩
  · refine (Function.forall_update_iff _ fun t (s : MpiState) => ∀ k, k < s.posts.length →
      (∃ i, (i, k) ∈ g.matched t.peer) ∨ ∃ m, s.recvRequest m = .active k).mpr
      ⟨exec_pending hok (fun hwait => ?_) (hpending side), fun t _ => hpending t⟩
    rcases hwait with rfl | rfl <;> exact hready

/-- A match keeps the invariant. -/
lemma Inv.deliver (h : Inv f run g) {side : Side} {i k : ℕ}
    (hmatch : TagMatch.CanMatch Envelope.tag (g.mpi side).sends (g.mpi side.peer).posts
      (g.matched side) i k) :
    Inv f run { g with matched := Function.update g.matched side ((i, k) :: g.matched side) } := by
  obtain ⟨hsafe, hsends, hposts, haligned, hbound, hpending⟩ := h
  have hik := hmatch.aligned (hsends side) (hposts side.peer) (haligned side)
  obtain ⟨_, hi, hk⟩ := hmatch
  have hgrow : ∀ t, g.matched t ⊆ Function.update g.matched side ((i, k) :: g.matched side) t :=
    (Function.forall_update_iff _ fun t l => g.matched t ⊆ l).mpr
      ⟨List.subset_cons_self _ _, fun _ _ => List.Subset.refl _⟩
  refine ⟨hsafe, hsends, hposts, ?_, ?_, fun t j hj => ?_⟩
  · exact (Function.forall_update_iff _ fun _ l => TagMatch.Aligned l).mpr
      ⟨(haligned side).cons hik, fun t _ => haligned t⟩
  · refine (Function.forall_update_iff _ fun t (l : List (ℕ × ℕ)) => ∀ x ∈ l,
      x.1 < (g.mpi t).sends.length ∧
      x.2 < (g.mpi t.peer).posts.length).mpr ⟨fun x hx => ?_, fun t _ => hbound t⟩
    rcases List.mem_cons.mp hx with rfl | hx
    · exact ⟨hi.lt_length, hk.lt_length⟩
    · exact hbound side x hx
  · rcases hpending t j hj with ⟨i', hi'⟩ | hact
    · exact Or.inl ⟨i', hgrow _ hi'⟩
    · exact Or.inr hact

/-- The invariant holds in every run. -/
lemma Reach.inv (hasync : f.async = true) {ntrials : ℕ} {segs : List Segment}
    (h : Reach f ntrials segs g) : Inv f (messages ntrials segs) g := by
  induction h with
  | refl =>
    refine ⟨fun side => ?_, fun side => List.nil_prefix, fun side => List.nil_prefix,
      fun side x hx => ?_, fun side x hx => ?_, fun side k hk => ?_⟩
    · exact (run_triple hasync ntrials segs _ between_setup).mono fun _ _ => trivial
    · cases hx
    · cases hx
    · cases hk
  | tail _ hstep ih =>
    cases hstep with
    | call side c cs hc hready => exact ih.call hc hready
    | deliver side i k hmatch => exact ih.deliver hmatch

end

/-- Both processes are about to end trial `i`. -/
def AtTrialEnd (g : MpiSystem) (i : ℕ) : Prop :=
  ∀ side, (∃ cs, g.todo side = .call .reset :: cs) ∧ (g.mpi side).trial = i

/-- The tags are back at zero and no message and no receive is left unmatched. -/
def Settled (g : MpiSystem) : Prop :=
  ∀ side, (g.mpi side).stag = 0 ∧ (g.mpi side).rtag = 0 ∧
    (∀ i < (g.mpi side).sends.length, ∃ k, (i, k) ∈ g.matched side) ∧
    ∀ k < (g.mpi side).posts.length, ∃ i, (i, k) ∈ g.matched side.peer

/-- What one side sends the other receives. -/
lemma sendsIn_eq (hmode : f.stream = true → f.bidir = false) (side : Side) :
    sendsIn f side = receivesIn f side.peer := by
  unfold sendsIn receivesIn Side.loop
  cases hs : f.stream with
  | true =>
    rw [hmode hs]
    cases side <;> rfl
  | false => rw [Bool.not_false, Bool.or_true, Bool.or_true]

/-- The tag protocol in one state of a run. Every matched pair is of a message and a receive with the
same place in the same trial, and their common tag is that place modulo the repeat count; the next
call of each process meets its contract; and at the end of a trial everything is matched. -/
structure TagProtocol (ntrials : ℕ) (segs : List Segment) (g : MpiSystem) : Prop where
  matched : ∀ side, ∀ x ∈ g.matched side, ∃ e n, (g.mpi side).sends[x.1]? = some e ∧
    (g.mpi side.peer).posts[x.2]? = some e ∧ (trialRepeats ntrials segs)[e.trial]? = some n ∧
    e.index < n ∧ e.tag = e.index % n
  contract : ∀ side c cs, g.todo side = c :: cs →
    MpiContract f side (messages ntrials segs) c (g.mpi side)
  settled : ∀ i, g.AtTrialEnd i → g.Settled

/-- The tag protocol holds in every run with two processes, in every mode and interleaving. -/
theorem mpi_tags {f : Flags} (hasync : f.async = true)
    (hmode : f.stream = true → f.bidir = false) (ntrials : ℕ) (segs : List Segment)
    {g : MpiSystem} (hg : Reach f ntrials segs g) : TagProtocol f ntrials segs g := by
  have hinv := hg.inv hasync
  refine ⟨fun side x hx => ?_, fun side c cs hc => ?_, fun i hend side => ?_⟩
  · obtain ⟨hlt, hlt'⟩ := hinv.bound side x hx
    have hx' : x.1 = x.2 := hinv.aligned side x hx
    rw [← hx'] at hlt' ⊢
    have hmem : (g.mpi side).sends[x.1] ∈ messages ntrials segs :=
      (hinv.sends side).mem (List.getElem_mem hlt)
    obtain ⟨-, n, hn, hidx, htag⟩ := mem_envelopes hmem
    refine ⟨_, n, List.getElem?_eq_getElem hlt, ?_, hn, hidx, htag⟩
    rw [← TagMatch.getElem?_eq_of_common (hinv.sends side) (hinv.posts side.peer) hlt hlt']
    exact List.getElem?_eq_getElem hlt
  · have hrun := hinv.safe side
    rw [hc] at hrun
    exact hrun.ok
  · have hcontract : ∀ t, MpiContract f t (messages ntrials segs) (.call .reset) (g.mpi t) := by
      intro t
      obtain ⟨⟨cs, hc⟩, -⟩ := hend t
      have hrun := hinv.safe t
      rw [hc] at hrun
      exact hrun.ok
    obtain ⟨hstag, hrtag, -, hsends, -⟩ := hcontract side
    have hposts : ∀ t, ∀ k < (g.mpi t).posts.length, ∃ i, (i, k) ∈ g.matched t.peer := by
      intro t k hk
      obtain ⟨-, -, hidle, -⟩ := hcontract t
      rcases hinv.pending t k hk with hmatched | ⟨m, hm⟩
      · exact hmatched
      · exact absurd ⟨k, hm⟩ (hidle m)
    refine ⟨hstag, hrtag, fun j hj => ?_, hposts side⟩
    obtain ⟨-, -, -, -, hpeer⟩ := hcontract side.peer
    rw [(hend side).2, sendsIn_eq f hmode] at hsends
    rw [(hend side.peer).2] at hpeer
    rw [hsends, ← hpeer] at hj
    obtain ⟨j', hj'⟩ := hposts side.peer j hj
    rw [Side.peer_peer] at hj'
    obtain rfl : j' = j := hinv.aligned side _ hj'
    exact ⟨j', hj'⟩

/-- A ping-pong run with one message in each direction, up to the arrival of the first. -/
theorem mpi_tags_single :
    let f : Flags := ⟨true, false, false, false, true, false⟩
    let segs : List Segment := [.test ⟨8, 1, by decide, by decide⟩]
    ∃ g, Reach f 1 segs g ∧ (0, 0) ∈ g.matched .transmitter ∧ TagProtocol f 1 segs g := by
  intro f segs
  obtain ⟨g, hg, hmem⟩ : ∃ g, Reach f 1 segs g ∧ (0, 0) ∈ g.matched .transmitter := by
    have hr := ReflTransGen.refl (r := Step f) (a := init f 1 segs)
    -- the receiver up to its first `PrepostRecv`
    have hr := hr.tail (.call _ .receiver _ _ rfl trivial)
    have hr := hr.tail (.call _ .receiver _ _ rfl trivial)
    have hr := hr.tail (.call _ .receiver _ _ rfl trivial)
    have hr := hr.tail (.call _ .receiver _ _ rfl trivial)
    -- the transmitter up to its first `SendData`
    have hr := hr.tail (.call _ .transmitter _ _ rfl trivial)
    have hr := hr.tail (.call _ .transmitter _ _ rfl trivial)
    have hr := hr.tail (.call _ .transmitter _ _ rfl trivial)
    have hr := hr.tail (.call _ .transmitter _ _ rfl trivial)
    have hr := hr.tail (.call _ .transmitter _ _ rfl trivial)
    have hr := hr.tail (.call _ .transmitter _ _ rfl trivial)
    have hr := hr.tail (.call _ .transmitter _ _ rfl trivial)
    have hr := hr.tail (.deliver _ .transmitter 0 0
      (TagMatch.canMatch_zero Envelope.tag (a := ⟨0, 0, 0⟩) (b := ⟨0, 0, 0⟩) rfl rfl rfl))
    exact ⟨_, hr, List.mem_cons_self⟩
  exact ⟨g, hg, hmem, mpi_tags rfl (fun h => by cases h) 1 segs hg⟩

end MpiSystem

end NetPipe
