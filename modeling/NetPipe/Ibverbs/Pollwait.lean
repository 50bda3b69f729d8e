import Mathlib.Tactic

/-!
# Completions

`pollwait` of `ibverbs.c` polls the completion queue of the sends and then that of the receives until
all posts are cleared. Each poll stores its batch from the start of one array, and at the end the first
entry of the array is checked.
-/

namespace NetPipe.Ibverbs

/-! ### The code -/

/-- A work completion. -/
structure Wc where
  wr_id : ℕ
  status : ℕ
  deriving DecidableEq, Repr

/-- `IBV_WC_SUCCESS` -/
def IBV_WC_SUCCESS : ℕ := 0

/-- The work request has failed. -/
def Wc.Failed (w : Wc) : Prop := w.status ≠ IBV_WC_SUCCESS

instance (w : Wc) : Decidable w.Failed := inferInstanceAs (Decidable (_ ≠ _))

/-- What a queue has for a poll: an error, or completions, of which the poll takes as many as it asks
for. -/
inductive Poll where
  | error
  | batch (l : List Wc)

/-- One of the loops: the result of the last poll, the posts that are still waited for, the global that
counts them, the array, and the batches that were taken so far. -/
structure Loop where
  ne : ℤ
  posts : ℕ
  total : ℤ
  wc : ℕ → Wc
  batches : List (List Wc)

namespace Loop

/-- `ne >= 0 && posts > 0` -/
def waits (s : Loop) : Bool := s.ne ≥ 0 ∧ s.posts > 0

/-- The batch is stored from the start of the array. -/
def store (b : List Wc) (wc : ℕ → Wc) (i : ℕ) : Wc := b.getD i (wc i)

/-- The body of a loop. -/
def poll (s : Loop) : Poll → Loop
  | .error => { s with ne := -1 }
  | .batch l =>
    if (l.take s.posts).length > 0 then
      { ne := (l.take s.posts).length
        posts := s.posts - (l.take s.posts).length
        total := s.total - (l.take s.posts).length
        wc := store (l.take s.posts) s.wc
        batches := s.batches ++ [l.take s.posts] }
    else { s with ne := 0 }

/-- A loop after at most `k` polls. -/
def run (cq : ℕ → Poll) (s : Loop) : ℕ → Loop
  | 0 => s
  | k + 1 => if (run cq s k).waits then (run cq s k).poll (cq k) else run cq s k

end Loop

/-- A call of `pollwait`, with the globals that it changes, its array as `malloc` leaves it, and what the
queues will answer. -/
structure Call where
  myproc : ℤ
  s_posts : ℕ
  r_posts : ℕ
  send_posts : ℤ
  recv_posts : ℤ
  wc : ℕ → Wc
  ib_send_cq : ℕ → Poll
  ib_recv_cq : ℕ → Poll
  ibv_wc_status_str : ℕ → String

/-- How far a call has come: it polls, it has reported a failure, or it has returned with new values of
`send_posts` and `recv_posts`. -/
inductive Outcome where
  | polling
  | failed (text : String) (strings : List String) (numbers : List ℤ)
  | returned (send_posts recv_posts : ℤ)
  deriving DecidableEq

namespace Call

/-- The loop over the sends after at most `k` polls. -/
def sends (c : Call) (k : ℕ) : Loop := Loop.run c.ib_send_cq ⟨0, c.s_posts, c.send_posts, c.wc, []⟩ k

/-- The loop over the receives, which starts where that over the sends has ended. -/
def recvs (c : Call) (k : ℕ) : Loop :=
  let start : Loop := ⟨(c.sends k).ne, c.r_posts, c.recv_posts, (c.sends k).wc, []⟩
  if (c.sends k).waits then start else Loop.run c.ib_recv_cq start k

/-- `pollwait` after at most `k` polls in each loop. -/
def pollwait (c : Call) (k : ℕ) : Outcome :=
  if (c.sends k).waits ∨ (c.recvs k).waits then .polling
  else if (c.recvs k).ne < 0 then .failed "poll CQ failed" [] []
  else if ((c.recvs k).wc 0).status ≠ IBV_WC_SUCCESS then
    .failed "%d Failed status %s (%d) for wr_id %d\n"
      [c.ibv_wc_status_str ((c.recvs k).wc 0).status]
      [c.myproc, ((c.recvs k).wc 0).status, ((c.recvs k).wc 0).wr_id]
  else .returned (c.sends k).total (c.recvs k).total

/-! ### What it is for -/

/-- The batches that were taken, those of the sends first. -/
def batches (c : Call) (k : ℕ) : List (List Wc) := (c.sends k).batches ++ (c.recvs k).batches

/-- A completion that was taken has failed. -/
def SawFailure (c : Call) (k : ℕ) : Prop := ∃ w ∈ (c.batches k).flatten, w.Failed

/-- A poll has returned an error. -/
def SawError (c : Call) (k : ℕ) : Prop := (c.recvs k).ne < 0

/-- The failure is reported sooner or later. -/
def Reported (c : Call) : Prop := ∃ k text strings numbers, c.pollwait k = .failed text strings numbers

/-- The call returns only if exactly the completions asked for were taken, all of them successful, and it
reports every failed completion and every failed poll. -/
structure Detects (c : Call) : Prop where
  returned : ∀ k s r, c.pollwait k = .returned s r →
    (c.sends k).batches.flatten.length = c.s_posts ∧ (c.recvs k).batches.flatten.length = c.r_posts ∧
      (∀ w ∈ (c.batches k).flatten, ¬ w.Failed) ∧ s = c.send_posts - c.s_posts ∧
      r = c.recv_posts - c.r_posts
  reported : ∀ k, c.SawFailure k ∨ c.SawError k → c.Reported

/-- The first completion of the last batch. -/
def lastFirst (c : Call) (k : ℕ) : Option Wc := (c.batches k).getLast?.bind List.head?

/-- The queues come to an end behind every failed completion, with an error, or with a last batch that
begins with a failed completion. -/
def Covered (c : Call) : Prop :=
  ∀ k, c.SawFailure k → ∃ k', (c.sends k').waits = false ∧ (c.recvs k').waits = false ∧
    (c.SawError k' ∨ ∃ w, c.lastFirst k' = some w ∧ w.Failed)

end Call

/-! ### One loop -/

namespace Loop

variable {cq : ℕ → Poll} {s : Loop} {k k' : ℕ}

lemma waits_iff : s.waits = true ↔ 0 ≤ s.ne ∧ 0 < s.posts := by simp [waits]

/-- The first completion of the last batch. -/
def first (batches : List (List Wc)) : Option Wc := batches.getLast?.bind List.head?

lemma first_append {bs : List (List Wc)} {b : List Wc} : first (bs ++ [b]) = b.head? := by
  simp [first]

lemma store_zero {b : List Wc} {wc : ℕ → Wc} : store b wc 0 = b.head?.getD (wc 0) := by
  cases b <;> rfl

/-- What a loop keeps: every completion that was taken is counted, the batches are not empty, and the last
one begins the array. -/
structure Kept (s t : Loop) : Prop where
  posts : t.posts + t.batches.flatten.length = s.posts
  total : t.total = s.total - t.batches.flatten.length
  ne_nil : ∀ b ∈ t.batches, b ≠ []
  wc : t.wc 0 = (first t.batches).getD (s.wc 0)

lemma kept_poll {t : Loop} (h : Kept s t) (a : Poll) : Kept s (t.poll a) := by
  cases a with
  | error => exact ⟨h.posts, h.total, h.ne_nil, h.wc⟩
  | batch l =>
    rw [poll]
    split_ifs with hpos
    · have hposts := h.posts
      have htotal := h.total
      have hle : (l.take t.posts).length ≤ t.posts := List.length_take_le _ _
      constructor
      · simp only [List.flatten_append, List.flatten_singleton, List.length_append]
        omega
      · simp only [List.flatten_append, List.flatten_singleton, List.length_append]
        push_cast
        omega
      · intro b hb
        rcases List.mem_append.mp hb with hb | hb
        · exact h.ne_nil b hb
        · rw [List.mem_singleton.mp hb]
          exact List.ne_nil_of_length_pos hpos
      · obtain ⟨w, hw⟩ := Option.isSome_iff_exists.mp (List.isSome_head?.mpr (List.length_pos_iff.mp hpos))
        simp only [store_zero, first_append, hw, Option.getD_some]
    · exact ⟨h.posts, h.total, h.ne_nil, h.wc⟩

lemma kept_start (hs : s.batches = []) : Kept s s := by
  constructor <;> simp [hs, first]

lemma kept_run (hs : s.batches = []) (k : ℕ) : Kept s (run cq s k) := by
  induction k with
  | zero => exact kept_start hs
  | succ k ih =>
    rw [run]
    split_ifs
    · exact kept_poll ih _
    · exact ih

/-- A loop that has ended stays as it is. -/
lemma run_stable (h : (run cq s k).waits = false) (hk : k ≤ k') : run cq s k' = run cq s k := by
  induction k', hk using Nat.le_induction with
  | base => rfl
  | succ k' hk ih => rw [run, ih, h, if_neg Bool.false_ne_true]

lemma prefix_poll (s : Loop) (a : Poll) : s.batches <+: (s.poll a).batches := by
  cases a with
  | error => exact List.prefix_rfl
  | batch l =>
    rw [poll]
    split_ifs
    · exact List.prefix_append _ _
    · exact List.prefix_rfl

/-- The batches that were taken stay taken. -/
lemma prefix_run (hk : k ≤ k') : (run cq s k).batches <+: (run cq s k').batches := by
  induction k', hk using Nat.le_induction with
  | base => exact List.prefix_rfl
  | succ k' hk ih =>
    rw [run]
    split_ifs
    · exact ih.trans (prefix_poll _ _)
    · exact ih

end Loop

/-! ### The call -/

namespace Call

open Loop

variable {c : Call} {k k' : ℕ}

/-- Both loops have ended. -/
def Ended (c : Call) (k : ℕ) : Prop := (c.sends k).waits = false ∧ (c.recvs k).waits = false

lemma kept_sends (c : Call) (k : ℕ) :
    Kept ⟨0, c.s_posts, c.send_posts, c.wc, []⟩ (c.sends k) := kept_run rfl k

lemma kept_recvs (c : Call) (k : ℕ) :
    Kept ⟨(c.sends k).ne, c.r_posts, c.recv_posts, (c.sends k).wc, []⟩ (c.recvs k) := by
  rw [recvs]
  split_ifs
  · exact kept_start rfl
  · exact kept_run rfl k

lemma recvs_of_ended (h : (c.sends k).waits = false) : c.recvs k =
    Loop.run c.ib_recv_cq ⟨(c.sends k).ne, c.r_posts, c.recv_posts, (c.sends k).wc, []⟩ k := by
  rw [recvs, h]
  rfl

/-- A call that has ended stays as it is. -/
lemma Ended.stable (h : c.Ended k) (hk : k ≤ k') : c.sends k' = c.sends k ∧ c.recvs k' = c.recvs k := by
  obtain ⟨hsends, hrecvs⟩ := h
  have hs : c.sends k' = c.sends k := Loop.run_stable hsends hk
  refine ⟨hs, ?_⟩
  rw [recvs_of_ended hsends] at hrecvs ⊢
  rw [recvs_of_ended (by rw [hs, hsends]), hs]
  exact Loop.run_stable hrecvs hk

lemma Ended.eq (h : c.Ended k) (h' : c.Ended k') : c.sends k' = c.sends k ∧ c.recvs k' = c.recvs k := by
  rcases le_total k k' with hk | hk
  · exact h.stable hk
  · exact ⟨(h'.stable hk).1.symm, (h'.stable hk).2.symm⟩

lemma prefix_batches (c : Call) (hk : k ≤ k') : c.batches k <+: c.batches k' := by
  rw [batches, batches]
  cases hsends : (c.sends k).waits with
  | true =>
    have hnone : (c.recvs k).batches = [] := by rw [recvs, if_pos hsends]
    rw [hnone, List.append_nil]
    exact (Loop.prefix_run hk).trans (List.prefix_append _ _)
  | false =>
    have hs : c.sends k' = c.sends k := Loop.run_stable hsends hk
    rw [recvs_of_ended hsends, recvs_of_ended (by rw [hs, hsends]), hs]
    exact (List.prefix_append_right_inj _).mpr (Loop.prefix_run hk)

lemma SawFailure.mono (h : c.SawFailure k) (hk : k ≤ k') : c.SawFailure k' := by
  obtain ⟨w, hw, hfailed⟩ := h
  obtain ⟨l, hl⟩ := c.prefix_batches hk
  refine ⟨w, ?_, hfailed⟩
  rw [← hl, List.flatten_append]
  exact List.mem_append_left _ hw

lemma ended_of_sawError (h : c.SawError k) : c.Ended k := by
  have hrecvs : (c.recvs k).waits = false := by
    rw [← Bool.not_eq_true, Loop.waits_iff]
    exact fun hw => absurd hw.1 (not_le.mpr h)
  refine ⟨?_, hrecvs⟩
  by_contra hsends
  rw [Bool.not_eq_false] at hsends
  rw [SawError, recvs, if_pos hsends] at h
  exact absurd (Loop.waits_iff.mp hsends).1 (not_le.mpr h)

/-- The array begins with the first completion of the last batch. -/
lemma wc_eq (c : Call) (k : ℕ) : (c.recvs k).wc 0 = (c.lastFirst k).getD (c.wc 0) := by
  have hwc : (c.recvs k).wc 0 = (first (c.recvs k).batches).getD ((c.sends k).wc 0) :=
    (c.kept_recvs k).wc
  rw [hwc, (c.kept_sends k).wc, lastFirst, batches]
  rcases List.eq_nil_or_concat (c.recvs k).batches with hnil | ⟨bs, b, hb⟩
  · rw [hnil, List.append_nil]
    rfl
  · have hne : b ≠ [] := (c.kept_recvs k).ne_nil b (by rw [hb]; simp)
    obtain ⟨w, hw⟩ := Option.isSome_iff_exists.mp (List.isSome_head?.mpr hne)
    have hlast : ((c.sends k).batches ++ (bs ++ [b])).getLast?.bind List.head? = b.head? := by
      rw [← List.append_assoc]
      exact Loop.first_append
    rw [hb, List.concat_eq_append, Loop.first_append, hlast, hw]
    rfl

/-- What the call reports. -/
lemma pollwait_failed_iff (c : Call) (k : ℕ) :
    (∃ text strings numbers, c.pollwait k = .failed text strings numbers) ↔
      c.Ended k ∧ (c.SawError k ∨ ((c.recvs k).wc 0).Failed) := by
  rw [pollwait, Ended, SawError, Wc.Failed]
  by_cases hwaits : (c.sends k).waits ∨ (c.recvs k).waits
  · rw [if_pos hwaits]
    refine iff_of_false ?_ ?_
    · rintro ⟨text, strings, numbers, h⟩
      cases h
    · rintro ⟨⟨hs, hr⟩, -⟩
      simp [hs, hr] at hwaits
  · have hended : (c.sends k).waits = false ∧ (c.recvs k).waits = false := by
      simpa using hwaits
    rw [if_neg hwaits]
    split_ifs with herror hstatus
    · exact iff_of_true ⟨_, _, _, rfl⟩ ⟨hended, .inl herror⟩
    · exact iff_of_true ⟨_, _, _, rfl⟩ ⟨hended, .inr hstatus⟩
    · refine iff_of_false ?_ ?_
      · rintro ⟨text, strings, numbers, h⟩
        cases h
      · rintro ⟨-, h | h⟩
        · exact herror h
        · exact hstatus h

/-- When the call returns. -/
lemma pollwait_returned {s r : ℤ} (h : c.pollwait k = .returned s r) :
    c.Ended k ∧ ¬ c.SawError k ∧ ¬ ((c.recvs k).wc 0).Failed ∧ s = (c.sends k).total ∧
      r = (c.recvs k).total := by
  rw [pollwait] at h
  split_ifs at h with hwaits herror hstatus
  cases h
  exact ⟨by simpa [Ended] using hwaits, herror, hstatus, rfl, rfl⟩

/-- A loop that ends without an error has cleared all its posts. -/
lemma cleared {t : Loop} (hwaits : t.waits = false) (hne : ¬ t.ne < 0) : t.posts = 0 := by
  rw [← Bool.not_eq_true, Loop.waits_iff] at hwaits
  omega

/-- An error while the sends are polled ends the call. -/
lemma sends_ne_nonneg (h : c.Ended k) (herror : ¬ c.SawError k) : ¬ (c.sends k).ne < 0 := by
  intro hneg
  have hstart : ∀ j, Loop.run c.ib_recv_cq
      ⟨(c.sends k).ne, c.r_posts, c.recv_posts, (c.sends k).wc, []⟩ j =
        ⟨(c.sends k).ne, c.r_posts, c.recv_posts, (c.sends k).wc, []⟩ := by
    intro j
    refine Loop.run_stable (k := 0) ?_ (Nat.zero_le j)
    rw [← Bool.not_eq_true, Loop.waits_iff]
    exact fun hw => absurd hw.1 (not_le.mpr hneg)
  rw [SawError, recvs_of_ended h.1, hstart] at herror
  exact herror hneg

/-- A failed completion that begins the last batch is found at the end. -/
lemma reported_of_lastFirst {w : Wc} (h : c.Ended k) (hlast : c.lastFirst k = some w)
    (hw : w.Failed) : c.Reported := by
  refine ⟨k, (c.pollwait_failed_iff k).mpr ⟨h, .inr ?_⟩⟩
  rw [wc_eq, hlast]
  exact hw

lemma reported_of_sawError (h : c.SawError k) : c.Reported :=
  ⟨k, (c.pollwait_failed_iff k).mpr ⟨ended_of_sawError h, .inl h⟩⟩

lemma covered_of_detects (h : c.Detects) : c.Covered := by
  intro k hfailure
  obtain ⟨k', hk'⟩ := h.reported k (.inl hfailure)
  obtain ⟨hended, herror | hwc⟩ := (c.pollwait_failed_iff k').mp hk'
  · exact ⟨k', hended.1, hended.2, .inl herror⟩
  -- behind both moments the batches are those at the end, and one of them has failed
  have hlater := hfailure.mono (le_max_left k k')
  have hstable := hended.stable (le_max_right k k')
  have hsame : c.batches (max k k') = c.batches k' := by rw [batches, batches, hstable.1, hstable.2]
  obtain ⟨w, hw, -⟩ := hlater
  rw [hsame] at hw
  cases hlast : c.lastFirst k' with
  | some w' =>
    rw [wc_eq, hlast] at hwc
    exact ⟨k', hended.1, hended.2, .inr ⟨w', hlast, hwc⟩⟩
  | none =>
    rcases List.eq_nil_or_concat (c.batches k') with hnil | ⟨bs, b, hb⟩
    · rw [hnil] at hw
      cases hw
    · rw [lastFirst, hb, List.concat_eq_append, ← Loop.first, Loop.first_append,
        List.head?_eq_none_iff] at hlast
      have hmem : b ∈ c.batches k' := by rw [hb]; simp
      rcases List.mem_append.mp hmem with hmem | hmem
      · exact absurd hlast ((c.kept_sends k').ne_nil b hmem)
      · exact absurd hlast ((c.kept_recvs k').ne_nil b hmem)

lemma detects_of_covered (h : c.Covered) : c.Detects := by
  constructor
  · intro k s r hreturned
    obtain ⟨hended, herror, hwc, rfl, rfl⟩ := pollwait_returned hreturned
    have hsends := cleared hended.1 (sends_ne_nonneg hended herror)
    have hrecvs := cleared hended.2 herror
    have hs := (c.kept_sends k).posts
    have hr := (c.kept_recvs k).posts
    have hstotal := (c.kept_sends k).total
    have hrtotal := (c.kept_recvs k).total
    simp only at hs hr hstotal hrtotal
    refine ⟨by omega, by omega, ?_, by omega, by omega⟩
    intro w hw hfailed
    obtain ⟨k', hs', hr', herror' | ⟨w', hlast, hw'⟩⟩ := h k ⟨w, hw, hfailed⟩
    · have heq := hended.eq ⟨hs', hr'⟩
      rw [SawError, heq.2] at herror'
      exact herror herror'
    · have heq := hended.eq ⟨hs', hr'⟩
      have hwc' := c.wc_eq k'
      rw [hlast, Option.getD_some, heq.2] at hwc'
      rw [hwc'] at hwc
      exact hwc hw'
  · rintro k (hfailure | herror)
    · obtain ⟨k', hs', hr', herror' | ⟨w, hlast, hw⟩⟩ := h k hfailure
      · exact reported_of_sawError herror'
      · exact reported_of_lastFirst ⟨hs', hr'⟩ hlast hw
    · exact reported_of_sawError herror

/-- Every failed completion is detected if and only if behind each the queues come to an end that the
call looks at: an error, or a last batch that begins with a failed completion. -/
theorem detects_iff_covered (c : Call) : c.Detects ↔ c.Covered :=
  ⟨covered_of_detects, detects_of_covered⟩

/-- One send and two receives, of which the second fails. -/
def secondFails : Call where
  myproc := 0
  s_posts := 1
  r_posts := 2
  send_posts := 1
  recv_posts := 2
  wc _ := ⟨0, 0⟩
  ib_send_cq _ := .batch [⟨1, 0⟩]
  ib_recv_cq _ := .batch [⟨2, 0⟩, ⟨3, 5⟩]
  ibv_wc_status_str _ := ""

/-- The failed receive is the second of its batch, and the call returns. -/
theorem not_detects_secondFails : ¬ secondFails.Detects := by
  intro h
  have hreturned : secondFails.pollwait 1 = .returned 0 0 := rfl
  obtain ⟨-, -, hall, -⟩ := h.returned 1 0 0 hreturned
  exact hall ⟨3, 5⟩ (by decide) (by decide)

end Call

end NetPipe.Ibverbs
