import NetPipe.Driver.Calls
import NetPipe.Library.StraightLine

/-!
# Rules for the trial loops

An invariant `I a b c` of a trial speaks of `a` messages sent, `b` receives posted and `c` messages
received. From rules for the calls that concern one message come the rules for the passes of both
loops, for every mode.
-/

namespace NetPipe

open StraightLine

/-- The receives posted while no message is awaited, after `c` messages. -/
def postedIdle (f : Flags) (n c : ℕ) : ℕ := if f.burst then n else c

/-- The receives posted while message `c` is awaited. Without preposting there is none for it. -/
def postedAt (f : Flags) (n c : ℕ) : ℕ :=
  if f.burst then n else if f.async then c + 1 else c

/-- The receives posted before pass `j` of the receiver's loop, which posts one ahead. -/
def postedAhead (f : Flags) (n j : ℕ) : ℕ := if j < n then postedAt f n j else postedIdle f n j

/-- In a process that sends and receives, the number of messages between the last use of the receive
window and its use to send: a transmitter that awaits message `c` has sent `c + 1` messages, a
receiver `c`. -/
def Side.lag : Side → ℕ
  | .transmitter => 1
  | .receiver => 2

/-- The rules of the calls of a trial with `n` repeats. Calls are taken into the language of the
machine by `emb`. -/
structure TrialRules {C S : Type*} (m : Machine C S) (emb : Call → C) (f : Flags) (side : Side)
    (n : ℕ) (I : ℕ → ℕ → ℕ → S → Prop) : Prop where
  stable : ∀ a b c, m.Stable (I a b c)
  flush : ∀ a b c, Triple m (I a b c) [emb .flushcache] (I a b c)
  sync : ∀ a b c, Triple m (I a b c) [emb .sync] (I a b c)
  burst : f.burst = true → side.receives f = true →
    Triple m (I 0 0 0) ((burstPrepost n).map emb) (I 0 n 0)
  post : f.burst = false → f.async = true → side.receives f = true → ∀ a c, c < n →
    Triple m (I a c c) [emb .prepostRecv] (I a (c + 1) c)
  send : side.sends f = true → ∀ a b c, a < n → (f.stream = false → a + side.lag = c + 1) →
    Triple m (I a b c) ([.setupBufferData, .sendData, advanceSent].map emb) (I (a + 1) b c)
  work : side.receives f = true → ∀ a c, c < n →
    Triple m (I a (postedAt f n c) c) [emb .doWork] (I a (postedAt f n c) c)
  receive : side.receives f = true → ∀ a c, c < n → (f.stream = false → a + side.lag = c + 2) →
    Triple m (I a (postedAt f n c) c)
      ([.recvData, .checkBufferData, advanceReceived].map emb) (I a (postedIdle f n (c + 1)) (c + 1))

namespace TrialRules

variable {C S : Type*} {m : Machine C S} {emb : Call → C} {f : Flags} {side : Side} {n : ℕ}
  {I : ℕ → ℕ → ℕ → S → Prop} {Q : S → Prop}

/-- Calls in sequence. -/
lemma append {P Q R : S → Prop} {cs cs' : List Call} (h : Triple m P (cs.map emb) Q)
    (h' : Triple m Q (cs'.map emb) R) : Triple m P ((cs ++ cs').map emb) R := by
  rw [List.map_append]
  exact h.append h'

/-- A loop over calls. -/
lemma range {J : ℕ → S → Prop} {body : ℕ → List Call} {n : ℕ} (hJ : m.Stable (J 0))
    (h : ∀ j < n, Triple m (J j) ((body j).map emb) (J (j + 1))) :
    Triple m (J 0) (((List.range n).flatMap body).map emb) (J n) := by
  rw [List.map_flatMap]
  exact .range hJ h

/-- A part of a program that depends on the mode. -/
lemma ite {P Q : S → Prop} {b : Bool} {cs cs' : List Call}
    (h : b = true → Triple m P (cs.map emb) Q) (h' : b = false → Triple m P (cs'.map emb) Q) :
    Triple m P ((if b then cs else cs').map emb) Q := by
  cases b with
  | true => exact h rfl
  | false => exact h' rfl

section

variable (h : TrialRules m emb f side n I)
include h

/-- Work while a message is awaited, then its receipt. -/
lemma receiving (hr : side.receives f = true) {a c : ℕ} (hc : c < n)
    (hpace : f.stream = false → a + side.lag = c + 2) :
    Triple m (I a (postedAt f n c) c) (((if f.workload then [Call.doWork] else []) ++
      [.recvData, .checkBufferData, advanceReceived]).map emb)
      (I a (postedIdle f n (c + 1)) (c + 1)) :=
  append (ite (fun _ => h.work hr a c hc) fun _ => .nil (h.stable _ _ _)) (h.receive hr a c hc hpace)

/-- A pass of a transmitter that receives. -/
lemma transmitterRepeat (hside : side = .transmitter) (hs : f.stream = false) {j : ℕ}
    (hj : j < n) :
    Triple m (I j (postedIdle f n j) j) ((transmitterRepeat f).map emb)
      (I (j + 1) (postedIdle f n (j + 1)) (j + 1)) := by
  have hsends : side.sends f = true := by rw [Side.sends, hs, Bool.not_false, Bool.or_true]
  have hreceives : side.receives f = true := by
    rw [Side.receives, hs, Bool.not_false, Bool.or_true]
  have hpost : Triple m (I j (postedIdle f n j) j)
      ((if !f.burst && f.async && !f.stream then [Call.prepostRecv] else []).map emb)
      (I j (postedAt f n j) j) := by
    unfold postedIdle postedAt
    rw [hs]
    cases hb : f.burst with
    | true => exact .nil (h.stable _ _ _)
    | false =>
      cases ha : f.async with
      | true => exact h.post hb ha hreceives j j hj
      | false => exact .nil (h.stable _ _ _)
  refine append (append hpost (h.send hsends _ _ _ hj fun _ => by rw [hside]; rfl)) ?_
  rw [if_pos (by rw [hs, Bool.not_false])]
  exact h.receiving hreceives hj fun _ => by rw [hside]; rfl

/-- A pass of a streaming transmitter. -/
lemma transmitterRepeat_stream (hside : side = .transmitter) (hs : f.stream = true) {j : ℕ}
    (hj : j < n) :
    Triple m (I j 0 0) ((NetPipe.transmitterRepeat f).map emb) (I (j + 1) 0 0) := by
  have hsends : side.sends f = true := by rw [Side.sends, hside]; rfl
  have hpace : f.stream = false → j + side.lag = 0 + 1 := fun h => absurd (hs.symm.trans h) nofun
  rw [NetPipe.transmitterRepeat, hs, Bool.not_true, Bool.and_false]
  exact append (append (.nil (h.stable _ _ _)) (h.send hsends _ _ _ hj hpace))
    (.nil (h.stable _ _ _))

/-- A pass of the receiver's loop. -/
lemma receiverRepeat (hside : side = .receiver) {j : ℕ} (hj : j < n) :
    Triple m (I (if f.stream then 0 else j) (postedAhead f n j) j)
      ((receiverRepeat f n j).map emb)
      (I (if f.stream then 0 else j + 1) (postedAhead f n (j + 1)) (j + 1)) := by
  have hreceives : side.receives f = true := by rw [Side.receives, hside]; rfl
  have hahead : postedAhead f n j = postedAt f n j := if_pos hj
  have hpost : Triple m (I (if f.stream then 0 else j) (postedIdle f n (j + 1)) (j + 1))
      ((if !f.burst && f.async && j < n - 1 then [Call.prepostRecv] else []).map emb)
      (I (if f.stream then 0 else j) (postedAhead f n (j + 1)) (j + 1)) := by
    by_cases hlast : j + 1 < n
    · have hcond : decide (j < n - 1) = true := decide_eq_true (Nat.lt_sub_of_add_lt hlast)
      have hnext : postedAhead f n (j + 1) = postedAt f n (j + 1) := if_pos hlast
      rw [hnext, hcond, Bool.and_true]
      unfold postedIdle postedAt
      cases hb : f.burst with
      | true => exact .nil (h.stable _ _ _)
      | false =>
        cases ha : f.async with
        | true => exact h.post hb ha hreceives _ (j + 1) hlast
        | false => exact .nil (h.stable _ _ _)
    · have hcond : decide (j < n - 1) = false :=
        decide_eq_false fun hlt => hlast (Nat.add_lt_of_lt_sub hlt)
      have hnext : postedAhead f n (j + 1) = postedIdle f n (j + 1) := if_neg hlast
      rw [hnext, hcond, Bool.and_false]
      exact .nil (h.stable _ _ _)
  have hsend : Triple m (I (if f.stream then 0 else j) (postedAhead f n (j + 1)) (j + 1))
      ((if !f.stream then [Call.setupBufferData, .sendData, advanceSent] else []).map emb)
      (I (if f.stream then 0 else j + 1) (postedAhead f n (j + 1)) (j + 1)) := by
    cases hs : f.stream with
    | true => exact .nil (h.stable _ _ _)
    | false =>
      have hsends : side.sends f = true := by rw [Side.sends, hs, Bool.not_false, Bool.or_true]
      exact h.send hsends _ _ _ hj fun _ => by rw [hside]; rfl
  have hpace : f.stream = false → (if f.stream then 0 else j) + side.lag = j + 2 := by
    intro hs
    rw [hs, hside]
    rfl
  rw [hahead]
  exact append (append (h.receiving hreceives hj hpace) hpost) hsend

/-- What lies between preposting and the timed loop. -/
lemma pause (a b c : ℕ) : Triple m (I a b c)
    (((if !f.cache then [Call.flushcache] else []) ++ [Call.sync]).map emb) (I a b c) :=
  append (ite (fun _ => h.flush a b c) fun _ => .nil (h.stable _ _ _)) (h.sync a b c)

/-- A whole trial, on either side and in every mode. -/
theorem trial (hn : 0 < n) (npairs : ℕ)
    (hreset : Triple m (I (if side.sends f then n else 0) (if side.receives f then n else 0)
      (if side.receives f then n else 0)) ([.reset].map emb) Q) :
    Triple m (I 0 0 0) ((trial f npairs side n).map emb) Q := by
  have hidle : postedIdle f n n = n := ite_self n
  cases hside : side with
  | transmitter =>
    have hsends : side.sends f = true := by rw [Side.sends, hside]; rfl
    have hsync : ∀ a b c, Triple m (I a b c) ((if npairs > 1 then [Call.sync] else []).map emb)
        (I a b c) := by
      intro a b c
      split_ifs
      · exact h.sync a b c
      · exact .nil (h.stable _ _ _)
    rw [NetPipe.trial, transmitterTrial]
    cases hs : f.stream with
    | true =>
      have hreceives : side.receives f = false := by rw [Side.receives, hside, hs]; rfl
      simp only [hsends, hreceives, if_true, Bool.false_eq_true, if_false] at hreset
      have hloop := range (J := fun j => I j 0 0) (h.stable 0 0 0) fun j (hj : j < n) =>
        h.transmitterRepeat_stream hside hs hj
      have hall := append (h.pause 0 0 0) (append hloop (append (hsync n 0 0) hreset))
      rw [Bool.not_true, Bool.and_false, if_neg Bool.false_ne_true, List.nil_append]
      simpa only [List.append_assoc] using hall
    | false =>
      have hreceives : side.receives f = true := by
        rw [Side.receives, hs, Bool.not_false, Bool.or_true]
      simp only [hsends, hreceives, if_true] at hreset
      have hpre : Triple m (I 0 0 0)
          ((if f.burst && !false then burstPrepost n else []).map emb)
          (I 0 (postedIdle f n 0) 0) := by
        rw [Bool.not_false, Bool.and_true]
        unfold postedIdle
        cases hb : f.burst with
        | true => exact h.burst hb hreceives
        | false => exact .nil (h.stable _ _ _)
      have hloop := range (J := fun j => I j (postedIdle f n j) j) (h.stable 0 _ 0)
        fun j (hj : j < n) => h.transmitterRepeat hside hs hj
      rw [hidle] at hloop
      have hall := append hpre (append (h.pause 0 _ 0) (append hloop (append (hsync n n n) hreset)))
      simpa only [List.append_assoc] using hall
  | receiver =>
    have hreceives : side.receives f = true := by rw [Side.receives, hside]; rfl
    have hsends : (if side.sends f then n else 0) = if f.stream then 0 else n := by
      rw [Side.sends, hside]
      cases f.stream <;> rfl
    simp only [hsends, hreceives, if_true] at hreset
    have hpre : Triple m (I 0 0 0) ((receiverPrepost f n).map emb) (I 0 (postedAhead f n 0) 0) := by
      rw [postedAhead, if_pos hn, receiverPrepost, postedAt]
      cases hb : f.burst with
      | true => exact h.burst hb hreceives
      | false =>
        cases ha : f.async with
        | true => exact h.post hb ha hreceives 0 0 hn
        | false => exact .nil (h.stable _ _ _)
    have hloop := range (J := fun j => I (if f.stream then 0 else j) (postedAhead f n j) j)
      (h.stable _ _ 0) fun j (hj : j < n) => h.receiverRepeat hside hj
    have hend : postedAhead f n n = n := (if_neg (Nat.lt_irrefl n)).trans hidle
    simp only [hend, ite_self] at hloop
    have hall := append hpre (append (h.pause 0 _ 0) (append hloop hreset))
    rw [NetPipe.trial, receiverTrial]
    simpa only [List.append_assoc] using hall

end

end TrialRules

end NetPipe
