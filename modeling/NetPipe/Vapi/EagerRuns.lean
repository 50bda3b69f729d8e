import NetPipe.Vapi.EagerRecv

/-!
# Runs of eager messages

What holds in every state that the two nodes can reach, in whatever order calls, handlers and
adapters take their steps.
-/

namespace NetPipe.Vapi.Eager

variable {s s' : Eager} {w : ℕ} {ws : List ℕ}

/-- The two nodes, where the sender knows of `w` posted receives and the values `ws` are under way
to it. -/
structure Inv (s : Eager) (w : ℕ) (ws : List ℕ) : Prop where
  send : SendInv s.sender (s.sendQ.countP (·.flag = .waitingCompletion)) s.sendsDone s.completed w
  recv : RecvInv s.receiver s.sender.sent s.recvsDone (s.received.map Prod.fst)
  delivered : s.completed + s.sendsDone = s.receiver.handled + s.recvsDone
  written : s.written = ws.map count
  sorted : (w :: ws).Pairwise (· ≤ ·)
  le : ∀ v ∈ w :: ws, v ≤ s.receiver.posted
  last : s.receiver.writes = 0 → (w :: ws).getLast (by simp) = s.receiver.posted
  ids_sorted : (s.sendQ.map (·.id)).Pairwise (· < ·)
  ids : ∀ id, id ∈ s.sendQ.map (·.id) ↔ id < s.asends.length ∧ id ∉ s.sendsWaited
  waited_lt : ∀ id ∈ s.sendsWaited, id < s.asends.length
  received : ∀ x ∈ s.received, ∃ i m, (i, x.1) ∈ s.receiver.matched ∧
    s.sender.sent[i]? = some m ∧ x.2 = m.data

namespace Inv

/-- The receiver has posted four more buffers than messages have been taken. -/
lemma posted_eq (h : Inv s w ws) :
    s.receiver.posted = eagerBuffersPerNode + s.receiver.matched.length :=
  h.recv.ib.posted

lemma posted_le (h : Inv s w ws) :
    s.receiver.posted ≤ s.sender.sent.length + eagerBuffersPerNode := by
  have h₁ := h.recv.ib.matched_length_le
  have h₂ := h.send.delivered
  have h₃ := h.delivered
  have h₄ := h.posted_eq
  omega

/-- A step of the receiver alone. -/
lemma setReceiver (h : Inv s w ws) {r : RecvSide} {done : ℕ} {received : List (ℕ × List UInt8)}
    (hr : RecvInv r s.sender.sent done (received.map Prod.fst)) (hgrow : s.receiver.Grows r)
    (hdone : r.handled + done = s.receiver.handled + s.recvsDone)
    (hreceived : ∀ x ∈ received, ∃ i m, (i, x.1) ∈ s.receiver.matched ∧
      s.sender.sent[i]? = some m ∧ x.2 = m.data) :
    Inv { s with receiver := r, recvsDone := done, received := received } w ws :=
  { h with
    recv := hr
    delivered := h.delivered.trans hdone.symm
    le := fun v hv => (h.le v hv).trans hgrow.posted
    last := fun hw => by rw [h.last (hgrow.writes hw).1, (hgrow.writes hw).2]
    received := fun x hx => by
      obtain ⟨i, m, hi, hm, hd⟩ := hreceived x hx
      exact ⟨i, m, hgrow.matched.subset hi, hm, hd⟩ }

lemma handled_le (h : Inv s w ws) : s.receiver.handled ≤ s.sender.sent.length := by
  have := h.send.delivered
  have := h.delivered
  omega

/-- A step of the sender alone. -/
lemma setSender (h : Inv s w ws) {p : SendSide} {q : List SendEntry} {done completed : ℕ}
    (hp : SendInv p (q.countP (·.flag = .waitingCompletion)) done completed w)
    (hpre : s.sender.sent <+: p.sent) (hq : q.map (·.id) = s.sendQ.map (·.id))
    (hdone : completed + done = s.completed + s.sendsDone) :
    Inv { s with sender := p, sendQ := q, sendsDone := done, completed := completed } w ws := by
  refine
    { h with
      send := hp
      recv := h.recv.mono hpre h.handled_le
      delivered := hdone.trans h.delivered
      ids_sorted := by rw [hq]; exact h.ids_sorted
      ids := by rw [hq]; exact h.ids
      received := fun x hx => ?_ }
  obtain ⟨i, m, hi, hm, hd⟩ := h.received x hx
  exact ⟨i, m, hi, getElem?_of_initial hpre hm, hd⟩

/-- `ib_eager_asend` -/
lemma asend (h : Inv s w ws) (m : Packet) : ∃ s', s.step (.asend m) = some s' ∧ Inv s' w ws := by
  obtain ⟨hp, hq, hpre⟩ := h.send.ibEagerAsend s.asends.length m
  simp only [step, Option.some.injEq, exists_eq_left']
  have hinv := h.recv.mono hpre h.handled_le
  have hlt : ∀ id ∈ s.sendQ.map (·.id), id < s.asends.length := fun id hid => ((h.ids id).1 hid).1
  exact
    { h with
      send := hp
      recv := hinv
      ids_sorted := by
        simp only [hq, List.pairwise_append]
        exact ⟨h.ids_sorted, by simp, by simpa using hlt⟩
      ids := fun id => by
        simp only [hq, List.mem_append, h.ids, List.mem_singleton, List.length_append,
          List.length_singleton]
        constructor
        · rintro (⟨hid, hw⟩ | rfl)
          · exact ⟨by omega, hw⟩
          · exact ⟨by omega, fun hw => (h.waited_lt _ hw).false⟩
        · rintro ⟨hid, hw⟩
          rcases Nat.lt_succ_iff_lt_or_eq.1 hid with hid | hid
          · exact Or.inl ⟨hid, hw⟩
          · exact Or.inr hid
      waited_lt := fun id hid => (h.waited_lt id hid).trans (by simp)
      received := fun x hx => by
        obtain ⟨i, m, hi, hm, hd⟩ := h.received x hx
        exact ⟨i, m, hi, getElem?_of_initial hpre hm, hd⟩ }

/-- The post of a queued message. -/
lemma finishPost (h : Inv s w ws) {id : ℕ} (hen : s.Enabled (.finishPost id)) :
    ∃ s', s.step (.finishPost id) = some s' ∧ Inv s' w ws := by
  obtain ⟨⟨x, hx, rfl, hflag⟩, hfull⟩ := hen
  obtain ⟨l₁, e, l₂, hsplit⟩ :=
    exists_splitFirst (p := fun e : SendEntry => decide (e.id = x.id)) hx (by simp)
  obtain ⟨hq, -, hid⟩ := splitFirst_eq_some.1 hsplit
  obtain rfl := eq_of_key_eq (x := e) h.ids_sorted (by simp [hq]) hx (by simpa using hid)
  simp only [step, ibEagerFinishPost, hsplit, Option.some.injEq, exists_eq_left']
  have hpost := h.send.ibPostEagerSend hfull e.msg
  exact h.setSender (by simpa [hq, hflag, add_assoc] using hpost) (List.prefix_append _ _)
    (by simp [hq]) rfl

/-- The handler finds a send that waits for a completion. -/
lemma handleSend (h : Inv s w ws) (hen : s.Enabled .handleSend) :
    ∃ s', s.step .handleSend = some s' ∧ Inv s' w ws := by
  obtain ⟨done, hdone⟩ := Nat.exists_eq_add_one.2 (show 0 < s.sendsDone from hen)
  have hsend := h.send
  have hpos : 0 < s.sendQ.countP (·.flag = .waitingCompletion) := by
    have := hsend.delivered
    have := hsend.inFlight
    omega
  obtain ⟨x, hx, hflag⟩ := List.countP_pos_iff.1 hpos
  obtain ⟨l₁, e, l₂, hsplit⟩ :=
    exists_splitFirst (p := fun e : SendEntry => decide (e.flag = .waitingCompletion)) hx hflag
  obtain ⟨hq, -, hflag⟩ := splitFirst_eq_some.1 hsplit
  rw [decide_eq_true_eq] at hflag
  simp only [step, ibEagerHandleSend, hsplit, Option.some.injEq, exists_eq_left']
  rw [hdone] at hsend
  refine h.setSender ?_ List.prefix_rfl (by simp [hq]) (by omega)
  refine SendInv.free (k := (l₁ ++ { e with flag := .complete } :: l₂).countP
    (·.flag = .waitingCompletion)) ?_
  simpa [hq, hflag, add_assoc, hdone] using hsend

/-- A message that is complete is in the queue when it is waited for. -/
lemma finishSend (h : Inv s w ws) {id : ℕ} (hen : s.Enabled (.finishSend id)) :
    ∃ s', s.step (.finishSend id) = some s' ∧ Inv s' w ws := by
  obtain ⟨hid, hwaited, hcomplete⟩ := hen
  obtain ⟨x, hx, rfl⟩ := List.mem_map.1 ((h.ids id).2 ⟨hid, hwaited⟩)
  obtain ⟨l₁, e, l₂, hsplit⟩ :=
    exists_splitFirst (p := fun e : SendEntry => decide (e.id = x.id)) hx (by simp)
  obtain ⟨hq, -, heid⟩ := splitFirst_eq_some.1 hsplit
  obtain rfl := eq_of_key_eq (x := e) h.ids_sorted (by simp [hq]) hx (by simpa using heid)
  simp only [step, ibEagerFinishSend, hsplit, Option.some.injEq, exists_eq_left']
  have hflag := hcomplete e hx rfl
  have hsend := h.send
  have hsorted := h.ids_sorted
  have hne := fun x hx => (mem_of_mem_remove (x := x) hsorted hq hx).2
  rw [hq] at hsorted
  exact
    { h with
      send := by simpa [hq, hflag] using hsend
      ids_sorted := hsorted.sublist (by simp)
      ids := fun id => by
        have hmem : id ∈ (l₁ ++ l₂).map (·.id) ↔ id ∈ s.sendQ.map (·.id) ∧ id ≠ e.id := by
          constructor
          · intro hid
            obtain ⟨y, hy, rfl⟩ := List.mem_map.1 hid
            exact ⟨List.mem_map_of_mem (mem_of_mem_remove h.ids_sorted hq hy).1, hne y hy⟩
          · rintro ⟨hid, hne⟩
            simpa [hq, hne] using hid
        simp only [hmem, h.ids, List.mem_append, List.mem_singleton, not_or, and_assoc]
      waited_lt := fun id hw => by
        rcases List.mem_append.1 hw with hw | hw
        · exact h.waited_lt id hw
        · cases List.mem_singleton.1 hw
          exact hid }

/-- A message finds a posted receive. -/
lemma transfer (h : Inv s w ws) (hen : s.Enabled .transfer) :
    ∃ s', s.step .transfer = some s' ∧ Inv s' w ws := by
  obtain ⟨b, sr, hsr⟩ := List.exists_cons_of_ne_nil hen
  obtain ⟨hm, hsend⟩ := h.send.transfer hsr
  have hlt := (List.getElem?_eq_some_iff.1 hm).1
  rw [h.delivered] at hm hlt
  obtain ⟨c, rr, hrr, hrecv⟩ := h.recv.transfer hm
    (hlt.trans_le (h.send.credit.trans (h.le w (by simp))))
  simp only [step, Eager.transfer, hsr, hrr, Option.some.injEq, exists_eq_left']
  exact
    { h with
      send := hsend
      recv := hrecv
      delivered := by have := h.delivered; simp; omega }

lemma arecv (h : Inv s w ws) (q : RecvArgs) :
    ∃ s', s.step (.arecv q) = some s' ∧ Inv s' w ws := by
  obtain ⟨r, hr, hinv, hgrow, hhand⟩ := h.recv.ibEagerArecv q
  simp only [step, hr, Option.map_some, Option.some.injEq, exists_eq_left']
  exact h.setReceiver hinv hgrow (by rw [hhand]) h.received

lemma handleRecv (h : Inv s w ws) (hen : s.Enabled .handleRecv) :
    ∃ s', s.step .handleRecv = some s' ∧ Inv s' w ws := by
  obtain ⟨done, hdone⟩ := Nat.exists_eq_add_one.2 (show 0 < s.recvsDone from hen)
  obtain ⟨r, hr, hinv, hgrow, hhand⟩ := (hdone ▸ h.recv).ibEagerHandleRecv
  simp only [step, hr, Option.map_some, Option.some.injEq, exists_eq_left', hdone,
    Nat.add_sub_cancel]
  exact h.setReceiver hinv hgrow (by rw [hhand, hdone, add_right_comm, add_assoc]) h.received

lemma finishRecv (h : Inv s w ws) {k : ℕ} (hen : s.Enabled (.finishRecv k)) :
    ∃ s', s.step (.finishRecv k) = some s' ∧ Inv s' w ws := by
  obtain ⟨hk, hw, hcomplete⟩ := hen
  obtain ⟨u, r, hr, hinv, hgrow, hhand, i, m, hi, hm, hbuf⟩ :=
    h.recv.ibEagerFinishRecv hk hw hcomplete
  simp only [step, hr, Option.map_some, Option.some.injEq, exists_eq_left']
  refine h.setReceiver (by simpa using hinv) hgrow (by rw [hhand]) fun x hx => ?_
  rcases List.mem_append.1 hx with hx | hx
  · exact h.received x hx
  · cases List.mem_singleton.1 hx
    exact ⟨i, m, hi, hm, hbuf⟩

/-- The adapter of the receiver reads the count. -/
lemma readCount (h : Inv s w ws) : ∃ s', s.step .readCount = some s' ∧
    Inv s' w (ws ++ [s.receiver.posted]) := by
  simp only [step, Option.some.injEq, exists_eq_left']
  have hr := h.recv
  have hu := hr.user
  exact
    { h with
      recv := ⟨{ hr.ib with entry := fun e he => { hr.ib.entry e he with } },
        { hu with entry := fun u hu' => { hu.entry u hu' with } }, hr.freed⟩
      written := by simp [h.written, hr.freed]
      sorted := by
        rw [← List.cons_append, List.pairwise_append]
        exact ⟨h.sorted, by simp, by simpa using h.le⟩
      le := fun v hv => by
        rw [← List.cons_append, List.mem_append, List.mem_singleton] at hv
        rcases hv with hv | rfl
        · exact h.le v hv
        · exact le_rfl
      last := fun _ => by simp }

/-- A value arrives at the sender. -/
lemma writeCount (h : Inv s w ws) (hen : s.Enabled .writeCount) :
    ∃ s', s.step .writeCount = some s' ∧ ∃ w' ws', Inv s' w' ws' := by
  simp only [step, Option.some.injEq, exists_eq_left']
  have hw := h.written
  cases ws with
  | nil => exact absurd hw hen
  | cons v ws =>
    have hsorted := h.sorted
    rw [List.pairwise_cons] at hsorted
    have hle := h.le
    have hpost := h.posted_le
    refine ⟨v, ws, ?_⟩
    rw [hw]
    exact
      { h with
        send := h.send.learn (hsorted.1 v (by simp)) ((hle v (by simp)).trans hpost)
        written := rfl
        sorted := hsorted.2
        le := fun x hx => hle x (List.mem_cons_of_mem _ hx)
        last := fun h0 => by rw [← h.last h0, List.getLast_cons_cons] }

/-- Every event that can happen keeps the invariant, and none makes the program exit. -/
lemma step (h : Inv s w ws) {e : Event} (hen : s.Enabled e) :
    ∃ s', s.step e = some s' ∧ ∃ w' ws', Inv s' w' ws' := by
  cases e with
  | asend m =>
    obtain ⟨s', hs, hi⟩ := h.asend m
    exact ⟨s', hs, w, ws, hi⟩
  | finishPost id =>
    obtain ⟨s', hs, hi⟩ := h.finishPost hen
    exact ⟨s', hs, w, ws, hi⟩
  | finishSend id =>
    obtain ⟨s', hs, hi⟩ := h.finishSend hen
    exact ⟨s', hs, w, ws, hi⟩
  | handleSend =>
    obtain ⟨s', hs, hi⟩ := h.handleSend hen
    exact ⟨s', hs, w, ws, hi⟩
  | arecv q =>
    obtain ⟨s', hs, hi⟩ := h.arecv q
    exact ⟨s', hs, w, ws, hi⟩
  | finishRecv k =>
    obtain ⟨s', hs, hi⟩ := h.finishRecv hen
    exact ⟨s', hs, w, ws, hi⟩
  | handleRecv =>
    obtain ⟨s', hs, hi⟩ := h.handleRecv hen
    exact ⟨s', hs, w, ws, hi⟩
  | transfer =>
    obtain ⟨s', hs, hi⟩ := h.transfer hen
    exact ⟨s', hs, w, ws, hi⟩
  | readCount =>
    obtain ⟨s', hs, hi⟩ := h.readCount
    exact ⟨s', hs, w, _, hi⟩
  | writeCount => exact h.writeCount hen

end Inv

/-- The receives that `ib_init` posts. -/
def posted : RecvSide :=
  (((cleared.postBuffer 0).postBuffer 1).postBuffer 2).postBuffer 3

lemma posted_inv : RecvInv posted [] 0 [] where
  ib :=
    { posted := rfl
      done_le := by decide
      waiting := by decide
      rr := by decide
      sorted := by decide
      inUse := fun b => by
        simp [posted, RecvSide.postBuffer, cleared, Function.update_apply]
        omega
      index_nodup := by decide
      entry := fun e he => by
        simp only [posted, RecvSide.postBuffer, cleared, List.nil_append, List.cons_append,
          List.mem_cons, List.not_mem_nil, or_false] at he
        rcases he with rfl | rfl | rfl | rfl <;>
        exact
          { id_lt := by decide
            index_lt := by decide
            holds := fun _ hlt => by cases hlt
            complete := fun hf => by cases hf
            waiting_iff := by decide
            matched_iff := by simp [posted, RecvSide.postBuffer, cleared] }
      present := fun i hi => by cases hi
      matched_lt := fun i k hik => by cases hik
      nodup := List.nodup_nil }
  user :=
    { waited_matched := by simp
      sorted := by decide
      entry := fun u hu => by cases hu
      present := fun k hk => by cases hk
      first := .nil }
  freed := rfl

/-- What `ib_init` leaves. -/
lemma inv_init (h : init = some s) : Inv s eagerBuffersPerNode [] := by
  cases h
  exact
    { send :=
        { sends := rfl
          locSendFreed := rfl
          remRecvFreed := rfl
          next := rfl
          inFlight := rfl
          delivered := le_rfl
          room := by simp
          credit := by simp
          credit_le := by simp
          sr := rfl
          buffers := fun i m _ hm => by simp at hm }
      recv := posted_inv
      delivered := rfl
      written := rfl
      sorted := by simp
      le := fun v hv => by
        obtain rfl := List.mem_singleton.1 hv
        exact le_refl 4
      last := fun _ => rfl
      ids_sorted := by simp
      ids := by simp
      waited_lt := by simp
      received := by simp }

lemma Reachable.inv (h : Reachable s) : ∃ w ws, Inv s w ws := by
  induction h with
  | init h => exact ⟨_, _, inv_init h⟩
  | step _ hen hs ih =>
    obtain ⟨w, ws, hi⟩ := ih
    obtain ⟨s', hs', w', ws', hi'⟩ := hi.step hen
    rw [hs, Option.some.injEq] at hs'
    exact ⟨w', ws', hs' ▸ hi'⟩

/-- Whatever the order of calls, handlers and transfers, no step makes the program exit: every
completion has its entry in a queue, a buffer is free whenever a receive is posted, and every
message finds a posted receive. -/
theorem Reachable.step_ne_exit {e : Event} (h : Reachable s) (hen : s.Enabled e) :
    s.step e ≠ none := by
  obtain ⟨w, ws, hi⟩ := h.inv
  obtain ⟨s', hs, -⟩ := hi.step hen
  simp [hs]

/-- Messages with the tags `0`, `1`, ... -/
def sampleMessages : List Packet := [⟨0, [0]⟩, ⟨1, [1]⟩, ⟨2, [2]⟩, ⟨3, [3]⟩, ⟨4, [4]⟩]

/-- Five messages are sent; the buffers are full after four of them. -/
def sampleFull : List Event :=
  sampleMessages.map .asend ++ List.replicate 4 .transfer ++ List.replicate 4 .handleSend ++
    List.replicate 4 .handleRecv

/-- A receive with a tag takes the third message, which makes room for the fifth one. -/
def sampleLate : List Event :=
  sampleFull ++ [.arecv ⟨8, 2⟩, .finishRecv 0, .readCount, .writeCount, .finishPost 4]

/-- The same receive, posted first. -/
def sampleEarly : List Event :=
  .arecv ⟨8, 2⟩ :: sampleFull ++ [.finishRecv 0]

/-- The state after a run from the start. -/
def run (es : List Event) : Option Eager := init.bind (·.exec es)

lemma reachable_of_run {es : List Event} (h : run es = some s) : Reachable s := by
  obtain ⟨s₀, h₀, h⟩ := Option.bind_eq_some_iff.1 h
  exact (Reachable.init h₀).exec h

lemma exists_run (es : List Event) (P : Eager → Prop) [DecidablePred P]
    (h : (run es).any (fun s => P s) = true) : ∃ s, run es = some s ∧ P s := by
  cases hs : run es with
  | none => simp [hs] at h
  | some s => exact ⟨s, rfl, by simpa [hs] using h⟩

theorem step_ne_exit_sample : ∃ s, run sampleLate = some s ∧ s.Enabled .transfer ∧
    s.step .transfer ≠ none := by
  obtain ⟨s, hs, hen⟩ := exists_run sampleLate (·.Enabled .transfer) (by decide)
  exact ⟨s, hs, hen, (reachable_of_run hs).step_ne_exit hen⟩

/-- Messages go to receives by the first match, and a receive returns with the data of its
message. -/
theorem Reachable.received_eq_sent (h : Reachable s) :
    FirstMatch RecvArgs.Accepts (s.sender.sent.take s.receiver.handled) s.receiver.asked
      s.receiver.matched ∧
    ∀ k d, (k, d) ∈ s.received → ∃ i m, (i, k) ∈ s.receiver.matched ∧
      s.sender.sent[i]? = some m ∧ d = m.data := by
  obtain ⟨w, ws, hi⟩ := h.inv
  exact ⟨hi.recv.user.first, fun k d hkd => hi.received (k, d) hkd⟩

/-- What a receive returns does not depend on when completions are handled or calls are made: in two
runs in which the same messages are sent and the same receives are posted, as far as each run has
got, it is the same. -/
theorem Reachable.received_agree {msgs : List Packet} {reqs : List RecvArgs} {k : ℕ}
    {d d' : List UInt8} (h : Reachable s) (h' : Reachable s') (hs : s.sender.sent <+: msgs)
    (hs' : s'.sender.sent <+: msgs) (ha : s.receiver.asked <+: reqs)
    (ha' : s'.receiver.asked <+: reqs) (hd : (k, d) ∈ s.received) (hd' : (k, d') ∈ s'.received) :
    d = d' := by
  obtain ⟨w, ws, hi⟩ := h.inv
  obtain ⟨w', ws', hi'⟩ := h'.inv
  obtain ⟨i, m, hik, hm, rfl⟩ := hi.received _ hd
  obtain ⟨i', m', hik', hm', rfl⟩ := hi'.received _ hd'
  obtain rfl := hi.recv.user.first.eq_of_initial hi'.recv.user.first
    ((List.take_prefix _ _).trans hs) ((List.take_prefix _ _).trans hs') ha ha' hik hik'
  have heq := getElem?_of_initial hs hm
  rw [getElem?_of_initial hs' hm', Option.some.injEq] at heq
  rw [heq]

theorem received_eq_sent_sample : ∃ s, run sampleLate = some s ∧ (0, [2]) ∈ s.received ∧
    ∃ i m, (i, 0) ∈ s.receiver.matched ∧ s.sender.sent[i]? = some m ∧ [2] = m.data := by
  obtain ⟨s, hs, hd⟩ := exists_run sampleLate ((0, [2]) ∈ ·.received) (by decide)
  exact ⟨s, hs, hd, (reachable_of_run hs).received_eq_sent.2 0 [2] hd⟩

theorem received_agree_sample : ∃ s s' d d', run sampleLate = some s ∧ run sampleEarly = some s' ∧
    (0, d) ∈ s.received ∧ (0, d') ∈ s'.received ∧ d = d' := by
  obtain ⟨s, hs, hd, hsent, hask⟩ := exists_run sampleLate
    (fun s => (0, [2]) ∈ s.received ∧ s.sender.sent <+: sampleMessages ∧
      s.receiver.asked <+: [⟨8, 2⟩]) (by decide)
  obtain ⟨s', hs', hd', hsent', hask'⟩ := exists_run sampleEarly
    (fun s => (0, [2]) ∈ s.received ∧ s.sender.sent <+: sampleMessages ∧
      s.receiver.asked <+: [⟨8, 2⟩]) (by decide)
  exact ⟨s, s', [2], [2], hs, hs', hd, hd', (reachable_of_run hs).received_agree
    (reachable_of_run hs') hsent hsent' hask hask' hd hd'⟩

/-- `ib_cleanup` waits until every message that was sent has been taken by a receive of the other
node, and it does not wait longer than until the last count has arrived. -/
theorem Reachable.cleanup_iff (h : Reachable s) :
    (addWithWrap s.sender.sends eagerBuffersPerNode = s.sender.remRecvFreed →
      s.receiver.matched.length = s.sender.sent.length ∧ s.sender.sr = [] ∧ s.recvsDone = 0) ∧
    (s.receiver.matched.length = s.sender.sent.length → s.receiver.writes = 0 → s.written = [] →
      addWithWrap s.sender.sends eagerBuffersPerNode = s.sender.remRecvFreed) := by
  obtain ⟨w, ws, hi⟩ := h.inv
  have hsend := hi.send
  have hle := hi.le w (by simp)
  have h₁ := hi.recv.ib.matched_length_le
  have h₂ := hi.handled_le
  have h₃ := hi.posted_eq
  have h₄ := hsend.delivered
  have h₅ := hi.delivered
  rw [hsend.sends, addWithWrap_count (by decide), hsend.remRecvFreed, eq_comm,
    count_eq_iff hsend.credit_le (by have := hsend.credit; omega)]
  constructor
  · intro hw
    refine ⟨by omega, ?_, by omega⟩
    rw [hsend.sr]
    simp
    omega
  · intro hmatched hwrites hwritten
    have hnil : ws = [] := by simpa [hi.written] using hwritten
    subst hnil
    have := hi.last hwrites
    simp at this
    omega

theorem cleanup_iff_sample : ∃ s, run [.asend ⟨0, [0]⟩, .transfer, .handleRecv, .arecv ⟨8, 0⟩,
      .readCount, .writeCount] = some s ∧
    addWithWrap s.sender.sends eagerBuffersPerNode = s.sender.remRecvFreed := by
  obtain ⟨s, hs, hm, hw, hv⟩ := exists_run [.asend ⟨0, [0]⟩, .transfer,
      .handleRecv, .arecv ⟨8, 0⟩, .readCount, .writeCount]
    (fun s => s.receiver.matched.length = s.sender.sent.length ∧ s.receiver.writes = 0 ∧
      s.written = []) (by decide)
  exact ⟨s, hs, (reachable_of_run hs).cleanup_iff.2 hm hw hv⟩

/-- Once everything under way has been handled, a sender is held back just if four messages wait at
the other node. -/
theorem Reachable.full_iff (h : Reachable s) (hsr : s.sender.sr = []) (hsends : s.sendsDone = 0)
    (hwrites : s.receiver.writes = 0) (hwritten : s.written = []) :
    s.sender.full = true ↔
      s.sender.sent.length = s.receiver.matched.length + eagerBuffersPerNode := by
  obtain ⟨w, ws, hi⟩ := h.inv
  have hsend := hi.send
  have hnil : ws = [] := by simpa [hi.written] using hwritten
  subst hnil
  have hw := hi.last hwrites
  have hlen := congrArg List.length hsend.sr
  have h₃ := hi.posted_eq
  have hcredit := hsend.credit
  simp only [hsr, List.length_nil, List.length_map, List.length_range', hsends, add_zero] at hlen
  simp only [List.getLast_singleton] at hw
  rw [← Bool.not_eq_false, hsend.full_eq_false]
  have : 0 < eagerBuffersPerNode := by decide
  omega

theorem full_iff_sample : ∃ s, run sampleFull = some s ∧ (s.sender.full = true ↔
    s.sender.sent.length = s.receiver.matched.length + eagerBuffersPerNode) := by
  obtain ⟨s, hs, hsr, hsends, hwrites, hwritten⟩ := exists_run sampleFull
    (fun s => s.sender.sr = [] ∧ s.sendsDone = 0 ∧ s.receiver.writes = 0 ∧ s.written = [])
    (by decide)
  exact ⟨s, hs, (reachable_of_run hs).full_iff hsr hsends hwrites hwritten⟩

/-! ### The order of messages -/

/-- A queued message is waited for when no other one before it waits to be posted. -/
def InTurn (s : Eager) : Event → Prop
  | .finishPost id => ∀ x ∈ s.sendQ, x.flag = .waitingPost → id ≤ x.id
  | _ => True

instance (s : Eager) : (e : Event) → Decidable (s.InTurn e)
  | .finishPost id =>
    inferInstanceAs (Decidable (∀ x ∈ s.sendQ, x.flag = .waitingPost → id ≤ x.id))
  | .asend _ | .finishSend _ | .handleSend | .arecv _ | .finishRecv _ | .handleRecv | .transfer
  | .readCount | .writeCount => .isTrue trivial

/-- The states that are reached if queued messages are waited for in their order. -/
inductive InOrder : Eager → Prop where
  | init (s : Eager) : init = some s → InOrder s
  | step (s s' : Eager) (e : Event) : InOrder s → s.Enabled e → s.InTurn e →
    s.step e = some s' → InOrder s'

lemma InOrder.reachable (h : InOrder s) : Reachable s := by
  induction h with
  | init s h => exact .init h
  | step s s' e _ hen _ hs ih => exact ih.step hen hs

/-- Every event of a run comes in turn. -/
def turns (s : Eager) : List Event → Bool
  | [] => true
  | e :: es => decide (s.InTurn e) && (s.step e).all fun s' => s'.turns es

lemma InOrder.exec {es : List Event} (h : InOrder s) (he : s.exec es = some s')
    (ht : s.turns es = true) : InOrder s' := by
  induction es generalizing s with
  | nil =>
    cases he
    exact h
  | cons e es ih =>
    simp only [Eager.exec, Option.ite_none_right_eq_some, Option.bind_eq_some_iff] at he
    obtain ⟨hen, t, hstep, he⟩ := he
    simp only [turns, hstep, Option.all_some, Bool.and_eq_true, decide_eq_true_eq] at ht
    exact ih (h.step s t e hen ht.1 hstep) he ht.2

/-- The messages in the queue that have not been posted. -/
def unposted (q : List SendEntry) : List Packet := (q.filter (·.flag = .waitingPost)).map (·.msg)

section

variable {q l₁ l₂ : List SendEntry} {e : SendEntry} {p : SendSide}

@[simp] lemma unposted_nil : unposted [] = [] := rfl

@[simp] lemma unposted_append : unposted (l₁ ++ l₂) = unposted l₁ ++ unposted l₂ := by
  simp [unposted]

@[simp] lemma unposted_cons : unposted (e :: q) =
    if e.flag = .waitingPost then e.msg :: unposted q else unposted q := by
  by_cases he : e.flag = .waitingPost <;> simp [unposted, he]

@[simp] lemma ibPostEagerSend_sent (m : Packet) : (p.ibPostEagerSend m).sent = p.sent ++ [m] := rfl

/-- The check of the queue posts messages in their order, and its status says whether one is left. -/
lemma ibEagerCheckSends_order :
    (p.ibEagerCheckSends q).1.sent ++ unposted (p.ibEagerCheckSends q).2.1 = p.sent ++ unposted q ∧
    ((p.ibEagerCheckSends q).2.2 = true → unposted (p.ibEagerCheckSends q).2.1 = []) := by
  induction q generalizing p with
  | nil => simp [SendSide.ibEagerCheckSends]
  | cons e q ih =>
    cases hfull : p.full with
    | true => simp [SendSide.ibEagerCheckSends, hfull]
    | false =>
      by_cases he : e.flag = .waitingPost
      · simpa [SendSide.ibEagerCheckSends, hfull, he] using ih (p := p.ibPostEagerSend e.msg)
      · simpa [SendSide.ibEagerCheckSends, hfull, he] using ih

lemma ibEagerAsend_order (id : ℕ) (m : Packet) :
    (p.ibEagerAsend id m q).1.sent ++ unposted (p.ibEagerAsend id m q).2 =
      p.sent ++ unposted q ++ [m] := by
  obtain ⟨horder, hstatus⟩ := ibEagerCheckSends_order (p := p) (q := q)
  simp only [SendSide.ibEagerAsend]
  split
  · next hfull =>
    simp only [Bool.and_eq_true] at hfull
    rw [← horder]
    simp [hstatus hfull.1]
  · rw [← horder]
    simp

end

/-- If queued messages are waited for in their order, the messages are sent in the order of the
calls of `MP_ASend`. -/
theorem InOrder.sent_initial (h : InOrder s) : s.sender.sent <+: s.asends := by
  suffices s.sender.sent ++ unposted s.sendQ = s.asends from ⟨_, this⟩
  induction h with
  | init s h =>
    cases h
    rfl
  | step s s' e hr hen hfirst hs ih =>
    obtain ⟨w, ws, hi⟩ := hr.reachable.inv
    cases e with
    | asend m =>
      cases hs
      rw [ibEagerAsend_order, ih]
    | finishPost id =>
      obtain ⟨⟨x, hx, rfl, hflag⟩, -⟩ := hen
      simp only [Eager.step, ibEagerFinishPost] at hs
      split at hs
      · cases hs
      · next l₁ e l₂ hsplit =>
        obtain ⟨hq, -, hid⟩ := splitFirst_eq_some.1 hsplit
        obtain rfl := eq_of_key_eq (x := e) hi.ids_sorted (by simp [hq]) hx (by simpa using hid)
        -- no message before it waits to be posted
        have hl₁ : unposted l₁ = [] := by
          have hsorted := hi.ids_sorted
          rw [hq] at hsorted
          simp only [List.map_append, List.map_cons, List.pairwise_append, List.mem_map,
            forall_exists_index, and_imp, forall_apply_eq_imp_iff₂] at hsorted
          simp only [unposted, List.map_eq_nil_iff, List.filter_eq_nil_iff, decide_eq_true_eq]
          intro y hy hyf
          have hle := hfirst y (by simp [hq, hy]) hyf
          exact absurd (hsorted.2.2 y hy e.id (by simp)) hle.not_gt
        cases hs
        rw [← ih]
        simp [hq, hl₁, hflag]
    | finishSend id =>
      simp only [Eager.step, ibEagerFinishSend] at hs
      split at hs
      · cases hs
      · next l₁ e l₂ hsplit =>
        obtain ⟨hq, -, hid⟩ := splitFirst_eq_some.1 hsplit
        have hflag := hen.2.2 e (by simp [hq]) (by simpa using hid)
        cases hs
        rw [← ih]
        simp [hq, hflag]
    | handleSend =>
      simp only [Eager.step, ibEagerHandleSend] at hs
      split at hs
      · cases hs
      · next l₁ e l₂ hsplit =>
        obtain ⟨hq, -, hflag⟩ := splitFirst_eq_some.1 hsplit
        rw [decide_eq_true_eq] at hflag
        cases hs
        rw [← ih]
        simp [show s.sendQ = _ from hq, hflag]
    | arecv q =>
      obtain ⟨r, -, rfl⟩ := Option.map_eq_some_iff.1 hs
      exact ih
    | finishRecv k =>
      obtain ⟨r, -, rfl⟩ := Option.map_eq_some_iff.1 hs
      exact ih
    | handleRecv =>
      obtain ⟨r, -, rfl⟩ := Option.map_eq_some_iff.1 hs
      exact ih
    | transfer =>
      simp only [Eager.step, Eager.transfer] at hs
      split at hs
      · cases hs
        exact ih
      · cases hs
    | readCount =>
      cases hs
      exact ih
    | writeCount =>
      cases hs
      exact ih

theorem sent_initial_sample : ∃ s, run sampleLate = some s ∧ s.sender.sent <+: s.asends := by
  obtain ⟨s, hs, -⟩ := exists_run sampleLate (fun _ => True) (by decide)
  obtain ⟨s₀, h₀, h⟩ := Option.bind_eq_some_iff.1 hs
  have hturns : init.all (fun s => s.turns sampleLate) = true := by decide
  rw [h₀, Option.all_some] at hturns
  exact ⟨s, hs, ((InOrder.init s₀ h₀).exec h hturns).sent_initial⟩

end NetPipe.Vapi.Eager
