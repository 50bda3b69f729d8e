import NetPipe.Vapi.Rendezvous

/-!
# The source of rendezvous messages

Messages are posted, carried out and completed in one order, so that their history says where each
one is. As long as no message is posted again before its completion is handled, messages and
Ready-to-Receive messages find each other by the first match.
-/

namespace NetPipe.Vapi.Rndzv

variable {q l₁ l₂ : List Entry} {e : Entry} {s : Sender} {asked asked' : List Rtr} {r : Rtr}
  {m : Packet} {id k transferred : ℕ}

/-! ### Queues -/

/-- The messages of a queue. -/
def msgIds (q : List Entry) : List ℕ :=
  q.filterMap fun
    | .msg id _ _ => some id
    | .rtr _ => none

/-- The receives of a queue. -/
def rtrIds (q : List Entry) : List ℕ :=
  q.filterMap fun
    | .msg .. => none
    | .rtr r => some r.addr

@[simp] lemma msgIds_append : msgIds (l₁ ++ l₂) = msgIds l₁ ++ msgIds l₂ := List.filterMap_append

@[simp] lemma rtrIds_append : rtrIds (l₁ ++ l₂) = rtrIds l₁ ++ rtrIds l₂ := List.filterMap_append

@[simp] lemma msgIds_nil : msgIds [] = [] := rfl

@[simp] lemma rtrIds_nil : rtrIds [] = [] := rfl

@[simp] lemma msgIds_msg {c : Bool} : msgIds (.msg id c m :: q) = id :: msgIds q := rfl

@[simp] lemma msgIds_rtr : msgIds (.rtr r :: q) = msgIds q := rfl

@[simp] lemma rtrIds_msg {c : Bool} : rtrIds (.msg id c m :: q) = rtrIds q := rfl

@[simp] lemma rtrIds_rtr : rtrIds (.rtr r :: q) = r.addr :: rtrIds q := rfl

lemma mem_msgIds : id ∈ msgIds q ↔ ∃ c m, Entry.msg id c m ∈ q := by
  induction q with
  | nil => simp
  | cons e q ih =>
    cases e with
    | msg i c m => simp [ih, exists_or]
    | rtr r => simp [ih]

lemma mem_rtrIds : k ∈ rtrIds q ↔ ∃ r, Entry.rtr r ∈ q ∧ r.addr = k := by
  induction q with
  | nil => simp
  | cons e q ih =>
    cases e with
    | msg i c m => simp [ih]
    | rtr r => simp [ih, or_and_right, exists_or, eq_comm]

@[simp] lemma msgIds_setComplete : msgIds (q.map (Entry.setComplete id)) = msgIds q := by
  induction q with
  | nil => rfl
  | cons e q ih => cases e <;> simp [Entry.setComplete, ih]

@[simp] lemma rtrIds_setComplete : rtrIds (q.map (Entry.setComplete id)) = rtrIds q := by
  induction q with
  | nil => rfl
  | cons e q ih => cases e <;> simp [Entry.setComplete, ih]

/-- The message and the receive of a request for data. -/
def Request.pair : Request → Option (ℕ × ℕ)
  | .ack => none
  | .data id r => some (id, r.addr)

/-- The acknowledgements among the requests. -/
def acks (l : List Request) : ℕ := l.countP fun
  | .ack => true
  | .data .. => false

@[simp] lemma acks_append {l l' : List Request} : acks (l ++ l') = acks l + acks l' :=
  List.countP_append

@[simp] lemma acks_nil : acks [] = 0 := rfl

@[simp] lemma acks_ack {l : List Request} : acks (.ack :: l) = acks l + 1 := by simp [acks]

@[simp] lemma acks_data {l : List Request} : acks (.data id r :: l) = acks l := by simp [acks]

/-! ### What holds of the source -/

/-- What holds of an entry. -/
def EntryInv (s : Sender) (asked : List Rtr) : Entry → Prop
  | .msg id complete m => s.asends[id]? = some m ∧ id ∉ s.waited ∧
    (complete = true ↔ id ∈ (s.matched.take s.completed).map Prod.fst)
  | .rtr r => asked[r.addr]? = some r ∧ r.addr < s.handled ∧ r.addr ∉ s.matched.map Prod.snd

/-- The source, where the destination has called `MP_ARecv` for `asked` and the data of the first
`transferred` messages has arrived. -/
structure SendInv (s : Sender) (asked : List Rtr) (transferred : ℕ) : Prop where
  entry : ∀ e ∈ s.sendQ, EntryInv s asked e
  nodup : (msgIds s.sendQ).Nodup
  sorted : ((msgIds s.sendQ).filter (· ∉ s.matched.map Prod.fst)).Pairwise (· < ·)
  present : ∀ id < s.asends.length, id ∉ s.waited → id ∈ msgIds s.sendQ
  rtr_sorted : (rtrIds s.sendQ).Pairwise (· < ·)
  rtr_present : ∀ k < s.handled, k ∉ s.matched.map Prod.snd → k ∈ rtrIds s.sendQ
  waited_matched : ∀ id ∈ s.waited, id ∈ s.matched.map Prod.fst
  chain : s.posted2ib = (s.matched.drop s.completed).map Prod.fst
  requests : s.sr.filterMap Request.pair = s.matched.drop transferred
  request_rtr : ∀ (id : ℕ) (r : Rtr), .data id r ∈ s.sr → asked[r.addr]? = some r
  done : s.completed + s.sendsDone = transferred
  transferred_le : transferred ≤ s.matched.length
  handled_le : s.handled ≤ asked.length
  fst_nodup : (s.matched.map Prod.fst).Nodup
  snd_nodup : (s.matched.map Prod.snd).Nodup
  addr : ∀ (k : ℕ) (r : Rtr), asked[k]? = some r → r.addr = k
  first : FirstMatch (fun r m => Rtr.accepts r m = true) s.asends (asked.take s.handled) s.matched

/-- A step of the source that has nothing to do with Ready-to-Receive messages. -/
structure Sender.Frame (s s' : Sender) : Prop where
  asends : s.asends <+: s'.asends
  matched : s.matched <+: s'.matched
  rtrsIn : s'.rtrsIn = s.rtrsIn
  posted : s'.posted = s.posted
  msgIn : s'.msgIn = s.msgIn
  handled : s'.handled = s.handled
  acks : acks s'.sr = acks s.sr

namespace SendInv

lemma completed_le (h : SendInv s asked transferred) : s.completed ≤ s.matched.length := by
  have := h.done
  have := h.transferred_le
  omega

/-- Messages that are posted are posted later than those that are complete. -/
lemma take_append (h : SendInv s asked transferred) (x : ℕ × ℕ) :
    (s.matched ++ [x]).take s.completed = s.matched.take s.completed :=
  List.take_append_of_le_length h.completed_le

lemma lt_of_mem_msgIds (h : SendInv s asked transferred) (hid : id ∈ msgIds s.sendQ) :
    id < s.asends.length := by
  obtain ⟨c, m, he⟩ := mem_msgIds.1 hid
  exact (List.getElem?_eq_some_iff.1 (h.entry _ he).1).1

lemma lt_of_mem_fst (h : SendInv s asked transferred) (hid : id ∈ s.matched.map Prod.fst) :
    id < s.asends.length := by
  obtain ⟨⟨i, k⟩, hik, rfl⟩ := List.mem_map.1 hid
  exact h.first.lt_left hik

lemma lt_of_mem_snd (h : SendInv s asked transferred) (hk : k ∈ s.matched.map Prod.snd) :
    k < s.handled := by
  obtain ⟨⟨i, k⟩, hik, rfl⟩ := List.mem_map.1 hk
  have := h.first.lt_right hik
  simp at this
  exact this.1

/-- A message that is incomplete and not among those under way has not been posted. -/
lemma not_mem_fst (h : SendInv s asked transferred) (he : .msg id false m ∈ s.sendQ)
    (hchain : id ∉ s.posted2ib) : id ∉ s.matched.map Prod.fst := by
  rw [h.chain] at hchain
  have hdone := (h.entry _ he).2.2
  rw [← List.take_append_drop s.completed s.matched, List.map_append, List.mem_append, not_or]
  exact ⟨fun hmem => by simpa using hdone.2 hmem, hchain⟩

/-- More receives are posted. -/
lemma mono (h : SendInv s asked transferred) (r : Rtr) (hr : r.addr = asked.length) :
    SendInv s (asked ++ [r]) transferred := by
  have hpre : asked <+: asked ++ [r] := List.prefix_append _ _
  refine
    { h with
      entry := fun e he => ?_
      request_rtr := fun id r' hr' => getElem?_of_initial hpre (h.request_rtr id r' hr')
      handled_le := by have := h.handled_le; simp; omega
      addr := fun k r' hk => ?_
      first := by rw [List.take_append_of_le_length h.handled_le]; exact h.first }
  · have he := h.entry e he
    cases e with
    | msg id c m => exact he
    | rtr r => exact ⟨getElem?_of_initial hpre he.1, he.2⟩
  · rcases lt_or_ge k asked.length with hlt | hge
    · rw [List.getElem?_append_left hlt] at hk
      exact h.addr k r' hk
    · have hlt := (List.getElem?_eq_some_iff.1 hk).1
      obtain rfl : k = asked.length := by simp at hlt; omega
      obtain rfl : r = r' := by simpa using hk
      exact hr

/-- A receive that no message has been posted for stands in the queue. -/
lemma exists_rtr (h : SendInv s asked transferred) (hr : (asked.take s.handled)[k]? = some r)
    (hfree : ¬∃ i, (i, k) ∈ s.matched) : .rtr r ∈ s.sendQ ∧ r.addr = k := by
  have hk : k < s.handled := by
    have := (List.getElem?_eq_some_iff.1 hr).1
    simp at this
    omega
  rw [List.getElem?_take_of_lt hk] at hr
  obtain ⟨r', hr', rfl⟩ := mem_rtrIds.1 (h.rtr_present k hk (by simpa using hfree))
  obtain ⟨hask, -, -⟩ := h.entry _ hr'
  obtain rfl : r = r' := by simpa [hask] using hr.symm
  exact ⟨hr', rfl⟩

/-- A message that has not been posted stands in the queue, and is incomplete. -/
lemma exists_msg (h : SendInv s asked transferred) (hm : s.asends[id]? = some m)
    (hfree : ¬∃ k, (id, k) ∈ s.matched) : .msg id false m ∈ s.sendQ := by
  have hmem : id ∉ s.matched.map Prod.fst := by simpa using hfree
  obtain ⟨c, m', he⟩ := mem_msgIds.1 (h.present id (List.getElem?_eq_some_iff.1 hm).1
    fun hw => hmem (h.waited_matched id hw))
  obtain ⟨hm', -, hc⟩ := h.entry _ he
  obtain rfl : m = m' := by simpa [hm] using hm'
  have hfalse : c = false := by
    rw [← Bool.not_eq_true]
    exact fun htrue => hmem (List.map_subset _ (List.take_subset _ _) (hc.1 htrue))
  exact hfalse ▸ he

/-- `ib_rndzv_asend` finds no receive. -/
lemma asend_wait (h : SendInv s asked transferred) (hnone : ∀ e ∈ s.sendQ, e.takes m = false) :
    SendInv { s with
      sendQ := s.sendQ ++ [.msg s.asends.length false m]
      asends := s.asends ++ [m] } asked transferred := by
  have hnew : s.asends.length ∉ s.matched.map Prod.fst := fun hmem =>
    (h.lt_of_mem_fst hmem).false
  exact
    { h with
      entry := by
        simp only [List.forall_mem_append, List.forall_mem_singleton]
        refine ⟨fun e he => ?_, by simp, fun hw => hnew (h.waited_matched _ hw),
          iff_of_false Bool.false_ne_true fun hmem =>
            hnew (List.map_subset _ (List.take_subset _ _) hmem)⟩
        have hi := h.entry e he
        cases e with
        | msg id c m => exact ⟨getElem?_of_initial (List.prefix_append _ _) hi.1, hi.2⟩
        | rtr r => exact hi
      nodup := by
        simp only [msgIds_append, msgIds_msg, msgIds_nil]
        refine List.nodup_append.2 ⟨h.nodup, by simp, ?_⟩
        rintro a ha b hb rfl
        have := h.lt_of_mem_msgIds ha
        simp at hb
        omega
      sorted := by
        simp only [msgIds_append, msgIds_msg, msgIds_nil, List.filter_append,
          List.pairwise_append]
        refine ⟨h.sorted, by simp [hnew], fun a ha b hb => ?_⟩
        have hlt := h.lt_of_mem_msgIds (List.mem_of_mem_filter ha)
        have := List.mem_of_mem_filter hb
        simp at this
        omega
      present := fun id hid hw => by
        simp only [msgIds_append, msgIds_msg, msgIds_nil, List.mem_append, List.mem_singleton]
        rw [List.length_append, List.length_singleton] at hid
        rcases Nat.lt_succ_iff_lt_or_eq.1 hid with hid | hid
        · exact Or.inl (h.present id hid hw)
        · exact Or.inr hid
      rtr_sorted := by simpa using h.rtr_sorted
      rtr_present := by simpa using h.rtr_present
      first := by
        refine h.first.arrive_wait fun k r hr hacc => ?_
        by_contra hfree
        have := hnone _ (h.exists_rtr hr hfree).1
        rw [Entry.takes, hacc] at this
        cases this }

/-- `ib_rndzv_asend` finds a receive. -/
lemma asend_match (h : SendInv s asked transferred) (hq : s.sendQ = l₁ ++ .rtr r :: l₂)
    (hl₁ : ∀ e ∈ l₁, e.takes m = false) (hacc : r.accepts m = true) :
    SendInv { s with
      sendQ := l₁ ++ .msg s.asends.length false m :: l₂
      asends := s.asends ++ [m]
      posted2ib := s.posted2ib ++ [s.asends.length]
      sr := s.sr ++ [.data s.asends.length r]
      matched := s.matched ++ [(s.asends.length, r.addr)] } asked transferred := by
  have hnew : s.asends.length ∉ s.matched.map Prod.fst := fun hmem =>
    (h.lt_of_mem_fst hmem).false
  obtain ⟨hr, hlt, hfree⟩ := h.entry (.rtr r) (by simp [hq])
  have hnodup := h.nodup
  have hrtr := h.rtr_sorted
  rw [hq, msgIds_append, msgIds_rtr] at hnodup
  rw [hq, rtrIds_append, rtrIds_rtr, List.pairwise_append, List.pairwise_cons] at hrtr
  have hne : ∀ r', .rtr r' ∈ l₁ ++ l₂ → r'.addr ≠ r.addr := by
    intro r' hr'
    rcases List.mem_append.1 hr' with hr' | hr'
    · exact (hrtr.2.2 _ (mem_rtrIds.2 ⟨r', hr', rfl⟩) _ (by simp)).ne
    · exact (hrtr.2.1.1 _ (mem_rtrIds.2 ⟨r', hr', rfl⟩)).ne'
  have hsub : ∀ e ∈ l₁ ++ l₂, e ∈ s.sendQ := by
    intro e he
    rw [hq]
    simp at he ⊢
    tauto
  have hids : ∀ id ∈ msgIds l₁ ++ msgIds l₂, id < s.asends.length := fun id hid =>
    h.lt_of_mem_msgIds (by simpa [hq] using hid)
  have hentry : ∀ e ∈ l₁ ++ l₂, EntryInv { s with
      sendQ := l₁ ++ .msg s.asends.length false m :: l₂
      asends := s.asends ++ [m]
      posted2ib := s.posted2ib ++ [s.asends.length]
      sr := s.sr ++ [.data s.asends.length r]
      matched := s.matched ++ [(s.asends.length, r.addr)] } asked e := by
    intro e he
    have hi := h.entry e (hsub e he)
    cases e with
    | msg id c m' =>
      refine ⟨getElem?_of_initial (List.prefix_append _ _) hi.1, hi.2.1, ?_⟩
      rw [h.take_append]
      exact hi.2.2
    | rtr r' => exact ⟨hi.1, hi.2.1, by simpa [hne r' he] using hi.2.2⟩
  simp only [List.forall_mem_append] at hentry
  exact
    { h with
      entry := by
        simp only [List.forall_mem_append, List.forall_mem_cons]
        refine ⟨hentry.1, ⟨by simp, fun hw => hnew (h.waited_matched _ hw), ?_⟩, hentry.2⟩
        rw [h.take_append]
        exact iff_of_false Bool.false_ne_true fun hmem =>
          hnew (List.map_subset _ (List.take_subset _ _) hmem)
      nodup := by
        simp only [msgIds_append, msgIds_msg]
        exact List.nodup_middle.2 (List.nodup_cons.2 ⟨fun hmem => (hids _ hmem).false, hnodup⟩)
      sorted := by
        have hs := h.sorted
        rw [hq, msgIds_append, msgIds_rtr] at hs
        have hfilter : (msgIds (l₁ ++ .msg s.asends.length false m :: l₂)).filter
            (· ∉ (s.matched ++ [(s.asends.length, r.addr)]).map Prod.fst) =
            (msgIds l₁ ++ msgIds l₂).filter (· ∉ s.matched.map Prod.fst) := by
          simp only [msgIds_append, msgIds_msg, List.filter_append]
          rw [List.filter_cons_of_neg (by simp)]
          congr 1 <;>
          · refine List.filter_congr fun id hid => ?_
            have := hids id (by simp [hid])
            simp [this.ne]
        rw [hfilter]
        exact hs
      present := fun id hid hw => by
        rw [List.length_append, List.length_singleton] at hid
        rcases Nat.lt_succ_iff_lt_or_eq.1 hid with hid | hid
        · have := h.present id hid hw
          simp [hq] at this
          simp [this, or_left_comm]
        · simp [hid]
      rtr_sorted := by
        simp only [rtrIds_append, rtrIds_msg]
        exact List.pairwise_append.2 ⟨hrtr.1, hrtr.2.1.2, fun a ha b hb =>
          hrtr.2.2 a ha b (List.mem_cons_of_mem _ hb)⟩
      rtr_present := fun k hk hmem => by
        rw [List.map_append, List.map_singleton, List.mem_append, List.mem_singleton, not_or] at hmem
        have := h.rtr_present k hk hmem.1
        simpa [hq, hmem.2] using this
      waited_matched := fun id hw => by
        rw [List.map_append]
        exact List.mem_append_left _ (h.waited_matched id hw)
      chain := by
        rw [List.drop_append_of_le_length h.completed_le, h.chain]
        simp
      requests := by
        rw [List.drop_append_of_le_length h.transferred_le, ← h.requests]
        simp [Request.pair]
      request_rtr := fun id r' hmem => by
        rcases List.mem_append.1 hmem with hmem | hmem
        · exact h.request_rtr id r' hmem
        · cases List.mem_singleton.1 hmem
          exact hr
      transferred_le := by have := h.transferred_le; simp; omega
      fst_nodup := by
        rw [List.map_append]
        refine h.fst_nodup.append (by simp) ?_
        simpa using hnew
      snd_nodup := by
        rw [List.map_append]
        refine h.snd_nodup.append (by simp) ?_
        simpa using hfree
      first := by
        refine h.first.arrive_match (k := r.addr) (by rw [List.getElem?_take_of_lt hlt, hr]) hacc
          (by simpa using hfree) fun k hk r' hr' hacc' => ?_
        by_contra hno
        obtain ⟨hmem, rfl⟩ := h.exists_rtr hr' hno
        rw [hq] at hmem
        rcases List.mem_append.1 hmem with hmem | hmem
        · have := hl₁ _ hmem
          rw [Entry.takes, hacc'] at this
          cases this
        · rcases List.mem_cons.1 hmem with heq | hmem
          · cases heq
            exact hk.false
          · exact absurd (hrtr.2.1.1 _ (mem_rtrIds.2 ⟨r', hmem, rfl⟩)) hk.not_gt }

/-- `ib_rndzv_asend` does not meet its own message in the queue of posted ones. -/
lemma ibRndzvAsend (h : SendInv s asked transferred) (m : Packet) :
    ∃ s', s.ibRndzvAsend m = some s' ∧ SendInv s' asked transferred ∧ s.Frame s' := by
  cases hsplit : splitFirst (Entry.takes m) s.sendQ with
  | none =>
    simp only [Sender.ibRndzvAsend, hsplit, Option.some.injEq, exists_eq_left']
    exact ⟨h.asend_wait (splitFirst_eq_none.1 hsplit), List.prefix_append _ _, List.prefix_rfl, rfl,
      rfl, rfl, rfl, rfl⟩
  | some x =>
    obtain ⟨l₁, e, l₂⟩ := x
    obtain ⟨hq, hl₁, he⟩ := splitFirst_eq_some.1 hsplit
    cases e with
    | msg i c m' => simp [Entry.takes] at he
    | rtr r =>
      have hchain : s.asends.length ∉ s.posted2ib := fun hmem => by
        rw [h.chain] at hmem
        exact (h.lt_of_mem_fst (List.map_subset _ (List.drop_subset _ _) hmem)).false
      simp only [Sender.ibRndzvAsend, hsplit, Sender.sendData, if_neg hchain, Option.some.injEq,
        exists_eq_left']
      exact ⟨h.asend_match hq hl₁ he, List.prefix_append _ _, List.prefix_append _ _, rfl, rfl, rfl,
        rfl, by simp⟩

/-- The handler of a Ready-to-Receive message finds no message. -/
lemma rtr_wait (h : SendInv s asked transferred) (hr : asked[s.handled]? = some r)
    (hnone : ∀ e ∈ s.sendQ, e.fits r = false) :
    SendInv { s with
      rtrsIn := s.rtrsIn - 1
      posted := s.posted + 1
      sr := s.sr ++ [.ack]
      handled := s.handled + 1
      sendQ := s.sendQ ++ [.rtr r] } asked transferred := by
  have haddr := h.addr _ _ hr
  have hlt := (List.getElem?_eq_some_iff.1 hr).1
  have hnew : s.handled ∉ s.matched.map Prod.snd := fun hmem => (h.lt_of_mem_snd hmem).false
  exact
    { h with
      entry := by
        simp only [List.forall_mem_append, List.forall_mem_singleton]
        refine ⟨fun e he => ?_, by rw [haddr]; exact hr, by simp [haddr], ?_⟩
        · have hi := h.entry e he
          cases e with
          | msg id c m => exact hi
          | rtr r => exact ⟨hi.1, hi.2.1.trans (Nat.lt_succ_self _), hi.2.2⟩
        · rw [haddr]
          exact hnew
      nodup := by simpa using h.nodup
      sorted := by simpa using h.sorted
      present := by simpa using h.present
      rtr_sorted := by
        simp only [rtrIds_append, rtrIds_rtr, rtrIds_nil, List.pairwise_append]
        refine ⟨h.rtr_sorted, by simp, fun a ha b hb => ?_⟩
        obtain ⟨r', hr', rfl⟩ := mem_rtrIds.1 ha
        rw [List.mem_singleton.1 hb, haddr]
        exact (h.entry _ hr').2.1
      rtr_present := fun k hk hmem => by
        simp only [rtrIds_append, rtrIds_rtr, rtrIds_nil, List.mem_append, List.mem_singleton, haddr]
        rcases Nat.lt_succ_iff_lt_or_eq.1 hk with hk | hk
        · exact Or.inl (h.rtr_present k hk hmem)
        · exact Or.inr hk
      requests := by
        rw [← h.requests]
        simp [Request.pair]
      request_rtr := fun id r' hmem => by
        rcases List.mem_append.1 hmem with hmem | hmem
        · exact h.request_rtr id r' hmem
        · cases List.mem_singleton.1 hmem
      handled_le := hlt
      first := by
        have htake : asked.take (s.handled + 1) = asked.take s.handled ++ [r] := by
          rw [List.take_add_one, hr, Option.toList_some]
        rw [htake]
        refine h.first.post_wait fun id m hm hacc => ?_
        by_contra hfree
        have := hnone _ (h.exists_msg hm hfree)
        simp [Entry.fits, hacc] at this }

/-- The handler of a Ready-to-Receive message finds a message that has not been posted. -/
lemma rtr_match (h : SendInv s asked transferred) (hr : asked[s.handled]? = some r)
    (hq : s.sendQ = l₁ ++ .msg id false m :: l₂) (hl₁ : ∀ e ∈ l₁, e.fits r = false)
    (hacc : r.accepts m = true) (hchain : id ∉ s.posted2ib) :
    SendInv { s with
      rtrsIn := s.rtrsIn - 1
      posted := s.posted + 1
      handled := s.handled + 1
      posted2ib := s.posted2ib ++ [id]
      sr := s.sr ++ [.ack] ++ [.data id r]
      matched := s.matched ++ [(id, r.addr)] } asked transferred := by
  have haddr := h.addr _ _ hr
  have hlt := (List.getElem?_eq_some_iff.1 hr).1
  have hmsg : .msg id false m ∈ s.sendQ := by simp [hq]
  have hnew := h.not_mem_fst hmsg hchain
  have hfree : s.handled ∉ s.matched.map Prod.snd := fun hmem => (h.lt_of_mem_snd hmem).false
  have hm := (h.entry _ hmsg).1
  exact
    { h with
      entry := fun e he => by
        have hi := h.entry e he
        cases e with
        | msg id' c m' =>
          refine ⟨hi.1, hi.2.1, ?_⟩
          rw [h.take_append]
          exact hi.2.2
        | rtr r' =>
          refine ⟨hi.1, hi.2.1.trans (Nat.lt_succ_self _), ?_⟩
          rw [List.map_append, List.map_singleton, List.mem_append, List.mem_singleton, not_or, haddr]
          exact ⟨hi.2.2, hi.2.1.ne⟩
      sorted := by
        refine h.sorted.sublist ?_
        refine List.monotone_filter_right _ fun x hx => ?_
        simp at hx ⊢
        tauto
      rtr_present := fun k hk hmem => by
        rw [List.map_append, List.map_singleton, List.mem_append, List.mem_singleton, not_or,
          haddr] at hmem
        rcases Nat.lt_succ_iff_lt_or_eq.1 hk with hk | hk
        · exact h.rtr_present k hk hmem.1
        · exact absurd hk hmem.2
      waited_matched := fun id hw => by
        rw [List.map_append]
        exact List.mem_append_left _ (h.waited_matched id hw)
      chain := by
        rw [List.drop_append_of_le_length h.completed_le, h.chain]
        simp
      requests := by
        rw [List.drop_append_of_le_length h.transferred_le, ← h.requests]
        simp [Request.pair]
        rfl
      request_rtr := fun id' r' hmem => by
        simp only [List.append_assoc, List.mem_append, List.mem_cons, List.not_mem_nil, or_false,
          reduceCtorEq, false_or, List.nil_append, List.cons_append] at hmem
        rcases hmem with hmem | hmem
        · exact h.request_rtr id' r' hmem
        · cases hmem
          rw [haddr]
          exact hr
      transferred_le := by have := h.transferred_le; simp; omega
      handled_le := hlt
      fst_nodup := by
        rw [List.map_append]
        refine h.fst_nodup.append (by simp) ?_
        simpa using hnew
      snd_nodup := by
        rw [List.map_append]
        refine h.snd_nodup.append (by simp) ?_
        simpa [haddr] using hfree
      first := by
        have htake : asked.take (s.handled + 1) = asked.take s.handled ++ [r] := by
          rw [List.take_add_one, hr, Option.toList_some]
        have hlen : (asked.take s.handled).length = s.handled := by
          simp
          omega
        have := h.first.post_match (r := r) hm hacc (by simpa using hnew) fun id' hid m' hm' hacc' => ?_
        · rw [hlen] at this
          rw [htake, haddr]
          exact this
        by_contra hno
        have hmem := h.exists_msg hm' hno
        have hs := h.sorted
        rw [hq] at hmem hs
        rw [msgIds_append, msgIds_msg, List.filter_append, List.filter_cons_of_pos (by simpa using hnew),
          List.pairwise_append, List.pairwise_cons] at hs
        rcases List.mem_append.1 hmem with hmem | hmem
        · have := hl₁ _ hmem
          simp [Entry.fits, hacc'] at this
        · rcases List.mem_cons.1 hmem with heq | hmem
          · cases heq
            exact hid.false
          · refine absurd (hs.2.1.1 id' (List.mem_filter.2 ⟨mem_msgIds.2 ⟨_, _, hmem⟩, ?_⟩)) hid.not_gt
            simpa using hno }

/-- `ib_rndzv_handle_recv` for a Ready-to-Receive message fails only if the first message that fits
has been posted and its completion has not been handled. -/
lemma ibRndzvHandleRtr (h : SendInv s asked transferred) (hr : asked[s.handled]? = some s.msgIn) :
    (∃ l₁ id m l₂, splitFirst (Entry.fits s.msgIn) s.sendQ = some (l₁, .msg id false m, l₂) ∧
      id ∈ s.posted2ib ∧ s.ibRndzvHandleRtr = none) ∨
    ∃ s', s.ibRndzvHandleRtr = some s' ∧ SendInv s' asked transferred ∧
      s.asends <+: s'.asends ∧ s.matched <+: s'.matched ∧ s'.rtrsIn = s.rtrsIn - 1 ∧
      s'.posted = s.posted + 1 ∧ s'.handled = s.handled + 1 ∧ acks s'.sr = acks s.sr + 1 ∧
      ∀ l₁ id m l₂, splitFirst (Entry.fits s.msgIn) s.sendQ = some (l₁, .msg id false m, l₂) →
        id ∉ s.posted2ib := by
  have hq' : s.acknowledge.sendQ = s.sendQ := rfl
  cases hsplit : splitFirst (Entry.fits s.msgIn) s.sendQ with
  | none =>
    right
    simp only [Sender.ibRndzvHandleRtr, hq', hsplit, Option.some.injEq, exists_eq_left']
    exact ⟨h.rtr_wait hr (splitFirst_eq_none.1 hsplit), List.prefix_rfl, List.prefix_rfl, rfl, rfl,
      rfl, by simp [Sender.acknowledge], by simp⟩
  | some x =>
    obtain ⟨l₁, e, l₂⟩ := x
    obtain ⟨hq, hl₁, he⟩ := splitFirst_eq_some.1 hsplit
    cases e with
    | rtr r => simp [Entry.fits] at he
    | msg id c m =>
      simp only [Entry.fits, Bool.and_eq_true, Bool.not_eq_true'] at he
      obtain ⟨rfl, hacc⟩ := he
      have hchain' : s.acknowledge.posted2ib = s.posted2ib := rfl
      by_cases hchain : id ∈ s.posted2ib
      · exact Or.inl ⟨l₁, id, m, l₂, rfl, hchain, by
          simp only [Sender.ibRndzvHandleRtr, hq', hsplit, Sender.sendData, hchain', if_pos hchain]⟩
      · right
        simp only [Sender.ibRndzvHandleRtr, hq', hsplit, Sender.sendData, hchain', if_neg hchain,
          Option.some.injEq, exists_eq_left']
        refine ⟨h.rtr_match hr hq hl₁ hacc hchain, List.prefix_rfl, List.prefix_append _ _, rfl, rfl,
          rfl, by simp [Sender.acknowledge], ?_⟩
        rintro _ id' _ _ heq
        cases heq
        exact hchain

/-- `ib_rndzv_handle_send` finds the message whose send is complete. -/
lemma ibRndzvHandleSend (h : SendInv s asked transferred) (hdone : 0 < s.sendsDone) :
    ∃ s', s.ibRndzvHandleSend = some s' ∧ SendInv s' asked transferred ∧ s.Frame s' := by
  have hlt : s.completed < s.matched.length := by
    have := h.done
    have := h.transferred_le
    omega
  have hchain := h.chain
  rw [List.drop_eq_getElem_cons hlt, List.map_cons] at hchain
  simp only [Sender.ibRndzvHandleSend, hchain, Option.some.injEq, exists_eq_left']
  have htake : s.matched.take (s.completed + 1) =
      s.matched.take s.completed ++ [s.matched[s.completed]] := by
    rw [List.take_add_one, List.getElem?_eq_getElem hlt, Option.toList_some]
  refine ⟨{ h with
      entry := fun e he => ?_
      nodup := by simpa using h.nodup
      sorted := by simpa using h.sorted
      present := by simpa using h.present
      rtr_sorted := by simpa using h.rtr_sorted
      rtr_present := by simpa using h.rtr_present
      chain := rfl
      done := by have := h.done; simp; omega }, List.prefix_rfl, List.prefix_rfl, rfl, rfl, rfl, rfl,
    rfl⟩
  obtain ⟨e, hmem, rfl⟩ := List.mem_map.1 he
  have hi := h.entry e hmem
  cases e with
  | msg id c m =>
    refine ⟨hi.1, hi.2.1, ?_⟩
    rw [htake, List.map_append, List.mem_append, ← hi.2.2]
    simp
  | rtr r => exact hi

/-- A message that is complete is in the queue when it is waited for. -/
lemma ibRndzvFinish (h : SendInv s asked transferred) (hid : id < s.asends.length)
    (hw : id ∉ s.waited) (hdone : s.sendQ.all (Entry.isDone id) = true) :
    ∃ s', s.ibRndzvFinish id = some s' ∧ SendInv s' asked transferred ∧ s.Frame s' := by
  obtain ⟨c, m, he⟩ := mem_msgIds.1 (h.present id hid hw)
  obtain ⟨l₁, e, l₂, hsplit⟩ := exists_splitFirst (p := Entry.isMsg id) he (by simp [Entry.isMsg])
  obtain ⟨hq, -, hmsg⟩ := splitFirst_eq_some.1 hsplit
  cases e with
  | rtr r => simp [Entry.isMsg] at hmsg
  | msg i c m =>
    obtain rfl : i = id := by simpa [Entry.isMsg] using hmsg
    have hmem : .msg i c m ∈ s.sendQ := by simp [hq]
    obtain rfl : c = true := by
      simpa [Entry.isDone] using List.all_eq_true.1 hdone _ hmem
    have hmatched : i ∈ s.matched.map Prod.fst :=
      List.map_subset _ (List.take_subset _ _) ((h.entry _ hmem).2.2.1 rfl)
    have hnodup := h.nodup
    have hsorted := h.sorted
    rw [hq, msgIds_append, msgIds_msg] at hnodup hsorted
    have hnew := (List.nodup_middle.1 hnodup).notMem
    have hsub : ∀ e ∈ l₁ ++ l₂, e ∈ s.sendQ := by
      intro e he
      rw [hq]
      simp at he ⊢
      tauto
    simp only [Sender.ibRndzvFinish, hsplit, Option.some.injEq, exists_eq_left']
    refine ⟨{ h with
      entry := fun e he => ?_
      nodup := by simpa using (List.nodup_middle.1 hnodup).of_cons
      sorted := by
        rw [List.filter_append, List.filter_cons_of_neg (by simpa using hmatched)] at hsorted
        simpa using hsorted
      present := fun id hid hw => ?_
      rtr_sorted := by simpa [hq] using h.rtr_sorted
      rtr_present := by simpa [hq] using h.rtr_present
      waited_matched := fun id hw => ?_ }, List.prefix_rfl, List.prefix_rfl, rfl, rfl, rfl, rfl, rfl⟩
    · have hi := h.entry e (hsub e he)
      cases e with
      | msg id c m =>
        refine ⟨hi.1, ?_, hi.2.2⟩
        rw [List.mem_append, List.mem_singleton, not_or]
        refine ⟨hi.2.1, ?_⟩
        rintro rfl
        exact hnew (by rw [← msgIds_append]; exact mem_msgIds.2 ⟨c, m, he⟩)
      | rtr r => exact hi
    · rw [List.mem_append, List.mem_singleton, not_or] at hw
      have := h.present id hid hw.1
      simpa [hq, hw.2] using this
    · rcases List.mem_append.1 hw with hw | hw
      · exact h.waited_matched id hw
      · rw [List.mem_singleton.1 hw]
        exact hmatched

/-- An acknowledgement is carried out. -/
lemma transfer_ack {sr : List Request} (h : SendInv s asked transferred) (hsr : s.sr = .ack :: sr) :
    SendInv { s with sr := sr } asked transferred :=
  { h with
    requests := by
      have := h.requests
      rw [hsr] at this
      exact this
    request_rtr := fun id r hr => h.request_rtr id r (by simp [hsr, hr]) }

/-- The data of a message is carried out. -/
lemma transfer_data {sr : List Request} (h : SendInv s asked transferred)
    (hsr : s.sr = .data id r :: sr) :
    s.matched[transferred]? = some (id, r.addr) ∧ asked[r.addr]? = some r ∧
      SendInv { s with sr := sr, sendsDone := s.sendsDone + 1 } asked (transferred + 1) := by
  have hreq := h.requests
  rw [hsr] at hreq
  change (id, r.addr) :: sr.filterMap Request.pair = _ at hreq
  have hlt : transferred < s.matched.length := by
    by_contra hge
    rw [List.drop_eq_nil_of_le (not_lt.1 hge)] at hreq
    cases hreq
  rw [List.drop_eq_getElem_cons hlt, List.cons.injEq] at hreq
  refine ⟨?_, h.request_rtr id r (by simp [hsr]), ?_⟩
  · rw [List.getElem?_eq_getElem hlt, ← hreq.1]
  · exact
      { h with
        requests := hreq.2
        request_rtr := fun id r hr => h.request_rtr id r (by simp [hsr, hr])
        done := by have := h.done; simp; omega
        transferred_le := hlt }

end SendInv

end NetPipe.Vapi.Rndzv
