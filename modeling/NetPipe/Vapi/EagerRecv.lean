import NetPipe.Vapi.EagerSend

/-!
# The receiving side of eager messages

Receives are posted, completed and handled in the same order, so that the entry with number `i` of
`eager_ib_recv_q` gets message number `i`. Its buffer is in use until the message goes to a receive
of the user.
-/

namespace NetPipe.Vapi

variable {r : RecvSide} {sent sent' : List Packet} {done debt i k b : ℕ} {waited : List ℕ}
  {e : IbEntry} {l₁ l₂ : List IbEntry} {q : RecvArgs} {m : Packet}

/-! ### Posted buffers -/

/-- The entries that wait for a completion. -/
def pending (l : List IbEntry) : List IbEntry := l.filter (·.flag = .waiting)

/-- The buffers of the entries whose message has not been taken. -/
def live (l : List IbEntry) : List ℕ := (l.filter (·.flag ≠ .matched)).map (·.ibIndex)

@[simp] lemma pending_append : pending (l₁ ++ l₂) = pending l₁ ++ pending l₂ := by simp [pending]

@[simp] lemma pending_cons :
    pending (e :: l₁) = if e.flag = .waiting then e :: pending l₁ else pending l₁ := by
  simp [pending, List.filter_cons]

@[simp] lemma pending_nil : pending [] = [] := rfl

@[simp] lemma live_append : live (l₁ ++ l₂) = live l₁ ++ live l₂ := by simp [live]

@[simp] lemma live_cons :
    live (e :: l₁) = if e.flag = .matched then live l₁ else e.ibIndex :: live l₁ := by
  by_cases he : e.flag = .matched <;> simp [live, he]

@[simp] lemma live_nil : live [] = [] := rfl

lemma mem_live : b ∈ live l₁ ↔ ∃ e ∈ l₁, e.flag ≠ .matched ∧ e.ibIndex = b := by
  simp [live, and_assoc]

/-- What holds of an entry. -/
structure EntryInv (r : RecvSide) (sent : List Packet) (done : ℕ) (e : IbEntry) : Prop where
  id_lt : e.id < r.posted
  index_lt : e.ibIndex < eagerBuffersPerNode
  holds : e.flag ≠ .matched → e.id < r.handled + done → sent[e.id]? = some (r.recvBuffers e.ibIndex)
  complete : e.flag = .complete →
    e.tag = (r.recvBuffers e.ibIndex).tag ∧ e.nbytes = (r.recvBuffers e.ibIndex).nbytes
  waiting_iff : e.flag = .waiting ↔ r.handled ≤ e.id
  matched_iff : e.flag = .matched ↔ ∃ k, (e.id, k) ∈ r.matched

/-- The queue of posted buffers, where `done` completions have not been handled, `debt` buffers are
free and the receives in `waited` have been waited for. -/
structure IbInv (r : RecvSide) (sent : List Packet) (done debt : ℕ) (waited : List ℕ) : Prop where
  posted : r.posted + debt = eagerBuffersPerNode + r.matched.length
  done_le : r.handled + done ≤ r.posted
  waiting : (pending r.ibRecvQ).map (·.id) = List.range' r.handled (r.posted - r.handled)
  rr : r.rr = ((pending r.ibRecvQ).map (·.ibIndex)).drop done
  sorted : (r.ibRecvQ.map (·.id)).Pairwise (· < ·)
  inUse : ∀ b, r.inUse b = true ↔ b ∈ live r.ibRecvQ
  index_nodup : (live r.ibRecvQ).Nodup
  entry : ∀ e ∈ r.ibRecvQ, EntryInv r sent done e
  present : ∀ i < r.handled, (∀ k ∈ waited, (i, k) ∉ r.matched) → i ∈ r.ibRecvQ.map (·.id)
  matched_lt : ∀ i k, (i, k) ∈ r.matched → i < r.handled
  nodup : (r.matched.map Prod.fst).Nodup

namespace IbInv

/-- Two entries with one buffer are the same. -/
lemma eq_of_ibIndex_eq (h : IbInv r sent done debt waited) {x y : IbEntry} (hx : x ∈ r.ibRecvQ)
    (hy : y ∈ r.ibRecvQ) (hfx : x.flag ≠ .matched) (hfy : y.flag ≠ .matched)
    (heq : x.ibIndex = y.ibIndex) : x = y :=
  List.inj_on_of_nodup_map (f := IbEntry.ibIndex) h.index_nodup (by simp [hx, hfx])
    (by simp [hy, hfy]) heq

lemma matched_length_le (h : IbInv r sent done debt waited) : r.matched.length ≤ r.handled := by
  have hsub : r.matched.map Prod.fst ⊆ List.range r.handled := fun i hi => by
    obtain ⟨⟨i, k⟩, hik, rfl⟩ := List.mem_map.1 hi
    exact List.mem_range.2 (h.matched_lt i k hik)
  simpa using (h.nodup.subperm hsub).length_le

/-- The user's side does not matter. -/
lemma setUser (h : IbInv r sent done debt waited) (us : List UserEntry) (as : List RecvArgs) :
    IbInv { r with userRecvQ := us, asked := as } sent done debt waited :=
  { h with entry := fun e he => { h.entry e he with } }

/-- More messages are sent. -/
lemma mono (h : IbInv r sent done debt waited) (hpre : sent <+: sent') :
    IbInv r sent' done debt waited :=
  { h with
    entry := fun e he =>
      { h.entry e he with
        holds := fun hf hid => getElem?_of_initial hpre ((h.entry e he).holds hf hid) } }

/-- A free buffer is posted again. -/
lemma ibPostEagerRecv (h : IbInv r sent done (debt + 1) waited) (hb : b < eagerBuffersPerNode)
    (hfree : r.inUse b = false) :
    ∃ c, r.ibPostEagerRecv = some (r.postBuffer c) ∧
      IbInv (r.postBuffer c) sent done debt waited := by
  obtain ⟨c, hc⟩ : ∃ c, (List.range eagerBuffersPerNode).find? (fun b => !r.inUse b) = some c := by
    rw [← Option.isSome_iff_exists, List.find?_isSome]
    exact ⟨b, List.mem_range.2 hb, by simp [hfree]⟩
  have hclt : c < eagerBuffersPerNode := List.mem_range.1 (List.mem_of_find?_eq_some hc)
  have hcfree : c ∉ live r.ibRecvQ := by
    rw [← h.inUse, Bool.not_eq_true]
    simpa using List.find?_some hc
  have hlen : (pending r.ibRecvQ).length = r.posted - r.handled := by
    simpa using congrArg List.length h.waiting
  have hle := h.done_le
  refine ⟨c, by simp [RecvSide.ibPostEagerRecv, hc], ?_⟩
  unfold RecvSide.postBuffer
  exact
    { posted := by have := h.posted; simp; omega
      done_le := by simp; omega
      waiting := by
        have hsub : r.posted + 1 - r.handled = r.posted - r.handled + 1 := by omega
        simp only [pending_append, List.map_append, h.waiting, hsub, List.range'_1_concat]
        rw [Nat.add_sub_cancel' (by omega)]
        simp
      rr := by
        simp only [pending_append, List.map_append, h.rr]
        rw [List.drop_append_of_le_length (by simp only [List.length_map, hlen]; omega)]
        simp
      sorted := by
        simp only [List.map_append, List.pairwise_append]
        exact ⟨h.sorted, by simp, by simpa using fun e he => (h.entry e he).id_lt⟩
      inUse := fun b => by
        by_cases hbc : b = c
        · simp [hbc]
        · simp [hbc, h.inUse]
      index_nodup := by
        simp only [live_append, List.nodup_append]
        refine ⟨h.index_nodup, by simp, ?_⟩
        intro a ha b hb heq
        exact hcfree (by simp_all)
      entry := by
        simp only [List.forall_mem_append, List.forall_mem_singleton]
        refine ⟨fun e he => { h.entry e he with id_lt := (h.entry e he).id_lt.trans (by simp) }, ?_⟩
        exact
          { id_lt := by simp
            index_lt := hclt
            holds := by simp; omega
            complete := by simp
            waiting_iff := by simp; omega
            matched_iff := by
              simp
              intro k hk
              have := h.matched_lt _ k hk
              omega }
      present := fun i hi hk => by
        rw [List.map_append]
        exact List.mem_append_left _ (h.present i hi hk)
      matched_lt := h.matched_lt
      nodup := h.nodup }

/-- The first posted buffer that waits gets the first message that has not been handled. -/
lemma splitFirst_pending (h : IbInv r sent (done + 1) debt waited) :
    ∃ l₁ e l₂, splitFirst (fun e => e.flag = .waiting) r.ibRecvQ = some (l₁, e, l₂) ∧
      r.ibRecvQ = l₁ ++ e :: l₂ ∧ e.flag = .waiting ∧ e.id = r.handled ∧ pending l₁ = [] := by
  have hlen : (pending r.ibRecvQ).length = r.posted - r.handled := by
    simpa using congrArg List.length h.waiting
  obtain ⟨x, hx⟩ := List.exists_mem_of_length_pos (l := pending r.ibRecvQ) (by
    have := h.done_le
    omega)
  rw [pending, List.mem_filter] at hx
  obtain ⟨l₁, e, l₂, hsplit⟩ :=
    exists_splitFirst (p := fun e : IbEntry => decide (e.flag = .waiting)) hx.1 hx.2
  obtain ⟨hq, hl₁, he⟩ := splitFirst_eq_some.1 hsplit
  have hl₁ : pending l₁ = [] := by simpa [pending, List.filter_eq_nil_iff] using hl₁
  have hwait := h.waiting
  have hsub : r.posted - r.handled = r.posted - r.handled - 1 + 1 := by
    have := h.done_le
    omega
  rw [decide_eq_true_eq] at he
  rw [hq, pending_append, hl₁, List.nil_append, pending_cons, if_pos he, hsub, List.range'_succ,
    List.map_cons, List.cons.injEq] at hwait
  exact ⟨l₁, e, l₂, hsplit, hq, he, hwait.1, hl₁⟩

/-- A completion is handled: the header is copied. -/
lemma complete_first (h : IbInv r sent (done + 1) debt waited) (hq : r.ibRecvQ = l₁ ++ e :: l₂)
    (he : e.flag = .waiting) (hid : e.id = r.handled) (hl₁ : pending l₁ = []) :
    IbInv { r with
      ibRecvQ := l₁ ++ { e with
        flag := .complete
        tag := (r.recvBuffers e.ibIndex).tag
        nbytes := (r.recvBuffers e.ibIndex).nbytes } :: l₂
      handled := r.handled + 1 } sent done debt waited := by
  have hmem : e ∈ r.ibRecvQ := by simp [hq]
  have hwait := h.waiting
  have hrr := h.rr
  have hlt := h.done_le
  have hsub : r.posted - r.handled = r.posted - (r.handled + 1) + 1 := by omega
  rw [hq, pending_append, hl₁, List.nil_append, pending_cons, if_pos he] at hwait hrr
  rw [hsub, List.range'_succ, List.map_cons, List.cons.injEq] at hwait
  rw [List.map_cons, List.drop_succ_cons] at hrr
  have hfree : ∀ k, (e.id, k) ∉ r.matched := fun k hk => by
    have := h.matched_lt _ k hk
    omega
  exact
    { posted := h.posted
      done_le := by simp; omega
      waiting := by simp [hl₁, hwait.2]
      rr := by simp [hl₁, hrr]
      sorted := by simpa [hq] using h.sorted
      inUse := fun b => by simpa [hq, he] using h.inUse b
      index_nodup := by simpa [hq, he] using h.index_nodup
      entry := by
        refine forall_mem_replace h.sorted hq ?_ fun x hx hne => ?_
        · exact
            { id_lt := (h.entry e hmem).id_lt
              index_lt := (h.entry e hmem).index_lt
              holds := fun _ _ => (h.entry e hmem).holds (by simp [he]) (by omega)
              complete := fun _ => ⟨rfl, rfl⟩
              waiting_iff := by simp [hid]
              matched_iff := by simpa using hfree }
        · have hx := h.entry x hx
          exact
            { hx with
              holds := fun hf hlt => hx.holds hf (by simp at hlt; omega)
              waiting_iff := by rw [hx.waiting_iff]; simp; omega }
      present := fun i hi hk => by
        have hmap : i ∈ r.ibRecvQ.map (·.id) := by
          rcases Nat.lt_succ_iff_lt_or_eq.1 hi with hi | rfl
          · exact h.present i hi hk
          · exact List.mem_map.2 ⟨e, hmem, hid⟩
        simpa [hq] using hmap
      matched_lt := fun i k hik => (h.matched_lt i k hik).trans (Nat.lt_succ_self _)
      nodup := h.nodup }

/-- A message goes to receive `k`, and its buffer is free. -/
lemma setMatched (h : IbInv r sent done debt waited) (hq : r.ibRecvQ = l₁ ++ e :: l₂)
    (he : e.flag = .complete) (k : ℕ) :
    IbInv { r with
      ibRecvQ := l₁ ++ { e with flag := .matched } :: l₂
      matched := r.matched ++ [(e.id, k)]
      inUse := Function.update r.inUse e.ibIndex false } sent done (debt + 1) waited := by
  have hmem : e ∈ r.ibRecvQ := by simp [hq]
  have hnew : ∀ k, (e.id, k) ∉ r.matched := fun k hk => by
    simpa [he] using (h.entry e hmem).matched_iff.2 ⟨k, hk⟩
  have hhandled : e.id < r.handled := by
    by_contra hge
    simpa [he] using (h.entry e hmem).waiting_iff.2 (not_lt.1 hge)
  have hwait := h.waiting
  have hrr := h.rr
  have hnodup := h.index_nodup
  rw [hq] at hwait hrr hnodup
  simp only [pending_append, pending_cons, he, reduceCtorEq, ↓reduceIte] at hwait hrr
  simp only [live_append, live_cons, he, reduceCtorEq, ↓reduceIte] at hnodup
  have hfree : e.ibIndex ∉ live (l₁ ++ l₂) := by
    rw [live_append]
    exact (List.nodup_middle.1 hnodup).notMem
  exact
    { posted := by have := h.posted; simp; omega
      done_le := h.done_le
      waiting := by simpa using hwait
      rr := by simpa using hrr
      sorted := by simpa [hq] using h.sorted
      inUse := fun b => by
        by_cases hb : b = e.ibIndex
        · simpa [hb] using hfree
        · simp [hb, h.inUse, hq, he]
      index_nodup := by simpa using (List.nodup_middle.1 hnodup).of_cons
      entry := by
        refine forall_mem_replace h.sorted hq ?_ fun x hx hne => ?_
        · exact
            { id_lt := (h.entry e hmem).id_lt
              index_lt := (h.entry e hmem).index_lt
              holds := fun hf => absurd rfl hf
              complete := by simp
              waiting_iff := by simpa using hhandled
              matched_iff := by simp }
        · have hx := h.entry x hx
          exact { hx with matched_iff := by simpa [hne] using hx.matched_iff }
      present := fun i hi hk => by
        have := h.present i hi fun k hk' hik => hk k hk' (by simp [hik])
        simpa [hq] using this
      matched_lt := fun i k hik => by
        rcases List.mem_append.1 hik with hik | hik
        · exact h.matched_lt i k hik
        · cases List.mem_singleton.1 hik
          exact hhandled
      nodup := by
        rw [List.map_append, List.map_singleton]
        refine h.nodup.append (List.nodup_singleton _) ?_
        simpa using hnew }

/-- A receive that has its message is waited for: the entry leaves the queue. -/
lemma remove (h : IbInv r sent done debt waited) (hq : r.ibRecvQ = l₁ ++ e :: l₂)
    (hk : (e.id, k) ∈ r.matched) :
    IbInv { r with ibRecvQ := l₁ ++ l₂ } sent done debt (waited ++ [k]) := by
  have he : e.flag = .matched := (h.entry e (by simp [hq])).matched_iff.2 ⟨k, hk⟩
  have hsub : ∀ x ∈ l₁ ++ l₂, x ∈ r.ibRecvQ := fun x hx =>
    (mem_of_mem_remove h.sorted hq hx).1
  exact
    { h with
      waiting := by simpa [hq, he] using h.waiting
      rr := by simpa [hq, he] using h.rr
      sorted := by
        have hs := h.sorted
        rw [hq] at hs
        exact hs.sublist (by simp)
      inUse := fun b => by simpa [hq, he] using h.inUse b
      index_nodup := by simpa [hq, he] using h.index_nodup
      entry := fun x hx => { h.entry x (hsub x hx) with }
      present := fun i hi hki => by
        have := h.present i hi fun k hk => hki k (by simp [hk])
        have hne : i ≠ e.id := fun heq => hki k (by simp) (heq ▸ hk)
        simpa [hq, hne] using this }

/-- A message arrives in the buffer posted first. -/
lemma transfer (h : IbInv r sent done debt waited) {c : ℕ} {rr : List ℕ} (hrr : r.rr = c :: rr)
    (hm : sent[r.handled + done]? = some m) :
    IbInv { r with rr := rr, recvBuffers := Function.update r.recvBuffers c m } sent (done + 1) debt
      waited := by
  have hdrop := h.rr
  rw [hrr] at hdrop
  have hlt : done < (pending r.ibRecvQ).length := by
    have := congrArg List.length hdrop
    simp at this
    omega
  have hdrop' := List.drop_eq_getElem_cons (l := (pending r.ibRecvQ).map (·.ibIndex)) (i := done)
    (by simpa using hlt)
  rw [hdrop', List.cons.injEq, List.getElem_map] at hdrop
  obtain ⟨hindex, htail⟩ := hdrop
  -- the entry of the buffer has the number of the message
  have hid : ((pending r.ibRecvQ)[done]).id = r.handled + done := by
    have := congrArg (·[done]?) h.waiting
    rw [List.getElem?_map, List.getElem?_eq_getElem hlt, List.getElem?_range' (by
      have := congrArg List.length h.waiting
      simp at this
      omega)] at this
    simpa using this
  obtain ⟨hx, hflag⟩ := List.mem_filter.1 (List.getElem_mem hlt)
  set x := (pending r.ibRecvQ)[done] with hxdef
  rw [decide_eq_true_eq] at hflag
  have hne : ∀ y ∈ r.ibRecvQ, y.flag ≠ .matched → y.id ≠ r.handled + done → y.ibIndex ≠ c := by
    intro y hy hfy hidy hc
    have := h.eq_of_ibIndex_eq hy hx hfy (by simp [hflag]) (hc.trans hindex)
    exact hidy (this ▸ hid)
  have hle := (h.entry x hx).id_lt
  exact
    { h with
      done_le := by simp; omega
      rr := htail
      entry := fun y hy => by
        have hy' := h.entry y hy
        exact
          { hy' with
            holds := fun hf hidy => by
              by_cases heq : y.id = r.handled + done
              · obtain rfl := eq_of_key_eq h.sorted hy hx (heq.trans hid.symm)
                simp [hid, hm, ← hindex]
              · dsimp only
                rw [Function.update_of_ne (hne y hy hf heq)]
                exact hy'.holds hf (by simp at hidy; omega)
            complete := fun hf => by
              have hwait := hy'.waiting_iff
              dsimp only
              rw [Function.update_of_ne (hne y hy (by simp [hf]) (by simp [hf] at hwait; omega))]
              exact hy'.complete hf } }

/-- A complete entry holds a message that has not been taken. -/
lemma of_complete (h : IbInv r sent done debt waited) (he : e ∈ r.ibRecvQ)
    (hflag : e.flag = .complete) :
    e.id < r.handled ∧ (∀ k, (e.id, k) ∉ r.matched) ∧
      ∃ m, sent[e.id]? = some m ∧ e.tag = m.tag ∧ e.nbytes = m.nbytes ∧
        r.recvBuffers e.ibIndex = m := by
  have hi := h.entry e he
  have hlt : e.id < r.handled := by
    by_contra hge
    simpa [hflag] using hi.waiting_iff.2 (not_lt.1 hge)
  exact ⟨hlt, fun k hk => by simpa [hflag] using hi.matched_iff.2 ⟨k, hk⟩, _,
    hi.holds (by simp [hflag]) (by omega), (hi.complete hflag).1, (hi.complete hflag).2, rfl⟩

/-- A message that has not been taken stands in a complete entry. -/
lemma exists_complete (h : IbInv r sent done debt waited) (hi : i < r.handled)
    (hfree : ∀ k, (i, k) ∉ r.matched) : ∃ e ∈ r.ibRecvQ, e.id = i ∧ e.flag = .complete := by
  obtain ⟨e, he, rfl⟩ := List.mem_map.1 (h.present i hi fun k _ => hfree k)
  refine ⟨e, he, rfl, ?_⟩
  have hwait := (h.entry e he).waiting_iff
  have hmatched := (h.entry e he).matched_iff
  cases hf : e.flag with
  | waiting => exact absurd (hwait.1 hf) (by omega)
  | complete => rfl
  | matched =>
    obtain ⟨k, hk⟩ := hmatched.1 hf
    exact absurd hk (hfree k)

/-- The search of `ib_eager_arecv` does not pass over a message. -/
lemma exists_suits (h : IbInv r sent done debt waited) (hm : (sent.take r.handled)[i]? = some m)
    (hacc : q.Accepts m) (hfree : ¬∃ k, (i, k) ∈ r.matched) :
    ∃ e ∈ r.ibRecvQ, e.id = i ∧ (decide (e.flag = .complete) && q.accepts e.tag e.nbytes) = true := by
  have hi : i < r.handled := by
    have := (List.getElem?_eq_some_iff.1 hm).1
    simp at this
    omega
  obtain ⟨e, he, rfl, hflag⟩ := h.exists_complete hi (not_exists.1 hfree)
  obtain ⟨-, -, m', hm', htag, hnbytes, -⟩ := h.of_complete he hflag
  rw [List.getElem?_take_of_lt hi, hm', Option.some.injEq] at hm
  subst hm
  refine ⟨e, he, rfl, ?_⟩
  simp only [hflag, htag, hnbytes, decide_true, Bool.true_and]
  exact hacc

end IbInv

/-! ### Receives of the user -/

/-- What holds of a receive in the queue. -/
structure UserEntryInv (r : RecvSide) (sent : List Packet) (waited : List ℕ) (u : UserEntry) :
    Prop where
  asked : r.asked[u.id]? = some u.args
  not_waited : u.id ∉ waited
  waiting_iff : u.flag = .waiting ↔ ∀ i, (i, u.id) ∉ r.matched
  complete : ∀ i, (i, u.id) ∈ r.matched →
    u.flag = .complete ∧ u.ibPtr = some i ∧ ∃ m, sent[i]? = some m ∧ u.buf = m.data

/-- The receives of the user: each gets the first message that it accepts. -/
structure UserInv (r : RecvSide) (sent : List Packet) (waited : List ℕ) : Prop where
  waited_matched : ∀ k ∈ waited, ∃ i, (i, k) ∈ r.matched
  sorted : (r.userRecvQ.map (·.id)).Pairwise (· < ·)
  entry : ∀ u ∈ r.userRecvQ, UserEntryInv r sent waited u
  present : ∀ k < r.asked.length, k ∉ waited → k ∈ r.userRecvQ.map (·.id)
  first : FirstMatch RecvArgs.Accepts (sent.take r.handled) r.asked r.matched

/-- The receiving node. -/
structure RecvInv (r : RecvSide) (sent : List Packet) (done : ℕ) (waited : List ℕ) : Prop where
  ib : IbInv r sent done 0 waited
  user : UserInv r sent waited
  freed : r.locRecvFreed = count r.posted

/-- A step of the receiver: what has been matched stays so, and a buffer that is freed is
announced. -/
structure RecvSide.Grows (r r' : RecvSide) : Prop where
  matched : r.matched <+: r'.matched
  asked : r.asked <+: r'.asked
  posted : r.posted ≤ r'.posted
  writes : r'.writes = 0 → r.writes = 0 ∧ r'.posted = r.posted

namespace UserInv

variable {r' : RecvSide} {u u' : UserEntry} {u₁ u₂ : List UserEntry}

/-- A new receive. -/
lemma push (h : UserInv r sent waited) (hq : r'.userRecvQ = r.userRecvQ ++ [u])
    (hasked : r'.asked = r.asked ++ [q]) (hid : u.id = r.asked.length)
    (hmatched : ∀ i k, k < r.asked.length → ((i, k) ∈ r'.matched ↔ (i, k) ∈ r.matched))
    (hargs : u.args = q) (hwait : u.flag = .waiting ↔ ∀ i, (i, u.id) ∉ r'.matched)
    (hcomplete : ∀ i, (i, u.id) ∈ r'.matched →
      u.flag = .complete ∧ u.ibPtr = some i ∧ ∃ m, sent[i]? = some m ∧ u.buf = m.data)
    (hfirst : FirstMatch RecvArgs.Accepts (sent.take r'.handled) r'.asked r'.matched) :
    UserInv r' sent waited where
  waited_matched k hk := by
    obtain ⟨i, hi⟩ := h.waited_matched k hk
    exact ⟨i, (hmatched i k (h.first.lt_right hi)).2 hi⟩
  sorted := by
    simp only [hq, List.map_append, List.pairwise_append]
    refine ⟨h.sorted, by simp, ?_⟩
    simpa [hid] using fun u hu => (List.getElem?_eq_some_iff.1 (h.entry u hu).asked).1
  entry := by
    simp only [hq, List.forall_mem_append, List.forall_mem_singleton]
    refine ⟨fun u hu => ?_, ?_⟩
    · have hi := h.entry u hu
      have hlt := (List.getElem?_eq_some_iff.1 hi.asked).1
      exact
        { asked := by rw [hasked, List.getElem?_append_left hlt, hi.asked]
          not_waited := hi.not_waited
          waiting_iff := by simpa only [hmatched _ _ hlt] using hi.waiting_iff
          complete := fun i hiu => hi.complete i ((hmatched _ _ hlt).1 hiu) }
    · exact
        { asked := by simp [hasked, hid, hargs]
          not_waited := fun hu => by
            obtain ⟨i, hi⟩ := h.waited_matched _ hu
            have := h.first.lt_right hi
            omega
          waiting_iff := hwait
          complete := hcomplete }
  present k hk hw := by
    simp only [hq, List.map_append, List.map_singleton, List.mem_append, List.mem_singleton, hid]
    rw [hasked, List.length_append, List.length_singleton] at hk
    rcases Nat.lt_succ_iff_lt_or_eq.1 hk with hk | hk
    · exact Or.inl (h.present k hk hw)
    · exact Or.inr hk
  first := hfirst

/-- A receive gets its message. -/
lemma settle (h : UserInv r sent waited) (hq : r.userRecvQ = u₁ ++ u :: u₂)
    (hq' : r'.userRecvQ = u₁ ++ u' :: u₂) (hasked : r'.asked = r.asked)
    (hmatched : r'.matched = r.matched ++ [(i, u.id)]) (hu' : UserEntryInv r' sent waited u')
    (hid : u'.id = u.id)
    (hfirst : FirstMatch RecvArgs.Accepts (sent.take r'.handled) r'.asked r'.matched) :
    UserInv r' sent waited where
  waited_matched k hk := by
    obtain ⟨i, hi⟩ := h.waited_matched k hk
    exact ⟨i, by simp [hmatched, hi]⟩
  sorted := by simpa [hq, hq', hid] using h.sorted
  entry := by
    rw [hq']
    refine forall_mem_replace h.sorted hq hu' fun x hx hne => ?_
    have hx := h.entry x hx
    exact
      { asked := by rw [hasked, hx.asked]
        not_waited := hx.not_waited
        waiting_iff := by simpa [hmatched, hne] using hx.waiting_iff
        complete := fun i hi => hx.complete i (by simpa [hmatched, hne] using hi) }
  present k hk hw := by
    rw [hasked] at hk
    simpa [hq, hq', hid] using h.present k hk hw
  first := hfirst

/-- The search of `ib_eager_handle_recv` does not pass over a receive. -/
lemma exists_suits (h : UserInv r sent waited) (hask : r.asked[k]? = some q) (hacc : q.Accepts m)
    (hfree : ¬∃ i, (i, k) ∈ r.matched) :
    ∃ u ∈ r.userRecvQ, u.id = k ∧
      (decide (u.flag = .waiting) && u.args.accepts m.tag m.nbytes) = true := by
  obtain ⟨u, hu, rfl⟩ := List.mem_map.1 (h.present k (List.getElem?_eq_some_iff.1 hask).1
    fun hw => hfree (h.waited_matched k hw))
  have hi := h.entry u hu
  obtain rfl : u.args = q := by simpa [hi.asked] using hask
  refine ⟨u, hu, rfl, ?_⟩
  simp only [hi.waiting_iff.2 (not_exists.1 hfree), decide_true, Bool.true_and]
  exact hacc

end UserInv

namespace RecvInv

/-- A buffer whose message has been taken is posted again, and the other node is told. -/
lemma recycle (h : IbInv { r with inUse := Function.update r.inUse b false } sent done 1 waited)
    (hu : UserInv r sent waited) (hf : r.locRecvFreed = count r.posted)
    (hb : b < eagerBuffersPerNode) :
    ∃ r', r.recycle b = some r' ∧ RecvInv r' sent done waited ∧ r'.handled = r.handled ∧
      r'.matched = r.matched ∧ r'.asked = r.asked ∧ r'.posted = r.posted + 1 ∧
      r'.writes = r.writes + 1 := by
  obtain ⟨c, hc, hi⟩ := h.ibPostEagerRecv hb (by simp)
  refine ⟨_, congrArg (Option.map RecvSide.ibIncEagerRecvFreed) hc, ⟨?_, ?_, ?_⟩, rfl, rfl, rfl, rfl, rfl⟩
  · exact { hi with entry := fun e he => { hi.entry e he with } }
  · exact { hu with entry := fun u hu' => { hu.entry u hu' with } }
  · simp [RecvSide.postBuffer, RecvSide.ibIncEagerRecvFreed, hf, incWithWrap_count]

/-- More messages are sent. -/
lemma mono (h : RecvInv r sent done waited) (hpre : sent <+: sent')
    (hle : r.handled ≤ sent.length) : RecvInv r sent' done waited where
  ib := h.ib.mono hpre
  user := by
    have hu := h.user
    refine
      { hu with
        entry := fun u hu' => { hu.entry u hu' with complete := fun i hi => ?_ }
        first := ?_ }
    · obtain ⟨hf, hptr, m, hm, hbuf⟩ := (hu.entry u hu').complete i hi
      exact ⟨hf, hptr, m, getElem?_of_initial hpre hm, hbuf⟩
    · obtain ⟨t, rfl⟩ := hpre
      rw [List.take_append_of_le_length hle]
      exact hu.first
  freed := h.freed

/-- A message finds a posted receive. -/
lemma transfer (h : RecvInv r sent done waited) (hm : sent[r.handled + done]? = some m)
    (hlt : r.handled + done < r.posted) :
    ∃ c rr, r.rr = c :: rr ∧
      RecvInv { r with rr := rr, recvBuffers := Function.update r.recvBuffers c m } sent (done + 1)
        waited := by
  cases hrr : r.rr with
  | nil =>
    have hwait := congrArg List.length h.ib.waiting
    have hlen := congrArg List.length h.ib.rr
    simp [hrr] at hwait hlen
    omega
  | cons c rr =>
    have hu := h.user
    exact ⟨c, rr, rfl, h.ib.transfer hrr hm,
      { hu with entry := fun u hu' => { hu.entry u hu' with } }, h.freed⟩

/-- `ib_eager_arecv` finds a free buffer. -/
lemma ibEagerArecv (h : RecvInv r sent done waited) (q : RecvArgs) :
    ∃ r', r.ibEagerArecv q = some r' ∧ RecvInv r' sent done waited ∧ r.Grows r' ∧
      r'.handled = r.handled := by
  have hu := h.user
  have hself : ∀ i, (i, r.asked.length) ∉ r.matched := fun i hi => by
    have := hu.first.lt_right hi
    omega
  simp only [RecvSide.ibEagerArecv]
  split
  · next l₁ e l₂ hsplit =>
    obtain ⟨hq, hl₁, he⟩ := splitFirst_eq_some.1 hsplit
    simp only [Bool.and_eq_true, decide_eq_true_eq] at he
    obtain ⟨hhandled, hnew, m, hm, htag, hnbytes, hbuf⟩ := h.ib.of_complete (by simp [hq]) he.1
    rw [htag, hnbytes] at he
    have hfirst : FirstMatch RecvArgs.Accepts (sent.take r.handled) (r.asked ++ [q])
        (r.matched ++ [(e.id, r.asked.length)]) := by
      refine hu.first.post_match (m := m) ?_ he.2 hnew fun i hi m' hm' hacc => ?_
      · rw [List.getElem?_take_of_lt hhandled, hm]
      · -- an earlier message that waits would have been found
        by_contra hfree
        obtain ⟨x, hx, rfl, hsuits⟩ := h.ib.exists_suits hm' hacc hfree
        have := hl₁ x (mem_left_of_key_lt h.ib.sorted hq hx hi)
        rw [hsuits] at this
        cases this
    obtain ⟨r', hr', hinv, hhand, hmat, hask, hpost, hwr⟩ := recycle
      (r := { r with
        ibRecvQ := l₁ ++ { e with flag := .matched } :: l₂
        userRecvQ := r.userRecvQ ++ [⟨r.asked.length, .complete, q, some e.id,
          (r.recvBuffers e.ibIndex).data.take e.nbytes⟩]
        asked := r.asked ++ [q]
        matched := r.matched ++ [(e.id, r.asked.length)] })
      ((h.ib.setMatched hq he.1 r.asked.length).setUser _ _)
      (hu.push rfl rfl rfl (fun i k hk => by simp [hk.ne]) rfl
        ⟨fun hf => by simp at hf, fun hw => absurd (by simp) (hw e.id)⟩ (fun i hi => by
        simp only [List.mem_append, hself, List.mem_singleton, Prod.mk.injEq, and_true,
          false_or] at hi
        subst hi
        exact ⟨rfl, rfl, m, hm, by simp [hbuf, hnbytes, Packet.nbytes]⟩) hfirst)
      h.freed (h.ib.entry e (by simp [hq])).index_lt
    exact ⟨r', hr', hinv, ⟨by simp [hmat], by simp [hask], by simp [hpost], by simp [hwr]⟩, hhand⟩
  · next hnone =>
    rw [splitFirst_eq_none] at hnone
    refine ⟨_, rfl, ⟨h.ib.setUser _ _, ?_, h.freed⟩, ⟨by simp, by simp, by simp, by simp⟩, rfl⟩
    refine hu.push rfl rfl rfl (fun i k hk => Iff.rfl) rfl (by simpa using hself)
      (fun i hi => absurd hi (hself i)) (hu.first.post_wait fun i m hm hacc => ?_)
    by_contra hfree
    obtain ⟨x, hx, rfl, hsuits⟩ := h.ib.exists_suits hm hacc hfree
    have := hnone x hx
    rw [hsuits] at this
    cases this

/-- `ib_eager_handle_recv` finds a receive that waits, and a free buffer. -/
lemma ibEagerHandleRecv (h : RecvInv r sent (done + 1) waited) :
    ∃ r', r.ibEagerHandleRecv = some r' ∧ RecvInv r' sent done waited ∧ r.Grows r' ∧
      r'.handled = r.handled + 1 := by
  have hu := h.user
  obtain ⟨l₁, e, l₂, hsplit, hq, he, hid, hl₁⟩ := h.ib.splitFirst_pending
  have hmem : e ∈ r.ibRecvQ := by simp [hq]
  have hm := (h.ib.entry e hmem).holds (by simp [he]) (by omega)
  have hib := h.ib.complete_first hq he hid hl₁
  have htake : sent.take (r.handled + 1) =
      sent.take r.handled ++ [r.recvBuffers e.ibIndex] := by
    rw [List.take_add_one, ← hid, hm, Option.toList_some]
  have hlen : (sent.take r.handled).length = r.handled := by
    have := (List.getElem?_eq_some_iff.1 hm).1
    simp
    omega
  simp only [RecvSide.ibEagerHandleRecv, hsplit]
  split
  · next u₁ u u₂ husplit =>
    obtain ⟨huq, hu₁, hacc⟩ := splitFirst_eq_some.1 husplit
    simp only [Bool.and_eq_true, decide_eq_true_eq] at hacc
    have humem : u ∈ r.userRecvQ := by simp [huq]
    have hui := hu.entry u humem
    have hunew := hui.waiting_iff.1 hacc.1
    have hfirst : FirstMatch RecvArgs.Accepts (sent.take (r.handled + 1)) r.asked
        (r.matched ++ [(e.id, u.id)]) := by
      have := hu.first.arrive_match hui.asked hacc.2 hunew fun k hk q' hq' hacc' => ?_
      · rw [hlen] at this
        rwa [htake, hid]
      -- an earlier receive that waits would have been found
      by_contra hfree
      obtain ⟨x, hx, rfl, hsuits⟩ := hu.exists_suits hq' hacc' hfree
      have := hu₁ x (mem_left_of_key_lt hu.sorted huq hx hk)
      rw [hsuits] at this
      cases this
    obtain ⟨r', hr', hinv, hhand, hmat, hask, hpost, hwr⟩ := recycle
      (r := { r with
        ibRecvQ := l₁ ++ { e with
          flag := .matched
          tag := (r.recvBuffers e.ibIndex).tag
          nbytes := (r.recvBuffers e.ibIndex).nbytes } :: l₂
        userRecvQ := u₁ ++ { u with
          flag := .complete
          ibPtr := some e.id
          buf := (r.recvBuffers e.ibIndex).data.take (r.recvBuffers e.ibIndex).nbytes } :: u₂
        handled := r.handled + 1
        matched := r.matched ++ [(e.id, u.id)] })
      ((hib.setMatched rfl rfl u.id).setUser _ _)
      (hu.settle huq rfl rfl rfl
        { asked := hui.asked
          not_waited := hui.not_waited
          waiting_iff := ⟨fun hf => by simp at hf, fun hw => absurd (by simp) (hw e.id)⟩
          complete := fun i hi => by
            simp only [List.mem_append, hunew, List.mem_singleton, Prod.mk.injEq, and_true,
              false_or] at hi
            subst hi
            exact ⟨rfl, rfl, _, hm, by simp [Packet.nbytes]⟩ } rfl hfirst)
      h.freed (h.ib.entry e hmem).index_lt
    exact ⟨r', hr', hinv, ⟨by simp [hmat], by simp [hask], by simp [hpost], by simp [hwr]⟩, hhand⟩
  · next hnone =>
    rw [splitFirst_eq_none] at hnone
    refine ⟨_, rfl, ⟨hib, ?_, h.freed⟩, ⟨by simp, by simp, by simp, by simp⟩, rfl⟩
    refine { hu with entry := fun u hu' => { hu.entry u hu' with }, first := ?_ }
    rw [htake]
    refine hu.first.arrive_wait fun k q' hq' hacc' => ?_
    by_contra hfree
    obtain ⟨x, hx, rfl, hsuits⟩ := hu.exists_suits hq' hacc' hfree
    have := hnone x hx
    rw [hsuits] at this
    cases this

/-- `ib_eager_finish_recv` finds the entries of a receive that is complete, and the receive has the
data of its message. -/
lemma ibEagerFinishRecv (h : RecvInv r sent done waited) (hk : k < r.asked.length)
    (hw : k ∉ waited) (hcomplete : ∀ u ∈ r.userRecvQ, u.id = k → u.flag = .complete) :
    ∃ u r', r.ibEagerFinishRecv k = some (u, r') ∧ RecvInv r' sent done (waited ++ [k]) ∧
      r.Grows r' ∧ r'.handled = r.handled ∧
      ∃ i m, (i, k) ∈ r.matched ∧ sent[i]? = some m ∧ u.buf = m.data := by
  have hu := h.user
  obtain ⟨x, hx, hxk⟩ := List.mem_map.1 (hu.present k hk hw)
  obtain ⟨u₁, u, u₂, husplit⟩ :=
    exists_splitFirst (p := fun u : UserEntry => decide (u.id = k)) hx (by simpa using hxk)
  obtain ⟨huq, -, hid⟩ := splitFirst_eq_some.1 husplit
  rw [decide_eq_true_eq] at hid
  subst hid
  have hui := hu.entry u (by simp [huq])
  obtain ⟨i, hi⟩ : ∃ i, (i, u.id) ∈ r.matched := by
    by_contra hfree
    have := hui.waiting_iff.2 (not_exists.1 hfree)
    rw [hcomplete u (by simp [huq]) rfl] at this
    cases this
  obtain ⟨-, hptr, m, hm, hbuf⟩ := hui.complete i hi
  -- the message has gone to no other receive, so its entry is still there
  obtain ⟨y, hy, hyi⟩ := List.mem_map.1 (h.ib.present i (h.ib.matched_lt i _ hi) fun k' hk' hik => by
    rw [hu.first.left_inj hik hi] at hk'
    exact hw hk')
  obtain ⟨l₁, e, l₂, hsplit⟩ :=
    exists_splitFirst (p := fun e : IbEntry => decide (some e.id = u.ibPtr)) hy (by simp [hyi, hptr])
  obtain ⟨hq, -, hei⟩ := splitFirst_eq_some.1 hsplit
  have hei : e.id = i := by simpa [hptr] using hei
  subst hei
  have hib := h.ib.remove hq hi
  refine ⟨u, { r with userRecvQ := u₁ ++ u₂, ibRecvQ := l₁ ++ l₂ },
    by simp only [RecvSide.ibEagerFinishRecv, husplit, hsplit], ⟨?_, ?_, h.freed⟩,
    ⟨by simp, by simp, by simp, by simp⟩, rfl, e.id, m, hi, hm, hbuf⟩
  · exact { hib with entry := fun e he => { hib.entry e he with } }
  · have hsorted := hu.sorted
    rw [huq] at hsorted
    have hsub := fun x hx => mem_of_mem_remove hu.sorted huq (x := x) hx
    exact
      { hu with
        waited_matched := fun k hk => by
          rcases List.mem_append.1 hk with hk | hk
          · exact hu.waited_matched k hk
          · cases List.mem_singleton.1 hk
            exact ⟨_, hi⟩
        sorted := hsorted.sublist (by simp)
        entry := fun x hx =>
          { hu.entry x (hsub x hx).1 with
            not_waited := by simpa [(hsub x hx).2] using (hu.entry x (hsub x hx).1).not_waited }
        present := fun k hk hkw => by
          simp only [List.mem_append, List.mem_singleton, not_or] at hkw
          simpa [huq, hkw.2] using hu.present k hk hkw.1 }

end RecvInv

end NetPipe.Vapi
