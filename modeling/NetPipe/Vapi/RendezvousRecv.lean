import NetPipe.Vapi.RendezvousSend

/-!
# The destination of rendezvous messages

The data of a message is written to the memory of one receive, and its transaction id is that of no
other receive in the queue, so that its completion finds this receive.
-/

namespace NetPipe.Vapi.Rndzv

variable {r : Receiver} {asends asends' : List Packet} {matched matched' : List (ℕ × ℕ)}
  {m : Rtr} {id i k : ℕ}

/-- What holds of a receive in the queue. -/
structure RecvEntryInv (r : Receiver) (matched : List (ℕ × ℕ)) (e : RecvEntry) : Prop where
  asked : ∃ m, r.asked[e.id]? = some m ∧ m.transId = e.ibIndex
  not_received : e.id ∉ r.received.map Prod.fst
  complete_iff : e.complete = true ↔ e.id ∈ (matched.take r.handled).map Prod.snd
  le_index : transMinId ≤ e.ibIndex

/-- The destination, where the source has been given the messages `asends` and has posted
`matched`. -/
structure RecvInv (r : Receiver) (asends : List Packet) (matched : List (ℕ × ℕ)) : Prop where
  sorted : (r.recvQ.map (·.id)).Pairwise (· < ·)
  entry : ∀ e ∈ r.recvQ, RecvEntryInv r matched e
  index_nodup : (r.recvQ.map (·.ibIndex)).Nodup
  present : ∀ k < r.asked.length, k ∉ r.received.map Prod.fst → k ∈ r.recvQ.map (·.id)
  table : ∀ t, r.transIdList t = true ↔
    ∃ e ∈ r.recvQ, e.complete = false ∧ e.ibIndex = transMinId + t
  posted : r.posted + r.transferred = r.asked.length
  datas : r.datas.map some =
    ((matched.take r.transferred).drop r.handled).map fun x => r.asked[x.2]?.map Rtr.transId
  handled_le : r.handled ≤ r.transferred
  transferred_le : r.transferred ≤ matched.length
  buffers : ∀ x ∈ matched.take r.transferred, ∃ m, asends[x.1]? = some m ∧ r.buffers x.2 = m.data
  received : ∀ x ∈ r.received, ∃ i m, (i, x.1) ∈ matched.take r.handled ∧
    asends[i]? = some m ∧ x.2 = m.data

/-- A step of the destination that has nothing to do with Ready-to-Receive messages. -/
structure Receiver.Frame (r r' : Receiver) : Prop where
  asked : r'.asked = r.asked
  ack : r'.ack = r.ack
  rtrs : r'.rtrs = r.rtrs
  waiting : r'.waiting = r.waiting
  msgOut : r'.msgOut = r.msgOut
  transferred : r'.transferred = r.transferred

namespace RecvInv

/-- The source goes on. -/
lemma mono (h : RecvInv r asends matched) (hs : asends <+: asends') (hm : matched <+: matched') :
    RecvInv r asends' matched' := by
  obtain ⟨t, rfl⟩ := hm
  have htake : (matched ++ t).take r.transferred = matched.take r.transferred :=
    List.take_append_of_le_length h.transferred_le
  have htake' : (matched ++ t).take r.handled = matched.take r.handled :=
    List.take_append_of_le_length (h.handled_le.trans h.transferred_le)
  refine
    { h with
      entry := fun e he => { h.entry e he with complete_iff := ?_ }
      datas := by rw [htake]; exact h.datas
      transferred_le := by have := h.transferred_le; simp; omega
      buffers := fun x hx => ?_
      received := fun x hx => ?_ }
  · rw [htake']
    exact (h.entry e he).complete_iff
  · rw [htake] at hx
    obtain ⟨m, hm, hb⟩ := h.buffers x hx
    exact ⟨m, getElem?_of_initial hs hm, hb⟩
  · obtain ⟨i, m, hi, hm, hd⟩ := h.received x hx
    exact ⟨i, m, by rw [htake']; exact hi, getElem?_of_initial hs hm, hd⟩

lemma mem_snd_of_received (h : RecvInv r asends matched) (hk : k ∈ r.received.map Prod.fst) :
    k ∈ (matched.take r.handled).map Prod.snd := by
  obtain ⟨x, hx, rfl⟩ := List.mem_map.1 hk
  obtain ⟨i, m, hi, -, -⟩ := h.received x hx
  exact List.mem_map.2 ⟨_, hi, rfl⟩

/-- `ib_rndzv_arecv` with an id that is not in the queue -/
lemma ibRndzvArecv (h : RecvInv r asends matched) (q : RecvArgs)
    (hlt : ∀ k ∈ matched.map Prod.snd, k < r.asked.length)
    (hnew : transMinId + i ∉ r.recvQ.map (·.ibIndex)) :
    RecvInv { r with
      posted := r.posted + 1
      transIdList := Function.update r.transIdList i true
      currentTransId := i
      recvQ := r.recvQ ++ [⟨r.asked.length, false, transMinId + i⟩]
      waiting := some ⟨r.asked.length, q.tag, q.nbytes, transMinId + i⟩
      asked := r.asked ++ [⟨r.asked.length, q.tag, q.nbytes, transMinId + i⟩] } asends matched := by
  have hids : ∀ e ∈ r.recvQ, e.id < r.asked.length := fun e he => by
    obtain ⟨m, hm, -⟩ := (h.entry e he).asked
    exact (List.getElem?_eq_some_iff.1 hm).1
  have hself : ∀ n, r.asked.length ∉ (matched.take n).map Prod.snd := fun n hmem =>
    (hlt _ (List.map_subset _ (List.take_subset _ _) hmem)).false
  exact
    { h with
      sorted := by
        simp only [List.map_append, List.pairwise_append]
        exact ⟨h.sorted, by simp, by simpa using hids⟩
      entry := by
        simp only [List.forall_mem_append, List.forall_mem_singleton]
        refine ⟨fun e he => ?_, ?_⟩
        · have he := h.entry e he
          obtain ⟨m, hm, ht⟩ := he.asked
          exact { he with asked := ⟨m, getElem?_of_initial (List.prefix_append _ _) hm, ht⟩ }
        · exact
            { asked := ⟨⟨r.asked.length, q.tag, q.nbytes, transMinId + i⟩, by simp⟩
              not_received := fun hmem => hself _ (h.mem_snd_of_received hmem)
              complete_iff := iff_of_false Bool.false_ne_true (hself _)
              le_index := Nat.le_add_right _ _ }
      index_nodup := by
        rw [List.map_append]
        refine h.index_nodup.append (by simp) ?_
        simpa using hnew
      present := fun k hk hr => by
        rw [List.map_append, List.mem_append]
        rw [List.length_append, List.length_singleton] at hk
        rcases Nat.lt_succ_iff_lt_or_eq.1 hk with hk | hk
        · exact Or.inl (h.present k hk hr)
        · exact Or.inr (by simp [hk])
      table := fun t => by
        by_cases ht : t = i
        · simp [ht]
        · simp [ht, Ne.symm ht, h.table, or_and_right, exists_or]
      posted := by have := h.posted; simp; omega
      datas := by
        rw [h.datas]
        refine List.map_congr_left fun x hx => ?_
        have := hlt x.2 (List.mem_map_of_mem (List.mem_of_mem_take (List.mem_of_mem_drop hx)))
        rw [List.getElem?_append_left this] }

/-- A completion finds the receive that the data was for. -/
lemma ibRndzvHandleData (h : RecvInv r asends matched) (hnodup : (matched.map Prod.snd).Nodup)
    {datas : List ℕ} (hd : r.datas = i :: datas) :
    ∃ r', ({ r with datas := datas } : Receiver).ibRndzvHandleData i = some r' ∧
      RecvInv r' asends matched ∧ r.Frame r' := by
  have hdatas := h.datas
  rw [hd, List.map_cons] at hdatas
  have hlt : r.handled < (matched.take r.transferred).length := by
    by_contra hge
    rw [List.drop_eq_nil_of_le (not_lt.1 hge)] at hdatas
    cases hdatas
  have hlt' : r.handled < matched.length := by
    simp at hlt
    omega
  rw [List.drop_eq_getElem_cons hlt, List.map_cons, List.cons.injEq, List.getElem_take] at hdatas
  obtain ⟨hi, hrest⟩ := hdatas
  set x := matched[r.handled] with hx
  have htake : matched.take (r.handled + 1) = matched.take r.handled ++ [x] := by
    rw [List.take_add_one, List.getElem?_eq_getElem hlt', Option.toList_some]
  have hfresh : x.2 ∉ (matched.take r.handled).map Prod.snd := by
    have := hnodup.sublist ((List.take_sublist (r.handled + 1) matched).map Prod.snd)
    rw [htake, List.map_append, List.map_singleton, List.nodup_append] at this
    exact fun hmem => this.2.2 _ hmem _ (by simp) rfl
  obtain ⟨m, hm, hmi⟩ := Option.map_eq_some_iff.1 hi.symm
  obtain ⟨e, he, hex⟩ := List.mem_map.1 (h.present x.2 (List.getElem?_eq_some_iff.1 hm).1
    fun hmem => hfresh (h.mem_snd_of_received hmem))
  obtain ⟨m', hm', hindex⟩ := (h.entry e he).asked
  have hei : e.ibIndex = i := by
    rw [hex, hm, Option.some.injEq] at hm'
    rw [← hindex, ← hm', hmi]
  obtain ⟨l₁, e', l₂, hsplit⟩ :=
    exists_splitFirst (p := fun e : RecvEntry => decide (e.ibIndex = i)) he (by simpa using hei)
  obtain ⟨hq, -, hei'⟩ := splitFirst_eq_some.1 hsplit
  rw [decide_eq_true_eq] at hei'
  obtain rfl : e' = e := List.inj_on_of_nodup_map (f := RecvEntry.ibIndex) h.index_nodup
    (by simp [hq]) he (hei'.trans hei.symm)
  have hentry := h.entry e' he
  simp only [Receiver.ibRndzvHandleData, hsplit, Option.some.injEq, exists_eq_left']
  refine ⟨{ h with
    sorted := by simpa [hq] using h.sorted
    entry := ?_
    index_nodup := by simpa [hq] using h.index_nodup
    present := by simpa [hq] using h.present
    table := fun t => ?_
    datas := hrest
    handled_le := (lt_min_iff.1 (List.length_take ▸ hlt)).1
    received := fun y hy => ?_ }, rfl, rfl, rfl, rfl, rfl, rfl⟩
  · refine forall_mem_replace h.sorted hq ?_ fun y hy hne => ?_
    · exact
        { hentry with
          complete_iff := by
            rw [htake, List.map_append]
            simp [hex] }
    · have hy := h.entry y hy
      exact
        { hy with
          complete_iff := by
            rw [htake, List.map_append, List.map_singleton, List.mem_append, List.mem_singleton,
              ← hex]
            simpa [hne] using hy.complete_iff }
  · have hle := hentry.le_index
    have hnew := fun y hy => (mem_of_mem_remove (x := y) h.sorted hq hy).1
    have hindex := h.index_nodup
    rw [hq, List.map_append, List.map_cons] at hindex
    have hothers : ∀ y ∈ l₁ ++ l₂, y.ibIndex ≠ e'.ibIndex := fun y hy heq =>
      (List.nodup_middle.1 hindex).notMem (by
        rw [← List.map_append, ← heq]
        exact List.mem_map_of_mem hy)
    by_cases ht : t = e'.ibIndex - transMinId
    · dsimp only
      rw [ht, Function.update_self]
      refine iff_of_false Bool.false_ne_true ?_
      rintro ⟨y, hy, hc, hyi⟩
      rw [Nat.add_sub_cancel' hle] at hyi
      rcases List.mem_append.1 hy with hy | hy
      · exact hothers y (by simp [hy]) hyi
      · rcases List.mem_cons.1 hy with rfl | hy
        · cases hc
        · exact hothers y (by simp [hy]) hyi
    · have hne : e'.ibIndex ≠ transMinId + t := by omega
      dsimp only
      rw [Function.update_of_ne ht, h.table, hq]
      simp [or_and_right, exists_or, hne]
  · obtain ⟨j, m, hj, hm, hd⟩ := h.received y hy
    exact ⟨j, m, by rw [htake]; exact List.mem_append_left _ hj, hm, hd⟩

/-- The data of a message arrives at a posted receive. -/
lemma transfer (h : RecvInv r asends matched) (hnodup : (matched.map Prod.snd).Nodup)
    (hpos : 0 < r.posted)
    (hx : matched[r.transferred]? = some (id, m.addr)) (hm : r.asked[m.addr]? = some m)
    {p : Packet} (hp : asends[id]? = some p) :
    RecvInv { r with
      posted := r.posted - 1
      buffers := Function.update r.buffers m.addr p.data
      datas := r.datas ++ [m.transId]
      transferred := r.transferred + 1 } asends matched := by
  have hlt := (List.getElem?_eq_some_iff.1 hx).1
  have htake : matched.take (r.transferred + 1) =
      matched.take r.transferred ++ [(id, m.addr)] := by
    rw [List.take_add_one, hx, Option.toList_some]
  have hfresh : m.addr ∉ (matched.take r.transferred).map Prod.snd := by
    have := hnodup.sublist ((List.take_sublist (r.transferred + 1) matched).map Prod.snd)
    rw [htake, List.map_append, List.map_singleton, List.nodup_append] at this
    exact fun hmem => this.2.2 _ hmem _ (by simp) rfl
  exact
    { h with
      entry := fun e he => { h.entry e he with }
      posted := by have := h.posted; simp; omega
      datas := by
        rw [htake, List.drop_append_of_le_length (by simp; have := h.handled_le; omega)]
        simp [h.datas, hm]
      handled_le := h.handled_le.trans (Nat.le_succ _)
      transferred_le := hlt
      buffers := fun x hx => by
        rw [htake] at hx
        rcases List.mem_append.1 hx with hx | hx
        · obtain ⟨m', hm', hb⟩ := h.buffers x hx
          refine ⟨m', hm', ?_⟩
          dsimp only
          rw [Function.update_of_ne, hb]
          rintro heq
          exact hfresh (heq ▸ List.mem_map_of_mem hx)
        · rw [List.mem_singleton.1 hx]
          exact ⟨p, hp, by simp⟩ }

/-- A receive that is complete is in the queue when it is waited for, and its memory has the data of
its message. -/
lemma ibRndzvFinish (h : RecvInv r asends matched) (hk : k < r.asked.length)
    (hr : k ∉ r.received.map Prod.fst) (hc : ∀ e ∈ r.recvQ, e.id = k → e.complete = true) :
    ∃ r', r.ibRndzvFinish k = some r' ∧ RecvInv r' asends matched ∧ r.Frame r' := by
  obtain ⟨x, hx, hxk⟩ := List.mem_map.1 (h.present k hk hr)
  obtain ⟨l₁, e, l₂, hsplit⟩ :=
    exists_splitFirst (p := fun e : RecvEntry => decide (e.id = k)) hx (by simpa using hxk)
  obtain ⟨hq, -, hek⟩ := splitFirst_eq_some.1 hsplit
  rw [decide_eq_true_eq] at hek
  have hmem : e ∈ r.recvQ := by simp [hq]
  have hcomplete := hc e hmem hek
  have hmatched := (h.entry e hmem).complete_iff.1 hcomplete
  obtain ⟨⟨j, k'⟩, hj, hjk⟩ := List.mem_map.1 hmatched
  obtain rfl : k' = e.id := hjk
  obtain ⟨m, hm, hb⟩ := h.buffers (j, e.id) (by
    have : matched.take r.handled = (matched.take r.transferred).take r.handled := by
      rw [List.take_take, min_eq_left h.handled_le]
    rw [this] at hj
    exact List.mem_of_mem_take hj)
  subst hek
  simp only [Receiver.ibRndzvFinish, hsplit, Option.some.injEq, exists_eq_left']
  have hsub := fun y hy => mem_of_mem_remove (x := y) h.sorted hq hy
  refine ⟨{ h with
    sorted := by
      have hs := h.sorted
      rw [hq] at hs
      exact hs.sublist (by simp)
    entry := fun y hy =>
      { h.entry y (hsub y hy).1 with
        not_received := by
          simpa [(hsub y hy).2] using (h.entry y (hsub y hy).1).not_received }
    index_nodup := by
      have hs := h.index_nodup
      rw [hq] at hs
      exact hs.sublist (by simp)
    present := fun k hk hr => ?_
    table := fun t => ?_
    received := fun y hy => ?_ }, rfl, rfl, rfl, rfl, rfl, rfl⟩
  · simp only [List.map_append, List.map_singleton, List.mem_append, List.mem_singleton,
      not_or] at hr
    simpa [hq, hr.2] using h.present k hk hr.1
  · rw [h.table, hq]
    simp [or_and_right, exists_or, hcomplete]
  · rcases List.mem_append.1 hy with hy | hy
    · exact h.received y hy
    · rw [List.mem_singleton.1 hy]
      exact ⟨j, m, hj, hm, hb⟩

end RecvInv

end NetPipe.Vapi.Rndzv
