import NetPipe.Vapi.RendezvousRecv

/-!
# Runs of rendezvous messages

What holds in every state that source and destination can reach, in whatever order calls, handlers
and adapters take their steps.
-/

namespace NetPipe.Vapi.Rndzv

/-- What the call of `MP_ARecv` asked for. -/
def Rtr.args (r : Rtr) : RecvArgs := ⟨r.nbytes, r.tag⟩

lemma Rtr.accepts_iff {r : Rtr} {m : Packet} : r.accepts m = true ↔ r.args.Accepts m := by
  rw [RecvArgs.Accepts, Rtr.accepts, RecvArgs.accepts, Bool.or_comm]
  rfl

lemma Sender.asends_sendData {p q : Sender} {id : ℕ} {r : Rtr} (h : p.sendData id r = some q) :
    q.asends = p.asends := by
  simp only [sendData, Option.ite_none_left_eq_some, Option.some.injEq] at h
  rw [← h.2]

namespace Link

variable {s s' : Link} {q : RecvArgs} {id k : ℕ}

/-- The Ready-to-Receive messages: one thing at a time is either acknowledged, to be written, to be
handled or to be acknowledged. -/
structure RtrInv (s : Link) : Prop where
  token : s.receiver.ack.toNat + s.receiver.rtrs + s.sender.rtrsIn + acks s.sender.sr = 1
  asked : s.sender.handled + s.sender.rtrsIn + s.receiver.rtrs + s.receiver.waiting.isSome.toNat =
    s.receiver.asked.length
  posted : s.sender.posted + s.sender.rtrsIn = 1
  msgOut : 0 < s.receiver.rtrs → s.receiver.asked[s.sender.handled]? = some s.receiver.msgOut
  msgIn : 0 < s.sender.rtrsIn → s.receiver.asked[s.sender.handled]? = some s.sender.msgIn
  waiting : ∀ m, s.receiver.waiting = some m → s.receiver.asked.getLast? = some m

/-- Source and destination. -/
structure Inv (s : Link) : Prop where
  send : SendInv s.sender s.receiver.asked s.receiver.transferred
  recv : RecvInv s.receiver s.sender.asends s.sender.matched
  rtr : RtrInv s

/-- A receive is asked for while all other transaction ids are in use, or a Ready-to-Receive message
is handled while the first message that fits it has been posted and its completion has not been
handled. -/
def Fails (s : Link) : Event → Prop
  | .arecv _ => s.receiver.ibGetTransId = none
  | .handleRtr => ∃ l₁ id m l₂, splitFirst (Entry.fits s.sender.msgIn) s.sender.sendQ =
      some (l₁, .msg id false m, l₂) ∧ id ∈ s.sender.posted2ib
  | _ => False

namespace Inv

lemma matched_length_le (h : Inv s) : s.sender.matched.length ≤ s.receiver.asked.length := by
  have hsub : s.sender.matched.map Prod.snd ⊆ List.range s.receiver.asked.length := fun k hk =>
    List.mem_range.2 ((h.send.lt_of_mem_snd hk).trans_le h.send.handled_le)
  simpa using (h.send.snd_nodup.subperm hsub).length_le

/-- A step of the source alone. -/
lemma setSender (h : Inv s) {p : Sender}
    (hp : SendInv p s.receiver.asked s.receiver.transferred) (hf : s.sender.Frame p) :
    Inv { s with sender := p } where
  send := hp
  recv := h.recv.mono hf.asends hf.matched
  rtr :=
    { token := by simpa only [hf.rtrsIn, hf.acks] using h.rtr.token
      asked := by simpa only [hf.rtrsIn, hf.handled] using h.rtr.asked
      posted := by simpa only [hf.rtrsIn, hf.posted] using h.rtr.posted
      msgOut := by simpa only [hf.handled] using h.rtr.msgOut
      msgIn := by simpa only [hf.rtrsIn, hf.handled, hf.msgIn] using h.rtr.msgIn
      waiting := h.rtr.waiting }

/-- A step of the destination alone. -/
lemma setReceiver (h : Inv s) {r : Receiver}
    (hr : RecvInv r s.sender.asends s.sender.matched) (hf : s.receiver.Frame r) :
    Inv { s with receiver := r } where
  send := by simpa only [hf.asked, hf.transferred] using h.send
  recv := hr
  rtr :=
    { token := by simpa only [hf.ack, hf.rtrs] using h.rtr.token
      asked := by simpa only [hf.asked, hf.rtrs, hf.waiting] using h.rtr.asked
      posted := h.rtr.posted
      msgOut := by simpa only [hf.asked, hf.rtrs, hf.msgOut] using h.rtr.msgOut
      msgIn := by simpa only [hf.asked] using h.rtr.msgIn
      waiting := by simpa only [hf.asked, hf.waiting] using h.rtr.waiting }

/-- `ib_rndzv_arecv` -/
lemma arecv (h : Inv s) {i : ℕ} (hi : s.receiver.ibGetTransId = some i)
    (hen : s.Enabled (.arecv q)) : ∃ s', s.step (.arecv q) = some s' ∧ Inv s' := by
  obtain ⟨-, hwait, hnew⟩ := hen
  have hrecv := h.recv.ibRndzvArecv q (fun k hk =>
    (h.send.lt_of_mem_snd hk).trans_le h.send.handled_le) (hnew i hi)
  have hasked := h.rtr.asked
  simp only [hwait, Option.isSome_none, Bool.toNat_false] at hasked
  simp only [step, Receiver.ibRndzvArecv, hi, Option.map_some, Option.some.injEq, exists_eq_left']
  exact
    { send := h.send.mono _ rfl
      recv := hrecv
      rtr :=
        { token := h.rtr.token
          asked := by simp; omega
          posted := h.rtr.posted
          msgOut := fun hr => getElem?_of_initial (List.prefix_append _ _) (h.rtr.msgOut hr)
          msgIn := fun hr => getElem?_of_initial (List.prefix_append _ _) (h.rtr.msgIn hr)
          waiting := fun m hm => by
            cases hm
            simp } }

/-- The Ready-to-Receive message is sent. -/
lemma sendRtr (h : Inv s) (hen : s.Enabled .sendRtr) :
    ∃ s', s.step .sendRtr = some s' ∧ Inv s' := by
  obtain ⟨hsome, hack⟩ := hen
  obtain ⟨m, hm⟩ := Option.isSome_iff_exists.1 hsome
  have htoken := h.rtr.token
  have hasked := h.rtr.asked
  simp only [hack, Bool.toNat_true] at htoken
  simp only [hm, Option.isSome_some, Bool.toNat_true] at hasked
  simp only [step, hm, Option.map_some, Option.some.injEq, exists_eq_left']
  exact
    { send := h.send
      recv := { h.recv with entry := fun e he => { h.recv.entry e he with } }
      rtr :=
        { token := by simp [Receiver.ibRndzvSendRtrMsg]; omega
          asked := by simp [Receiver.ibRndzvSendRtrMsg]; omega
          posted := h.rtr.posted
          msgOut := fun _ => by
            have hlast := h.rtr.waiting m hm
            rw [List.getLast?_eq_getElem?] at hlast
            rw [show s.sender.handled = s.receiver.asked.length - 1 by omega]
            exact hlast
          msgIn := h.rtr.msgIn
          waiting := fun m hm => by cases hm } }

/-- The Ready-to-Receive message finds a posted receive, and the one before it has been handled. -/
lemma writeRtr (h : Inv s) (hen : s.Enabled .writeRtr) :
    ∃ s', s.step .writeRtr = some s' ∧ Inv s' := by
  have htoken := h.rtr.token
  have hasked := h.rtr.asked
  have hposted := h.rtr.posted
  have hen : 0 < s.receiver.rtrs := hen
  simp only [step, Link.writeRtr, if_neg (show s.sender.posted ≠ 0 by omega), Option.some.injEq,
    exists_eq_left']
  exact
    { send := { h.send with }
      recv := { h.recv with entry := fun e he => { h.recv.entry e he with } }
      rtr :=
        { token := by simp; omega
          asked := by simp; omega
          posted := by simp; omega
          msgOut := fun hr => by simp at hr; omega
          msgIn := fun _ => h.rtr.msgOut hen
          waiting := h.rtr.waiting } }

/-- The handler of a Ready-to-Receive message -/
lemma handleRtr (h : Inv s) (hen : s.Enabled .handleRtr) :
    (∃ l₁ id m l₂, splitFirst (Entry.fits s.sender.msgIn) s.sender.sendQ =
        some (l₁, .msg id false m, l₂) ∧ id ∈ s.sender.posted2ib ∧ s.step .handleRtr = none) ∨
      ∃ s', s.step .handleRtr = some s' ∧ Inv s' ∧
      ∀ l₁ id m l₂, splitFirst (Entry.fits s.sender.msgIn) s.sender.sendQ =
        some (l₁, .msg id false m, l₂) → id ∉ s.sender.posted2ib := by
  have hen : 0 < s.sender.rtrsIn := hen
  have htoken := h.rtr.token
  have hasked := h.rtr.asked
  have hposted := h.rtr.posted
  rcases h.send.ibRndzvHandleRtr (h.rtr.msgIn hen) with
    ⟨l₁, id, m, l₂, hsplit, hchain, hnone⟩ |
    ⟨p, hp, hsend, hasends, hmatched, hrtrs, hpost, hhandled, hacks, hfirst⟩
  · exact Or.inl ⟨l₁, id, m, l₂, hsplit, hchain, by simp [step, hnone]⟩
  · right
    simp only [step, hp, Option.map_some, Option.some.injEq, exists_eq_left']
    exact ⟨{
      send := hsend
      recv := h.recv.mono hasends hmatched
      rtr :=
        { token := by simp only [hrtrs, hacks]; omega
          asked := by simp only [hrtrs, hhandled]; omega
          posted := by simp only [hrtrs, hpost]; omega
          msgOut := fun hr => by
            dsimp only at hr
            omega
          msgIn := fun hr => by
            simp only [hrtrs] at hr
            omega
          waiting := h.rtr.waiting } }, hfirst⟩

/-- A request is carried out; the data of a message finds a posted receive. -/
lemma transfer (h : Inv s) (hen : s.Enabled .transfer) :
    ∃ s', s.step .transfer = some s' ∧ Inv s' := by
  have htoken := h.rtr.token
  cases hsr : s.sender.sr with
  | nil => exact absurd hsr hen
  | cons a sr =>
    rw [hsr] at htoken
    cases a with
    | ack =>
      simp only [step, Link.transfer, hsr, Option.some.injEq, exists_eq_left']
      rw [acks_ack] at htoken
      exact
        { send := h.send.transfer_ack hsr
          recv := { h.recv with entry := fun e he => { h.recv.entry e he with } }
          rtr := { h.rtr with token := by simp; omega } }
    | data id m =>
      obtain ⟨hx, hm, hsend⟩ := h.send.transfer_data hsr
      have hlt := (List.getElem?_eq_some_iff.1 hx).1
      have hpos : 0 < s.receiver.posted := by
        have := h.recv.posted
        have := h.matched_length_le
        omega
      have hid := h.send.first.lt_left (List.mem_of_getElem? hx)
      simp only [step, Link.transfer, hsr, if_neg hpos.ne', Option.some.injEq, exists_eq_left',
        List.getElem?_eq_getElem hid, Option.map_some, Option.getD_some]
      exact
        { send := hsend
          recv := h.recv.transfer h.send.snd_nodup hpos hx hm (List.getElem?_eq_getElem hid)
          rtr := { h.rtr with token := htoken } }

/-- Every event that can happen keeps the invariant, unless it fails. -/
lemma step (h : Inv s) {e : Event} (hen : s.Enabled e) :
    (s.Fails e ∧ s.step e = none) ∨ ¬s.Fails e ∧ ∃ s', s.step e = some s' ∧ Inv s' := by
  cases e with
  | asend m =>
    obtain ⟨p, hp, hsend, hf⟩ := h.send.ibRndzvAsend m
    exact Or.inr ⟨id, _, by simp [Link.step, hp], h.setSender hsend hf⟩
  | finishSend id =>
    obtain ⟨p, hp, hsend, hf⟩ := h.send.ibRndzvFinish hen.1 hen.2.1 hen.2.2
    exact Or.inr ⟨fun hfail => hfail, _, by simp [Link.step, hp], h.setSender hsend hf⟩
  | handleSend =>
    obtain ⟨p, hp, hsend, hf⟩ := h.send.ibRndzvHandleSend hen
    exact Or.inr ⟨id, _, by simp [Link.step, hp], h.setSender hsend hf⟩
  | handleRtr =>
    rcases h.handleRtr hen with ⟨l₁, id, m, l₂, hsplit, hchain, hnone⟩ | ⟨s', hs, hi, hfirst⟩
    · exact Or.inl ⟨⟨l₁, id, m, l₂, hsplit, hchain⟩, hnone⟩
    · refine Or.inr ⟨?_, s', hs, hi⟩
      rintro ⟨l₁, id, m, l₂, hsplit, hchain⟩
      exact hfirst l₁ id m l₂ hsplit hchain
  | arecv q =>
    cases hi : s.receiver.ibGetTransId with
    | none => exact Or.inl ⟨hi, by simp [Link.step, Receiver.ibRndzvArecv, hi]⟩
    | some i => exact Or.inr ⟨fun hfail => by simp [Fails, hi] at hfail, h.arecv hi hen⟩
  | sendRtr => exact Or.inr ⟨id, h.sendRtr hen⟩
  | finishRecv k =>
    obtain ⟨r, hr, hrecv, hf⟩ := h.recv.ibRndzvFinish hen.2.1 hen.2.2.1 hen.2.2.2
    exact Or.inr ⟨id, _, by simp [Link.step, hr], h.setReceiver hrecv hf⟩
  | handleData =>
    obtain ⟨i, datas, hd⟩ := List.exists_cons_of_ne_nil hen
    obtain ⟨r, hr, hrecv, hf⟩ := h.recv.ibRndzvHandleData h.send.snd_nodup hd
    exact Or.inr ⟨id, _, by simp [Link.step, hd, hr], h.setReceiver hrecv hf⟩
  | transfer => exact Or.inr ⟨id, h.transfer hen⟩
  | writeRtr => exact Or.inr ⟨id, h.writeRtr hen⟩

end Inv

lemma inv_init : Inv init where
  send :=
    { entry := by simp [init]
      nodup := by simp [init]
      sorted := by simp [init]
      present := by simp [init]
      rtr_sorted := by simp [init]
      rtr_present := by simp [init]
      waited_matched := by simp [init]
      chain := rfl
      requests := rfl
      request_rtr := by simp [init]
      done := rfl
      transferred_le := le_rfl
      handled_le := le_rfl
      fst_nodup := List.nodup_nil
      snd_nodup := List.nodup_nil
      addr := by simp [init]
      first := .nil }
  recv :=
    { sorted := by simp [init]
      entry := by simp [init]
      index_nodup := by simp [init]
      present := by simp [init]
      table := by simp [init]
      posted := rfl
      datas := rfl
      handled_le := le_rfl
      transferred_le := le_rfl
      buffers := by simp [init]
      received := by simp [init] }
  rtr :=
    { token := rfl
      asked := rfl
      posted := rfl
      msgOut := fun h => by cases h
      msgIn := fun h => by cases h
      waiting := fun m h => by cases h }

lemma Reachable.inv (h : Reachable s) : Inv s := by
  induction h with
  | init => exact inv_init
  | step _ hen hs ih =>
    rcases ih.step hen with ⟨-, hnone⟩ | ⟨-, t, ht, hi⟩
    · rw [hs] at hnone
      cases hnone
    · rw [hs, Option.some.injEq] at ht
      exact ht ▸ hi

/-- The shortest message that is sent so. -/
def sampleMessage (tag : ℤ) : Packet := ⟨tag, List.replicate (eagerBufferSize - MpLite.hdrSize) 0⟩

/-- A receive is posted for a message of that size, and its Ready-to-Receive message is handled. -/
def sampleAsk (tag : ℤ) : List Event :=
  [.arecv ⟨eagerBufferSize, tag⟩, .sendRtr, .writeRtr, .handleRtr, .transfer]

/-- The data arrives, and both sides wait for it. -/
def sampleReceive : List Event := [.transfer, .handleData, .finishRecv 0]

/-- The receive comes before the messages. -/
def sampleLater : List Event :=
  sampleAsk 5 ++ [.asend (sampleMessage 4), .asend (sampleMessage 5)] ++ sampleReceive

/-- The receive comes after the messages, and the source has waited for its message. -/
def sampleSooner : List Event :=
  [.asend (sampleMessage 4), .asend (sampleMessage 5)] ++ sampleAsk 5 ++
    [.transfer, .handleSend, .finishSend 1, .handleData, .finishRecv 0]

/-- The second Ready-to-Receive message comes before the completion of the first message. -/
def sampleCircle : List Event :=
  [.asend (sampleMessage 5), .asend (sampleMessage 5)] ++ sampleAsk 5 ++
    [.arecv ⟨eagerBufferSize, 5⟩, .sendRtr, .writeRtr]

lemma exists_exec (es : List Event) (P : Link → Prop) [DecidablePred P]
    (h : (init.exec es).any (fun s => P s) = true) : ∃ s, init.exec es = some s ∧ P s := by
  cases hs : init.exec es with
  | none => simp [hs] at h
  | some s => exact ⟨s, rfl, by simpa [hs] using h⟩

/-- Whatever the order of calls, handlers and transfers, a step fails only if all transaction ids
are in use, or if a Ready-to-Receive message fits a message that has been posted and that still
counts as incomplete. -/
theorem Reachable.step_eq_none_iff {e : Event} (h : Reachable s) (hen : s.Enabled e) :
    s.step e = none ↔ s.Fails e := by
  rcases h.inv.step hen with ⟨hfail, hnone⟩ | ⟨hfail, t, ht, -⟩
  · exact iff_of_true hnone hfail
  · exact iff_of_false (by simp [ht]) hfail

theorem step_eq_none_iff_sample : ∃ s, init.exec sampleCircle = some s ∧ s.Enabled .handleRtr ∧
    s.Fails .handleRtr := by
  obtain ⟨s, hs, hen, hnone⟩ := exists_exec sampleCircle
    (fun s => s.Enabled .handleRtr ∧ (s.step .handleRtr).isNone = true) (by decide +kernel)
  exact ⟨s, hs, hen, ((Reachable.init.exec hs).step_eq_none_iff hen).1
    (Option.isNone_iff_eq_none.1 hnone)⟩

/-- A Ready-to-Receive message is not overwritten on either side before it has been read, and they
are handled in the order of the calls of `MP_ARecv`. -/
theorem Reachable.rtr_intact (h : Reachable s) :
    (s.Enabled .writeRtr → s.sender.rtrsIn = 0 ∧ 0 < s.sender.posted ∧
      s.receiver.asked[s.sender.handled]? = some s.receiver.msgOut) ∧
    (s.Enabled .handleRtr → s.receiver.asked[s.sender.handled]? = some s.sender.msgIn) ∧
    (s.Enabled .sendRtr → s.receiver.rtrs = 0 ∧ s.sender.rtrsIn = 0 ∧
      s.sender.handled + 1 = s.receiver.asked.length) := by
  have hi := h.inv.rtr
  have htoken := hi.token
  have hasked := hi.asked
  have hposted := hi.posted
  refine ⟨fun hen => ?_, hi.msgIn, fun hen => ?_⟩
  · have hen : 0 < s.receiver.rtrs := hen
    exact ⟨by omega, by omega, hi.msgOut hen⟩
  · obtain ⟨hsome, hack⟩ := hen
    rw [hack, Bool.toNat_true] at htoken
    rw [hsome, Bool.toNat_true] at hasked
    omega

theorem rtr_intact_sample : ∃ s, init.exec [.arecv ⟨eagerBufferSize, 5⟩, .sendRtr] = some s ∧
    s.Enabled .writeRtr ∧ 0 < s.sender.posted := by
  obtain ⟨s, hs, hen⟩ := exists_exec [.arecv ⟨eagerBufferSize, 5⟩, .sendRtr] (·.Enabled .writeRtr)
    (by decide +kernel)
  exact ⟨s, hs, hen, ((Reachable.init.exec hs).rtr_intact.1 hen).2.1⟩

/-- Messages go to receives by the first match, and a receive returns with the data of its
message. -/
theorem Reachable.received_data (h : Reachable s) :
    FirstMatch (fun r m => Rtr.accepts r m = true) s.sender.asends
      (s.receiver.asked.take s.sender.handled) s.sender.matched ∧
    ∀ k d, (k, d) ∈ s.receiver.received → ∃ i m, (i, k) ∈ s.sender.matched ∧
      s.sender.asends[i]? = some m ∧ d = m.data := by
  have hi := h.inv
  refine ⟨hi.send.first, fun k d hkd => ?_⟩
  obtain ⟨i, m, hik, hm, hd⟩ := hi.recv.received _ hkd
  exact ⟨i, m, List.mem_of_mem_take hik, hm, hd⟩

theorem received_data_sample : ∃ s, init.exec sampleLater = some s ∧ ∃ d i m,
    (i, 0) ∈ s.sender.matched ∧ s.sender.asends[i]? = some m ∧ d = m.data := by
  obtain ⟨s, hs, hd⟩ := exists_exec sampleLater (0 ∈ ·.receiver.received.map Prod.fst)
    (by decide +kernel)
  obtain ⟨⟨_, d⟩, hd, rfl⟩ := List.mem_map.1 hd
  exact ⟨s, hs, d, (Reachable.init.exec hs).received_data.2 0 d hd⟩

/-! ### The calls of a run -/

/-- The message of a call of `MP_ASend` -/
def Event.sent : Event → List Packet
  | .asend m => [m]
  | _ => []

/-- What a call of `MP_ARecv` asks for -/
def Event.asked : Event → List RecvArgs
  | .arecv q => [q]
  | _ => []

section Calls

variable {e : Event} {es es' : List Event}

lemma step_asends (h : s.step e = some s') : s'.sender.asends = s.sender.asends ++ e.sent := by
  cases e <;> simp only [step, Option.map_eq_some_iff] at h
  case asend m =>
    obtain ⟨p, hp, rfl⟩ := h
    unfold Sender.ibRndzvAsend at hp
    split at hp
    · exact Sender.asends_sendData hp
    · cases hp
      rfl
  case finishSend id =>
    obtain ⟨p, hp, rfl⟩ := h
    unfold Sender.ibRndzvFinish at hp
    split at hp <;> cases hp
    simp [Event.sent]
  case handleSend =>
    obtain ⟨p, hp, rfl⟩ := h
    unfold Sender.ibRndzvHandleSend at hp
    split at hp <;> cases hp
    simp [Event.sent]
  case handleRtr =>
    obtain ⟨p, hp, rfl⟩ := h
    simp only [Sender.ibRndzvHandleRtr] at hp
    split at hp
    · simp [Event.sent, Sender.asends_sendData hp, Sender.acknowledge]
    · cases hp
      simp [Event.sent, Sender.acknowledge]
  case handleData =>
    split at h
    · cases h
    · obtain ⟨r, -, rfl⟩ := Option.map_eq_some_iff.1 h
      simp [Event.sent]
  case transfer =>
    unfold transfer at h
    split at h
    · cases h
    · cases h
      simp [Event.sent]
    · split at h <;> cases h
      simp [Event.sent]
  case writeRtr =>
    unfold writeRtr at h
    split at h <;> cases h
    simp [Event.sent]
  all_goals
    obtain ⟨r, -, rfl⟩ := h
    simp [Event.sent]

lemma step_asked (h : s.step e = some s') :
    s'.receiver.asked.map Rtr.args = s.receiver.asked.map Rtr.args ++ e.asked := by
  cases e <;> simp only [step, Option.map_eq_some_iff] at h
  case arecv q =>
    obtain ⟨r, hr, rfl⟩ := h
    simp only [Receiver.ibRndzvArecv, Option.map_eq_some_iff] at hr
    obtain ⟨i, -, rfl⟩ := hr
    simp [Event.asked, Rtr.args]
  case sendRtr =>
    obtain ⟨m, -, rfl⟩ := h
    simp [Event.asked, Receiver.ibRndzvSendRtrMsg]
  case finishRecv k =>
    obtain ⟨r, hr, rfl⟩ := h
    unfold Receiver.ibRndzvFinish at hr
    split at hr <;> cases hr
    simp [Event.asked]
  case handleData =>
    split at h
    · cases h
    · obtain ⟨r, hr, rfl⟩ := Option.map_eq_some_iff.1 h
      unfold Receiver.ibRndzvHandleData at hr
      split at hr <;> cases hr
      simp [Event.asked]
  case transfer =>
    unfold transfer at h
    split at h
    · cases h
    · cases h
      simp [Event.asked]
    · split at h <;> cases h
      simp [Event.asked]
  case writeRtr =>
    unfold writeRtr at h
    split at h <;> cases h
    simp [Event.asked]
  all_goals
    obtain ⟨r, -, rfl⟩ := h
    simp [Event.asked]

/-- The histories of the calls are the calls of the run. -/
lemma exec_calls (h : s.exec es = some s') :
    s'.sender.asends = s.sender.asends ++ es.flatMap Event.sent ∧
      s'.receiver.asked.map Rtr.args = s.receiver.asked.map Rtr.args ++ es.flatMap Event.asked := by
  induction es generalizing s with
  | nil =>
    cases h
    simp
  | cons e es ih =>
    simp only [Link.exec, Option.ite_none_right_eq_some, Option.bind_eq_some_iff] at h
    obtain ⟨-, t, ht, h⟩ := h
    obtain ⟨hsent, hasked⟩ := ih h
    rw [hsent, hasked, step_asends ht, step_asked ht]
    simp

lemma exec_init (h : init.exec es = some s) : s.sender.asends = es.flatMap Event.sent ∧
    s.receiver.asked.map Rtr.args = es.flatMap Event.asked := by
  simpa [init] using exec_calls h

/-- What a receive returns does not depend on when completions are handled or calls are made: in two
runs with the same calls of `MP_ASend` and of `MP_ARecv`, as far as each run has got, it is the
same. -/
theorem received_unique {msgs : List Packet} {reqs : List RecvArgs} {d d' : List UInt8}
    (h : init.exec es = some s) (h' : init.exec es' = some s')
    (hs : es.flatMap Event.sent <+: msgs) (hs' : es'.flatMap Event.sent <+: msgs)
    (ha : es.flatMap Event.asked <+: reqs) (ha' : es'.flatMap Event.asked <+: reqs)
    (hd : (k, d) ∈ s.receiver.received) (hd' : (k, d') ∈ s'.receiver.received) : d = d' := by
  have hi := (Reachable.init.exec h).inv
  have hi' := (Reachable.init.exec h').inv
  obtain ⟨hsent, hasked⟩ := exec_init h
  obtain ⟨hsent', hasked'⟩ := exec_init h'
  obtain ⟨i, m, hik, hm, rfl⟩ := hi.recv.received _ hd
  obtain ⟨i', m', hik', hm', rfl⟩ := hi'.recv.received _ hd'
  rw [← hsent] at hs
  rw [← hsent'] at hs'
  rw [← hasked] at ha
  rw [← hasked'] at ha'
  have hfirst := hi.send.first.map_right RecvArgs.Accepts Rtr.args fun _ _ => Rtr.accepts_iff
  have hfirst' := hi'.send.first.map_right RecvArgs.Accepts Rtr.args fun _ _ => Rtr.accepts_iff
  obtain rfl := hfirst.eq_of_initial hfirst' hs hs'
    (((List.take_prefix _ _).map _).trans ha) (((List.take_prefix _ _).map _).trans ha')
    (List.mem_of_mem_take hik) (List.mem_of_mem_take hik')
  have heq := getElem?_of_initial hs hm
  rw [getElem?_of_initial hs' hm', Option.some.injEq] at heq
  rw [heq]

theorem received_unique_sample : ∃ s s' d d', init.exec sampleLater = some s ∧
    init.exec sampleSooner = some s' ∧ (0, d) ∈ s.receiver.received ∧
    (0, d') ∈ s'.receiver.received ∧ d = d' := by
  obtain ⟨s, hs, hd⟩ := exists_exec sampleLater (0 ∈ ·.receiver.received.map Prod.fst)
    (by decide +kernel)
  obtain ⟨s', hs', hd'⟩ := exists_exec sampleSooner (0 ∈ ·.receiver.received.map Prod.fst)
    (by decide +kernel)
  obtain ⟨⟨_, d⟩, hd, rfl⟩ := List.mem_map.1 hd
  obtain ⟨⟨_, d'⟩, hd', hk⟩ := List.mem_map.1 hd'
  cases hk
  exact ⟨s, s', d, d', hs, hs', hd, hd', received_unique hs hs' List.prefix_rfl List.prefix_rfl
    List.prefix_rfl List.prefix_rfl hd hd'⟩

end Calls

end Link

end NetPipe.Vapi.Rndzv
