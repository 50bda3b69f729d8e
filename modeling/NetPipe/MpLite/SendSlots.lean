import NetPipe.MpLite.SendStream

/-!
# The entries of the sends

An entry that a send has taken is given back by `MP_Wait`, or by `do_send` once `MP_Wait` has left
the message to it.
-/

namespace NetPipe.MpLite.SendState

variable {s s' : SendState} {id : ℕ}

/-- While `MP_Wait` is on its way to `push_to_buffer`, the message is not complete. -/
def Unfinished (s : SendState) : Prop := ∀ id, s.user = .pushing id → (s.msg_list id).nleft ≠ 0

instance (s : SendState) : Decidable s.Unfinished :=
  match h : s.user with
  | .pushing id => decidable_of_iff ((s.msg_list id).nleft ≠ 0) (by simp [Unfinished, h])
  | .outside | .testing _ | .leaving _ => isTrue (by simp [Unfinished, h])

/-- What is known of the entries that are not in the queue. -/
structure Slots (s : SendState) : Prop where
  sent : ∀ id ∈ s.outstanding, s.user ≠ .leaving id →
    id ∈ s.send_q ∨ (s.msg_list id).nleft = 0
  plain : ∀ id, (s.msg_list id).send_flag ≠ 3 → (s.msg_list id).buffer = 0
  freed : ∀ id, id ∉ s.send_q → id ∉ s.outstanding →
    (s.msg_list id).buf = 0 ∧ (s.msg_list id).buffer = 0
  -- `MP_Wait` leaves a message to the engine only while it is in the queue
  pushed : ∀ id, s.user = .leaving id → (s.msg_list id).send_flag = 3 → id ∉ s.send_q →
    (s.msg_list id).buf = 0 ∧ (s.msg_list id).buffer = 0

/-- Writing changes no entry outside the queue. -/
lemma Slots.pass (h : s.Slots) (hinv : s.Inv) {l : SendLoop} (hloop : s.loop = some l)
    (k k' : ℕ) : (s.sendPass l k k').Slots := by
  obtain ⟨rest, hq⟩ := List.head?_eq_some_iff.mp (hinv.head l hloop)
  have hmem : l.msg ∈ s.send_q := by simp [hq]
  have hw := wrote_msg (hinv.counted _ hmem) k k'
  have hother : ∀ j, j ≠ l.msg → (s.writeMsg l.msg k k').1.msg_list j = s.msg_list j :=
    fun j hj => (hw.remaining_of_ne hj).1
  have hne : ∀ j, j ∉ s.send_q → j ≠ l.msg := fun j hj => (ne_of_mem_of_not_mem hmem hj).symm
  obtain ⟨msg, out, heq⟩ := hw.eq
  have hfields : (s.sendPass l k k').send_q = s.send_q ∧
      (s.sendPass l k k').outstanding = s.outstanding ∧ (s.sendPass l k k').user = s.user := by
    simp only [sendPass, heq]
    exact ⟨rfl, rfl, rfl⟩
  obtain ⟨hsq, hout, huser⟩ := hfields
  refine ⟨?_, ?_, ?_, ?_⟩
  · intro j hj hleaving
    rw [hsq]
    rcases Classical.em (j ∈ s.send_q) with hj' | hj'
    · exact Or.inl hj'
    · refine Or.inr ?_
      have hsent := (h.sent j (hout ▸ hj) (huser ▸ hleaving)).resolve_left hj'
      exact (congrArg MsgEntry.nleft (hother j (hne j hj'))).trans hsent
  · intro j h3
    rcases eq_or_ne j l.msg with rfl | hj
    · exact hw.buffer.trans (h.plain _ fun h3' => h3 (hw.send_flag.trans h3'))
    · have hj' := h.plain j
      rw [← hother j hj] at hj'
      exact hj' h3
  · intro j hj hj'
    have hfreed := h.freed j (hsq ▸ hj) (hout ▸ hj')
    rw [← hother j (hne j (hsq ▸ hj))] at hfreed
    exact hfreed
  · intro j hj h3 hj'
    have hpushed := h.pushed j (huser ▸ hj)
    rw [← hother j (hne j (hsq ▸ hj'))] at hpushed
    exact hpushed h3 (hsq ▸ hj')

/-- A message that is complete when it leaves the queue is given back if `MP_Wait` has left it to
the engine. -/
lemma Slots.finish (h : s.Slots) (hinv : s.Inv) {l : SendLoop} (hloop : s.loop = some l) :
    (s.finishSend l).Slots := by
  by_cases hleft : 0 < (s.msg_list l.msg).nleft
  · rw [finishSend, if_pos hleft]
    exact ⟨h.sent, h.plain, h.freed, h.pushed⟩
  · rw [not_lt] at hleft
    obtain ⟨msg, hflag, hnleft, -, h3, hother3, heq⟩ := finishSend_eq l hleft
    obtain ⟨rest, hq⟩ := List.head?_eq_some_iff.mp (hinv.head l hloop)
    have hmem : l.msg ∈ s.send_q := by simp [hq]
    have hzero : (s.msg_list l.msg).nleft = 0 := by
      obtain ⟨h₁, h₂, -, -⟩ := hinv.counted _ hmem
      omega
    have hself : (s.setEntry l.msg msg).msg_list l.msg = msg := setEntry_self _
    have hother : ∀ j, j ≠ l.msg → (s.setEntry l.msg msg).msg_list j = s.msg_list j :=
      fun j hj => setEntry_of_ne hj
    have hsub : ∀ j, j ≠ l.msg → j ∉ s.send_q.tail → j ∉ s.send_q := by
      intro j hj hj'
      rw [hq, List.tail_cons] at hj'
      simp [hq, hj, hj']
    have key : ∀ (wactive : Bool) (loop : Option SendLoop), Slots { s.setEntry l.msg msg with
        send_q := s.send_q.tail, wactive := wactive, loop := loop } := by
      intro wactive loop
      refine ⟨?_, ?_, ?_, ?_⟩
      · intro j hj hleaving
        rcases eq_or_ne j l.msg with rfl | hne
        · exact Or.inr ((congrArg MsgEntry.nleft hself).trans (hnleft.trans hzero))
        · rcases Classical.em (j ∈ s.send_q.tail) with hj' | hj'
          · exact Or.inl hj'
          · have hsent := (h.sent j hj hleaving).resolve_left (hsub j hne hj')
            exact Or.inr ((congrArg MsgEntry.nleft (hother j hne)).trans hsent)
      · intro j hj
        rcases eq_or_ne j l.msg with rfl | hne
        · have hj' : (s.msg_list l.msg).send_flag ≠ 3 := by
            rw [← hflag, ← hself]
            exact hj
          exact (congrArg MsgEntry.buffer hself).trans ((hother3 hj').trans (h.plain _ hj'))
        · have hj' := h.plain j
          rw [← hother j hne] at hj'
          exact hj' hj
      · intro j hj hj'
        rcases eq_or_ne j l.msg with rfl | hne
        · have hplaced := hinv.placed _ hmem
          rcases hplaced with h3' | ⟨-, hout, -⟩
          · rw [← hself] at h3
            exact h3 h3'
          · exact absurd hout hj'
        · have hfreed := h.freed j (hsub j hne hj) hj'
          rw [← hother j hne] at hfreed
          exact hfreed
      · intro j hj hj3 hj'
        rcases eq_or_ne j l.msg with rfl | hne
        · have hj3' : msg.send_flag = 3 := by
            rw [← hself]
            exact hj3
          rw [← hself] at h3
          exact h3 (hflag.symm.trans hj3')
        · have hpushed := h.pushed j hj
          rw [← hother j hne] at hpushed
          exact hpushed hj3 (hsub j hne hj')
    rw [heq]
    split_ifs
    · exact key false none
    · exact key _ _

/-- A posted send takes a new entry. -/
lemma Slots.asend (h : s.Slots) (huser : s.user = .outside) (myproc dest nbytes buf : ℕ)
    (tag : ℤ) : (s.asend myproc dest id buf nbytes tag).Slots := by
  set msg := MsgEntry.create myproc buf nbytes myproc dest tag with hmsg
  have hbuffer : msg.buffer = 0 := by
    rw [hmsg, MsgEntry.create, if_neg (not_lt.mpr (Int.natCast_nonneg dest))]
    rfl
  have hself : (s.setEntry id msg).msg_list id = msg := setEntry_self _
  have hother : ∀ j, j ≠ id → (s.setEntry id msg).msg_list j = s.msg_list j :=
    fun j hj => setEntry_of_ne hj
  have hleaving : ∀ j, s.user ≠ .leaving j := by
    intro j
    rw [huser]
    exact fun h' => UserPoint.noConfusion h'
  have key : ∀ loop : Option SendLoop, Slots { s.setEntry id msg with
      mid := id
      send_q := s.send_q ++ [id]
      loop := loop
      posted := s.posted ++ [msg.header ++ bytesAt s.mem buf nbytes]
      outstanding := s.outstanding ++ [id] } := by
    intro loop
    refine ⟨?_, ?_, ?_, ?_⟩
    · intro j hj hne
      rcases eq_or_ne j id with rfl | hji
      · exact Or.inl (List.mem_append_right _ (List.mem_singleton_self j))
      · have hj' : j ∈ s.outstanding := by simpa [hji] using hj
        have hsent := h.sent j hj' (hleaving j)
        rw [← hother j hji] at hsent
        exact hsent.imp_left (List.mem_append_left _)
    · intro j hj
      rcases eq_or_ne j id with rfl | hji
      · exact (congrArg MsgEntry.buffer hself).trans hbuffer
      · have hplain := h.plain j
        rw [← hother j hji] at hplain
        exact hplain hj
    · intro j hj hj'
      have hji : j ≠ id := by
        rintro rfl
        exact hj (List.mem_append_right _ (List.mem_singleton_self j))
      have hfreed := h.freed j (fun hm => hj (List.mem_append_left _ hm))
        (fun hm => hj' (List.mem_append_left _ hm))
      rw [← hother j hji] at hfreed
      exact hfreed
    · intro j hj
      exact absurd hj (hleaving j)
  rw [SendState.asend]
  split_ifs
  · exact key s.loop
  · exact key _

/-- `push_to_buffer` leaves a message to the engine that is still in the queue. -/
lemma Slots.push (h : s.Slots) (hinv : s.Inv) (huser : s.user = .pushing id)
    (hleft : (s.msg_list id).nleft ≠ 0) {a : ℕ}
    (ha : ∀ i < (s.msg_list id).nbl.toNat, ¬ s.Busy (a + i)) :
    Slots { s.pushToBuffer id a with user := .leaving id } := by
  obtain ⟨ptr, buffer, mem, heq, -, -⟩ := pushToBuffer_eq ha
  set msg : MsgEntry := { s.msg_list id with ptr := ptr, buffer := buffer, send_flag := 3 }
  have hself : (s.setEntry id msg).msg_list id = msg := setEntry_self _
  have hother : ∀ j, j ≠ id → (s.setEntry id msg).msg_list j = s.msg_list j :=
    fun j hj => setEntry_of_ne hj
  have hleaving : ∀ j, s.user ≠ .leaving j := by
    intro j
    rw [huser]
    exact fun h' => UserPoint.noConfusion h'
  have hout : id ∈ s.outstanding := hinv.waiting id (Or.inr (Or.inl huser))
  have hq : id ∈ s.send_q := (h.sent id hout (hleaving id)).resolve_right hleft
  rw [heq]
  refine ⟨?_, ?_, ?_, ?_⟩
  · intro j hj hne
    have hji : j ≠ id := fun h' => hne (h' ▸ rfl)
    have hsent := h.sent j hj (hleaving j)
    rw [← hother j hji] at hsent
    exact hsent
  · intro j hj
    rcases eq_or_ne j id with rfl | hji
    · exact absurd (congrArg MsgEntry.send_flag hself) hj
    · have hplain := h.plain j
      rw [← hother j hji] at hplain
      exact hplain hj
  · intro j hj hj'
    have hji : j ≠ id := fun h' => hj (h' ▸ hq)
    have hfreed := h.freed j hj hj'
    rw [← hother j hji] at hfreed
    exact hfreed
  · intro j hj _ hj'
    have hji : id = j := UserPoint.leaving.inj hj
    exact absurd (hji ▸ hq) hj'

/-- `MP_Wait` gives a sent message back, and leaves the others to the engine. -/
lemma Slots.leave (h : s.Slots) (hinv : s.Inv) (huser : s.user = .leaving id) :
    (s.leaveWait id).Slots := by
  have herase : ∀ j, j ∈ s.outstanding.erase id ↔ j ≠ id ∧ j ∈ s.outstanding :=
    fun j => hinv.ids_nodup.mem_erase_iff
  have hleaving : ∀ j, j ≠ id → s.user ≠ .leaving j := by
    intro j hj
    rw [huser]
    exact fun h' => hj (UserPoint.leaving.inj h').symm
  by_cases h3 : (s.msg_list id).send_flag = 3
  · rw [leaveWait, if_neg (not_not.mpr h3)]
    refine ⟨?_, h.plain, ?_, ?_⟩
    · intro j hj _
      obtain ⟨hne, hj'⟩ := (herase j).mp hj
      exact h.sent j hj' (hleaving j hne)
    · intro j hj hj'
      rcases eq_or_ne j id with rfl | hne
      · exact h.pushed j huser h3 hj
      · exact h.freed j hj fun hm => hj' ((herase j).mpr ⟨hne, hm⟩)
    · intro j hj
      exact UserPoint.noConfusion hj
  · set msg : MsgEntry := { s.msg_list id with buf := 0 }
    have hself : (s.setEntry id msg).msg_list id = msg := setEntry_self _
    have hother : ∀ j, j ≠ id → (s.setEntry id msg).msg_list j = s.msg_list j :=
      fun j hj => setEntry_of_ne hj
    rw [leaveWait, if_pos h3]
    refine ⟨?_, ?_, ?_, ?_⟩
    · intro j hj _
      obtain ⟨hne, hj'⟩ := (herase j).mp hj
      have hsent := h.sent j hj' (hleaving j hne)
      rw [← hother j hne] at hsent
      exact hsent
    · intro j hj
      rcases eq_or_ne j id with rfl | hne
      · exact (congrArg MsgEntry.buffer hself).trans (h.plain j h3)
      · have hplain := h.plain j
        rw [← hother j hne] at hplain
        exact hplain hj
    · intro j hj hj'
      rcases eq_or_ne j id with rfl | hne
      · exact ⟨congrArg MsgEntry.buf hself,
          (congrArg MsgEntry.buffer hself).trans (h.plain j h3)⟩
      · have hfreed := h.freed j hj fun hm => hj' ((herase j).mpr ⟨hne, hm⟩)
        rw [← hother j hne] at hfreed
        exact hfreed
    · intro j hj
      exact UserPoint.noConfusion hj

/-- Every step keeps the entries in order, unless `push_to_buffer` comes too late. -/
lemma Slots.step {maxMsgs myproc dest : ℕ} (h : s.Slots) (hinv : s.Inv) (hun : s.Unfinished)
    (hs : Step maxMsgs myproc dest s s') : s'.Slots := by
  cases hs with
  | asend id buf nbytes tag hloop huser hbuf hid => exact h.asend huser myproc dest nbytes buf tag
  | wait id hloop huser hid =>
    refine ⟨fun j hj _ => h.sent j hj ?_, h.plain, h.freed, ?_⟩
    · rw [huser]
      exact fun h' => UserPoint.noConfusion h'
    · intro j hj
      exact UserPoint.noConfusion hj
  | waitDone id hloop huser hdone =>
    have hout := hinv.waiting id (Or.inl huser)
    refine ⟨fun j hj _ => h.sent j hj ?_, h.plain, h.freed, ?_⟩
    · rw [huser]
      exact fun h' => UserPoint.noConfusion h'
    · intro j hj h3
      have hji : id = j := UserPoint.leaving.inj hj
      rw [← hji, (hinv.testing huser).2] at h3
      exact absurd h3 (by simp)
  | waitPush id hloop huser hleft hflag =>
    refine ⟨fun j hj _ => h.sent j hj ?_, h.plain, h.freed, ?_⟩
    · rw [huser]
      exact fun h' => UserPoint.noConfusion h'
    · intro j hj
      exact UserPoint.noConfusion hj
  | push id a hloop huser ha => exact h.push hinv huser (hun id huser) ha
  | leave id hloop huser => exact h.leave hinv huser
  | store x v hloop huser hx => exact ⟨h.sent, h.plain, h.freed, h.pushed⟩
  | signal hloop hactive => exact ⟨h.sent, h.plain, h.freed, h.pushed⟩
  | pass l k k' hloop hgo => exact h.pass hinv hloop k k'
  | finish l hloop hstop => exact h.finish hinv hloop

lemma slots_init (mem : ℕ → UInt8) : (init mem).Slots := by
  refine ⟨?_, ?_, ?_, ?_⟩ <;> simp [init, msgNull]

/-- If the entry after the last one is free, it is taken. -/
lemma findEntry_next {maxMsgs mid : ℕ} {msg_list : ℕ → MsgEntry} (hmax : mid + 1 < maxMsgs)
    (hfree : (msg_list (mid + 1)).buf = 0) : findEntry maxMsgs mid msg_list = some (mid + 1) := by
  obtain ⟨n, rfl⟩ := Nat.exists_eq_add_of_le' (Nat.zero_lt_of_lt hmax)
  rw [findEntry, List.range_succ_eq_map, List.map_cons, Nat.add_zero, Nat.mod_eq_of_lt hmax,
    List.find?_cons_of_pos (by simpa using hfree)]

/-- Let no message be completed between the test of `MP_Wait` and `push_to_buffer`. Then the entry
of a message is free once `MP_Wait` has returned and all its bytes are written, and the entries are
used up only by messages that are not waited for or not written. -/
theorem slots_freed {maxMsgs myproc dest : ℕ} {mem : ℕ → UInt8}
    (h : Relation.ReflTransGen (fun s s' => Step maxMsgs myproc dest s s' ∧ s.Unfinished)
      (init mem) s) (hidle : s.loop = none) :
    (∀ id ∉ s.outstanding, (s.msg_list id).nleft ≤ 0 →
      (s.msg_list id).buf = 0 ∧ (s.msg_list id).buffer = 0) ∧
    (findEntry maxMsgs s.mid s.msg_list = none → ∀ id < maxMsgs,
      id ∈ s.outstanding ∨ 0 < (s.msg_list id).nleft) := by
  have hslots : s.Inv ∧ s.Slots := by
    clear hidle
    induction h with
    | refl => exact ⟨inv_init mem, slots_init mem⟩
    | tail _ hs ih => exact ⟨ih.1.step hs.1, ih.2.step ih.1 hs.2 hs.1⟩
  obtain ⟨hinv, hslots⟩ := hslots
  have hfreed : ∀ id ∉ s.outstanding, (s.msg_list id).nleft ≤ 0 →
      (s.msg_list id).buf = 0 ∧ (s.msg_list id).buffer = 0 := by
    intro id hout hleft
    exact hslots.freed id (fun hq => (hinv.unsent_idle hidle hq).not_ge hleft) hout
  refine ⟨hfreed, ?_⟩
  intro hnone id hid
  by_contra hcon
  rw [not_or, not_lt] at hcon
  exact findEntry_none hnone hid (hfreed id hcon.1 hcon.2).1

/-- `MP_Wait` comes to `push_to_buffer` while bytes of the message are left. -/
lemma reach_pushing {maxMsgs myproc dest id : ℕ} (hloop : s.loop = none) (huser : s.user = .outside)
    (hid : id ∈ s.outstanding) (hleft : (s.msg_list id).nleft ≠ 0)
    (hflag : (s.msg_list id).send_flag = 1) :
    Relation.ReflTransGen (fun s s' => Step maxMsgs myproc dest s s' ∧ s.Unfinished) s
      { s with user := .pushing id } := by
  have hwait : Step maxMsgs myproc dest s { s with user := .testing id } :=
    .wait s id hloop huser hid
  have hpush : Step maxMsgs myproc dest { s with user := .testing id }
      { s with user := .pushing id } :=
    .waitPush { s with user := .testing id } id hloop rfl hleft hflag
  refine .tail (.single ⟨hwait, fun _ h => ?_⟩) ⟨hpush, fun _ h => ?_⟩
  · rw [huser] at h
    cases h
  · cases h

/-- A message of one byte of which nothing could be written yet, when `MP_Wait` is about to call
`push_to_buffer`. -/
def pushingFirst : SendState :=
  { (((((init fun _ => 7).asend 0 1 1 100 1 5).sendPass ⟨1, 1, true⟩ 0 0).sendPass
      ⟨1, 1, false⟩ 0 0).finishSend ⟨1, 0, true⟩) with user := .pushing 1 }

lemma reach_pushingFirst :
    Relation.ReflTransGen (fun s s' => Step 10000 0 1 s s' ∧ s.Unfinished) (init fun _ => 7)
      pushingFirst := by
  let s₀ : SendState := init fun _ => 7
  let s₁ := s₀.asend 0 1 1 100 1 5
  let s₂ := s₁.sendPass ⟨1, 1, true⟩ 0 0
  let s₃ := s₂.sendPass ⟨1, 1, false⟩ 0 0
  let s₄ := s₃.finishSend ⟨1, 0, true⟩
  have h₁ : Step 10000 0 1 s₀ s₁ :=
    .asend s₀ 1 100 1 5 rfl rfl (by decide) (findEntry_next (by decide) rfl)
  have h₂ : Step 10000 0 1 s₁ s₂ := .pass s₁ ⟨1, 1, true⟩ 0 0 (by decide) ⟨by decide, by decide⟩
  have h₃ : Step 10000 0 1 s₂ s₃ := .pass s₂ ⟨1, 1, false⟩ 0 0 (by decide) ⟨by decide, by decide⟩
  have h₄ : Step 10000 0 1 s₃ s₄ :=
    .finish s₃ ⟨1, 0, true⟩ (by decide) fun h => absurd h.1 (by decide)
  have hrun₃ : Relation.ReflTransGen (fun s s' => Step 10000 0 1 s s' ∧ s.Unfinished) s₀ s₃ :=
    .tail (.tail (.single ⟨h₁, by decide⟩) ⟨h₂, by decide⟩) ⟨h₃, by decide⟩
  have hpushing : Relation.ReflTransGen (fun s s' => Step 10000 0 1 s s' ∧ s.Unfinished) s₄
      pushingFirst :=
    reach_pushing (by decide) (by decide) (by decide) (by decide) (by decide)
  exact (hrun₃.tail ⟨h₄, by decide⟩).trans hpushing

/-- The signal handler writes the message after `push_to_buffer`, and gives the entry back. -/
theorem slots_freed_pushed : ∃ s : SendState,
    Relation.ReflTransGen (fun s s' => Step 10000 0 1 s s' ∧ s.Unfinished) (init fun _ => 7) s ∧
      s.written = headerBytes 1 0 5 ++ [7] ∧ (s.msg_list 1).buf = 0 ∧
      (s.msg_list 1).buffer = 0 := by
  let s₁ : SendState := { pushingFirst.pushToBuffer 1 200 with user := .leaving 1 }
  let s₂ := s₁.startSend
  let s₃ := s₂.sendPass ⟨1, 1, true⟩ 24 1
  let s₄ := s₃.finishSend ⟨1, 1, true⟩
  let s₅ := s₄.leaveWait 1
  have h₁ : Step 10000 0 1 pushingFirst s₁ :=
    .push pushingFirst 1 200 (by decide) (by decide) (by decide)
  have h₂ : Step 10000 0 1 s₁ s₂ := .signal s₁ (by decide) (by decide)
  have h₃ : Step 10000 0 1 s₂ s₃ := .pass s₂ ⟨1, 1, true⟩ 24 1 (by decide) ⟨by decide, by decide⟩
  have h₄ : Step 10000 0 1 s₃ s₄ :=
    .finish s₃ ⟨1, 1, true⟩ (by decide) fun h => absurd h.2 (by decide)
  have h₅ : Step 10000 0 1 s₄ s₅ := .leave s₄ 1 (by decide) (by decide)
  have hrun := ((((reach_pushingFirst.tail ⟨h₁, by decide⟩).tail ⟨h₂, by decide⟩).tail
    ⟨h₃, by decide⟩).tail ⟨h₄, by decide⟩).tail ⟨h₅, by decide⟩
  have hfreed := (slots_freed hrun (by decide)).1 1 (by decide) (by decide)
  exact ⟨s₅, hrun, by decide, hfreed.1, hfreed.2⟩

/-- The signal handler completes the message between the test of `MP_Wait` and `push_to_buffer`. In
the end nobody gives the entry back. -/
theorem slots_freed_fails : ∃ s : SendState,
    Relation.ReflTransGen (Step 10000 0 1) (init fun _ => 7) s ∧ s.loop = none ∧
      s.outstanding = [] ∧ s.written = headerBytes 1 0 5 ++ [7] ∧ (s.msg_list 1).nleft = 0 ∧
      (s.msg_list 1).buf = 100 := by
  let s₁ := pushingFirst.startSend
  let s₂ := s₁.sendPass ⟨1, 1, true⟩ 24 1
  let s₃ := s₂.finishSend ⟨1, 1, true⟩
  let s₄ : SendState := { s₃.pushToBuffer 1 200 with user := .leaving 1 }
  let s₅ := s₄.leaveWait 1
  have h₁ : Step 10000 0 1 pushingFirst s₁ := .signal pushingFirst (by decide) (by decide)
  have h₂ : Step 10000 0 1 s₁ s₂ := .pass s₁ ⟨1, 1, true⟩ 24 1 (by decide) ⟨by decide, by decide⟩
  have h₃ : Step 10000 0 1 s₂ s₃ :=
    .finish s₂ ⟨1, 1, true⟩ (by decide) fun h => absurd h.2 (by decide)
  have h₄ : Step 10000 0 1 s₃ s₄ := .push s₃ 1 200 (by decide) (by decide) (by decide)
  have h₅ : Step 10000 0 1 s₄ s₅ := .leave s₄ 1 (by decide) (by decide)
  have hrun : Relation.ReflTransGen (Step 10000 0 1) (init fun _ => 7) pushingFirst :=
    reach_pushingFirst.lift id fun _ _ h => h.1
  exact ⟨s₅, ((((hrun.tail h₁).tail h₂).tail h₃).tail h₄).tail h₅, by decide, by decide, by decide, by decide, by decide⟩

end NetPipe.MpLite.SendState
