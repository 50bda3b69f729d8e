import Mathlib
import NetPipe.MpLite.Send

/-!
# The byte stream of the send side

Whatever the socket takes and wherever signals arrive, the bytes written and the bytes left in the
queue are the messages posted, in their order.
-/

namespace NetPipe.MpLite

namespace SendState

/-- The bytes of a message that are still to be written. -/
def remaining (s : SendState) (id : ℕ) : List UInt8 :=
  (s.msg_list id).header.drop (s.msg_list id).phdr ++
    bytesAt s.mem (s.msg_list id).ptr (s.msg_list id).nbl.toNat

/-- The invariant of the send side. -/
structure Inv (s : SendState) : Prop where
  stream : s.written ++ s.send_q.flatMap s.remaining = s.posted.flatten
  nodup : s.send_q.Nodup
  counted : ∀ id ∈ s.send_q, (s.msg_list id).Counted
  used : ∀ id ∈ s.send_q, (s.msg_list id).buf ≠ 0
  -- only the entry that `do_send` works on may be complete
  unsent : ∀ id ∈ s.send_q, 0 < (s.msg_list id).nleft ∨ ∃ l, s.loop = some l ∧ l.msg = id
  head : ∀ l, s.loop = some l → s.send_q.head? = some l.msg
  -- what is left lies in the buffer of the user, or in a private copy
  placed : ∀ id ∈ s.send_q, (s.msg_list id).send_flag = 3 ∨
    (s.msg_list id).send_flag = 1 ∧ id ∈ s.outstanding ∧ (s.msg_list id).buf ≤ (s.msg_list id).ptr ∧
      (s.msg_list id).ptr + (s.msg_list id).nbl.toNat ≤
        (s.msg_list id).buf + (s.msg_list id).nbytes.toNat
  ids_nodup : s.outstanding.Nodup
  waiting : ∀ id, s.user = .testing id ∨ s.user = .pushing id ∨ s.user = .leaving id →
    id ∈ s.outstanding
  owned : ∀ id ∈ s.outstanding, s.user ≠ .leaving id →
    (s.msg_list id).buf ≠ 0 ∧ (s.msg_list id).send_flag = 1
  -- an entry that `MP_Wait` will mark as free is no longer in the queue
  left : ∀ id, s.user = .leaving id → (s.msg_list id).send_flag ≠ 3 → id ∉ s.send_q

section

variable {s s' : SendState} {id k : ℕ}

@[simp] lemma setEntry_self (msg : MsgEntry) : (s.setEntry id msg).msg_list id = msg :=
  Function.update_self _ _ _

lemma setEntry_of_ne {msg : MsgEntry} {j : ℕ} (h : j ≠ id) :
    (s.setEntry id msg).msg_list j = s.msg_list j :=
  Function.update_of_ne h _ _

/-- Bytes that are left to send are busy. -/
lemma Inv.busy (h : s.Inv) (hid : id ∈ s.send_q) {i : ℕ} (hi : i < (s.msg_list id).nbl.toNat) :
    s.Busy ((s.msg_list id).ptr + i) := by
  rcases h.placed id hid with hflag | ⟨-, hout, hle, hle'⟩
  · exact Or.inr ⟨id, hid, hflag, Nat.le_add_right _ _, Nat.add_lt_add_left hi _⟩
  · exact Or.inl ⟨id, hout, hle.trans (Nat.le_add_right _ _),
      (Nat.add_lt_add_left hi _).trans_le hle'⟩

/-! ### Writing -/

/-- Some bytes of an entry were written, and nothing else has changed. -/
structure Wrote (id : ℕ) (s s' : SendState) : Prop where
  eq : ∃ msg out, s' = { s.setEntry id msg with written := s.written ++ out }
  stream : s'.written ++ s'.remaining id = s.written ++ s.remaining id
  counted : (s'.msg_list id).Counted
  buf : (s'.msg_list id).buf = (s.msg_list id).buf
  nbytes : (s'.msg_list id).nbytes = (s.msg_list id).nbytes
  buffer : (s'.msg_list id).buffer = (s.msg_list id).buffer
  send_flag : (s'.msg_list id).send_flag = (s.msg_list id).send_flag
  ptr : (s.msg_list id).ptr ≤ (s'.msg_list id).ptr
  stop : (s'.msg_list id).ptr + (s'.msg_list id).nbl.toNat =
    (s.msg_list id).ptr + (s.msg_list id).nbl.toNat

lemma Wrote.refl (h : (s.msg_list id).Counted) : Wrote id s s := by
  refine ⟨⟨s.msg_list id, [], ?_⟩, rfl, h, rfl, rfl, rfl, rfl, le_refl _, rfl⟩
  rw [setEntry, Function.update_eq_self, List.append_nil]

lemma Wrote.trans {s'' : SendState} (h : Wrote id s s') (h' : Wrote id s' s'') :
    Wrote id s s'' := by
  obtain ⟨msg, out, rfl⟩ := h.eq
  obtain ⟨msg', out', rfl⟩ := h'.eq
  refine ⟨⟨msg', out ++ out', ?_⟩, h'.stream.trans h.stream, h'.counted, h'.buf.trans h.buf,
    h'.nbytes.trans h.nbytes, h'.buffer.trans h.buffer, h'.send_flag.trans h.send_flag,
    h.ptr.trans h'.ptr, h'.stop.trans h.stop⟩
  simp only [setEntry, Function.update_idem, List.append_assoc]

lemma wrote_header (h : (s.msg_list id).Counted) (hhdr : (s.msg_list id).nhdr ≠ 0) :
    Wrote id s (s.writeHeader id k).1 := by
  have hpos : 0 < (s.msg_list id).nhdr := Nat.pos_of_ne_zero hhdr
  have hn : min k (s.msg_list id).nhdr ≤ (s.msg_list id).nhdr := min_le_right _ _
  have hmsg : (s.writeHeader id k).1.msg_list id =
      (s.msg_list id).updateProgress (min k (s.msg_list id).nhdr) := setEntry_self _
  refine ⟨⟨_, _, rfl⟩, ?_, ?_, ?_, ?_, ?_, ?_, ?_, ?_⟩
  · rw [remaining, hmsg, MsgEntry.updateProgress_head, MsgEntry.updateProgress_header hpos]
    show s.written ++ _ ++ (List.drop (_ + _) _ ++ _) = s.written ++ (_ ++ _)
    rw [List.append_assoc, ← List.append_assoc (List.take _ _), ← List.drop_drop,
      List.take_append_drop]
    rfl
  · rw [hmsg]
    exact h.updateHeader hn hpos
  · rw [hmsg, MsgEntry.updateProgress_buf]
  · rw [hmsg, MsgEntry.updateProgress_nbytes]
  · rw [hmsg, MsgEntry.updateProgress_buffer]
  · rw [hmsg, MsgEntry.updateProgress_send_flag]
  · rw [hmsg, MsgEntry.updateProgress_header hpos]
  · rw [hmsg, MsgEntry.updateProgress_header hpos]

lemma wrote_body (h : (s.msg_list id).Counted) (hhdr : (s.msg_list id).nhdr = 0) :
    Wrote id s (s.writeBody id k).1 := by
  set msg := s.msg_list id with hdef
  set n := min k (min msg.nbl msg.mtu).toNat with hn
  have hle : n ≤ msg.nbl.toNat :=
    (min_le_right _ _).trans (Int.toNat_le_toNat (min_le_left _ _))
  have hleInt : (n : ℤ) ≤ msg.nbl := by
    rw [← Int.toNat_of_nonneg h.nbl]
    exact_mod_cast hle
  have hmsg : (s.writeBody id k).1.msg_list id = msg.updateProgress n := setEntry_self _
  have hleft : (msg.nbl - n).toNat = msg.nbl.toNat - n := by omega
  have hdrop : msg.header.drop msg.phdr = [] := by
    have hphdr := h.phdr
    rw [hhdr, Nat.add_zero] at hphdr
    rw [hphdr]
    exact List.drop_of_length_le (msg.length_header).le
  refine ⟨⟨_, _, rfl⟩, ?_, ?_, ?_, ?_, ?_, ?_, ?_, ?_⟩
  · have hbytes : bytesAt s.mem msg.ptr msg.nbl.toNat =
        bytesAt s.mem msg.ptr n ++ bytesAt s.mem (msg.ptr + n) (msg.nbl.toNat - n) := by
      rw [← bytesAt_add, Nat.add_sub_cancel' hle]
    rw [remaining, remaining, hmsg, MsgEntry.updateProgress_head,
      MsgEntry.updateProgress_body hhdr, ← hdef, hdrop, hbytes, hleft, List.nil_append,
      List.nil_append, ← List.append_assoc]
    rfl
  · rw [hmsg]
    exact h.updateBody hleInt hhdr
  · rw [hmsg, MsgEntry.updateProgress_buf]
  · rw [hmsg, MsgEntry.updateProgress_nbytes]
  · rw [hmsg, MsgEntry.updateProgress_buffer]
  · rw [hmsg, MsgEntry.updateProgress_send_flag]
  · rw [hmsg, MsgEntry.updateProgress_body hhdr]
    exact Nat.le_add_right _ _
  · rw [hmsg, MsgEntry.updateProgress_body hhdr]
    show msg.ptr + n + (msg.nbl - n).toNat = msg.ptr + msg.nbl.toNat
    rw [hleft, Nat.add_assoc, Nat.add_sub_cancel' hle]

/-- `write_msg` writes the next bytes of its entry. -/
lemma wrote_msg (h : (s.msg_list id).Counted) (k k' : ℕ) : Wrote id s (s.writeMsg id k k').1 := by
  obtain ⟨r, hr, hhead⟩ : ∃ r : SendState × ℕ,
      r = (if (s.msg_list id).nhdr ≠ 0 then s.writeHeader id k else (s, 0)) ∧ Wrote id s r.1 := by
    refine ⟨_, rfl, ?_⟩
    split_ifs with hhdr
    · exact wrote_header h hhdr
    · exact .refl h
  have heq : s.writeMsg id k k' =
      if (r.1.msg_list id).nhdr = 0 ∧ (r.1.msg_list id).nbl > 0 then r.1.writeBody id k' else r := by
    rw [hr]
    rfl
  rw [heq]
  split_ifs with hbody
  · exact hhead.trans (wrote_body hhead.counted hbody.1)
  · exact hhead

/-- Entries other than the one written keep what they have left. -/
lemma Wrote.remaining_of_ne (h : Wrote id s s') {j : ℕ} (hj : j ≠ id) :
    s'.msg_list j = s.msg_list j ∧ s'.remaining j = s.remaining j := by
  obtain ⟨msg, out, rfl⟩ := h.eq
  have heq : (s.setEntry id msg).msg_list j = s.msg_list j := setEntry_of_ne hj
  refine ⟨heq, ?_⟩
  show (SendState.remaining (s.setEntry id msg) j) = s.remaining j
  rw [remaining, heq]
  rfl

/-! ### Steps -/

/-- A pass of the loop keeps the invariant. -/
lemma Inv.pass (h : s.Inv) {l : SendLoop} (hloop : s.loop = some l) (k k' : ℕ) :
    (s.sendPass l k k').Inv := by
  have hhead := h.head l hloop
  obtain ⟨rest, hq⟩ := List.head?_eq_some_iff.mp hhead
  have hmem : l.msg ∈ s.send_q := by
    rw [hq]
    exact List.mem_cons_self
  have hw := wrote_msg (h.counted _ hmem) k k'
  have hother : ∀ j, j ≠ l.msg → (s.writeMsg l.msg k k').1.msg_list j = s.msg_list j :=
    fun j hj => (hw.remaining_of_ne hj).1
  have hsame : ∀ j, ((s.writeMsg l.msg k k').1.msg_list j).buf = (s.msg_list j).buf ∧
      ((s.writeMsg l.msg k k').1.msg_list j).send_flag = (s.msg_list j).send_flag := by
    intro j
    rcases eq_or_ne j l.msg with rfl | hj
    · exact ⟨hw.buf, hw.send_flag⟩
    · rw [hother j hj]
      exact ⟨rfl, rfl⟩
  have hrest : ∀ j ∈ rest, j ≠ l.msg := by
    intro j hj heq
    have hnodup := h.nodup
    rw [hq] at hnodup
    exact (List.nodup_cons.mp hnodup).1 (heq ▸ hj)
  obtain ⟨msg, out, heq⟩ := hw.eq
  have hfields : (s.writeMsg l.msg k k').1.send_q = s.send_q ∧
      (s.writeMsg l.msg k k').1.posted = s.posted ∧
      (s.writeMsg l.msg k k').1.outstanding = s.outstanding ∧
      (s.writeMsg l.msg k k').1.user = s.user := by
    rw [heq]
    exact ⟨rfl, rfl, rfl, rfl⟩
  obtain ⟨hsq, hposted, hout, huser⟩ := hfields
  have hmsg : ∀ l', (s.sendPass l k k').loop = some l' → l'.msg = l.msg := by
    intro l' hl'
    rw [sendPass, Option.some.injEq] at hl'
    rw [← hl']
    split_ifs <;> rfl
  obtain ⟨l', hl'⟩ : ∃ l', (s.sendPass l k k').loop = some l' := ⟨_, rfl⟩
  refine ⟨?_, ?_, ?_, ?_, ?_, ?_, ?_, ?_, ?_, ?_, ?_⟩
  · show (s.writeMsg l.msg k k').1.written ++
      (s.writeMsg l.msg k k').1.send_q.flatMap (s.writeMsg l.msg k k').1.remaining = _
    have hflat : rest.flatMap (s.writeMsg l.msg k k').1.remaining = rest.flatMap s.remaining :=
      List.flatMap_congr fun j hj => (hw.remaining_of_ne (hrest j hj)).2
    rw [hsq, hq, List.flatMap_cons, hflat, ← List.append_assoc, hw.stream, List.append_assoc,
      ← List.flatMap_cons, ← hq, h.stream]
    exact congrArg List.flatten hposted.symm
  · exact hsq ▸ h.nodup
  · intro j hj
    rcases eq_or_ne j l.msg with rfl | hne
    · exact hw.counted
    · exact (hother j hne).symm ▸ h.counted j (hsq ▸ hj)
  · intro j hj
    exact (hsame j).1.symm ▸ h.used j (hsq ▸ hj)
  · intro j hj
    rcases eq_or_ne j l.msg with rfl | hne
    · exact Or.inr ⟨l', hl', hmsg l' hl'⟩
    · refine Or.inl ?_
      rcases h.unsent j (hsq ▸ hj) with hleft | ⟨l'', hl'', hj'⟩
      · exact (hother j hne).symm ▸ hleft
      · rw [hloop, Option.some.injEq] at hl''
        exact absurd (hl'' ▸ hj').symm hne
  · intro l'' hl''
    rw [hmsg l'' hl'', ← hhead]
    exact congrArg List.head? hsq
  · intro j hj
    rcases eq_or_ne j l.msg with rfl | hne
    · rcases h.placed _ hmem with hflag | ⟨hflag, hmemout, hle, hle'⟩
      · exact Or.inl (hw.send_flag.trans hflag)
      · refine Or.inr ⟨hw.send_flag.trans hflag, ?_, ?_, ?_⟩
        · exact hout.symm ▸ hmemout
        · exact hw.buf.le.trans (hle.trans hw.ptr)
        · have hstop := hw.stop.le.trans hle'
          rw [← hw.buf, ← hw.nbytes] at hstop
          exact hstop
    · have hj' := h.placed j (hsq ▸ hj)
      rw [← hother j hne, ← hout] at hj'
      exact hj'
  · exact hout ▸ h.ids_nodup
  · intro j hj
    have hmemout := h.waiting j (huser ▸ hj)
    exact hout.symm ▸ hmemout
  · intro j hj hne
    obtain ⟨h₁, h₂⟩ := h.owned j (hout ▸ hj) (huser ▸ hne)
    exact ⟨(hsame j).1.symm ▸ h₁, (hsame j).2.trans h₂⟩
  · intro j hj hflag hmem'
    exact h.left j (huser ▸ hj) (fun h3 => hflag ((hsame j).2.trans h3)) (hsq ▸ hmem')

lemma remaining_congr (hmsg : s'.msg_list id = s.msg_list id) (hmem : s'.mem = s.mem) :
    s'.remaining id = s.remaining id := by
  rw [remaining, hmsg, hmem]
  rfl

lemma Inv.unsent_idle (h : s.Inv) (hloop : s.loop = none) (hid : id ∈ s.send_q) :
    0 < (s.msg_list id).nleft := by
  rcases h.unsent id hid with hleft | ⟨l, hl, -⟩
  · exact hleft
  · rw [hloop] at hl
    exact absurd hl (by simp)

/-- The start of `do_send` keeps the invariant. -/
lemma Inv.startSend (h : s.Inv) (hloop : s.loop = none) : s.startSend.Inv := by
  refine ⟨h.stream, h.nodup, h.counted, h.used, ?_, ?_, h.placed, h.ids_nodup, h.waiting, h.owned,
    h.left⟩
  · intro j hj
    exact Or.inl (h.unsent_idle hloop hj)
  · intro l hl
    obtain ⟨j, hj, rfl⟩ := Option.map_eq_some_iff.mp hl
    exact hj

/-- An entry whose bytes are all written has nothing left. -/
lemma remaining_nil (h : (s.msg_list id).Counted) (hleft : (s.msg_list id).nleft ≤ 0) :
    s.remaining id = [] := by
  obtain ⟨h₁, h₂, h₃, -⟩ := h
  have hphdr : (s.msg_list id).phdr = hdrSize := by omega
  have hnbl : (s.msg_list id).nbl.toNat = 0 := by omega
  rw [remaining, hphdr, hnbl, List.drop_of_length_le (MsgEntry.length_header _).le]
  rfl

/-- Once its first entry is complete, the queue goes on with the next one. -/
lemma Inv.detach (h : s.Inv) {l : SendLoop} (hloop : s.loop = some l)
    (hleft : (s.msg_list l.msg).nleft ≤ 0) {msg : MsgEntry}
    (hmsg : msg.send_flag = (s.msg_list l.msg).send_flag)
    (hbuf : (s.msg_list l.msg).send_flag = 1 → msg.buf = (s.msg_list l.msg).buf) (wactive : Bool) :
    Inv { s.setEntry l.msg msg with
      send_q := s.send_q.tail, wactive := wactive, loop := none } := by
  obtain ⟨rest, hq⟩ := List.head?_eq_some_iff.mp (h.head l hloop)
  have hmem : l.msg ∈ s.send_q := by
    rw [hq]
    exact List.mem_cons_self
  have htail : s.send_q.tail = rest := by rw [hq, List.tail_cons]
  have hnodup : l.msg ∉ rest ∧ rest.Nodup := by
    have hnodup := h.nodup
    rw [hq] at hnodup
    exact List.nodup_cons.mp hnodup
  have hsub : ∀ j ∈ rest, j ∈ s.send_q := by
    intro j hj
    rw [hq]
    exact List.mem_cons_of_mem _ hj
  have hrest : ∀ j ∈ rest, (s.setEntry l.msg msg).msg_list j = s.msg_list j :=
    fun j hj => setEntry_of_ne (ne_of_mem_of_not_mem hj hnodup.1)
  have hflag : ∀ j, ((s.setEntry l.msg msg).msg_list j).send_flag = (s.msg_list j).send_flag := by
    intro j
    rcases eq_or_ne j l.msg with rfl | hne
    · rw [setEntry_self, hmsg]
    · rw [setEntry_of_ne hne]
  rw [htail]
  refine ⟨?_, hnodup.2, ?_, ?_, ?_, ?_, ?_, h.ids_nodup, h.waiting, ?_, ?_⟩
  · have hflat : rest.flatMap s.remaining = rest.flatMap (SendState.remaining
        { s.setEntry l.msg msg with send_q := rest, wactive := wactive, loop := none }) :=
      List.flatMap_congr fun j hj => (remaining_congr (hrest j hj) rfl).symm
    have hstream := h.stream
    rw [hq, List.flatMap_cons, remaining_nil (h.counted _ hmem) hleft, List.nil_append,
      hflat] at hstream
    exact hstream
  · intro j hj
    exact (hrest j hj).symm ▸ h.counted j (hsub j hj)
  · intro j hj
    exact (hrest j hj).symm ▸ h.used j (hsub j hj)
  · intro j hj
    refine Or.inl ?_
    rcases h.unsent j (hsub j hj) with hj' | ⟨l', hl', hl⟩
    · exact (hrest j hj).symm ▸ hj'
    · rw [hloop, Option.some.injEq] at hl'
      rw [hl', hl] at hnodup
      exact absurd hj hnodup.1
  · intro l' hl'
    exact absurd hl' (by simp)
  · intro j hj
    have hj' := h.placed j (hsub j hj)
    rw [← hrest j hj] at hj'
    exact hj'
  · intro j hj hne
    obtain ⟨h₁, h₂⟩ := h.owned j hj hne
    refine ⟨?_, (hflag j).trans h₂⟩
    rcases eq_or_ne j l.msg with rfl | hj'
    · exact (setEntry_self (s := s) _).symm ▸ (hbuf h₂).symm ▸ h₁
    · exact (setEntry_of_ne (s := s) hj').symm ▸ h₁
  · intro j hj h3 hmem'
    exact h.left j hj (fun h3' => h3 ((hflag j).trans h3')) (hsub j hmem')

/-- What the end of `do_send` makes of a finished entry. -/
lemma finishSend_eq (l : SendLoop) (hleft : (s.msg_list l.msg).nleft ≤ 0) : ∃ msg,
    msg.send_flag = (s.msg_list l.msg).send_flag ∧ msg.nleft = (s.msg_list l.msg).nleft ∧
    ((s.msg_list l.msg).send_flag = 1 → msg.buf = (s.msg_list l.msg).buf) ∧
    ((s.msg_list l.msg).send_flag = 3 → msg.buf = 0 ∧ msg.buffer = 0) ∧
    ((s.msg_list l.msg).send_flag ≠ 3 → msg.buffer = (s.msg_list l.msg).buffer) ∧
    s.finishSend l = if s.send_q.tail = [] then
        { s.setEntry l.msg msg with send_q := s.send_q.tail, wactive := false, loop := none }
      else startSend { s.setEntry l.msg msg with send_q := s.send_q.tail, loop := none } := by
  have hself : s.setEntry l.msg (s.msg_list l.msg) = s := by
    rw [setEntry, Function.update_eq_self]
  rw [finishSend, if_neg hleft.not_gt]
  by_cases h3 : (s.msg_list l.msg).send_flag = 3
  · refine ⟨{ s.msg_list l.msg with buffer := 0, buf := 0 }, rfl, rfl, ?_, fun _ => ⟨rfl, rfl⟩,
      fun hne => absurd h3 hne, ?_⟩
    · intro h1
      rw [h3] at h1
      exact absurd h1 (by simp)
    · simp only [if_pos h3]
      rfl
  · by_cases h4 : (s.msg_list l.msg).send_flag = 4
    · refine ⟨{ s.msg_list l.msg with buf := 0 }, rfl, rfl, ?_, fun h => absurd h h3,
        fun _ => rfl, ?_⟩
      · intro h1
        rw [h4] at h1
        exact absurd h1 (by simp)
      · simp only [if_neg h3, if_pos h4]
        rfl
    · refine ⟨s.msg_list l.msg, rfl, rfl, fun _ => rfl, fun h => absurd h h3, fun _ => rfl, ?_⟩
      simp only [if_neg h3, if_neg h4, hself]
      rfl

/-- The end of `do_send` keeps the invariant. -/
lemma Inv.finish (h : s.Inv) {l : SendLoop} (hloop : s.loop = some l) : (s.finishSend l).Inv := by
  by_cases hleft : 0 < (s.msg_list l.msg).nleft
  · rw [finishSend, if_pos hleft]
    refine ⟨h.stream, h.nodup, h.counted, h.used, ?_, ?_, h.placed, h.ids_nodup, h.waiting,
      h.owned, h.left⟩
    · intro j hj
      refine Or.inl ?_
      rcases h.unsent j hj with hj' | ⟨l', hl', rfl⟩
      · exact hj'
      · rw [hloop, Option.some.injEq] at hl'
        exact hl' ▸ hleft
    · intro l' hl'
      exact absurd hl' (by simp)
  · rw [not_lt] at hleft
    obtain ⟨msg, hmsg, -, hbuf, -, -, heq⟩ := finishSend_eq l hleft
    rw [heq]
    split_ifs with hnil
    · exact h.detach hloop hleft hmsg hbuf false
    · exact (h.detach hloop hleft hmsg hbuf s.wactive).startSend rfl

/-- The entry that a send takes is in no queue and the user does not wait for it. -/
lemma Inv.fresh (h : s.Inv) (huser : s.user = .outside) (hid : (s.msg_list id).buf = 0) :
    id ∉ s.send_q ∧ id ∉ s.outstanding := by
  refine ⟨fun hmem => h.used id hmem hid, fun hmem => (h.owned id hmem ?_).1 hid⟩
  rw [huser]
  exact fun hne => UserPoint.noConfusion hne

/-- A posted send keeps the invariant. -/
lemma Inv.asend (h : s.Inv) (hloop : s.loop = none) (huser : s.user = .outside)
    (hid : (s.msg_list id).buf = 0) {buf : ℕ} (hbuf : buf ≠ 0) (myproc dest nbytes : ℕ)
    (tag : ℤ) : (s.asend myproc dest id buf nbytes tag).Inv := by
  obtain ⟨hq, hout⟩ := h.fresh huser hid
  set msg := MsgEntry.create myproc buf nbytes myproc dest tag with hmsg
  have hcreate : msg.send_flag = 1 ∧ msg.buf = buf ∧ msg.ptr = buf ∧ msg.phdr = 0 ∧
      msg.nhdr = hdrSize ∧ msg.nbl = nbytes ∧ msg.nbytes = nbytes ∧ msg.nleft = nbytes + hdrSize ∧
      msg.mtu = 1000000 := by
    rw [hmsg, MsgEntry.create, if_neg (not_lt.mpr (Int.natCast_nonneg dest))]
    exact ⟨rfl, rfl, rfl, rfl, rfl, rfl, rfl, rfl, rfl⟩
  obtain ⟨hflag, hbuf', hptr, hphdr, hnhdr, hnbl, hnbytes, hleft, hmtu⟩ := hcreate
  have hself : (s.setEntry id msg).msg_list id = msg := setEntry_self _
  have hother : ∀ j, j ≠ id → (s.setEntry id msg).msg_list j = s.msg_list j :=
    fun j hj => setEntry_of_ne hj
  have hne : ∀ j ∈ s.send_q, j ≠ id := fun j hj => ne_of_mem_of_not_mem hj hq
  have hne' : ∀ j ∈ s.outstanding, j ≠ id := fun j hj => ne_of_mem_of_not_mem hj hout
  have key : Inv { s.setEntry id msg with
      mid := id
      send_q := s.send_q ++ [id]
      posted := s.posted ++ [msg.header ++ bytesAt s.mem buf nbytes]
      outstanding := s.outstanding ++ [id] } := by
    refine ⟨?_, ?_, ?_, ?_, ?_, ?_, ?_, ?_, ?_, ?_, ?_⟩
    · set s' : SendState := { s.setEntry id msg with
        mid := id
        send_q := s.send_q ++ [id]
        posted := s.posted ++ [msg.header ++ bytesAt s.mem buf nbytes]
        outstanding := s.outstanding ++ [id] }
      have hold : s.send_q.flatMap s'.remaining = s.send_q.flatMap s.remaining :=
        List.flatMap_congr fun j hj => remaining_congr (hother j (hne j hj)) rfl
      have hnew : s'.remaining id = msg.header ++ bytesAt s.mem buf nbytes := by
        have hself' : s'.msg_list id = msg := hself
        rw [remaining, hself', hphdr, hptr, hnbl, List.drop_zero, Int.toNat_natCast]
        rfl
      show s.written ++ (s.send_q ++ [id]).flatMap s'.remaining = (s.posted ++ [_]).flatten
      rw [List.flatMap_append, hold, ← List.append_assoc, h.stream, List.flatten_append,
        List.flatMap_singleton, hnew, List.flatten_singleton]
    · exact List.nodup_append.mpr ⟨h.nodup, List.nodup_singleton id, fun j hj k hk hjk =>
        hq (List.mem_singleton.mp hk ▸ hjk ▸ hj)⟩
    · intro j hj
      rcases List.mem_append.mp hj with hj | hj
      · exact (hother j (hne j hj)).symm ▸ h.counted j hj
      · rw [List.mem_singleton.mp hj]
        refine hself.symm ▸ ⟨?_, ?_, ?_, ?_⟩
        · rw [hleft, hnhdr, hnbl, add_comm]
        · rw [hnbl]
          exact Int.natCast_nonneg _
        · rw [hphdr, hnhdr, Nat.zero_add]
        · rw [hmtu]
          norm_num
    · intro j hj
      rcases List.mem_append.mp hj with hj | hj
      · exact (hother j (hne j hj)).symm ▸ h.used j hj
      · rw [List.mem_singleton.mp hj]
        exact hself.symm ▸ hbuf'.symm ▸ hbuf
    · intro j hj
      refine Or.inl ?_
      rcases List.mem_append.mp hj with hj | hj
      · exact (hother j (hne j hj)).symm ▸ h.unsent_idle hloop hj
      · rw [List.mem_singleton.mp hj]
        refine hself.symm ▸ ?_
        rw [hleft, hdrSize]
        omega
    · intro l hl
      have hl' : s.loop = some l := hl
      rw [hloop] at hl'
      exact absurd hl' (by simp)
    · intro j hj
      rcases List.mem_append.mp hj with hj | hj
      · have hj' := h.placed j hj
        rw [← hother j (hne j hj)] at hj'
        refine hj'.imp_right fun hsent => ⟨hsent.1, ?_, hsent.2.2⟩
        exact List.mem_append_left _ hsent.2.1
      · rw [List.mem_singleton.mp hj]
        refine hself.symm ▸ Or.inr ⟨hflag, ?_, ?_, ?_⟩
        · exact List.mem_append_right _ (List.mem_singleton_self id)
        · rw [hbuf', hptr]
        · rw [hbuf', hptr, hnbl, hnbytes]
    · exact List.nodup_append.mpr ⟨h.ids_nodup, List.nodup_singleton id, fun j hj k hk hjk =>
        hout (List.mem_singleton.mp hk ▸ hjk ▸ hj)⟩
    · intro j hj
      have hj' : s.user = _ ∨ s.user = _ ∨ s.user = _ := hj
      rw [huser] at hj'
      exact absurd hj' (by simp)
    · intro j hj hne''
      rcases List.mem_append.mp hj with hj | hj
      · have hj' := h.owned j hj hne''
        rw [← hother j (hne' j hj)] at hj'
        exact hj'
      · rw [List.mem_singleton.mp hj]
        exact hself.symm ▸ ⟨hbuf'.symm ▸ hbuf, hflag⟩
    · intro j hj
      have hj' : s.user = _ := hj
      rw [huser] at hj'
      exact absurd hj' (by simp)
  rw [SendState.asend]
  split_ifs
  · exact key
  · exact key.startSend hloop

/-- Memory may change where no bytes are left to send. -/
lemma Inv.bytesAt_eq (h : s.Inv) {mem : ℕ → UInt8} (hmem : ∀ x, s.Busy x → mem x = s.mem x)
    (hid : id ∈ s.send_q) : bytesAt mem (s.msg_list id).ptr (s.msg_list id).nbl.toNat =
      bytesAt s.mem (s.msg_list id).ptr (s.msg_list id).nbl.toNat :=
  bytesAt_congr fun _ hi => hmem _ (h.busy hid hi)

/-- The user may write where no bytes are left to send. -/
lemma Inv.store (h : s.Inv) {x : ℕ} (hx : ¬ s.Busy x) (v : UInt8) :
    Inv { s with mem := Function.update s.mem x v } := by
  refine ⟨?_, h.nodup, h.counted, h.used, h.unsent, h.head, h.placed, h.ids_nodup, h.waiting,
    h.owned, h.left⟩
  have hmem : ∀ y, s.Busy y → Function.update s.mem x v y = s.mem y := by
    intro y hy
    refine Function.update_of_ne ?_ _ _
    rintro rfl
    exact hx hy
  rw [← h.stream]
  exact congrArg (s.written ++ ·) (List.flatMap_congr fun j hj =>
    congrArg (_ ++ ·) (h.bytesAt_eq hmem hj))

/-- What `push_to_buffer` does: the bytes that are left are in the private copy. -/
lemma pushToBuffer_eq {a : ℕ} (ha : ∀ i < (s.msg_list id).nbl.toNat, ¬ s.Busy (a + i)) :
    ∃ ptr buffer mem, s.pushToBuffer id a =
      { s.setEntry id { s.msg_list id with ptr := ptr, buffer := buffer, send_flag := 3 } with
        mem := mem } ∧
      bytesAt mem ptr (s.msg_list id).nbl.toNat =
        bytesAt s.mem (s.msg_list id).ptr (s.msg_list id).nbl.toNat ∧
      ∀ x, s.Busy x → mem x = s.mem x := by
  set msg := s.msg_list id with hmsg
  by_cases hnbl : msg.nbl > 0
  · refine ⟨a, a, fun x => if a ≤ x ∧ x < a + msg.nbl.toNat then s.mem (msg.ptr + (x - a))
      else s.mem x, ?_, ?_, ?_⟩
    · simp only [pushToBuffer, ← hmsg, if_pos hnbl, setEntry, Function.update_self,
        Function.update_idem]
    · refine bytesAt_congr fun i hi => ?_
      rw [if_pos ⟨Nat.le_add_right a i, Nat.add_lt_add_left hi a⟩, Nat.add_sub_cancel_left]
    · intro x hx
      refine if_neg fun hin => ha (x - a) ?_ ?_
      · exact (Nat.sub_lt_iff_lt_add' hin.1).mpr hin.2
      · rw [Nat.add_sub_cancel' hin.1]
        exact hx
  · refine ⟨msg.ptr, msg.buffer, s.mem, ?_, rfl, fun _ _ => rfl⟩
    simp only [pushToBuffer, ← hmsg, if_neg hnbl]
    rfl

/-- `push_to_buffer` keeps what is left to send. -/
lemma Inv.push (h : s.Inv) (hloop : s.loop = none) (huser : s.user = .pushing id) {a : ℕ}
    (ha : ∀ i < (s.msg_list id).nbl.toNat, ¬ s.Busy (a + i)) :
    Inv { s.pushToBuffer id a with user := .leaving id } := by
  obtain ⟨ptr, buffer, mem, heq, hcopy, hmem⟩ := pushToBuffer_eq ha
  set msg : MsgEntry := { s.msg_list id with ptr := ptr, buffer := buffer, send_flag := 3 }
  have hself : (s.setEntry id msg).msg_list id = msg := setEntry_self _
  have hother : ∀ j, j ≠ id → (s.setEntry id msg).msg_list j = s.msg_list j :=
    fun j hj => setEntry_of_ne hj
  rw [heq]
  refine ⟨?_, h.nodup, ?_, ?_, ?_, ?_, ?_, h.ids_nodup, ?_, ?_, ?_⟩
  · refine Eq.trans ?_ h.stream
    refine congrArg (s.written ++ ·) (List.flatMap_congr fun j hj => ?_)
    rcases eq_or_ne j id with rfl | hne
    · show ((s.setEntry j msg).msg_list j).header.drop _ ++ bytesAt mem _ _ = _
      rw [hself]
      exact congrArg (_ ++ ·) hcopy
    · show ((s.setEntry id msg).msg_list j).header.drop _ ++ bytesAt mem _ _ = _
      rw [hother j hne]
      exact congrArg (_ ++ ·) (h.bytesAt_eq hmem hj)
  · intro j hj
    rcases eq_or_ne j id with rfl | hne
    · obtain ⟨h₁, h₂, h₃, h₄⟩ := h.counted j hj
      exact hself.symm ▸ ⟨h₁, h₂, h₃, h₄⟩
    · exact (hother j hne).symm ▸ h.counted j hj
  · intro j hj
    rcases eq_or_ne j id with rfl | hne
    · exact hself.symm ▸ h.used j hj
    · exact (hother j hne).symm ▸ h.used j hj
  · intro j hj
    refine Or.inl ?_
    rcases eq_or_ne j id with rfl | hne
    · exact hself.symm ▸ h.unsent_idle hloop hj
    · exact (hother j hne).symm ▸ h.unsent_idle hloop hj
  · intro l hl
    exact h.head l hl
  · intro j hj
    rcases eq_or_ne j id with rfl | hne
    · exact Or.inl (congrArg MsgEntry.send_flag hself)
    · have hj' := h.placed j hj
      rw [← hother j hne] at hj'
      exact hj'
  · intro j hj
    simp only [UserPoint.leaving.injEq, reduceCtorEq, false_or] at hj
    exact h.waiting j (Or.inr (Or.inl (hj ▸ huser)))
  · intro j hj hne
    have hne' : j ≠ id := fun hji => hne (hji ▸ rfl)
    have hj' := h.owned j hj (by rw [huser]; exact fun h' => UserPoint.noConfusion h')
    rw [← hother j hne'] at hj'
    exact hj'
  · intro j hj h3
    simp only [UserPoint.leaving.injEq] at hj
    rw [← hj] at h3
    exact absurd (congrArg MsgEntry.send_flag hself) h3

/-- The end of `MP_Wait` keeps the invariant. -/
lemma Inv.leave (h : s.Inv) (huser : s.user = .leaving id) : (s.leaveWait id).Inv := by
  have howned : ∀ j ∈ s.outstanding.erase id, j ≠ id ∧ j ∈ s.outstanding := by
    intro j hj
    exact (h.ids_nodup.mem_erase_iff).mp hj
  have hleaving : ∀ j, j ≠ id → s.user ≠ .leaving j := by
    intro j hj
    rw [huser]
    exact fun h' => hj (UserPoint.leaving.inj h').symm
  by_cases h3 : (s.msg_list id).send_flag = 3
  · rw [leaveWait, if_neg (not_not.mpr h3)]
    refine ⟨h.stream, h.nodup, h.counted, h.used, h.unsent, h.head, ?_, h.ids_nodup.erase id, ?_,
      ?_, ?_⟩
    · intro j hj
      refine (h.placed j hj).imp_right fun ⟨h₁, h₂, h₃⟩ => ⟨h₁, ?_, h₃⟩
      refine (h.ids_nodup.mem_erase_iff).mpr ⟨?_, h₂⟩
      rintro rfl
      rw [h3] at h₁
      exact absurd h₁ (by simp)
    · intro j hj
      exact absurd hj (by simp)
    · intro j hj _
      obtain ⟨hne, hmem⟩ := howned j hj
      exact h.owned j hmem (hleaving j hne)
    · intro j hj
      exact absurd hj (by simp)
  · have hq := h.left id huser h3
    have hne : ∀ j ∈ s.send_q, j ≠ id := fun j hj => ne_of_mem_of_not_mem hj hq
    have hother : ∀ j, j ≠ id →
        (s.setEntry id { s.msg_list id with buf := 0 }).msg_list j = s.msg_list j :=
      fun j hj => setEntry_of_ne hj
    rw [leaveWait, if_pos h3]
    refine ⟨?_, h.nodup, ?_, ?_, ?_, h.head, ?_, h.ids_nodup.erase id, ?_, ?_, ?_⟩
    · refine Eq.trans ?_ h.stream
      exact congrArg (s.written ++ ·) (List.flatMap_congr fun j hj =>
        remaining_congr (hother j (hne j hj)) rfl)
    · intro j hj
      exact (hother j (hne j hj)).symm ▸ h.counted j hj
    · intro j hj
      exact (hother j (hne j hj)).symm ▸ h.used j hj
    · intro j hj
      have hj' := h.unsent j hj
      rw [← hother j (hne j hj)] at hj'
      exact hj'
    · intro j hj
      have hj' := h.placed j hj
      rw [← hother j (hne j hj)] at hj'
      refine hj'.imp_right fun ⟨h₁, h₂, h₃⟩ => ⟨h₁, ?_, h₃⟩
      exact (h.ids_nodup.mem_erase_iff).mpr ⟨hne j hj, h₂⟩
    · intro j hj
      exact absurd hj (by simp)
    · intro j hj _
      obtain ⟨hne', hmem⟩ := howned j hj
      have hj' := h.owned j hmem (hleaving j hne')
      rw [← hother j hne'] at hj'
      exact hj'
    · intro j hj
      exact absurd hj (by simp)

/-- Every step keeps the invariant. -/
lemma Inv.step {maxMsgs myproc dest : ℕ} (h : s.Inv) (hs : Step maxMsgs myproc dest s s') :
    s'.Inv := by
  cases hs with
  | asend id buf nbytes tag hloop huser hbuf hid =>
    exact h.asend hloop huser (findEntry_free hid) hbuf myproc dest nbytes tag
  | wait id hloop huser hid =>
    refine ⟨h.stream, h.nodup, h.counted, h.used, h.unsent, h.head, h.placed, h.ids_nodup, ?_, ?_,
      ?_⟩
    · intro j hj
      simp only [UserPoint.testing.injEq, reduceCtorEq, or_false] at hj
      exact hj ▸ hid
    · intro j hj _
      exact h.owned j hj (by rw [huser]; exact fun h' => UserPoint.noConfusion h')
    · intro j hj
      exact absurd hj (by simp)
  | waitDone id hloop huser hdone =>
    refine ⟨h.stream, h.nodup, h.counted, h.used, h.unsent, h.head, h.placed, h.ids_nodup, ?_, ?_,
      ?_⟩
    · intro j hj
      simp only [UserPoint.leaving.injEq, reduceCtorEq, false_or] at hj
      exact h.waiting j (Or.inl (hj ▸ huser))
    · intro j hj _
      exact h.owned j hj (by rw [huser]; exact fun h' => UserPoint.noConfusion h')
    · intro j hj _ hmem
      simp only [UserPoint.leaving.injEq] at hj
      have hpos := h.unsent_idle hloop hmem
      rw [← hj] at hpos
      exact hpos.ne' hdone
  | waitPush id hloop huser hleft hflag =>
    refine ⟨h.stream, h.nodup, h.counted, h.used, h.unsent, h.head, h.placed, h.ids_nodup, ?_, ?_,
      ?_⟩
    · intro j hj
      simp only [UserPoint.pushing.injEq, reduceCtorEq, or_false, false_or] at hj
      exact h.waiting j (Or.inl (hj ▸ huser))
    · intro j hj _
      exact h.owned j hj (by rw [huser]; exact fun h' => UserPoint.noConfusion h')
    · intro j hj
      exact absurd hj (by simp)
  | push id a hloop huser ha => exact h.push hloop huser ha
  | leave id hloop huser => exact h.leave huser
  | store x v hloop huser hx => exact h.store hx v
  | signal hloop hactive => exact h.startSend hloop
  | pass l k k' hloop hgo => exact h.pass hloop k k'
  | finish l hloop hstop => exact h.finish hloop

lemma inv_init (mem : ℕ → UInt8) : (init mem).Inv := by
  refine ⟨rfl, List.nodup_nil, ?_, ?_, ?_, ?_, ?_, List.nodup_nil, ?_, ?_, ?_⟩ <;> simp [init]

/-- The invariant holds in every run. -/
lemma inv_reach {maxMsgs myproc dest : ℕ} {mem : ℕ → UInt8}
    (h : Relation.ReflTransGen (Step maxMsgs myproc dest) (init mem) s) : s.Inv := by
  induction h with
  | refl => exact inv_init mem
  | tail _ hs ih => exact ih.step hs

/-- `MP_Wait` does not abort, and for a send it takes no branch but the first two. -/
lemma Inv.testing (h : s.Inv) (huser : s.user = .testing id) :
    (s.msg_list id).buf ≠ 0 ∧ (s.msg_list id).send_flag = 1 :=
  h.owned id (h.waiting id (Or.inl huser)) (by rw [huser]; exact fun h' => UserPoint.noConfusion h')

/-- In every run the socket takes the headers and bodies of the messages in the order of the sends,
each once, and the queue holds the rest. -/
theorem stream_in_order {maxMsgs myproc dest : ℕ} {mem : ℕ → UInt8}
    (h : Relation.ReflTransGen (Step maxMsgs myproc dest) (init mem) s) :
    s.written ++ s.send_q.flatMap s.remaining = s.posted.flatten ∧
      s.written <+: s.posted.flatten ∧ (s.send_q = [] → s.written = s.posted.flatten) := by
  have hstream := (inv_reach h).stream
  refine ⟨hstream, ⟨_, hstream⟩, fun hnil => ?_⟩
  rw [hnil, List.flatMap_nil, List.append_nil] at hstream
  exact hstream

/-- A message of two bytes: one is written at once, the other is copied in `MP_Wait`, and the signal
handler writes it after the user has overwritten the buffer. -/
theorem stream_in_order_overwritten : ∃ s : SendState,
    Relation.ReflTransGen (Step 2 0 1) (init fun x => UInt8.ofNat x) s ∧
      s.written = headerBytes 2 0 5 ++ [100, 101] ∧ s.mem 101 = 9 := by
  let s₀ : SendState := init fun x => UInt8.ofNat x
  let s₁ := s₀.asend 0 1 1 100 2 5
  let s₂ := s₁.sendPass ⟨1, 1, true⟩ 24 1
  let s₃ := s₂.sendPass ⟨1, 1, true⟩ 0 0
  let s₄ := s₃.sendPass ⟨1, 1, false⟩ 0 0
  let s₅ := s₄.finishSend ⟨1, 0, true⟩
  let s₆ : SendState := { s₅ with user := .testing 1 }
  let s₇ : SendState := { s₆ with user := .pushing 1 }
  let s₈ : SendState := { s₇.pushToBuffer 1 200 with user := .leaving 1 }
  let s₉ := s₈.leaveWait 1
  let s₁₀ : SendState := { s₉ with mem := Function.update s₉.mem 101 9 }
  let s₁₁ := s₁₀.startSend
  let s₁₂ := s₁₁.sendPass ⟨1, 1, true⟩ 0 1
  let s₁₃ := s₁₂.finishSend ⟨1, 1, true⟩
  have h₁ : Step 2 0 1 s₀ s₁ := .asend s₀ 1 100 2 5 (by decide) (by decide) (by decide) (by decide)
  have h₂ : Step 2 0 1 s₁ s₂ := .pass s₁ ⟨1, 1, true⟩ 24 1 (by decide) ⟨by decide, by decide⟩
  have h₃ : Step 2 0 1 s₂ s₃ := .pass s₂ ⟨1, 1, true⟩ 0 0 (by decide) ⟨by decide, by decide⟩
  have h₄ : Step 2 0 1 s₃ s₄ := .pass s₃ ⟨1, 1, false⟩ 0 0 (by decide) ⟨by decide, by decide⟩
  have h₅ : Step 2 0 1 s₄ s₅ := .finish s₄ ⟨1, 0, true⟩ (by decide) fun h => absurd h.1 (by decide)
  have h₆ : Step 2 0 1 s₅ s₆ := .wait s₅ 1 (by decide) (by decide) (by decide)
  have h₇ : Step 2 0 1 s₆ s₇ := .waitPush s₆ 1 (by decide) (by decide) (by decide) (by decide)
  have h₈ : Step 2 0 1 s₇ s₈ := .push s₇ 1 200 (by decide) (by decide) (by decide)
  have h₉ : Step 2 0 1 s₈ s₉ := .leave s₈ 1 (by decide) (by decide)
  have h₁₀ : Step 2 0 1 s₉ s₁₀ := .store s₉ 101 9 (by decide) (by decide) (by decide)
  have h₁₁ : Step 2 0 1 s₁₀ s₁₁ := .signal s₁₀ (by decide) (by decide)
  have h₁₂ : Step 2 0 1 s₁₁ s₁₂ := .pass s₁₁ ⟨1, 1, true⟩ 0 1 (by decide) ⟨by decide, by decide⟩
  have h₁₃ : Step 2 0 1 s₁₂ s₁₃ := .finish s₁₂ ⟨1, 1, true⟩ (by decide) fun h => absurd h.2 (by decide)
  have hrun : Relation.ReflTransGen (Step 2 0 1) s₀ s₁₃ :=
    .tail (.tail (.tail (.tail (.tail (.tail (.tail (.tail (.tail (.tail (.tail (.tail (.single h₁)
      h₂) h₃) h₄) h₅) h₆) h₇) h₈) h₉) h₁₀) h₁₁) h₁₂) h₁₃
  refine ⟨s₁₃, hrun, ?_, by decide⟩
  exact ((stream_in_order hrun).2.2 (by decide)).trans (by decide)

end

end SendState

end NetPipe.MpLite
