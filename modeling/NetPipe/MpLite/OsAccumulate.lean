import Mathlib.Data.List.GetD
import NetPipe.Library.Pieces
import NetPipe.MpLite.OsScratch

/-!
# Accumulates that arrive

`recv_accum_operation` combines a vector with the window element by element, with other messages in
between. If the elements that are read in part do not meet in a variable, and what is done to the
memory in between commutes, the memory ends as if `do_accum_op` had been called once for each vector.
-/

namespace NetPipe.MpLite

/-! ### Elements -/

section

variable {fl : FloatOps} {op dest n a : ℕ} {new new' : List UInt8} {m : ℕ → UInt8}

lemma accumLoop_zero : accumLoop fl op dest new 0 m = m := rfl

lemma accumLoop_succ : accumLoop fl op dest new (n + 1) m =
    accumAt fl op (dest + n * accumSize op)
      ((new.drop (n * accumSize op)).take (accumSize op)) (accumLoop fl op dest new n m) := by
  simp [accumLoop, List.range_succ, List.foldl_append]

lemma accumLoop_one (h : new.length = accumSize op) :
    accumLoop fl op dest new 1 m = accumAt fl op dest new m := by
  rw [accumLoop_succ, accumLoop_zero, Nat.zero_mul, List.drop_zero, Nat.add_zero, ← h,
    List.take_length]

/-- The first elements do not depend on the bytes behind them. -/
lemma accumLoop_append (h : n * accumSize op ≤ new.length) :
    accumLoop fl op dest (new ++ new') n m = accumLoop fl op dest new n m := by
  induction n with
  | zero => rfl
  | succ n ih =>
    have hn : n * accumSize op + accumSize op ≤ new.length := by rwa [← Nat.succ_mul]
    have hdrop : (n * accumSize op) ≤ new.length := Nat.le_of_add_right_le hn
    rw [accumLoop_succ, accumLoop_succ, ih hdrop, List.drop_append_of_le_length hdrop,
      List.take_append_of_le_length]
    rw [List.length_drop]
    exact Nat.le_sub_of_add_le' hn

/-- Bytes are stored in two parts. -/
lemma storeBytes_append : storeBytes a (new ++ new') m =
    storeBytes (a + new.length) new' (storeBytes a new m) := by
  funext x
  simp only [storeBytes, List.length_append]
  by_cases h₁ : a + new.length ≤ x ∧ x < a + new.length + new'.length
  · obtain ⟨h₂, h₃⟩ := h₁
    have h₄ : a ≤ x ∧ x < a + (new.length + new'.length) := by omega
    rw [if_pos h₄, if_pos ⟨h₂, h₃⟩, List.getD_append_right _ _ _ _ (by omega), Nat.sub_add_eq]
  · rw [if_neg h₁]
    by_cases h₂ : a ≤ x ∧ x < a + new.length
    · have h₄ : a ≤ x ∧ x < a + (new.length + new'.length) := by omega
      rw [if_pos h₄, if_pos h₂, List.getD_append _ _ _ _ (by omega)]
    · have h₄ : ¬(a ≤ x ∧ x < a + (new.length + new'.length)) := by omega
      rw [if_neg h₄, if_neg h₂]

end

/-! ### What messages do to the memory -/

/-- A message at once: `do_accum_op` on the whole vector, as for a process itself, or the bytes of a
put or of a reply from address `addr` on. -/
def OsFrame.applyTo (fl : FloatOps) (addr : ℕ) (f : OsFrame) (m : ℕ → UInt8) : ℕ → UInt8 :=
  if f.header.IsAccum then
    (doAccumOp fl f.header.dest_ptr f.body (f.header.tag - 3) f.header.nbytes m).getD m
  else if f.header.tag = 0 ∨ f.header.tag = 2 then storeBytes addr f.body m
  else m

/-- What was done to the memory for the message that is being received: the complete elements, or
the bytes that were read. -/
def OsView.part (fl : FloatOps) (v : OsView) : Function.End (ℕ → UInt8) :=
  match v.entry with
  | none => 1
  | some msg =>
    if v.header.IsAccum then
      accumLoop fl (v.header.tag - 3) v.header.dest_ptr v.got (v.got.length / v.header.unit)
    else if v.header.tag = 0 ∨ v.header.tag = 2 then storeBytes msg.buf.2 v.got
    else id

namespace OsState

/-- What a `read` of `k` bytes of the body from `b` does to the memory. -/
def piece (fl : FloatOps) (b k : ℕ) (s : OsState) : Function.End (ℕ → UInt8) :=
  match s.recv_q b with
  | none => 1
  | some msg =>
    let h := s.header b
    let bytes := (s.sock b).take k
    if h.IsAccum then
      if k = msg.nbl then
        accumAt fl (h.tag - 3) msg.dest_ptr
          ((s.got b).drop ((s.got b).length - (s.got b).length % h.unit) ++ bytes)
      else id
    else if h.tag = 0 ∨ h.tag = 2 then storeBytes msg.ptr.2 bytes
    else id

/-- No element is read while an element of the same type from another source was read in part, and
what a `read` does to the memory commutes with what was done for the messages of other sources that
are not complete. -/
def ElementsApart (fl : FloatOps) : OsState → OsAct → Prop
  | s, .body b k => 0 < k → ∀ a, a ≠ b → s.recv_q a ≠ none →
      ((s.header b).IsAccum → (s.header a).IsAccum →
        accumStorage ((s.header a).tag - 3) = accumStorage ((s.header b).tag - 3) →
        (s.got a).length % (s.header a).unit = 0) ∧
      Commute (s.piece fl b k) ((s.view a).part fl)
  | _, _ => True

/-- Every message was received as it was sent. Without a message that is not complete, the memory is
what the messages make of it one after the other, each as a whole. The bytes of an element that was
read in part are those of its source. -/
structure AppliedWhole (fl : FloatOps) (t : Traffic) (s : OsState) : Prop where
  stopped : s.stopped = false
  sent : ∀ b, s.receivedFrom b <+: t.frames b
  whole : (∀ b, s.recv_q b = none) →
    s.cells .memory = s.completed.foldl (fun m c => c.1.applyTo fl c.2 m) t.mem
  own : ∀ b msg, s.recv_q b = some msg → (s.header b).IsAccum →
    bytesAt (s.cells msg.buf.1) msg.buf.2 ((s.got b).length % (s.header b).unit) =
      (s.got b).drop ((s.got b).length - (s.got b).length % (s.header b).unit)

/-- The invariant of the runs that keep elements apart: the memory is the work of operations in
pieces. -/
structure AccumInv (fl : FloatOps) (t : Traffic) (s : OsState) : Prop where
  streamed : s.Streamed t
  kept : s.Kept OsHeader.IsAccum
  pieces : ∃ p : Pieces ℕ (Function.End (ℕ → UInt8)),
    p.Sorted (List.range t.nprocs) ∧ (∀ b, p.part b = (s.view b).part fl) ∧
    p.total t.mem = s.cells .memory ∧
    p.done t.mem = s.completed.foldl (fun m c => c.1.applyTo fl c.2 m) t.mem

variable {fl : FloatOps} {t : Traffic} {s s' : OsState} {act : OsAct} {a b k m : ℕ} {msg : OsEntry}
  {f : OsFrame} {rest : List OsFrame}

/-! ### Pieces -/

lemma part_of_nil {v : OsView} (hgot : v.got = []) : v.part fl = 1 := by
  unfold OsView.part
  rw [hgot]
  cases v.entry with
  | none => rfl
  | some msg =>
    by_cases haccum : v.header.IsAccum
    · refine (if_pos haccum).trans ?_
      rw [List.length_nil, Nat.zero_div]
      rfl
    · refine (if_neg haccum).trans ?_
      by_cases h : v.header.tag = 0 ∨ v.header.tag = 2
      · exact (if_pos h).trans (funext fun m => storeBytes_nil _ _)
      · exact if_neg h

/-- The part depends on the entry only through its buffer. -/
lemma part_of_entry {v v' : OsView} {msg' : OsEntry} (hmsg : v.entry = some msg)
    (hmsg' : v'.entry = some msg') (hhdr : v'.hdr = v.hdr) (hgot : v'.got = v.got)
    (hbuf : msg'.buf = msg.buf) : v'.part fl = v.part fl := by
  have hheader : v'.header = v.header := congrArg parseOsHeader hhdr
  unfold OsView.part
  rw [hmsg, hmsg', hheader, hgot]
  simp only [hbuf]

lemma unit_of_accum {h : OsHeader} (haccum : h.IsAccum) : h.unit = accumSize (h.tag - 3) :=
  if_pos haccum

/-- The part of an accumulate, in terms of its frame. -/
lemma Current.part_accum (hc : s.Current t b f rest msg) (hmsg : s.recv_q b = some msg)
    (h : f.header.IsAccum) : (s.view b).part fl =
      accumLoop fl (f.header.tag - 3) f.header.dest_ptr (s.got b)
        ((s.got b).length / f.header.unit) := by
  have hentry : (s.view b).entry = some msg := hmsg
  unfold OsView.part
  rw [view_header, hc.header_eq, hentry]
  exact if_pos h

lemma Current.part_store (hc : s.Current t b f rest msg) (hmsg : s.recv_q b = some msg)
    (h : f.header.tag = 0 ∨ f.header.tag = 2) :
    (s.view b).part fl = storeBytes msg.buf.2 (s.got b) := by
  have hentry : (s.view b).entry = some msg := hmsg
  have haccum : ¬f.header.IsAccum := by
    unfold OsHeader.IsAccum
    omega
  unfold OsView.part
  rw [view_header, hc.header_eq, hentry]
  exact (if_neg haccum).trans (if_pos h)

lemma Current.part_other (hc : s.Current t b f rest msg) (hmsg : s.recv_q b = some msg)
    (haccum : ¬f.header.IsAccum) (h : ¬(f.header.tag = 0 ∨ f.header.tag = 2)) :
    (s.view b).part fl = 1 := by
  have hentry : (s.view b).entry = some msg := hmsg
  unfold OsView.part
  rw [view_header, hc.header_eq, hentry]
  exact (if_neg haccum).trans (if_neg h)

/-- The state of `b` after a `read` is again one in which the message is being received. -/
lemma Current.bodyDone (hc : s.Current t b f rest msg) (hnhdr : msg.nhdr = 0)
    (hleft : 0 < msg.nleft) (hk : k ≤ msg.nbl) :
    (s.bodyDone fl b k msg).Current t b f rest (msg.next f.header.unit k) where
  frames := hc.frames
  valid := hc.valid
  receiving := by
    simpa [OsState.bodyDone, readBody] using hc.receiving.body hc.valid hnhdr hleft hk

/-- An element is complete: the loop has gone on by one. -/
lemma Current.accumLoop_next (hc : s.Current t b f rest msg)
    (hq : (s.got b).length < f.body.length) (h : f.header.IsAccum)
    (hlen : msg.nbl ≤ (s.sock b).length) (m : ℕ → UInt8) :
    accumLoop fl (f.header.tag - 3) f.header.dest_ptr (s.got b ++ (s.sock b).take msg.nbl)
        (((s.got b).length + msg.nbl) / f.header.unit) m =
      accumAt fl (f.header.tag - 3) msg.dest_ptr
        ((s.got b).drop ((s.got b).length - (s.got b).length % f.header.unit) ++
          (s.sock b).take msg.nbl)
        (accumLoop fl (f.header.tag - 3) f.header.dest_ptr (s.got b)
          ((s.got b).length / f.header.unit) m) := by
  obtain ⟨hnbl, -, hdest⟩ := hc.receiving.place hq
  have hunit := unit_of_accum h
  have hdiv := Nat.div_add_mod (s.got b).length f.header.unit
  have hstart : (s.got b).length - (s.got b).length % f.header.unit =
      (s.got b).length / f.header.unit * f.header.unit := by
    rw [mul_comm]
    omega
  have hle : (s.got b).length / f.header.unit * f.header.unit ≤ (s.got b).length :=
    Nat.div_mul_le_self _ _
  have helement : ((s.got b ++ (s.sock b).take msg.nbl).drop
      ((s.got b).length / f.header.unit * f.header.unit)).take f.header.unit =
      (s.got b).drop ((s.got b).length / f.header.unit * f.header.unit) ++
        (s.sock b).take msg.nbl := by
    rw [List.drop_append_of_le_length hle, List.take_of_length_le]
    rw [List.length_append, List.length_drop, List.length_take, Nat.min_eq_left hlen]
    omega
  rw [Receiving.unit_full_div hc.valid.unit_pos (by omega), accumLoop_succ, ← hunit, helement,
    accumLoop_append (hunit ▸ hle), hstart, hdest]

/-- An element is not complete: the loop has not gone on. -/
lemma Current.accumLoop_same (hc : s.Current t b f rest msg)
    (hq : (s.got b).length < f.body.length) (h : f.header.IsAccum) (hk : k ≤ msg.nbl)
    (hne : k ≠ msg.nbl) (new : List UInt8) (m : ℕ → UInt8) :
    accumLoop fl (f.header.tag - 3) f.header.dest_ptr (s.got b ++ new)
        (((s.got b).length + k) / f.header.unit) m =
      accumLoop fl (f.header.tag - 3) f.header.dest_ptr (s.got b)
        ((s.got b).length / f.header.unit) m := by
  have hnbl := (hc.receiving.place hq).nbl
  have hle : (s.got b).length / f.header.unit * f.header.unit ≤ (s.got b).length :=
    Nat.div_mul_le_self _ _
  rw [Receiving.unit_div (by omega), accumLoop_append (unit_of_accum h ▸ hle)]

lemma Current.piece_full (hc : s.Current t b f rest msg) (hmsg : s.recv_q b = some msg)
    (h : f.header.IsAccum) : s.piece fl b msg.nbl =
      accumAt fl (f.header.tag - 3) msg.dest_ptr
        ((s.got b).drop ((s.got b).length - (s.got b).length % f.header.unit) ++
          (s.sock b).take msg.nbl) := by
  unfold piece
  rw [hmsg, hc.header_eq]
  exact (if_pos h).trans (if_pos rfl)

lemma Current.piece_accum (hc : s.Current t b f rest msg) (hmsg : s.recv_q b = some msg)
    (h : f.header.IsAccum) (hne : k ≠ msg.nbl) : s.piece fl b k = 1 := by
  unfold piece
  rw [hmsg, hc.header_eq]
  exact (if_pos h).trans (if_neg hne)

lemma Current.piece_store (hc : s.Current t b f rest msg) (hmsg : s.recv_q b = some msg)
    (haccum : ¬f.header.IsAccum) (h : f.header.tag = 0 ∨ f.header.tag = 2) :
    s.piece fl b k = storeBytes msg.ptr.2 ((s.sock b).take k) := by
  unfold piece
  rw [hmsg, hc.header_eq]
  exact (if_neg haccum).trans (if_pos h)

lemma Current.piece_other (hc : s.Current t b f rest msg) (hmsg : s.recv_q b = some msg)
    (haccum : ¬f.header.IsAccum) (h : ¬(f.header.tag = 0 ∨ f.header.tag = 2)) :
    s.piece fl b k = 1 := by
  unfold piece
  rw [hmsg, hc.header_eq]
  exact (if_neg haccum).trans (if_neg h)

/-- The part goes on by the piece. -/
lemma Current.part_body (hc : s.Current t b f rest msg) (hmsg : s.recv_q b = some msg)
    (hnhdr : msg.nhdr = 0) (hleft : 0 < msg.nleft) (hk : k ≤ msg.nbl)
    (hlen : k ≤ (s.sock b).length) :
    ((s.bodyDone fl b k msg).view b).part fl = s.piece fl b k * (s.view b).part fl := by
  have hn := hc.receiving.nleft
  have hq : (s.got b).length < f.body.length := by omega
  have hc' : (s.bodyDone fl b k msg).Current t b f rest _ := hc.bodyDone hnhdr hleft hk
  have hmsg' : (s.bodyDone fl b k msg).recv_q b = some (msg.next f.header.unit k) := by
    simp [OsState.bodyDone, hc.header_eq]
  have hgot : (s.bodyDone fl b k msg).got b = s.got b ++ (s.sock b).take k := by
    simp [OsState.bodyDone, readBody]
  have hgotlen : ((s.bodyDone fl b k msg).got b).length = (s.got b).length + k := by
    rw [hgot, List.length_append, List.length_take, Nat.min_eq_left hlen]
  by_cases haccum : f.header.IsAccum
  · rw [hc'.part_accum hmsg' haccum, hc.part_accum hmsg haccum, hgotlen, hgot]
    funext m
    by_cases hall : k = msg.nbl
    · subst hall
      rw [hc.piece_full hmsg haccum]
      exact hc.accumLoop_next hq haccum hlen m
    · rw [hc.piece_accum hmsg haccum hall]
      exact hc.accumLoop_same hq haccum hk hall _ m
  · by_cases h : f.header.tag = 0 ∨ f.header.tag = 2
    · rw [hc'.part_store hmsg' h, hc.part_store hmsg h, hc.piece_store hmsg haccum h, hgot, next_buf,
        (hc.receiving.place hq).ptr, hc.valid.unit_of_not_accum haccum, Nat.mod_eq_of_lt hq]
      funext m
      exact storeBytes_append
    · rw [hc'.part_other hmsg' haccum h, hc.part_other hmsg haccum h,
        hc.piece_other hmsg haccum h, one_mul]

/-- The memory goes on by the piece. -/
lemma Current.memory_body (hc : s.Current t b f rest msg) (hmsg : s.recv_q b = some msg)
    (hkept : s.Kept OsHeader.IsAccum) (hnhdr : msg.nhdr = 0) (hleft : 0 < msg.nleft)
    (hlen : k ≤ (s.sock b).length) :
    (s.bodyDone fl b k msg).cells .memory = s.piece fl b k (s.cells .memory) := by
  have hn := hc.receiving.nleft
  have hq : (s.got b).length < f.body.length := by omega
  have hplace := hc.receiving.place hq
  have hptr : msg.ptr.1 = msg.buf.1 := by rw [hplace.ptr]
  have hbody : (s.bodyDone fl b k msg).cells .memory = s.memoryAfter fl b k msg := by
    simp [OsState.bodyDone]
  have hsame : msg.buf.1 ≠ .memory → (s.readBody b k msg).cells .memory = s.cells .memory := by
    intro hne
    simp [readBody, hptr, hne.symm]
  rw [hbody]
  unfold memoryAfter
  rw [hc.header_eq]
  by_cases haccum : f.header.IsAccum
  · have hmemory := hsame (hc.buf_ne_memory (Or.inl haccum))
    by_cases hall : k = msg.nbl
    · have hpending : (s.view b).pending = (s.got b).length % f.header.unit := by
        unfold OsView.pending
        rw [view_header, hc.header_eq, if_pos haccum]
        rfl
      have hread := hc.read_cells hmsg (hkept b) haccum (Or.inl haccum) hq hlen
      have hunit : (s.view b).pending + k = f.header.unit := by
        have hnbl := hplace.nbl
        omega
      have hlength := congrArg List.length hread
      rw [length_bytesAt, hunit, unit_of_accum haccum] at hlength
      rw [hunit, hpending] at hread
      simp only [haccum, true_and, if_pos hall]
      rw [hread, hmemory, accumLoop_one]
      · subst hall
        rw [hc.piece_full hmsg haccum]
      · rw [← hpending, ← hlength]
    · simp only [haccum, true_and, if_neg hall]
      rw [hmemory, hc.piece_accum hmsg haccum hall]
      rfl
  · simp only [haccum, false_and, if_false]
    by_cases h : f.header.tag = 0 ∨ f.header.tag = 2
    · have hmemory : msg.buf.1 = .memory := by
        rcases h with h | h
        · rw [hc.receiving.target.put h]
        · exact hc.receiving.target.reply h
      rw [hc.piece_store hmsg haccum h]
      simp [readBody, hptr, hmemory]
    · have hrequest : f.header.IsRequest := by
        have htag := hc.valid.tag_cases
        unfold OsHeader.IsRequest
        tauto
      rw [hsame (hc.buf_ne_memory (Or.inr hrequest)), hc.piece_other hmsg haccum h]
      rfl

/-- A message that is complete was applied as a whole. -/
lemma Current.part_complete (hc : s.Current t b f rest msg) (hmsg : s.recv_q b = some msg)
    (hleft : msg.nleft = 0) : (s.view b).part fl = f.applyTo fl msg.buf.2 := by
  obtain ⟨hgot, -⟩ := hc.finished hleft
  funext m
  unfold OsFrame.applyTo
  by_cases haccum : f.header.IsAccum
  · have hdvd := hc.valid.unit_dvd
    have hop : ¬f.header.tag - 3 > 11 := by
      have htag := haccum.2
      omega
    rw [hc.part_accum hmsg haccum, hgot, if_pos haccum]
    unfold doAccumOp
    rw [hc.valid.nbytes, ← unit_of_accum haccum, if_neg (by simpa using Nat.mod_eq_zero_of_dvd hdvd),
      if_neg hop]
    rfl
  · rw [if_neg haccum]
    by_cases h : f.header.tag = 0 ∨ f.header.tag = 2
    · rw [hc.part_store hmsg h, hgot, if_pos h]
    · rw [hc.part_other hmsg haccum h, if_neg h]
      rfl

/-! ### Runs -/

lemma Current.lt_nprocs (hc : s.Current t b f rest msg) : b < t.nprocs := by
  by_contra hb
  have hframes := hc.frames
  rw [t.frames_nil b (Nat.le_of_not_lt hb)] at hframes
  simp at hframes

/-- Only elements are read into the variables for elements. -/
lemma Current.accum_of_buf (hc : s.Current t b f rest msg) {op : ℕ}
    (hbuf : msg.buf.1 = accumStorage op) : f.header.IsAccum := by
  have htarget := hc.receiving.target
  unfold accumStorage at hbuf
  rcases hc.valid.tag_cases with h | h | h | h | h | h
  · rw [htarget.put h] at hbuf
    split_ifs at hbuf
  · rw [htarget.get h] at hbuf
    split_ifs at hbuf
  · rw [htarget.reply h] at hbuf
    split_ifs at hbuf
  · exact h
  · rw [htarget.lock h] at hbuf
    split_ifs at hbuf
  · obtain ⟨call, hcall⟩ := htarget.sync h
    rw [hcall] at hbuf
    split_ifs at hbuf

lemma AccumInv.alone (hs : s.AccumInv fl t) (hcond : s.ElementsApart fl (.body b k)) (hk : 0 < k) :
    s.Alone OsHeader.IsAccum b := by
  intro msg hmsg a hne msg' hmsg' haccum hbuf
  obtain ⟨f, rest, hc⟩ := hs.streamed.current hmsg
  obtain ⟨f', rest', hc'⟩ := hs.streamed.current hmsg'
  have hstorage' : msg'.buf.1 = accumStorage ((s.header a).tag - 3) := by
    rw [hc'.header_eq] at haccum ⊢
    rw [hc'.receiving.target.accum haccum]
  have hb : f.header.IsAccum := hc.accum_of_buf (hbuf ▸ hstorage')
  have hstorage : msg.buf.1 = accumStorage ((s.header b).tag - 3) := by
    rw [hc.header_eq, hc.receiving.target.accum hb]
  have hsame : accumStorage ((s.header a).tag - 3) = accumStorage ((s.header b).tag - 3) := by
    rw [← hstorage', hbuf, hstorage]
  have hwhole := (hcond hk a hne (by simp [hmsg'])).1 (by rwa [hc.header_eq]) haccum hsame
  unfold OsView.pending
  rw [view_header, if_pos haccum]
  exact hwhole

/-- A `read` that returns nothing does nothing. -/
lemma Current.piece_zero (hc : s.Current t b f rest msg) (hmsg : s.recv_q b = some msg)
    (hq : (s.got b).length < f.body.length) : s.piece fl b 0 = 1 := by
  have hnbl := (hc.receiving.place hq).nbl
  have hmod := Nat.mod_lt (s.got b).length hc.valid.unit_pos
  by_cases haccum : f.header.IsAccum
  · exact hc.piece_accum hmsg haccum (by omega)
  · by_cases h : f.header.tag = 0 ∨ f.header.tag = 2
    · rw [hc.piece_store hmsg haccum h]
      exact funext fun m => storeBytes_nil _ _
    · exact hc.piece_other hmsg haccum h

lemma Current.commute (hc : s.Current t b f rest msg)
    (hcond : s.ElementsApart fl (.body b k)) (hmsg : s.recv_q b = some msg)
    (hq : (s.got b).length < f.body.length) (hne : a ≠ b) :
    Commute (s.piece fl b k) ((s.view a).part fl) := by
  rcases Nat.eq_zero_or_pos k with rfl | hk
  · rw [hc.piece_zero hmsg hq]
    exact Commute.one_left _
  · cases hentry : s.recv_q a with
    | none =>
      have hview : (s.view a).entry = none := hentry
      have hpart : (s.view a).part fl = 1 := by
        unfold OsView.part
        rw [hview]
      rw [hpart]
      exact Commute.one_right _
    | some msg' => exact (hcond hk a hne (by simp [hentry])).2

lemma accumInv_init : t.init.AccumInv fl t where
  streamed := streamed_init
  kept b := OsView.kept_of_pending (OsView.pending_of_nil rfl)
  pieces := ⟨⟨fun _ => 1, 1, 1⟩, ⟨fun _ _ _ _ _ => Commute.one_left _, by simp⟩, fun _ => rfl, rfl,
    rfl⟩

/-- The memory and what was done for each source stay as they are. -/
lemma AccumInv.pieces_of_eq (hs : s.AccumInv fl t)
    (hpart : ∀ b, (s'.view b).part fl = (s.view b).part fl)
    (hmemory : s'.cells .memory = s.cells .memory) (hcompleted : s'.completed = s.completed) :
    ∃ p : Pieces ℕ (Function.End (ℕ → UInt8)),
      p.Sorted (List.range t.nprocs) ∧ (∀ b, p.part b = (s'.view b).part fl) ∧
      p.total t.mem = s'.cells .memory ∧
      p.done t.mem = s'.completed.foldl (fun m c => c.1.applyTo fl c.2 m) t.mem := by
  obtain ⟨p, hsorted, hparts, htotal, hdone⟩ := hs.pieces
  refine ⟨p, hsorted, fun b => ?_, ?_, ?_⟩
  · rw [hparts, hpart]
  · rw [htotal, hmemory]
  · rw [hdone, hcompleted]

end OsState

open OsState

variable {fl : FloatOps} {t : Traffic} {s s' : OsState} {act : OsAct}

/-- A step is one of the operations in pieces, or none. -/
lemma OsStep.pieces (hs : s.AccumInv fl t) (hcond : s.ElementsApart fl act)
    (hstep : OsStep fl s act s') : ∃ p : Pieces ℕ (Function.End (ℕ → UInt8)),
      p.Sorted (List.range t.nprocs) ∧ (∀ b, p.part b = (s'.view b).part fl) ∧
      p.total t.mem = s'.cells .memory ∧
      p.done t.mem = s'.completed.foldl (fun m c => c.1.applyTo fl c.2 m) t.mem := by
  cases hstep with
  | resume b msg junk hstop hrun hmsg =>
    obtain ⟨f, rest, hc⟩ := hs.streamed.current hmsg
    rw [hc.service_eq hmsg]
    exact hs.pieces_of_eq (fun _ => rfl) (by simp [newCall, setCells]) rfl
  | peek b junk hstop hrun hmsg hlen =>
    obtain ⟨f, rest, buf, hp⟩ := hs.streamed.peeked hmsg hlen junk
    rw [hp.service]
    refine hs.pieces_of_eq (fun a => ?_) (by simp [begin, setEntry, newCall, setCells, OsState.peek])
      rfl
    rcases eq_or_ne a b with rfl | hne
    · rw [part_of_nil (v := s.view a) hp.got]
      exact part_of_nil hp.got
    · simp [view, begin, setEntry, newCall, setCells, OsState.peek, hne]
  | header b k m msg hstop hrun hmsg hm hnhdr hk hlen =>
    obtain ⟨f, rest, hc⟩ := hs.streamed.current hmsg
    rw [hc.readHeader_eq hnhdr hk]
    refine hs.pieces_of_eq (fun a => ?_) rfl rfl
    rcases eq_or_ne a b with rfl | hne
    · exact part_of_entry hmsg (Function.update_self _ _ _) rfl rfl (updateProgress_buf k msg)
    · simp [view, hne]
  | body b k m msg hstop hrun hmsg hm hleft hnhdr hk hlen =>
    obtain ⟨f, rest, hc⟩ := hs.streamed.current hmsg
    have hn := hc.receiving.nleft
    have hq : (s.got b).length < f.body.length := by omega
    have hmem : b ∈ List.range t.nprocs := List.mem_range.mpr hc.lt_nprocs
    rw [hc.body_eq hnhdr hleft hk]
    obtain ⟨p, hsorted, hparts, htotal, hdone⟩ := hs.pieces
    refine ⟨p.act b (s.piece fl b k), ?_, fun a => ?_, ?_, hdone⟩
    · apply hsorted.act List.nodup_range hmem
      intro a _ hne
      rw [hparts]
      exact hc.commute hcond hmsg hq hne
    · rcases eq_or_ne a b with rfl | hne
      · rw [hc.part_body hmsg hnhdr hleft hk hlen, ← hparts]
        exact Function.update_self _ _ _
      · have hview : (s.bodyDone fl b k msg).view a = s.view a := by
          simp [view, bodyDone, readBody, hne]
        rw [hview, ← hparts]
        exact Function.update_of_ne hne _ _
    · rw [hc.memory_body hmsg hs.kept hnhdr hleft hlen, ← htotal]
      rfl
  | leave b msg hstop hrun hmsg hleft => exact hs.pieces
  | finish b m msg hstop hrun hmsg hleft =>
    obtain ⟨f, rest, hc⟩ := hs.streamed.current hmsg
    obtain ⟨hgot, -⟩ := hc.finished hleft
    have hmem : b ∈ List.range t.nprocs := List.mem_range.mpr hc.lt_nprocs
    obtain ⟨acted, q, hfinish⟩ := finish_eq b msg s
    rw [hfinish]
    obtain ⟨p, hsorted, hparts, htotal, hdone⟩ := hs.pieces
    refine ⟨p.finish b, hsorted.finish List.nodup_range hmem, fun a => ?_, htotal, ?_⟩
    · rcases eq_or_ne a b with rfl | hne
      · rw [part_of_nil (by simp [view])]
        exact Function.update_self _ _ _
      · have hold : (p.finish b).part a = p.part a := Function.update_of_ne hne _ _
        rw [hold, hparts]
        simp [view, hne]
    · have hpart : p.part b = f.applyTo fl msg.buf.2 := (hparts b).trans (hc.part_complete hmsg hleft)
      have hlast : (⟨s.header b, s.got b⟩ : OsFrame) = f := by
        rw [hc.header_eq, hgot]
      rw [List.foldl_append, ← hdone, hlast, List.foldl_cons, List.foldl_nil, ← hpart]
      rfl
  | aget b addr hstop hrun => exact hs.pieces

theorem OsStep.accumInv (hs : s.AccumInv fl t) (hcond : s.ElementsApart fl act)
    (hstep : OsStep fl s act s') : s'.AccumInv fl t where
  streamed := hstep.streamed hs.streamed
  kept := by
    refine hstep.kept hs.streamed hs.kept (fun h => Or.inl) (fun _ a msg hmsg haccum hbuf => ?_)
      fun b k hact hk => ?_
    · obtain ⟨f, rest, hc⟩ := hs.streamed.current hmsg
      rw [hc.header_eq] at haccum
      rw [hc.receiving.target.accum haccum] at hbuf
      unfold accumStorage at hbuf
      split_ifs at hbuf
    · subst hact
      exact hs.alone hcond hk
  pieces := hstep.pieces hs hcond

namespace OsState

lemma AccumInv.appliedWhole (hs : s.AccumInv fl t) : s.AppliedWhole fl t where
  stopped := hs.streamed.stopped
  sent b := by
    obtain ⟨rest, hframes, -⟩ := hs.streamed.stream b
    exact ⟨rest, hframes.symm⟩
  whole hnone := by
    obtain ⟨p, hsorted, hparts, htotal, hdone⟩ := hs.pieces
    have hopen : ∀ b ∈ List.range t.nprocs, p.part b = 1 := by
      intro b _
      have hentry : (s.view b).entry = none := hnone b
      rw [hparts]
      unfold OsView.part
      rw [hentry]
    rw [← htotal, hsorted.total_eq hopen, hdone]
  own b msg hmsg haccum := by
    have hpending : (s.view b).pending = (s.got b).length % (s.header b).unit := by
      unfold OsView.pending
      rw [view_header, if_pos haccum]
      rfl
    obtain ⟨f, rest, hc⟩ := hs.streamed.current hmsg
    have hkept := hs.kept b msg hmsg haccum
    rw [hpending] at hkept
    exact hkept

/-- In every run that keeps elements apart each message is applied as a whole. -/
theorem applied_whole (h : OsReachable fl t (ElementsApart fl) s) : s.AppliedWhole fl t := by
  apply AccumInv.appliedWhole
  induction h with
  | init => exact accumInv_init
  | step _ hstep hcond ih => exact hstep.accumInv ih hcond

/-- Process `0` adds two integers. -/
def oneSum : Traffic where
  nprocs := 1
  frames b := if b = 0 then [⟨⟨8, 0, 4, 64⟩, leBytes 4 1 ++ leBytes 4 5⟩] else []
  frames_nil b hb := if_neg (Nat.ne_of_gt hb)
  valid b f hf := by
    split_ifs at hf with hb
    · obtain rfl := List.mem_singleton.mp hf
      constructor <;> simp [hb, accumSize]
    · simp at hf
  mem _ := 0

/-- The first integer is read in two parts. -/
theorem applied_whole_sum : ∃ s : OsState, s.recv_q 0 = none ∧ s.completed.length = 1 ∧
    s.AppliedWhole .none oneSum := by
  have h₀ : OsReachable .none oneSum (ElementsApart .none) oneSum.init := .init
  have hheader := (h₀.step (.peek _ 0 (fun _ => 0) rfl rfl rfl (by decide)) trivial).step
    (.header _ 0 24 1 _ rfl rfl rfl (by decide) (by decide) (by decide) (by decide)) trivial
  have hpart := hheader.step
    (.body _ 0 2 24 _ rfl rfl rfl (by decide) (by decide) rfl (by decide) (by decide))
    fun _ a ha h => by
      cases a with
      | zero => exact absurd rfl ha
      | succ a => exact absurd rfl h
  have hfirst := hpart.step
    (.body _ 0 2 2 _ rfl rfl rfl (by decide) (by decide) rfl (by decide) (by decide))
    fun _ a ha h => by
      cases a with
      | zero => exact absurd rfl ha
      | succ a => exact absurd rfl h
  have hsecond := hfirst.step
    (.body _ 0 4 2 _ rfl rfl rfl (by decide) (by decide) rfl (by decide) (by decide))
    fun _ a ha h => by
      cases a with
      | zero => exact absurd rfl ha
      | succ a => exact absurd rfl h
  exact ⟨_, rfl, rfl, applied_whole (hsecond.step (.finish _ 0 _ _ rfl rfl rfl rfl) trivial)⟩

/-- Two processes add an integer each, at different addresses. -/
def twoSums : Traffic where
  nprocs := 2
  frames b := if b < 2 then [⟨⟨4, b, 4, 64 * b⟩, leBytes 4 (b + 1)⟩] else []
  frames_nil b hb := if_neg (Nat.not_lt.mpr hb)
  valid b f hf := by
    split_ifs at hf with hb
    · obtain rfl := List.mem_singleton.mp hf
      constructor <;> simp [accumSize]
      · omega
      · omega
    · simp at hf
  mem _ := 0

/-- Half of the integer of process `0` is read, then that of process `1`, then the rest. -/
theorem not_applied_whole : ¬∀ s : OsState, OsReachable .none twoSums (fun _ _ => True) s →
    s.AppliedWhole .none twoSums := by
  intro h
  have h₀ : OsReachable .none twoSums (fun _ _ => True) twoSums.init := .init
  have hheader := (h₀.step (.peek _ 0 (fun _ => 0) rfl rfl rfl (by decide)) trivial).step
    (.header _ 0 24 1 _ rfl rfl rfl (by decide) (by decide) (by decide) (by decide)) trivial
  have hhalf := ((hheader.step
    (.body _ 0 2 24 _ rfl rfl rfl (by decide) (by decide) rfl (by decide) (by decide)) trivial).step
    (.body _ 0 0 2 _ rfl rfl rfl (by decide) (by decide) rfl (by decide) (by decide)) trivial).step
    (.leave _ 0 _ rfl rfl rfl (by decide)) trivial
  have hother := ((hhalf.step (.peek _ 1 (fun _ => 0) rfl rfl rfl (by decide)) trivial).step
    (.header _ 1 24 1 _ rfl rfl rfl (by decide) (by decide) (by decide) (by decide)) trivial).step
    (.body _ 1 4 24 _ rfl rfl rfl (by decide) (by decide) rfl (by decide) (by decide)) trivial
  have hrest := ((hother.step (.finish _ 1 _ _ rfl rfl rfl rfl) trivial).step
    (.resume _ 0 _ (fun _ => 0) rfl rfl rfl) trivial).step
    (.body _ 0 2 1 _ rfl rfl rfl (by decide) (by decide) rfl (by decide) (by decide)) trivial
  have hwhole := (h _ (hrest.step (.finish _ 0 _ _ rfl rfl rfl rfl) trivial)).whole fun b =>
    match b with
    | 0 => rfl
    | 1 => rfl
    | _ + 2 => rfl
  exact absurd (congrFun hwhole 0) (by decide)

end OsState

end NetPipe.MpLite
