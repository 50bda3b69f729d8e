import NetPipe.MpLite.OsReads

/-!
# The variables that messages are read into

The handlers read requests and elements into variables of their own, which all sources share. The
bytes of a message that is not complete stay there until the function is called for it again, as long
as nothing is read into the same variable from another source.
-/

namespace NetPipe.MpLite

/-! ### Bytes that are written -/

lemma storeBytes_nil (a : ℕ) (m : ℕ → UInt8) : storeBytes a [] m = m := by
  funext x
  exact if_neg (by simp)

/-- Bytes that are written are there. -/
lemma bytesAt_storeBytes (a : ℕ) (bytes : List UInt8) (m : ℕ → UInt8) :
    bytesAt (storeBytes a bytes m) a bytes.length = bytes := by
  apply List.ext_getElem (by simp)
  intro i hi hi'
  simp [bytesAt, storeBytes, hi']

/-- Bytes are written behind others. -/
lemma bytesAt_storeBytes_add (a n : ℕ) (bytes : List UInt8) (m : ℕ → UInt8) :
    bytesAt (storeBytes (a + n) bytes m) a (n + bytes.length) = bytesAt m a n ++ bytes := by
  have hbefore : bytesAt (storeBytes (a + n) bytes m) a n = bytesAt m a n := by
    apply bytesAt_congr
    intro i hi
    apply if_neg
    rintro ⟨h, -⟩
    exact absurd h (by omega)
  rw [bytesAt_add, hbefore, bytesAt_storeBytes]

/-! ### What a variable holds -/

namespace OsView

/-- The header of the message. -/
def header (v : OsView) : OsHeader := parseOsHeader v.hdr

/-- The bytes in the variable that are still needed: the begun element of an accumulate, or the begun
request. -/
def pending (v : OsView) : ℕ :=
  if v.header.IsAccum then v.got.length % v.header.unit
  else if v.header.IsRequest then v.got.length
  else 0

/-- The variable holds the last bytes of the message, if it is of the kind `T`. -/
def Kept (T : OsHeader → Prop) (cells : Storage → ℕ → UInt8) (v : OsView) : Prop :=
  ∀ msg, v.entry = some msg → T v.header →
    bytesAt (cells msg.buf.1) msg.buf.2 v.pending = v.got.drop (v.got.length - v.pending)

lemma pending_le (v : OsView) : v.pending ≤ v.got.length := by
  unfold pending
  split_ifs
  · exact Nat.mod_le _ _
  · exact le_rfl
  · exact Nat.zero_le _

lemma pending_of_nil {v : OsView} (h : v.got = []) : v.pending = 0 := by
  simp [pending, h]

variable {T : OsHeader → Prop} {cells cells' : Storage → ℕ → UInt8} {v v' : OsView}

lemma kept_of_pending (h : v.pending = 0) : v.Kept T cells := by
  intro msg _ _
  simp [h, bytesAt]

lemma Kept.frame (h : v.Kept T cells)
    (hcells : ∀ msg, v.entry = some msg → T v.header → cells' msg.buf.1 = cells msg.buf.1) :
    v.Kept T cells' := by
  intro msg hmsg hT
  rw [hcells msg hmsg hT]
  exact h msg hmsg hT

/-- Another entry for the same buffer, or more of the header. -/
lemma Kept.of_entry (h : v.Kept T cells) {msg msg' : OsEntry} (hmsg : v.entry = some msg)
    (hhdr : v'.hdr = v.hdr) (hgot : v'.got = v.got) (hmsg' : v'.entry = some msg')
    (hbuf : msg'.buf = msg.buf) : v'.Kept T cells := by
  have hheader : v'.header = v.header := congrArg parseOsHeader hhdr
  have hpending : v'.pending = v.pending := by
    unfold pending
    rw [hheader, hgot]
  intro msg'' hmsg'' hT
  obtain rfl := Option.some.inj (hmsg'.symm.trans hmsg'')
  rw [hbuf, hgot, hpending]
  exact h msg hmsg (hheader ▸ hT)

end OsView

namespace OsState

/-- The variables hold the messages of the kind `T`. -/
def Kept (T : OsHeader → Prop) (s : OsState) : Prop := ∀ b, (s.view b).Kept T s.cells

/-- Nothing of another source is pending in the variable of the message from `b`. -/
def Alone (T : OsHeader → Prop) (b : ℕ) (s : OsState) : Prop :=
  ∀ msg, s.recv_q b = some msg → ∀ a, a ≠ b → ∀ msg', s.recv_q a = some msg' → T (s.header a) →
    msg'.buf.1 = msg.buf.1 → (s.view a).pending = 0

variable {fl : FloatOps} {t : Traffic} {s s' : OsState} {act : OsAct} {a b k m : ℕ} {msg : OsEntry}
  {f : OsFrame} {rest : List OsFrame} {junk : ℕ → UInt8} {T : OsHeader → Prop}

lemma view_header (b : ℕ) (s : OsState) : (s.view b).header = s.header b := rfl

/-- Requests and elements are not read into memory. -/
lemma Current.buf_ne_memory (hc : s.Current t b f rest msg)
    (hT : f.header.IsAccum ∨ f.header.IsRequest) : msg.buf.1 ≠ .memory := by
  have htarget := hc.receiving.target
  rcases hT with h | h | h | h
  · rw [htarget.accum h]
    unfold accumStorage
    split_ifs <;> simp
  · simp [htarget.get h]
  · simp [htarget.lock h]
  · obtain ⟨call, hcall⟩ := htarget.sync h
    simp [hcall]

/-- The next byte goes behind those that are pending. -/
lemma Current.ptr_eq (hc : s.Current t b f rest msg) (hq : (s.got b).length < f.body.length)
    (hT : f.header.IsAccum ∨ f.header.IsRequest) :
    msg.ptr = (msg.buf.1, msg.buf.2 + (s.view b).pending) := by
  rw [(hc.receiving.place hq).ptr]
  unfold OsView.pending
  rw [view_header, hc.header_eq]
  split_ifs with haccum hrequest
  · rfl
  · rw [hc.valid.unit_of_not_accum haccum, Nat.mod_eq_of_lt hq]
    rfl
  · exact absurd hT (by simp [haccum, hrequest])

/-- After a `read` the variable holds the pending bytes and the new ones. -/
lemma Current.read_cells (hc : s.Current t b f rest msg) (hmsg : s.recv_q b = some msg)
    (hkept : (s.view b).Kept T s.cells) (hT : T f.header)
    (hkind : f.header.IsAccum ∨ f.header.IsRequest) (hq : (s.got b).length < f.body.length)
    (hk : k ≤ (s.sock b).length) :
    bytesAt ((s.readBody b k msg).cells msg.buf.1) msg.buf.2 ((s.view b).pending + k) =
      (s.got b).drop ((s.got b).length - (s.view b).pending) ++ (s.sock b).take k := by
  have hptr := hc.ptr_eq hq hkind
  have hcells : (s.readBody b k msg).cells msg.buf.1 =
      storeBytes (msg.buf.2 + (s.view b).pending) ((s.sock b).take k) (s.cells msg.buf.1) := by
    simp [readBody, hptr]
  have hlen : ((s.sock b).take k).length = k := by simpa using hk
  have hold := hkept msg hmsg (by rwa [view_header, hc.header_eq])
  have hnew := bytesAt_storeBytes_add msg.buf.2 (s.view b).pending ((s.sock b).take k)
    (s.cells msg.buf.1)
  rw [hlen] at hnew
  rw [hcells, hnew, hold]
  rfl

lemma updateProgress_buf (k : ℕ) (msg : OsEntry) : (msg.updateProgress k).buf = msg.buf := by
  simp only [OsEntry.updateProgress]
  split_ifs <;> rfl

lemma next_buf (unit k : ℕ) (msg : OsEntry) : (msg.next unit k).buf = msg.buf := by
  simp only [OsEntry.next]
  split_ifs <;> exact updateProgress_buf k msg

/-- The view of `b` after bytes of the body were read. -/
lemma Current.bodyDone_view (hc : s.Current t b f rest msg) : (s.bodyDone fl b k msg).view b =
    ⟨s.hdr b, (s.sock b).drop k, s.got b ++ (s.sock b).take k,
      some (msg.next f.header.unit k)⟩ := by
  simp [view, bodyDone, readBody, hc.header_eq]

/-- What is pending after a `read`: with the unit complete nothing of an accumulate is. -/
lemma Current.pending_next (hc : s.Current t b f rest msg) (hq : (s.got b).length < f.body.length)
    (hkind : f.header.IsAccum ∨ f.header.IsRequest) (hk : k ≤ msg.nbl)
    (hlen : k ≤ (s.sock b).length) :
    ((s.bodyDone fl b k msg).view b).pending =
      if f.header.IsAccum ∧ k = msg.nbl then 0 else (s.view b).pending + k := by
  have hnbl := (hc.receiving.place hq).nbl
  have hheader : ((s.bodyDone fl b k msg).view b).header = f.header := by
    rw [hc.bodyDone_view]
    exact hc.header_eq
  have hgot : ((s.bodyDone fl b k msg).view b).got.length = (s.got b).length + k := by
    rw [hc.bodyDone_view]
    simpa using hlen
  have hold : (s.view b).got.length = (s.got b).length := rfl
  unfold OsView.pending
  rw [hheader, hgot, hold, view_header, hc.header_eq]
  by_cases haccum : f.header.IsAccum
  · simp only [haccum, if_true, true_and]
    by_cases hall : k = msg.nbl
    · rw [if_pos hall]
      exact Receiving.unit_full_mod (by omega)
    · rw [if_neg hall]
      exact Receiving.unit_mod (by omega)
  · simp only [haccum, false_and, if_false, if_pos (hkind.resolve_left haccum)]

/-- The variable of `b` after a `read` from `b`. -/
lemma Current.kept_body (hc : s.Current t b f rest msg) (hmsg : s.recv_q b = some msg)
    (hkept : (s.view b).Kept T s.cells) (hT : T f.header)
    (hkind : f.header.IsAccum ∨ f.header.IsRequest) (hq : (s.got b).length < f.body.length)
    (hk : k ≤ msg.nbl) (hlen : k ≤ (s.sock b).length) :
    ((s.bodyDone fl b k msg).view b).Kept T (s.bodyDone fl b k msg).cells := by
  have hpending : ((s.bodyDone fl b k msg).view b).pending = _ := hc.pending_next hq hkind hk hlen
  split_ifs at hpending
  · exact OsView.kept_of_pending hpending
  · intro msg' hmsg' _
    rw [hpending]
    rw [hc.bodyDone_view] at hmsg' ⊢
    obtain rfl := Option.some.inj hmsg'
    have hle := (s.view b).pending_le
    have hle' : (s.view b).pending ≤ (s.got b).length := hle
    have hcells : (s.bodyDone fl b k msg).cells msg.buf.1 = (s.readBody b k msg).cells msg.buf.1 :=
      Function.update_of_ne (hc.buf_ne_memory hkind) _ _
    rw [next_buf, hcells, hc.read_cells hmsg hkept hT hkind hq hlen]
    rw [List.length_append, List.length_take, Nat.min_eq_left hlen, Nat.add_sub_add_right,
      List.drop_append_of_le_length (Nat.sub_le _ _)]

/-- The variable of another message is written only if it is the same. -/
lemma Current.cells_other (hc : s.Current t b f rest msg) (hs : s.Streamed t)
    (hq : (s.got b).length < f.body.length) {msg' : OsEntry} (hmsg' : s.recv_q a = some msg')
    (hkind : (s.header a).IsAccum ∨ (s.header a).IsRequest)
    (hsame : msg'.buf.1 = msg.buf.1 → ¬0 < k) :
    (s.bodyDone fl b k msg).cells msg'.buf.1 = s.cells msg'.buf.1 := by
  obtain ⟨f', rest', hc'⟩ := hs.current hmsg'
  rw [hc'.header_eq] at hkind
  have hptr := (hc.receiving.place hq).ptr
  have hread : (s.bodyDone fl b k msg).cells msg'.buf.1 = (s.readBody b k msg).cells msg'.buf.1 :=
    Function.update_of_ne (hc'.buf_ne_memory hkind) _ _
  rw [hread]
  rcases eq_or_ne msg'.buf.1 msg.buf.1 with hbuf | hbuf
  · obtain rfl : k = 0 := Nat.eq_zero_of_not_pos (hsame hbuf)
    simp [readBody, storeBytes_nil]
  · simp [readBody, hptr, hbuf]

end OsState

open OsState

variable {fl : FloatOps} {t : Traffic} {s s' : OsState} {act : OsAct} {T : OsHeader → Prop}

theorem OsStep.kept (hs : s.Streamed t) (hkept : s.Kept T)
    (hT : ∀ h, T h → h.IsAccum ∨ h.IsRequest)
    (hcalls : s.running = none → ∀ a msg, s.recv_q a = some msg → T (s.header a) →
      msg.buf.1 ≠ .active_targ_hdr (s.calls + 1))
    (halone : ∀ b k, act = .body b k → 0 < k → s.Alone T b)
    (hstep : OsStep fl s act s') : s'.Kept T := by
  have hcall : s.running = none → ∀ junk a, (s.view a).Kept T (s.newCall junk).cells :=
    fun hrun junk a => (hkept a).frame fun msg hmsg hTa =>
      Function.update_of_ne (hcalls hrun a msg hmsg hTa) _ _
  cases hstep with
  | resume b msg junk hstop hrun hmsg =>
    obtain ⟨f, rest, hc⟩ := hs.current hmsg
    rw [hc.service_eq hmsg]
    exact hcall hrun junk
  | peek b junk hstop hrun hmsg hlen =>
    obtain ⟨f, rest, buf, hp⟩ := hs.peeked hmsg hlen junk
    rw [hp.service]
    intro a
    rcases eq_or_ne a b with rfl | hne
    · exact OsView.kept_of_pending (OsView.pending_of_nil hp.got)
    · simpa [view, begin, setEntry, newCall, setCells, OsState.peek, hne] using hcall hrun junk a
  | header b k m msg hstop hrun hmsg hm hnhdr hk hlen =>
    obtain ⟨f, rest, hc⟩ := hs.current hmsg
    rw [hc.readHeader_eq hnhdr hk]
    intro a
    rcases eq_or_ne a b with rfl | hne
    · exact (hkept a).of_entry hmsg rfl rfl (Function.update_self _ _ _) (updateProgress_buf k msg)
    · simpa [view, hne] using hkept a
  | body b k m msg hstop hrun hmsg hm hleft hnhdr hk hlen =>
    obtain ⟨f, rest, hc⟩ := hs.current hmsg
    rw [hc.body_eq hnhdr hleft hk]
    have hn := hc.receiving.nleft
    have hq : (s.got b).length < f.body.length := by omega
    intro a
    rcases eq_or_ne a b with rfl | hne
    · by_cases hTa : T f.header
      · exact hc.kept_body hmsg (hkept a) hTa (hT _ hTa) hq hk hlen
      · intro msg' hmsg' hT'
        rw [hc.bodyDone_view] at hT'
        exact absurd hT' (by rwa [OsView.header, hc.receiving.parse hc.valid])
    · have hview : (s.bodyDone fl b k msg).view a = s.view a := by
        simp [view, bodyDone, readBody, hne]
      rw [hview]
      by_cases hpending : (s.view a).pending = 0
      · exact OsView.kept_of_pending hpending
      · exact (hkept a).frame fun msg' hmsg' hTa =>
          hc.cells_other hs hq hmsg' (hT _ hTa) fun hbuf hk =>
            hpending (halone b k rfl hk msg hmsg a hne msg' hmsg' hTa hbuf)
  | leave b msg hstop hrun hmsg hleft => exact hkept
  | finish b m msg hstop hrun hmsg hleft =>
    obtain ⟨acted, q, hfinish⟩ := finish_eq b msg s
    rw [hfinish]
    intro a
    rcases eq_or_ne a b with rfl | hne
    · intro msg' hmsg'
      simp [view] at hmsg'
    · simpa [view, hne] using hkept a
  | aget b addr hstop hrun => exact hkept

end NetPipe.MpLite
