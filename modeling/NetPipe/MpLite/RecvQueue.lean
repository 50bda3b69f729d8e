import NetPipe.Library.LinkedList
import NetPipe.MpLite.SmpRecv

/-!
# The queue of headers as a list

The ring of nodes starts at `head_q`. Behind it are the nodes in use, the last of which is `tail_q`,
and behind those the free ones.
-/

namespace NetPipe.MpLite.RecvState

/-- The ring, with the nodes in use and their contents, and the free nodes. -/
structure Ring (s : RecvState) (used : List (ℕ × QHdr)) (free : List ℕ) : Prop where
  path : Path s.next 0 (used.map Prod.fst ++ free) 0
  nodup : (0 :: (used.map Prod.fst ++ free)).Nodup
  tail : s.tail_q = (used.map Prod.fst).getLastD 0
  count : s.n_buffered = used.length
  filled : ∀ e ∈ used, s.node e.1 = some e.2

/-- The headers in the queue, in the order of the ring. -/
def Holds (s : RecvState) (headers : List QHdr) : Prop :=
  ∃ used free, s.Ring used free ∧ used.map Prod.snd = headers

variable {s s' : RecvState} {msg : RecvMsg} {used u₁ u₂ : List (ℕ × QHdr)} {free : List ℕ}
  {headers : List QHdr} {i prev hdr : ℕ} {c : QHdr} {entry : PoolEntry}

lemma holds_init (fifo : ℕ → List PoolEntry) : (init fifo).Holds [] := by
  refine ⟨[], List.range' 1 (MSG_Q_SIZE - 1), ⟨?_, ?_, rfl, rfl, by simp⟩, rfl⟩
  · simp [init, MSG_Q_SIZE, List.range']
  · decide

/-- What does not change the ring does not change the queue. -/
lemma Holds.congr (h : s.Holds headers) (hnode : s'.node = s.node) (hnext : s'.next = s.next)
    (htail : s'.tail_q = s.tail_q) (hcount : s'.n_buffered = s.n_buffered) :
    s'.Holds headers := by
  obtain ⟨used, free, hring, hheaders⟩ := h
  refine ⟨used, free, ⟨?_, hring.nodup, htail.trans hring.tail, hcount.trans hring.count, ?_⟩,
    hheaders⟩
  · rw [hnext]
    exact hring.path
  · rw [hnode]
    exact hring.filled

/-! ### Searching -/

/-- The search goes through the nodes in use. -/
lemma search_found (hpath : Path s.next i (used.map Prod.fst ++ free) 0)
    (hfilled : ∀ e ∈ used, s.node e.1 = some e.2)
    (hfound : s.search msg i (s.next i) used.length = .found prev hdr c) :
    ∃ u₁ u₂, used = u₁ ++ (hdr, c) :: u₂ ∧ prev = (u₁.map Prod.fst).getLastD i := by
  induction used generalizing i with
  | nil => cases hfound
  | cons e used ih =>
    obtain ⟨hnext, hrest⟩ := hpath
    have hnode := hfilled e List.mem_cons_self
    rw [List.length_cons, search, hnext, hnode] at hfound
    split_ifs at hfound with hbound
    dsimp only at hfound
    split_ifs at hfound with htakes
    · cases hfound
      exact ⟨[], used, rfl, rfl⟩
    · obtain ⟨u₁, u₂, rfl, rfl⟩ :=
        ih hrest (fun e' he' => hfilled e' (List.mem_cons_of_mem e he')) hfound
      exact ⟨e :: u₁, u₂, rfl, by rw [List.map_cons, List.getLastD_cons]⟩

/-! ### Taking a header out -/

lemma getLastD_append_cons {α : Type*} (l m : List α) (a b : α) :
    (l ++ a :: m).getLastD b = m.getLastD a := by
  induction l generalizing b with
  | nil => exact List.getLastD_cons ..
  | cons c l ih => exact (List.getLastD_cons ..).trans (ih c)

/-- A node between others goes behind the last one in use. -/
lemma path_moved {next : ℕ → ℕ} {ns ms : List ℕ} {k t : ℕ}
    (h : Path next 0 (ns ++ k :: (ms ++ t :: free)) 0)
    (hnodup : (0 :: (ns ++ k :: (ms ++ t :: free))).Nodup) :
    Path (Function.update (Function.update (Function.update next (ns.getLastD 0) (next k)) k
      (next t)) t k) 0 (ns ++ ms ++ t :: k :: free) 0 := by
  have hdisj : ∀ m ∈ 0 :: ns, m ≠ k ∧ m ≠ t ∧ m ∉ ms ∧ m ∉ free := by
    rw [← List.cons_append, List.nodup_append] at hnodup
    intro m hm
    have hne := hnodup.2.2 m hm
    refine ⟨hne k (by simp), hne t (by simp), fun hms => ?_, fun hfree => ?_⟩
    · exact hne m (by simp [hms]) rfl
    · exact hne m (by simp [hfree]) rfl
  have hsuffix : (k :: (ms ++ t :: free)).Nodup :=
    (List.nodup_append.mp (List.nodup_cons.mp hnodup).2).2.1
  rw [List.nodup_cons, List.nodup_append, List.nodup_cons] at hsuffix
  obtain ⟨hk, hms, ⟨ht, -⟩, hmst⟩ := hsuffix
  simp only [List.mem_append, List.mem_cons, not_or] at hk
  obtain ⟨hkms, hkt, hkfree⟩ := hk
  obtain ⟨hns, hrest⟩ := Path.path_append.mp h
  obtain ⟨hms', hfree⟩ := Path.path_append.mp hrest
  have hprev := hdisj _ List.getLastD_mem_cons
  refine Path.path_append.mpr ⟨?_, Function.update_self .., ?_⟩
  · refine hns.bypass hms' ((List.sublist_append_left (0 :: ns) _).nodup hnodup) ?_ ?_ fun m hm => ?_
    · rw [Function.update_of_ne hprev.2.1, Function.update_of_ne hprev.1, Function.update_self]
    · intro m hm hne
      rw [Function.update_of_ne (hdisj m hm).2.1, Function.update_of_ne (hdisj m hm).1,
        Function.update_of_ne hne]
    · rw [Function.update_of_ne (hmst m hm t List.mem_cons_self), Function.update_of_ne,
        Function.update_of_ne]
      · rintro rfl
        exact hprev.2.2.1 hm
      · rintro rfl
        exact hkms hm
  · refine hfree.congr ?_ fun m hm => ?_
    · rw [Function.update_of_ne hkt, Function.update_self]
    · rw [Function.update_of_ne, Function.update_of_ne, Function.update_of_ne]
      · rintro rfl
        exact hprev.2.2.2 hm
      · rintro rfl
        exact hkfree hm
      · rintro rfl
        exact ht hm

/-- The node goes behind the last one that stays in use. -/
lemma Ring.unlink (h : s.Ring (u₁ ++ (hdr, c) :: u₂) free) :
    Path (s.unlink ((u₁.map Prod.fst).getLastD 0) hdr).next 0
        ((u₁ ++ u₂).map Prod.fst ++ hdr :: free) 0 ∧
      (s.unlink ((u₁.map Prod.fst).getLastD 0) hdr).tail_q =
        ((u₁ ++ u₂).map Prod.fst).getLastD 0 := by
  have hpath := h.path
  have hnodup := h.nodup
  have htail := h.tail
  rcases List.eq_nil_or_concat u₂ with rfl | ⟨ms, e, rfl⟩
  · have hlast : hdr = s.tail_q := by simp [htail, List.getLastD_eq_getLast?]
    rw [RecvState.unlink, if_pos hlast]
    exact ⟨by simpa using hpath, by simp⟩
  · rw [List.concat_eq_append] at hpath hnodup htail ⊢
    have hlast : s.tail_q = e.1 := by
      rw [htail, List.map_append, List.map_cons, getLastD_append_cons, List.map_append,
        List.map_singleton, getLastD_append_cons]
      rfl
    simp only [List.map_append, List.map_cons, List.map_nil, List.append_assoc, List.cons_append,
      List.nil_append] at hpath hnodup
    have hne : hdr ≠ e.1 := by
      intro heq
      have hrest := (List.nodup_append.mp (List.nodup_cons.mp hnodup).2).2.1
      exact (List.nodup_cons.mp hrest).1 (by simp [heq])
    rw [RecvState.unlink, hlast, if_neg hne]
    refine ⟨?_, by simp [List.getLastD_eq_getLast?]⟩
    simpa using path_moved hpath hnodup

lemma Holds.takeNode (h : s.Holds headers)
    (hfound : s.search msg 0 (s.next 0) s.n_buffered = .found prev hdr c) :
    ∃ h₁ h₂, headers = h₁ ++ c :: h₂ ∧ (s.takeNode prev hdr c msg).Holds (h₁ ++ h₂) := by
  obtain ⟨used, free, hring, rfl⟩ := h
  rw [hring.count] at hfound
  obtain ⟨u₁, u₂, rfl, rfl⟩ := search_found hring.path hring.filled hfound
  obtain ⟨hpath, htail⟩ := hring.unlink
  refine ⟨u₁.map Prod.snd, u₂.map Prod.snd, by simp, u₁ ++ u₂, hdr :: free,
    ⟨hpath, ?_, htail, ?_, ?_⟩, by simp⟩
  · refine (List.Perm.nodup_iff ?_).mp hring.nodup
    simp only [List.map_append, List.map_cons, List.append_assoc, List.cons_append]
    exact (List.perm_middle.symm.append_left _).cons 0
  · have hcount := hring.count
    simp only [List.length_append, List.length_cons] at hcount ⊢
    show s.n_buffered - 1 = _
    rw [hcount]
    rfl
  · intro e he
    have hnode : (s.takeNode ((u₁.map Prod.fst).getLastD 0) hdr c msg).node = s.node := by
      rw [RecvState.takeNode, RecvState.unlink]
      split_ifs <;> rfl
    rw [hnode]
    apply hring.filled
    rcases List.mem_append.mp he with he | he <;> simp [he]

/-! ### Adding a header -/

/-- The node behind the last one in use. -/
lemma Ring.next_tail (h : s.Ring used free) : s.next s.tail_q = free.headD 0 := by
  rw [h.tail]
  cases free with
  | nil => exact (List.append_nil (used.map Prod.fst) ▸ h.path).next_last
  | cons k free => exact (Path.path_append.mp h.path).1.next_last

lemma Holds.skipEntry (h : s.Holds headers) (hbehind : hdr = s.next s.tail_q) (hhead : hdr ≠ 0)
    (entry : PoolEntry) :
    (s.skipEntry hdr entry).Holds
      (headers ++ [⟨entry.src, entry.nbytes, entry.tag, entry⟩]) := by
  obtain ⟨used, free, hring, rfl⟩ := h
  rw [hring.next_tail] at hbehind
  cases free with
  | nil => exact absurd hbehind hhead
  | cons k free =>
    rw [List.headD_cons] at hbehind
    subst hbehind
    have hnodup := hring.nodup
    refine ⟨used ++ [(hdr, ⟨entry.src, entry.nbytes, entry.tag, entry⟩)], free,
      ⟨?_, ?_, ?_, ?_, ?_⟩, by simp⟩
    · show Path s.next 0 _ 0
      simpa using hring.path
    · simpa using hnodup
    · simp [RecvState.skipEntry, List.getLastD_eq_getLast?]
    · simp [RecvState.skipEntry, hring.count]
    · have hnot : hdr ∉ used.map Prod.fst := by
        intro hmem
        have hdisj := (List.nodup_append.mp (List.nodup_cons.mp hnodup).2).2.2
        exact hdisj hdr hmem hdr List.mem_cons_self rfl
      intro e he
      rcases List.mem_append.mp he with he | he
      · have hne : e.1 ≠ hdr := fun heq => hnot (heq ▸ List.mem_map_of_mem he)
        exact (Function.update_of_ne hne ..).trans (hring.filled e he)
      · rw [List.mem_singleton.mp he]
        exact Function.update_self ..

end NetPipe.MpLite.RecvState
