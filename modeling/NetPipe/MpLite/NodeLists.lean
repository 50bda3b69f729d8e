import NetPipe.Library.LinkedList

/-!
# The node lists of one-sided communication

The ids of the outstanding messages of each window, and the gets from each process that are not
waited for, are kept in linked lists with a pointer to the first and one to the last node. Nodes
are taken out at any place, and only the insertion sets the pointer to the last node.
-/

namespace NetPipe.MpLite

/-- Lists with the pointers to their first and last nodes, and the number of nodes that were
allocated so far. -/
structure NodeLists (α : Type*) where
  mem : Heap α
  head : ℕ → Option ℕ
  last : ℕ → Option ℕ
  mallocs : ℕ

namespace NodeLists

variable {α : Type*}

/-- No lists yet. -/
def empty : NodeLists α := ⟨fun _ => none, fun _ => none, fun _ => none, 0⟩

/-- Adds a node for `x` to the list `i`; `c` is the address from `malloc`. It has no result if the
last node is not allocated. -/
def append (s : NodeLists α) (i : ℕ) (x : α) (c : ℕ) : Option (NodeLists α) :=
  let malloc : Heap α := Function.update s.mem c (some ⟨x, none⟩)
  match s.head i with
  | none =>
    some ⟨malloc, Function.update s.head i (some c), Function.update s.last i (some c),
      s.mallocs + 1⟩
  | some _ =>
    (s.last i).bind fun b =>
      (malloc.setNext b (some c)).map fun mem =>
        ⟨Function.update mem c (some ⟨x, none⟩), s.head, Function.update s.last i (some c),
          s.mallocs + 1⟩

/-- Takes the first node that `f` accepts out of the list `i`, and frees it. It has no result if
there is no such node, where the code stops, or if a node is not allocated. -/
def unlink (s : NodeLists α) (i : ℕ) (f : α → Bool) : Option (NodeLists α) :=
  (s.mem.find f s.mallocs none (s.head i)).bind fun
    | (_, none) => none
    | (none, some c) =>
      (s.mem c).map fun node =>
        { s with mem := Function.update s.mem c none
                 head := Function.update s.head i node.next }
    | (some p, some c) =>
      (s.mem c).bind fun node =>
        (s.mem.setNext p node.next).map fun mem =>
          { s with mem := Function.update mem c none }

/-- Changes the value of the first node that `f` accepts in the list `i`. It has no result if there
is no such node, where the code reads a null pointer, or if a node is not allocated. -/
def modifyFirst (s : NodeLists α) (i : ℕ) (f : α → Bool) (g : α → α) : Option (NodeLists α) :=
  (s.mem.find f s.mallocs none (s.head i)).bind fun (_, c) =>
    c.bind fun c =>
      (s.mem c).map fun node =>
        { s with mem := Function.update s.mem c (some { node with val := g node.val }) }

/-- The value of the first node that `f` accepts in the list `i`. -/
def findVal (s : NodeLists α) (i : ℕ) (f : α → Bool) : Option α :=
  (s.mem.find f s.mallocs none (s.head i)).bind fun (_, c) =>
    c.bind fun c => (s.mem c).map Node.val

/-- The nodes of the list `i` are `chain i`, and no node is in two lists. -/
structure Chains (s : NodeLists α) (chain : ℕ → List (ℕ × α)) : Prop where
  linked : ∀ i, s.mem.Segment (s.head i) (chain i) none
  nodup : ∀ i, ((chain i).map Prod.fst).Nodup
  disjoint : ∀ i j, i ≠ j → ((chain i).map Prod.fst).Disjoint ((chain j).map Prod.fst)
  bound : ∀ i, (chain i).length ≤ s.mallocs

/-- The pointer to the last node of every list that has one is right. -/
def LastKept (s : NodeLists α) (chain : ℕ → List (ℕ × α)) : Prop :=
  ∀ i, chain i ≠ [] → s.last i = ((chain i).map Prod.fst).getLast?

variable {s s' : NodeLists α} {chain chain' : ℕ → List (ℕ × α)} {i j a b c : ℕ} {x y : α}
  {f : α → Bool} {l l₁ l₂ : List (ℕ × α)}

lemma chains_empty : (empty : NodeLists α).Chains fun _ => [] :=
  ⟨fun _ => rfl, fun _ => List.nodup_nil, fun _ _ _ => List.disjoint_nil_left _,
    fun _ => Nat.zero_le _⟩

lemma lastKept_empty : (empty : NodeLists α).LastKept fun _ => [] := fun _ h => absurd rfl h

/-- In a list of ids with its first `x` in the middle. -/
lemma eq_singleton_or_mem_dropLast [DecidableEq α] {l₁ l₂ : List α} (hx : x ∉ l₁) :
    l₁ ++ x :: l₂ = [x] ∨ x ∈ (l₁ ++ x :: l₂).dropLast ↔ (l₂ = [] → l₁ = []) := by
  rcases List.eq_nil_or_concat l₂ with rfl | ⟨l, y, rfl⟩
  · simp [hx]
  · simp [List.dropLast_append_of_ne_nil, List.dropLast_cons_of_ne_nil]

namespace Chains

/-- The nodes of the lists are given by the memory. -/
lemma unique (h : s.Chains chain) (h' : s.Chains chain') : chain = chain' :=
  funext fun i => (h.linked i).unique (h'.linked i)

lemma mem_isSome (h : s.Chains chain) (ha : a ∈ (chain i).map Prod.fst) : (s.mem a).isSome :=
  (h.linked i).isSome ha

lemma not_mem (h : s.Chains chain) (hc : s.mem c = none) (i : ℕ) : c ∉ (chain i).map Prod.fst :=
  (h.linked i).not_mem hc

lemma head_eq_none (h : s.Chains chain) : s.head i = none ↔ chain i = [] := by
  have hlinked := h.linked i
  cases hchain : chain i with
  | nil =>
    rw [hchain] at hlinked
    simpa using hlinked
  | cons ax l =>
    rw [hchain] at hlinked
    simp [hlinked.1]

/-- The other lists keep their nodes when nodes of the list `i` or new nodes are written. -/
lemma linked_of_ne (h : s.Chains chain) (hij : j ≠ i) {mem : Heap α}
    (hmem : ∀ a, a ∉ (chain i).map Prod.fst → (s.mem a).isSome → mem a = s.mem a) :
    mem.Segment (s.head j) (chain j) none := by
  apply (h.linked j).congr
  intro a ha
  exact hmem a (h.disjoint j i hij ha) (h.mem_isSome ha)

/-- The chains after a change of the list `i`. -/
lemma update (h : s.Chains chain) (hlinked : s'.mem.Segment (s'.head i) l none)
    (hhead : ∀ j, j ≠ i → s'.head j = s.head j)
    (hmem : ∀ a, a ∉ (chain i).map Prod.fst → (s.mem a).isSome → s'.mem a = s.mem a)
    (hnodup : (l.map Prod.fst).Nodup)
    (hnew : ∀ a ∈ l.map Prod.fst, a ∈ (chain i).map Prod.fst ∨ s.mem a = none)
    (hbound : l.length ≤ s'.mallocs) (hmallocs : s.mallocs ≤ s'.mallocs) :
    s'.Chains (Function.update chain i l) := by
  have hother : ∀ j, j ≠ i → (l.map Prod.fst).Disjoint ((chain j).map Prod.fst) := by
    intro j hj a ha haj
    rcases hnew a ha with hold | hfree
    · exact h.disjoint i j (Ne.symm hj) hold haj
    · exact h.not_mem hfree j haj
  constructor
  · intro j
    rcases eq_or_ne j i with rfl | hj
    · rwa [Function.update_self]
    · rw [Function.update_of_ne hj, hhead j hj]
      exact h.linked_of_ne hj hmem
  · intro j
    rcases eq_or_ne j i with rfl | hj
    · rwa [Function.update_self]
    · rw [Function.update_of_ne hj]
      exact h.nodup j
  · intro j k hjk
    rcases eq_or_ne j i with rfl | hj
    · rw [Function.update_self, Function.update_of_ne (Ne.symm hjk)]
      exact hother k (Ne.symm hjk)
    · rcases eq_or_ne k i with rfl | hk
      · rw [Function.update_self, Function.update_of_ne hj]
        exact (hother j hj).symm
      · rw [Function.update_of_ne hj, Function.update_of_ne hk]
        exact h.disjoint j k hjk
  · intro j
    rcases eq_or_ne j i with rfl | hj
    · rwa [Function.update_self]
    · rw [Function.update_of_ne hj]
      exact (h.bound j).trans hmallocs

/-- The loop over a list finds the first node that `f` accepts. -/
lemma find (h : s.Chains chain) (hi : chain i = l₁ ++ (a, x) :: l₂)
    (hl₁ : ∀ y ∈ l₁.map Prod.snd, f y = false) (hx : f x = true) :
    s.mem.find f s.mallocs none (s.head i) = some ((l₁.map Prod.fst).getLast?, some a) := by
  have hlinked := h.linked i
  have hbound := h.bound i
  rw [hi] at hlinked hbound
  have hlen : l₁.length < s.mallocs := by
    apply lt_of_lt_of_le _ hbound
    simp
  have hfind : s.mem.find f s.mallocs none (s.head i) = _ := hlinked.find hl₁ hx hlen
  rwa [Option.or_none] at hfind

lemma findVal (h : s.Chains chain) (hi : chain i = l₁ ++ (a, x) :: l₂)
    (hl₁ : ∀ y ∈ l₁.map Prod.snd, f y = false) (hx : f x = true) :
    s.findVal i f = some x := by
  have hlinked := h.linked i
  rw [hi] at hlinked
  obtain ⟨-, -, -, r, ha, -⟩ := Heap.segment_append.mp hlinked
  simp [NodeLists.findVal, h.find hi hl₁ hx, ha]

/-- The value of the first node that `f` accepts is changed. -/
lemma modifyFirst (h : s.Chains chain) (hi : chain i = l₁ ++ (a, x) :: l₂)
    (hl₁ : ∀ y ∈ l₁.map Prod.snd, f y = false) (hx : f x = true) (g : α → α) :
    ∃ s', s.modifyFirst i f g = some s' ∧
      s'.Chains (Function.update chain i (l₁ ++ (a, g x) :: l₂)) ∧ s'.last = s.last := by
  have hlinked := h.linked i
  have hnodup := h.nodup i
  have hbound := h.bound i
  rw [hi] at hlinked hnodup hbound
  obtain ⟨r, ha, hseg⟩ := hlinked.set_val hnodup (g x)
  have hmod : s.modifyFirst i f g = some
      { s with mem := Function.update s.mem a (some ⟨g x, r⟩) } := by
    simp [NodeLists.modifyFirst, h.find hi hl₁ hx, ha]
  refine ⟨_, hmod, ?_, rfl⟩
  refine h.update hseg (fun j _ => rfl) ?_ (by simpa using hnodup) ?_ (by simpa using hbound) le_rfl
  · intro b hb _
    apply Function.update_of_ne
    rintro rfl
    exact hb (by simp [hi])
  · intro b hb
    rw [hi]
    exact Or.inl (by simpa using hb)

/-- The first node of a list that `f` accepts is taken out, wherever it is. -/
lemma unlink (h : s.Chains chain) (hi : chain i = l₁ ++ (a, x) :: l₂)
    (hl₁ : ∀ y ∈ l₁.map Prod.snd, f y = false) (hx : f x = true) :
    ∃ s', s.unlink i f = some s' ∧ s'.Chains (Function.update chain i (l₁ ++ l₂)) ∧
      s'.last = s.last ∧ s'.mem a = none := by
  have hlinked := h.linked i
  have hnodup := h.nodup i
  have hfind := h.find hi hl₁ hx
  rw [hi] at hlinked hnodup
  have hsub : (l₁ ++ l₂).Sublist (chain i) := by
    rw [hi]
    exact (List.sublist_cons_self _ _).append_left _
  have hnodup' : ((l₁ ++ l₂).map Prod.fst).Nodup := (h.nodup i).sublist (hsub.map _)
  have hnew : ∀ b ∈ (l₁ ++ l₂).map Prod.fst,
      b ∈ (chain i).map Prod.fst ∨ s.mem b = none := fun b hb => Or.inl ((hsub.map _).subset hb)
  have hamem : a ∈ (chain i).map Prod.fst := by simp [hi]
  rcases List.eq_nil_or_concat l₁ with rfl | ⟨l, ⟨b, y⟩, rfl⟩
  · obtain ⟨hhead, r, ha, hl₂⟩ := hlinked
    have hunlink : s.unlink i f = some
        { s with mem := Function.update s.mem a none
                 head := Function.update s.head i r } := by
      simp [NodeLists.unlink, hfind, ha]
    refine ⟨_, hunlink, ?_, rfl, by simp⟩
    refine h.update ?_ ?_ ?_ hnodup' hnew (hsub.length_le.trans (h.bound i)) le_rfl
    · simp only [Function.update_self]
      apply hl₂.update
      simp only [List.nil_append, List.map_cons, List.nodup_cons] at hnodup
      exact hnodup.1
    · exact fun j hj => Function.update_of_ne hj _ _
    · intro b hb _
      apply Function.update_of_ne
      rintro rfl
      exact hb hamem
  · rw [List.concat_eq_append, List.append_assoc, List.singleton_append] at hlinked hnodup
    obtain ⟨q, ha, hb, hseg⟩ := hlinked.unlink hnodup
    have hunlink : s.unlink i f = some
        { s with mem := Function.update (Function.update s.mem b (some ⟨y, q⟩)) a none } := by
      simp [NodeLists.unlink, hfind, ha, hb, Heap.setNext]
    refine ⟨_, hunlink, ?_, rfl, by simp⟩
    rw [List.concat_eq_append, List.append_assoc, List.singleton_append] at hsub hnodup' hnew ⊢
    refine h.update hseg (fun j _ => rfl) ?_ hnodup' hnew (hsub.length_le.trans (h.bound i)) le_rfl
    intro c hc _
    have hca : c ≠ a := by
      rintro rfl
      exact hc hamem
    have hcb : c ≠ b := by
      rintro rfl
      exact hc (by simp [hi])
    simp only [Function.update_of_ne hca, Function.update_of_ne hcb]

/-- A new node is linked behind the last one of a list if the pointer to that one is right. -/
lemma append (h : s.Chains chain) (hlast : s.LastKept chain) (hc : s.mem c = none) (x : α) :
    ∃ s', s.append i x c = some s' ∧
      s'.Chains (Function.update chain i (chain i ++ [(c, x)])) ∧
      s'.LastKept (Function.update chain i (chain i ++ [(c, x)])) := by
  have hcnot := h.not_mem hc
  have hnodup : ((chain i ++ [(c, x)]).map Prod.fst).Nodup := by
    rw [List.map_append, List.nodup_append]
    refine ⟨h.nodup i, by simp, ?_⟩
    rintro a ha b hb rfl
    simp only [List.map_cons, List.map_nil, List.mem_singleton] at hb
    exact hcnot i (hb ▸ ha)
  have hnew : ∀ a ∈ (chain i ++ [(c, x)]).map Prod.fst,
      a ∈ (chain i).map Prod.fst ∨ s.mem a = none := by
    intro a ha
    rw [List.map_append, List.mem_append] at ha
    rcases ha with ha | ha
    · exact Or.inl ha
    · simp only [List.map_cons, List.map_nil, List.mem_singleton] at ha
      exact Or.inr (ha ▸ hc)
  have hbound : (chain i ++ [(c, x)]).length ≤ s.mallocs + 1 := by
    simpa using h.bound i
  have hnewLast : ∀ s' : NodeLists α, s'.last = Function.update s.last i (some c) →
      s'.LastKept (Function.update chain i (chain i ++ [(c, x)])) := by
    intro s' hs' j hj
    rcases eq_or_ne j i with rfl | hji
    · simp [hs']
    · rw [Function.update_of_ne hji] at hj ⊢
      rw [hs', Function.update_of_ne hji]
      exact hlast j hj
  have hlinked := h.linked i
  rcases List.eq_nil_or_concat (chain i) with hnil | ⟨l, ⟨b, y⟩, hconcat⟩
  · have hhead : s.head i = none := h.head_eq_none.mpr hnil
    refine ⟨_, by simp [NodeLists.append, hhead]; rfl, ?_, hnewLast _ rfl⟩
    refine h.update ?_ ?_ ?_ hnodup hnew hbound (Nat.le_succ _)
    · simp [hnil]
    · exact fun j hj => Function.update_of_ne hj _ _
    · intro a _ ha
      apply Function.update_of_ne
      rintro rfl
      simp [hc] at ha
  · rw [List.concat_eq_append] at hconcat
    have hne : chain i ≠ [] := by simp [hconcat]
    obtain ⟨d, hd⟩ := Option.ne_none_iff_exists'.mp (mt h.head_eq_none.mp hne)
    have hb : s.last i = some b := by simp [hlast i hne, hconcat]
    rw [hconcat] at hlinked
    obtain ⟨r, -, hr, s', hbmem, hs'⟩ := Heap.segment_append.mp hlinked
    rw [Heap.segment_nil] at hs'
    subst hs'
    have hbc : b ≠ c := by
      rintro rfl
      simp [hc] at hbmem
    have hseg := hlinked.append_last (x := x) (by simpa [hconcat] using h.nodup i) hc
    have hset : Heap.setNext (Function.update s.mem c (some ⟨x, none⟩)) b (some c) = some
        (Function.update (Function.update s.mem c (some ⟨x, none⟩)) b (some ⟨y, some c⟩)) := by
      simp [Heap.setNext, hbc, hbmem]
    have hmem : Function.update (Function.update (Function.update s.mem c (some ⟨x, none⟩)) b
        (some ⟨y, some c⟩)) c (some ⟨x, none⟩) =
        Function.update (Function.update s.mem b (some ⟨y, some c⟩)) c (some ⟨x, none⟩) := by
      rw [Function.update_comm hbc.symm, Function.update_idem]
    refine ⟨_, by simp [NodeLists.append, hd, hb, hset]; rfl, ?_, hnewLast _ rfl⟩
    refine h.update ?_ (fun j _ => rfl) ?_ hnodup hnew hbound (Nat.le_succ _)
    · rw [hmem, hconcat, List.append_assoc]
      exact hseg
    · intro a ha hsome
      have hac : a ≠ c := by
        rintro rfl
        simp [hc] at hsome
      have hab : a ≠ b := by
        rintro rfl
        exact ha (by simp [hconcat])
      simp only [Function.update_of_ne hac, Function.update_of_ne hab]

/-- The pointer to the last node stays right exactly if the node is not the last of several. -/
lemma lastKept_unlink (h : s.Chains chain) (hlast : s.LastKept chain)
    (hi : chain i = l₁ ++ (a, x) :: l₂) (hs' : s'.last = s.last)
    (h' : s'.Chains (Function.update chain i (l₁ ++ l₂))) :
    s'.LastKept (Function.update chain i (l₁ ++ l₂)) ↔ (l₂ = [] → l₁ = []) := by
  have hlasti : s.last i = ((chain i).map Prod.fst).getLast? := hlast i (by simp [hi])
  have hnodup := h.nodup i
  rw [hi] at hlasti hnodup
  constructor
  · rintro hkept rfl
    by_contra hne
    have hl := hkept i (by simpa using hne)
    rw [hs', hlasti] at hl
    simp only [Function.update_self, List.append_nil, List.map_append, List.map_cons, List.map_nil,
      List.getLast?_append, List.getLast?_singleton, Option.some_or] at hl
    have hmem := List.mem_of_getLast? hl.symm
    simp only [List.map_append, List.nodup_append] at hnodup
    exact hnodup.2.2 a hmem a (by simp) rfl
  · intro hcond j hj
    rw [hs']
    rcases eq_or_ne j i with rfl | hji
    · rw [Function.update_self] at hj ⊢
      rcases List.eq_nil_or_concat l₂ with hnil | ⟨l, bx, rfl⟩
      · simp [hnil, hcond hnil] at hj
      · rw [hlasti]
        simp [List.getLast?_append, List.getLast?_cons]
    · rw [Function.update_of_ne hji] at hj ⊢
      exact hlast j hj

end Chains

end NodeLists

end NetPipe.MpLite
