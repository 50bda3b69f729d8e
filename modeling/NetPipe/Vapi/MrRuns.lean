import NetPipe.Vapi.MrCache

/-!
# Runs of the tree of memory regions

Whatever is added, changed and deleted, the nodes in memory are a search tree of the addresses that
are there. The data of the regions does not always stay with their addresses: a deletion gives the
data of the deleted region to the next address if its node has two subtrees.
-/

namespace NetPipe.Vapi.MrTree

section

open ColorTree

variable {h h' : MrTree} {t : Shape} {x : Ptr × Entry} {n k addr : ℕ}
  {M : ℕ → Option (ℕ × Mrw)} {v : ℕ × Mrw}

/-- `persist_mr_del` takes an address out of the map if the node has an empty subtree. Otherwise the
next address gets the data of the region that was to be deleted, and loses its own. -/
theorem Stores.persistMrDel (hs : Stores h M k) (hn : 2 * Nat.log 2 (k + 1) + 1 < n)
    (haddr : M addr = some v) :
    ∃ h' q nd, h.treeSearch addr n h.root = some q ∧ h.mem q = some nd ∧
      h.persistMrDel n addr = some (h', v) ∧
      ((nd.left = nilnode ∨ nd.right = nilnode) ∧
          Stores h' (Function.update M addr none) (k - 1) ∨
        ¬(nd.left = nilnode ∨ nd.right = nilnode) ∧ ∃ a w, M a = some w ∧ addr < a ∧
          (∀ b, addr < b → b < a → M b = none) ∧
          Stores h' (Function.update (Function.update M addr none) a (some v)) (k - 1)) := by
  obtain ⟨t, ht, rfl, hM⟩ := hs
  obtain ⟨x, hx, rfl, rfl⟩ := (hM addr v).1 haddr
  obtain ⟨pre, post, hsplit⟩ := List.append_of_mem hx
  obtain ⟨h', t', nd, e', ht', hnd, hdel⟩ := ht.persistMrDel hsplit hn
  have hrest := (hM.perm (hsplit ▸ List.perm_middle.symm)).of_cons (ht.key_not_mem hsplit)
  refine ⟨h', x.1, nd, ht.treeSearch_of_mem hx (by omega), hnd, e', ?_⟩
  rw [Deleted] at hdel
  split at hdel
  · rename_i hnil
    exact Or.inl ⟨hnil, t', ht', by simp [hdel, hsplit], hdel ▸ hrest⟩
  · rename_i hnil
    obtain ⟨z, post, rfl, hlist⟩ := hdel
    have hsorted := sorted_iff.1 ht.sorted
    rw [hsplit, List.map_append, List.map_cons, List.map_cons] at hsorted
    rw [List.pairwise_append, List.pairwise_cons, List.pairwise_cons] at hsorted
    obtain ⟨-, ⟨hxz, hz, -⟩, hpre⟩ := hsorted
    have hkey : key z ∉ (pre ++ post).map key := by
      have hsplit' : t.toList = (pre ++ [x]) ++ z :: post := by simp [hsplit]
      have := ht.key_not_mem hsplit'
      simp only [List.map_append, List.mem_append, not_or] at this ⊢
      exact ⟨this.1.1, this.2⟩
    refine Or.inr ⟨hnil, key z, (z.2.hndl, z.2.prop), (hM _ _).2 ⟨z, by simp [hsplit], rfl, rfl⟩,
      hxz _ List.mem_cons_self, fun b hxb hbz => ?_, t', ht', by simp [hlist, hsplit], ?_⟩
    · by_contra hb
      obtain ⟨w, hw⟩ := Option.ne_none_iff_exists'.1 hb
      obtain ⟨y, hy, rfl, -⟩ := (hM b w).1 hw
      rw [hsplit, List.mem_append, List.mem_cons, List.mem_cons] at hy
      rcases hy with hy | rfl | rfl | hy
      · exact hxb.not_gt (hpre _ (List.mem_map_of_mem hy) _ List.mem_cons_self)
      · exact hxb.false
      · exact hbz.false
      · exact hbz.not_gt (hz _ (List.mem_map_of_mem hy))
    · have hfewer := (hrest.perm List.perm_middle.symm).of_cons hkey
      have hnew := (hfewer.cons (x := (x.1, { x.2 with addr := z.2.addr }))
        (Function.update_self _ _ _)).perm (hlist ▸ List.perm_middle)
      rwa [show key (x.1, ({ x.2 with addr := z.2.addr } : Entry)) = key z from rfl,
        Function.update_idem] at hnew

/-- What a search in the list finds. -/
def lookup (l : List (Ptr × Entry)) (a : ℕ) : Option (ℕ × Mrw) :=
  (l.find? fun x => key x = a).map fun x => (x.2.hndl, x.2.prop)

lemma Stored.stores (hs : Stored h t) : Stores h (lookup t.toList) t.toList.length := by
  refine ⟨t, hs, rfl, fun a v => ?_⟩
  simp only [lookup, Option.map_eq_some_iff]
  constructor
  · rintro ⟨x, hx, hv⟩
    exact ⟨x, List.mem_of_find?_eq_some hx, by simpa using List.find?_some hx, hv⟩
  · rintro ⟨x, hx, rfl, hv⟩
    obtain ⟨y, hy⟩ := Option.isSome_iff_exists.1 (List.find?_isSome (p := fun y => decide (key y = key x)).2
      ⟨x, hx, decide_eq_true rfl⟩)
    have hyx := hs.sorted.eq_of_key_eq (List.mem_of_find?_eq_some hy) hx
      (by simpa using List.find?_some hy)
    exact ⟨x, hyx ▸ hy, hv⟩

theorem persistMrDel_sample : ∃ h' q nd, sample.treeSearch 64 6 sample.root = some q ∧
    sample.mem q = some nd ∧ sample.persistMrDel 6 64 = some (h', 65, (sampleEntry 64).prop) ∧
    ((nd.left = nilnode ∨ nd.right = nilnode) ∧
        Stores h' (Function.update (lookup sampleShape.toList) 64 none) 2 ∨
      ¬(nd.left = nilnode ∨ nd.right = nilnode) ∧ ∃ a w, lookup sampleShape.toList a = some w ∧
        64 < a ∧ (∀ b, 64 < b → b < a → lookup sampleShape.toList b = none) ∧
        Stores h' (Function.update (Function.update (lookup sampleShape.toList) 64 none) a
          (some (65, (sampleEntry 64).prop))) 2) :=
  stored_sample.stores.persistMrDel (by decide) rfl

/-! ### Runs -/

/-- The calls that change the tree -/
inductive MrCall where
  | add (newnode : Ptr) (c : Color) (e : Entry)
  | edit (addr hndl : ℕ) (prop : Mrw)
  | del (addr : ℕ)
  | delrand

namespace MrCall

/-- What a call does; no result if the program exits. -/
def exec (n : ℕ) (h : MrTree) : MrCall → Option MrTree
  | .add newnode c e => h.persistMrAdd n newnode c e.addr e.hndl e.prop
  | .edit addr hndl prop => h.persistMrEdit n addr hndl prop
  | .del addr => (h.persistMrDel n addr).map Prod.fst
  | .delrand => (h.persistMrDelrand n).map Prod.fst

/-- What a call makes of the set of the addresses. -/
def addrs (A : Finset ℕ) : MrCall → Finset ℕ
  | .add _ _ e => insert e.addr A
  | .edit .. => A
  | .del addr => A.erase addr
  | .delrand => A.filter fun a => ∃ b ∈ A, b < a

/-- A new node comes from `malloc`, and its address is not yet there. -/
def Allowed (h : MrTree) (A : Finset ℕ) : MrCall → Prop
  | .add newnode _ e => h.mem newnode = none ∧ e.addr ∉ A
  | _ => True

/-- The address is not there. -/
def Misses (A : Finset ℕ) : MrCall → Prop
  | .edit addr .. => addr ∉ A
  | .del addr => addr ∉ A
  | _ => False

end MrCall

/-- The set of the addresses after some calls -/
def addrsAfter (cs : List MrCall) : Finset ℕ := cs.foldl MrCall.addrs ∅

/-- The states after some calls, each of them allowed -/
inductive MrRun (n : ℕ) : List MrCall → MrTree → Prop where
  | nil : MrRun n [] init
  | snoc {cs c h h'} : MrRun n cs h → MrCall.Allowed h (addrsAfter cs) c → c.exec n h = some h' →
    MrRun n (cs ++ [c]) h'

/-- The tree in memory holds the addresses `A`. -/
def HoldsAddrs (h : MrTree) (A : Finset ℕ) : Prop :=
  ∃ t, Stored h t ∧ t.toList.map key = A.sort

variable {A : Finset ℕ} {c : MrCall} {cs : List MrCall} {l : List ℕ}

lemma eq_sort (hl : l.Pairwise (· < ·)) (hA : ∀ a, a ∈ l ↔ a ∈ A) : l = A.sort := by
  obtain rfl : l.toFinset = A := Finset.ext fun a => by rw [List.mem_toFinset, hA]
  exact ((List.toFinset_sort _ (hl.imp fun h => h.ne)).2 (hl.imp fun h => h.le)).symm

/-- The addresses of the nodes after `persist_mr_del` -/
lemma Deleted.map_key {nd : MrNode} {pre post l : List (Ptr × Entry)} (h : Deleted nd pre post x l) :
    l.map key = (pre ++ post).map key := by
  rw [Deleted] at h
  split at h
  · rw [h]
  · obtain ⟨z, post, rfl, rfl⟩ := h
    simp only [List.map_append, List.map_cons]
    rfl

namespace HoldsAddrs

lemma mem_iff {t : Shape} (ht : t.toList.map key = A.sort) :
    addr ∈ A ↔ ∃ x ∈ t.toList, key x = addr := by
  rw [← Finset.mem_sort (· ≤ ·), ← ht, List.mem_map]

lemma card {t : Shape} (ht : t.toList.map key = A.sort) : A.card = t.toList.length := by
  rw [← Finset.length_sort (· ≤ ·), ← ht, List.length_map]

/-- A call exits if and only if it misses its address, and else it does to the tree what it does to
the set. -/
lemma exec (hh : HoldsAddrs h A) (hn : 2 * Nat.log 2 (A.card + 1) + 1 < n)
    (hc : c.Allowed h A) :
    c.Misses A ∧ c.exec n h = none ∨
      ¬c.Misses A ∧ ∃ h', c.exec n h = some h' ∧ HoldsAddrs h' (c.addrs A) := by
  obtain ⟨t, hs, ht⟩ := hh
  rw [card ht] at hn
  have hsorted := sorted_iff.1 hs.sorted
  cases c with
  | add newnode c e =>
    obtain ⟨hnew, haddr⟩ := hc
    have hkey : ∀ y ∈ t.toList, key y ≠ e.addr := fun y hy hye =>
      haddr ((mem_iff ht).2 ⟨y, hy, hye⟩)
    obtain ⟨h', t', e', hs', hperm⟩ := hs.persistMrAdd (n := n) hnew hkey (by omega) c
    refine Or.inr ⟨id, h', e', t', hs', eq_sort (sorted_iff.1 hs'.sorted) fun a => ?_⟩
    rw [(hperm.map key).mem_iff, List.map_cons, List.mem_cons, ht, Finset.mem_sort,
      MrCall.addrs, Finset.mem_insert]
    rfl
  | edit addr hndl prop =>
    by_cases haddr : addr ∈ A
    · obtain ⟨x, hx, rfl⟩ := (mem_iff ht).1 haddr
      obtain ⟨pre, post, hsplit⟩ := List.append_of_mem hx
      obtain ⟨h', t', e', hs', hlist⟩ := hs.persistMrEdit (n := n) hsplit (by omega) hndl prop
      refine Or.inr ⟨fun hmiss => hmiss haddr, h', e', t', hs', ?_⟩
      rw [MrCall.addrs, ← ht, hlist, hsplit, List.map_append, List.map_append]
      rfl
    · have hx : ∀ x ∈ t.toList, key x ≠ addr := fun x hx hxa => haddr ((mem_iff ht).2 ⟨x, hx, hxa⟩)
      have hmiss := hs.treeSearch_of_not_mem (n := n) hx (by omega)
      refine Or.inl ⟨haddr, ?_⟩
      simp [MrCall.exec, MrTree.persistMrEdit, hmiss]
  | del addr =>
    by_cases haddr : addr ∈ A
    · obtain ⟨x, hx, rfl⟩ := (mem_iff ht).1 haddr
      obtain ⟨pre, post, hsplit⟩ := List.append_of_mem hx
      obtain ⟨h', t', nd, e', hs', -, hdel⟩ := hs.persistMrDel hsplit hn
      rw [addr_eq_key] at e'
      refine Or.inr ⟨fun hmiss => hmiss haddr, h', by rw [MrCall.exec, e', Option.map_some], t', hs',
        eq_sort (sorted_iff.1 hs'.sorted) fun a => ?_⟩
      have hkey := hs.key_not_mem hsplit
      rw [hdel.map_key, MrCall.addrs, Finset.mem_erase, ← Finset.mem_sort (· ≤ ·), ← ht, hsplit,
        (List.perm_middle.map key).mem_iff, List.map_cons, List.mem_cons]
      refine ⟨fun ha => ⟨ne_of_mem_of_not_mem ha hkey, Or.inr ha⟩, ?_⟩
      rintro ⟨hne, rfl | ha⟩
      · exact absurd rfl hne
      · exact ha
    · have hx : ∀ x ∈ t.toList, key x ≠ addr := fun x hx hxa => haddr ((mem_iff ht).2 ⟨x, hx, hxa⟩)
      have hmiss := hs.treeSearch_of_not_mem (n := n) hx (by omega)
      refine Or.inl ⟨haddr, ?_⟩
      simp [MrCall.exec, MrTree.persistMrDel, hmiss]
  | delrand =>
    refine Or.inr ⟨id, ?_⟩
    cases hl : t.toList with
    | nil =>
      rw [hl, List.map_nil] at ht
      obtain rfl : A = ∅ := by rw [← Finset.sort_toFinset A (· ≤ ·), ← ht, List.toFinset_nil]
      refine ⟨h, by simp [MrCall.exec, MrTree.persistMrDelrand, hs.root_eq_nil hl], t, hs, ?_⟩
      rw [hl, MrCall.addrs, Finset.filter_empty, Finset.sort_empty, List.map_nil]
    | cons x post =>
      obtain ⟨h', t', e', hs', hlist⟩ := hs.persistMrDelrand hl hn
      refine ⟨h', by rw [MrCall.exec, e', Option.map_some], t', hs',
        eq_sort (sorted_iff.1 hs'.sorted) fun a => ?_⟩
      have hmem : ∀ b, b ∈ A ↔ b = key x ∨ b ∈ post.map key := fun b => by
        rw [← Finset.mem_sort (· ≤ ·), ← ht, hl, List.map_cons, List.mem_cons]
      rw [hl, List.map_cons, List.pairwise_cons] at hsorted
      rw [hlist, MrCall.addrs, Finset.mem_filter]
      simp only [hmem]
      constructor
      · exact fun ha => ⟨Or.inr ha, key x, Or.inl rfl, hsorted.1 a ha⟩
      · rintro ⟨rfl | ha, b, rfl | hb, hlt⟩
        · exact absurd hlt (lt_irrefl _)
        · exact absurd hlt (hsorted.1 b hb).not_gt
        · exact ha
        · exact ha

/-- `persist_mr_get` finds the addresses of the set. -/
lemma persistMrGet (hh : HoldsAddrs h A) (hn : 2 * Nat.log 2 (A.card + 1) < n) (addr : ℕ) :
    (h.persistMrGet n addr).map Option.isSome = some (decide (addr ∈ A)) := by
  obtain ⟨t, hs, ht⟩ := hh
  rw [card ht] at hn
  rw [hs.stores.persistMrGet hn, Option.map_some, Option.some.injEq, Bool.eq_iff_iff,
    decide_eq_true_iff, lookup, Option.isSome_map, List.find?_isSome, mem_iff ht]
  simp

/-- There is one node for each address, besides `nilnode`. -/
lemma ncard_mem (hh : HoldsAddrs h A) :
    {a | a ≠ nilnode ∧ h.mem a ≠ none}.ncard = A.card := by
  obtain ⟨t, hs, ht⟩ := hh
  obtain ⟨m, hm, hr⟩ := hs.rep
  have hset : {a | a ≠ nilnode ∧ h.mem a ≠ none} = ((ids t).toFinset : Set ℕ) := by
    ext a
    rw [Set.mem_ofPred_eq, Finset.mem_coe, List.mem_toFinset]
    constructor
    · rintro ⟨hnil, hmem⟩
      by_contra ha
      exact hmem (by rw [hr.rest a ha, hm a hnil])
    · intro ha
      obtain ⟨x, hx, rfl⟩ := List.mem_map.1 ha
      obtain ⟨hnil, nd, hnd, -⟩ := hs.mem_node hx
      exact ⟨hnil, by simp [hnd]⟩
  rw [hset, Set.ncard_coe_finset, List.toFinset_card_of_nodup hr.nodup, card ht, ids,
    List.length_map]

end HoldsAddrs

lemma card_addrs_le : (c.addrs A).card ≤ A.card + 1 := by
  cases c with
  | add newnode c e => exact Finset.card_insert_le _ _
  | edit addr hndl prop => exact Nat.le_succ _
  | del addr => exact (Finset.card_erase_le).trans (Nat.le_succ _)
  | delrand => exact (Finset.card_filter_le _ _).trans (Nat.le_succ _)

lemma addrsAfter_append : addrsAfter (cs ++ [c]) = c.addrs (addrsAfter cs) := by
  rw [addrsAfter, List.foldl_append]
  rfl

lemma card_addrsAfter_le : (addrsAfter cs).card ≤ cs.length := by
  induction cs using List.reverseRecOn with
  | nil => rfl
  | append_singleton cs c ih =>
    rw [addrsAfter_append, List.length_append, List.length_singleton]
    exact card_addrs_le.trans (Nat.succ_le_succ ih)

lemma log_lt {i j : ℕ} (hij : i ≤ j) (hn : 2 * Nat.log 2 (j + 1) + 1 < n) :
    2 * Nat.log 2 (i + 1) + 1 < n := by
  have hlog : Nat.log 2 (i + 1) ≤ Nat.log 2 (j + 1) := Nat.log_mono_right (by omega)
  omega

lemma MrRun.holdsAddrs (hrun : MrRun n cs h) (hn : 2 * Nat.log 2 (cs.length + 1) + 1 < n) :
    HoldsAddrs h (addrsAfter cs) := by
  induction hrun with
  | nil => exact ⟨.nil, stored_init, by simp [addrsAfter]⟩
  | @snoc cs c h h' hrun hc hcall ih =>
    rw [List.length_append, List.length_singleton] at hn
    have hh := ih (log_lt (Nat.le_succ _) hn)
    rcases hh.exec (log_lt (card_addrsAfter_le.trans (Nat.le_succ _)) hn) hc with
      ⟨-, hnone⟩ | ⟨-, h'', e'', hh''⟩
    · rw [hcall] at hnone
      cases hnone
    · rw [hcall, Option.some.injEq] at e''
      rw [addrsAfter_append, e'']
      exact hh''

/-- After any sequence of allowed calls, the next one exits if and only if it misses its address;
`persist_mr_get` finds exactly the addresses that are there and `tree_print` prints them in order;
and no other node is in memory. A search looks at a logarithmic number of nodes. -/
theorem MrRun.refines (hrun : MrRun n cs h) (hn : 2 * Nat.log 2 (cs.length + 1) + 1 < n) :
    (∀ c, MrCall.Allowed h (addrsAfter cs) c →
      (c.exec n h = none ↔ c.Misses (addrsAfter cs))) ∧
    (∀ addr, (h.persistMrGet n addr).map Option.isSome = some (decide (addr ∈ addrsAfter cs))) ∧
    (h.treePrint n (cs.length + 1)).map (List.map Entry.addr) = some (addrsAfter cs).sort ∧
    {a | a ≠ nilnode ∧ h.mem a ≠ none}.ncard = (addrsAfter cs).card := by
  have hh := hrun.holdsAddrs hn
  have hn' := log_lt (card_addrsAfter_le : (addrsAfter cs).card ≤ _) hn
  refine ⟨fun c hc => ?_, hh.persistMrGet (by omega), ?_, hh.ncard_mem⟩
  · rcases hh.exec hn' hc with ⟨hmiss, hnone⟩ | ⟨hmiss, h', e', -⟩
    · exact iff_of_true hnone hmiss
    · exact iff_of_false (by simp [e']) hmiss
  · obtain ⟨t, hs, ht⟩ := hh
    have hlen := HoldsAddrs.card ht
    rw [hs.treePrint (k := cs.length + 1) (by rw [← hlen]; omega)
      (by rw [← hlen]; exact Nat.lt_succ_of_le card_addrsAfter_le), Option.map_some, ← ht,
      List.map_map]
    rfl

/-- Two regions are added, and the first of them is deleted. -/
def sampleCalls : List MrCall :=
  [.add 2 .red (sampleEntry 64), .add 3 .black (sampleEntry 32), .del 64]

theorem refines_sample : ∃ h, MrRun 6 sampleCalls h ∧
    (h.treePrint 6 4).map (List.map Entry.addr) = some (addrsAfter sampleCalls).sort := by
  have hfirst := MrRun.nil.snoc (n := 6) (c := .add 2 .red (sampleEntry 64)) ⟨rfl, by decide⟩ rfl
  have hsecond := hfirst.snoc (c := .add 3 .black (sampleEntry 32)) ⟨rfl, by decide⟩ rfl
  have hrun : ∃ h, MrRun 6 sampleCalls h := ⟨_, hsecond.snoc (c := .del 64) trivial rfl⟩
  obtain ⟨h, hrun⟩ := hrun
  exact ⟨h, hrun, (hrun.refines (by decide)).2.2.1⟩

end

end NetPipe.Vapi.MrTree
