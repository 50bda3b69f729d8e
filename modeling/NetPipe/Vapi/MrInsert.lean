import NetPipe.Vapi.MrTree

/-!
# Search and insertion

`tree_search`, `tree_insert` and `rb_insert` follow the way down in the tree that is in memory,
and the loop of `rb_insert` restores the red-black invariant on the way up.
-/

namespace NetPipe.Vapi.MrTree

/-- `tree_search`: the node with address `addr` below `node`, or `nilnode`. It has no result if it
looks at more than `n` pointers. -/
def treeSearch (h : MrTree) (addr : ℕ) : ℕ → Ptr → Option Ptr
  | 0, _ => none
  | n + 1, node =>
    if node = nilnode then some node
    else do
      let nd ← h.mem node
      if nd.entry.addr = addr then some node
      else treeSearch h addr n (if addr < nd.entry.addr then nd.left else nd.right)

/-- The loop of `tree_insert`: the last node on the way down to the place of `addr`. -/
def insertParent (h : MrTree) (addr : ℕ) : ℕ → Ptr → Ptr → Option Ptr
  | 0, _, _ => none
  | n + 1, par, cur =>
    if cur = nilnode then some par
    else do
      let nd ← h.mem cur
      insertParent h addr n cur (if addr < nd.entry.addr then nd.left else nd.right)

/-- `tree_insert`. -/
def treeInsert (n : ℕ) (h : MrTree) (newnode : Ptr) : Option MrTree := do
  let new ← h.mem newnode
  let par ← h.insertParent new.entry.addr n nilnode h.root
  let h ← h.modify newnode (·.setP par)
  if par = nilnode then some { h with root := newnode }
  else do
    let p ← h.mem par
    if new.entry.addr < p.entry.addr then h.modify par (·.setChild .left newnode)
    else h.modify par (·.setChild .right newnode)

/-- The last steps of `rb_insert` below a parent on side `d`: the parent becomes black, the
grandparent red, and the grandparent is rotated to the other side. -/
def rbInsertLift (d : Dir) (h : MrTree) (node : Ptr) : Option MrTree := do
  let n ← h.mem node
  let h ← h.modify n.p (·.setColor .black)
  let p ← h.mem n.p
  let h ← h.modify p.p (·.setColor .red)
  h.rotate d.flip p.p

/-- The rotations of `rb_insert` below a parent on side `d`, with the node that is looked at
next. -/
def rbInsertRotate (d : Dir) (h : MrTree) (node : Ptr) : Option (MrTree × Ptr) := do
  let n ← h.mem node
  let p ← h.mem n.p
  if node = p.child d.flip then do
    let h ← h.rotate d n.p
    let h ← h.rbInsertLift d n.p
    some (h, n.p)
  else do
    let h ← h.rbInsertLift d node
    some (h, node)

/-- One round of the loop of `rb_insert` below a parent on side `d`. -/
def rbInsertTurn (d : Dir) (h : MrTree) (node : Ptr) : Option (MrTree × Ptr) := do
  let n ← h.mem node
  let p ← h.mem n.p
  let g ← h.mem p.p
  let uncle := g.child d.flip
  let u ← h.mem uncle
  if u.color = .red then do
    let h ← h.modify n.p (·.setColor .black)
    let h ← h.modify uncle (·.setColor .black)
    let h ← h.modify p.p (·.setColor .red)
    some (h, p.p)
  else h.rbInsertRotate d node

/-- The loop of `rb_insert`; it has no result after `k` rounds. -/
def rbInsertLoop : ℕ → MrTree → Ptr → Option MrTree
  | 0, _, _ => none
  | k + 1, h, node =>
    if node = h.root then some h
    else do
      let n ← h.mem node
      let p ← h.mem n.p
      if p.color = .red then do
        let g ← h.mem p.p
        let (h, node) ← h.rbInsertTurn (if n.p = g.left then .left else .right) node
        rbInsertLoop k h node
      else some h

/-- `rb_insert`. -/
def rbInsert (n : ℕ) (h : MrTree) (node : Ptr) : Option MrTree := do
  let h ← h.treeInsert n node
  let h ← h.modify node (·.setColor .red)
  let h ← h.rbInsertLoop n node
  h.modify h.root (·.setColor .black)

/-- `persist_mr_add`, with the address that `malloc` returns and the colour that is in this memory
before. -/
def persistMrAdd (n : ℕ) (h : MrTree) (newnode : Ptr) (c : Color) (addr hndl : ℕ) (prop : Mrw) :
    Option MrTree :=
  rbInsert n (h.set newnode ⟨c, ⟨addr, hndl, prop⟩, nilnode, nilnode, nilnode⟩) newnode

/-- `persist_mr_get`: handle and properties of a region, `none` if the address is not in the
tree. -/
def persistMrGet (n : ℕ) (h : MrTree) (addr : ℕ) : Option (Option (ℕ × Mrw)) := do
  let node ← h.treeSearch addr n h.root
  if node = nilnode then some none
  else do
    let nd ← h.mem node
    some (some (nd.entry.hndl, nd.entry.prop))

/-- `persist_mr_edit`; it exits if the address is not in the tree. -/
def persistMrEdit (n : ℕ) (h : MrTree) (addr hndl : ℕ) (prop : Mrw) : Option MrTree := do
  let node ← h.treeSearch addr n h.root
  if node = nilnode then none
  else h.modify node (·.setData hndl prop)

section

open ColorTree

variable {mem : Ptr → Option MrNode} {par q newnode : Ptr} {a b s t u v : Shape} {x y z : Ptr × Entry}
  {c c' k : Color} {d d' d₀ : Dir} {f : Frame (Ptr × Entry)} {ctx : List (Frame (Ptr × Entry))}
  {m : Ptr → Option MrNode} {h : MrTree} {n i addr : ℕ} {e : Entry}

/-- The key of a node. -/
def key (x : Ptr × Entry) : ℕ := x.2.addr

lemma addr_eq_key (x : Ptr × Entry) : x.2.addr = key x := rfl

/-- `tree_search` comes to the end of the way down. -/
lemma treeSearch_eq (hh : Holds h.mem par t) (hnil : nilnode ∉ ids t) (hn : t.height < n)
    (ctx : List (Frame (Ptr × Entry))) :
    h.treeSearch addr n (addrOf t) = some (addrOf (locate key addr t ctx).1) := by
  induction t generalizing par n ctx with
  | nil =>
    cases n with
    | zero => simp at hn
    | succ n => rfl
  | node c l x r ihl ihr =>
    cases n with
    | zero => simp at hn
    | succ n =>
      obtain ⟨hx, hl, hr⟩ := hh
      simp only [mem_ids_node, not_or] at hnil
      rw [height_node, Nat.succ_lt_succ_iff, max_lt_iff] at hn
      rw [treeSearch, addrOf_node, if_neg (Ne.symm hnil.1), hx, locate_node]
      simp only [Option.bind_eq_bind, Option.bind_some, MrNode.make_entry, addr_eq_key]
      by_cases heq : addr = key x
      · rw [if_pos heq.symm, if_pos heq, addrOf_node]
      rw [if_neg (Ne.symm heq), if_neg heq]
      by_cases hlt : addr < key x
      · rw [if_pos hlt, if_pos hlt]
        exact ihl hl hnil.2.1 hn.1 _
      · rw [if_neg hlt, if_neg hlt]
        exact ihr hr hnil.2.2 hn.2 _

/-- The loop of `tree_insert` comes to the end of the same way. -/
lemma insertParent_eq (hh : Holds h.mem par t) (hnil : nilnode ∉ ids t) (hn : t.height < n)
    (hloc : (locate key addr t ctx).1 = .nil) :
    h.insertParent addr n (parentOf ctx) (addrOf t) =
      some (parentOf (locate key addr t ctx).2) := by
  induction t generalizing par n ctx with
  | nil =>
    cases n with
    | zero => simp at hn
    | succ n => rfl
  | node c l x r ihl ihr =>
    cases n with
    | zero => simp at hn
    | succ n =>
      obtain ⟨hx, hl, hr⟩ := hh
      simp only [mem_ids_node, not_or] at hnil
      rw [height_node, Nat.succ_lt_succ_iff, max_lt_iff] at hn
      rw [locate_node] at hloc ⊢
      rw [insertParent, addrOf_node, if_neg (Ne.symm hnil.1), hx]
      simp only [Option.bind_eq_bind, Option.bind_some, MrNode.make_entry, addr_eq_key]
      by_cases heq : addr = key x
      · simp [heq] at hloc
      rw [if_neg heq] at hloc ⊢
      by_cases hlt : addr < key x
      · rw [if_pos hlt] at hloc ⊢
        rw [if_pos hlt]
        exact ihl hl hnil.2.1 hn.1 hloc
      · rw [if_neg hlt] at hloc ⊢
        rw [if_neg hlt]
        exact ihr hr hnil.2.2 hn.2 hloc

/-- `tree_insert` puts the new node at the end of the way down. -/
lemma Rep.treeInsert (hr : Rep m h t) (hsorted : Sorted key t) (hn : t.height < n)
    (hnew : h.mem newnode = some (.make .left c e q nilnode nilnode)) (hid : newnode ∉ ids t)
    (hnil : newnode ≠ nilnode) (hkey : ∀ y ∈ t.toList, key y ≠ e.addr) :
    ∃ ctx, t = plug .nil ctx ∧ Sorted key (plug (.node c .nil (newnode, e) .nil) ctx) ∧
      ∃ h', h.treeInsert n newnode = some h' ∧
        Rep m h' (plug (.node c .nil (newnode, e) .nil) ctx) := by
  have hloc : (locate key e.addr t []).1 = .nil := locate_eq_nil hkey
  have hplug : plug .nil (locate key e.addr t []).2 = t := by
    simpa [hloc] using plug_locate key e.addr t []
  obtain ⟨hb, ha⟩ := hsorted.place hloc
  have hpar := insertParent_eq hr.holds hr.nil_not_mem hn hloc
  rw [parentOf_nil, ← hr.root] at hpar
  generalize (locate key e.addr t []).2 = ctx at hplug hb ha hpar
  subst hplug
  refine ⟨ctx, rfl, sorted_of_place hsorted hb ha, ?_⟩
  have hidc : newnode ∉ ctxIds ctx := fun hc =>
    hid ((ids_plug_perm _ _).mem_iff.2 (List.mem_append_right _ hc))
  have hndc : (ctxIds ctx).Nodup := hr.nodup_plug
  have hmod := modify_eq hnew (·.setP (parentOf ctx))
  rw [MrNode.make_setP] at hmod
  set h₁ := h.set newnode (.make .left c e (parentOf ctx) nilnode nilnode) with h₁def
  have hctx₁ : HoldsCtx h₁.mem nilnode ctx := (holds_plug.1 hr.holds).2.congr fun a ha =>
    set_mem_of_ne (ne_of_mem_of_not_mem ha hidc)
  -- the pointer to the new node
  obtain ⟨h', hh', hctx', hroot', hmem'⟩ : ∃ h', h.treeInsert n newnode = some h' ∧
      HoldsCtx h'.mem newnode ctx ∧ h'.root = rootOf newnode ctx ∧
        ∀ a ∉ ctxIds ctx, h'.mem a = h₁.mem a := by
    cases ctx with
    | nil =>
      refine ⟨{ h₁ with root := newnode }, ?_, trivial, rfl, fun _ _ => rfl⟩
      rw [parentOf_nil] at hmod
      simp [MrTree.treeInsert, hnew, hpar, hmod]
    | cons f ctx =>
      obtain ⟨h', hh', hctx', hroot', hmem'⟩ := hctx₁.setHole hndc newnode
      refine ⟨h', ?_, hctx', ?_, hmem'⟩
      · have hf : f.val.1 ≠ nilnode := fun hf =>
          hr.nil_not_mem ((ids_plug_perm _ _).mem_iff.2 (by simp [hf]))
        have hdir := dir_of_place hb ha
        rw [← addr_eq_key] at hdir
        rw [parentOf_cons] at hmod
        simp only [MrTree.treeInsert, hnew, hpar, hmod, hctx₁.1, if_neg hf, parentOf_cons,
          Option.bind_eq_bind, Option.bind_some, MrNode.make_entry]
        by_cases hlt : e.addr < f.val.2.addr
        · rw [if_pos hlt, ← hh', hdir.1 hlt]
        · rw [if_neg hlt, ← hh']
          obtain hd | hd : f.dir = .left ∨ f.dir = .right := by cases f.dir <;> simp
          · exact absurd (hdir.2 hd) hlt
          · rw [hd]
      · rw [hroot', h₁def, set_root, hr.root, addrOf_plug]
        rfl
  have hperm : (ids (plug (.node c .nil (newnode, e) .nil) ctx)).Perm (newnode :: ctxIds ctx) :=
    ids_plug_perm _ _
  refine ⟨h', hh', ⟨holds_plug.2 ⟨⟨?_, trivial, trivial⟩, hctx'⟩, ?_, ?_, ?_, fun a ha => ?_,
    hr.nil_black⟩⟩
  · rw [hmem' _ hidc, set_mem]
    rfl
  · rw [hroot', addrOf_plug, addrOf_node]
  · exact hperm.nodup_iff.2 (List.nodup_cons.2 ⟨hidc, hndc⟩)
  · rw [hperm.mem_iff, List.mem_cons, not_or]
    exact ⟨Ne.symm hnil, fun hc =>
      hr.nil_not_mem ((ids_plug_perm _ _).mem_iff.2 (List.mem_append_right _ hc))⟩
  · rw [hperm.mem_iff, List.mem_cons, not_or] at ha
    rw [hmem' _ ha.2, set_mem_of_ne ha.1]
    refine hr.rest a fun hc => ha.2 ?_
    simpa using (ids_plug_perm _ _).mem_iff.1 hc

lemma Rep.rbInsertLift
    (hr : Rep m h (plug (branch d' k s x t) (⟨d, c, y, u⟩ :: ⟨d, c', z, v⟩ :: ctx))) :
    ∃ h', h.rbInsertLift d x.1 = some h' ∧
      Rep m h' (plug (branch d' k s x t) (⟨d, .black, y, branch d .red u z v⟩ :: ctx)) := by
  have hx := hr.mem_branch
  rw [plug_cons] at hr
  obtain ⟨h₁, e₁, hr₁⟩ := hr.setColor .black
  have hy := hr₁.mem_branch
  rw [plug_cons] at hr₁
  obtain ⟨h₂, e₂, hr₂⟩ := hr₁.setColor .red
  have hr₂ : Rep m h₂ (plug (branch d.flip .red v z (branch d.flip .black u y (branch d' k s x t)))
      ctx) := by
    rw [branch_flip, branch_flip]
    exact hr₂
  obtain ⟨h₃, e₃, hr₃⟩ := hr₂.rotate
  rw [branch_flip, branch_flip] at hr₃
  refine ⟨h₃, ?_, hr₃⟩
  simp only [MrTree.rbInsertLift, hx, hy, MrNode.make_p, parentOf_cons, e₁, e₂, e₃,
    Option.bind_eq_bind, Option.bind_some]

/-- A round with a red uncle. -/
lemma Rep.rbInsertTurn_red
    (hr : Rep m h (plug (branch d₀ k a x b) (⟨d, c, y, s⟩ :: ⟨d', c', z, u⟩ :: ctx)))
    (hu : u.color = .red) :
    ∃ h', h.rbInsertTurn d' x.1 = some (h', z.1) ∧
      Rep m h' (plug (branch d' .red (branch d .black (branch d₀ k a x b) y s) z u.blacken) ctx) := by
  have hx := hr.mem_branch
  rw [plug_cons] at hr
  have hy := hr.mem_branch
  have hz := Rep.mem_branch (d := d') hr
  obtain ⟨h₁, e₁, hr₁⟩ := hr.setColor .black
  cases u with
  | nil => cases hu
  | node c'' l w r =>
    obtain rfl := hu
    obtain ⟨nu, hw, hwc⟩ := hr.color_sib
    rw [plug_sib] at hr₁
    obtain ⟨h₂, e₂, hr₂⟩ := Rep.setColor (d := .left) hr₁ .black
    rw [plug_cons, branch_flip] at hr₂
    obtain ⟨h₃, e₃, hr₃⟩ := hr₂.setColor .red
    refine ⟨h₃, ?_, hr₃⟩
    simp only [addrOf_node, color_node] at hw hwc
    simp only [MrTree.rbInsertTurn, hx, hy, hz, hw, hwc, MrNode.make_p, parentOf_cons,
      MrNode.make_child_flip, addrOf_node, e₁, e₂, e₃, Option.bind_eq_bind, Option.bind_some,
      ↓reduceIte]

/-- With a black uncle, a round is `rbInsertRotate`. -/
lemma Rep.rbInsertTurn_black
    (hr : Rep m h (plug (branch d₀ k a x b) (⟨d, c, y, s⟩ :: ⟨d', c', z, u⟩ :: ctx)))
    (hu : u.color = .black) : h.rbInsertTurn d' x.1 = h.rbInsertRotate d' x.1 := by
  have hx := hr.mem_branch
  rw [plug_cons] at hr
  have hy := hr.mem_branch
  have hz := Rep.mem_branch (d := d') hr
  obtain ⟨nu, hw, hwc⟩ := hr.color_sib
  simp [MrTree.rbInsertTurn, hx, hy, hz, hw, hwc, hu]

/-- A round with a black uncle where node and parent are on the same side. -/
lemma Rep.rbInsertTurn_outer
    (hr : Rep m h (plug (branch d₀ k a x b) (⟨d, c, y, s⟩ :: ⟨d, c', z, u⟩ :: ctx)))
    (hu : u.color = .black) :
    ∃ h', h.rbInsertTurn d x.1 = some (h', x.1) ∧
      Rep m h' (plug (branch d₀ k a x b) (⟨d, .black, y, branch d .red s z u⟩ :: ctx)) := by
  obtain ⟨h', e', hr'⟩ := hr.rbInsertLift
  refine ⟨h', ?_, hr'⟩
  have hx := hr.mem_branch
  have hy := Rep.mem_branch (d := d) (plug_cons ▸ hr)
  rw [hr.rbInsertTurn_black hu]
  simp [MrTree.rbInsertRotate, hx, hy, e', hr.ne_sib]

/-- A round with a black uncle where node and parent are on different sides. -/
lemma Rep.rbInsertTurn_inner
    (hr : Rep m h (plug (branch d k a x b) (⟨d.flip, c, y, s⟩ :: ⟨d, c', z, u⟩ :: ctx)))
    (hu : u.color = .black) :
    ∃ h', h.rbInsertTurn d x.1 = some (h', y.1) ∧
      Rep m h' (plug (branch d c s y a) (⟨d, .black, x, branch d .red b z u⟩ :: ctx)) := by
  have hx := hr.mem_branch
  have hturn := hr.rbInsertTurn_black hu
  rw [plug_cons, branch_flip] at hr
  have hy := hr.mem_branch
  obtain ⟨h₁, e₁, hr₁⟩ := hr.rotate
  obtain ⟨h₂, e₂, hr₂⟩ := Rep.rbInsertLift (plug_cons ▸ hr₁)
  refine ⟨h₂, ?_, hr₂⟩
  simp [hturn, MrTree.rbInsertRotate, hx, hy, e₁, e₂]

/-- One round with a red parent: the red node moves up, or it gets a black parent. -/
lemma Rep.rbInsertTurn (hr : Rep m h (plug t (⟨d, .red, y, s⟩ :: ⟨d', .black, z, u⟩ :: ctx)))
    (ht : RB t .red i) (hs : RB s .black i) (hu : RB u k i) (hctx : Hole ctx .black (i + 1)) :
    ∃ h' t' ctx' i', h.rbInsertTurn d' (addrOf t) = some (h', addrOf t') ∧
      Rep m h' (plug t' ctx') ∧ RB t' .red i' ∧ Hole ctx' .black i' ∧
      ctx'.length < ctx.length + 2 ∧
      (plug t' ctx').toList =
        (plug t (⟨d, .red, y, s⟩ :: ⟨d', .black, z, u⟩ :: ctx)).toList := by
  cases hk : u.color with
  | red =>
    obtain ⟨a, x, b, rfl, -, -⟩ := ht.exists_branch_red .left
    obtain ⟨h', e', hr'⟩ := hr.rbInsertTurn_red hk
    have hu' : RB u.blacken .black (i + 1) := by
      obtain rfl := hu.color_eq.symm.trans hk
      exact hu.blacken_red
    refine ⟨h', _, ctx, i + 1, by rw [addrOf_branch, addrOf_branch, e'], hr',
      (ht.branch_black hs d y).branch_red hu' d' z, hctx, by omega, toList_plug_congr ?_ ctx⟩
    cases d <;> cases d' <;> simp
  | black =>
    obtain rfl := hu.color_eq.symm.trans hk
    by_cases hd : d = d'
    · subst hd
      obtain ⟨a, x, b, rfl, -, -⟩ := ht.exists_branch_red .left
      obtain ⟨h', e', hr'⟩ := hr.rbInsertTurn_outer hk
      refine ⟨h', _, _, i, by rw [addrOf_branch, e'], hr', ht, hctx.black (hs.branch_red hu d z),
        by simp, toList_plug_congr ?_ ctx⟩
      cases d <;> simp
    · obtain rfl : d = d'.flip := by
        revert hd
        cases d <;> cases d' <;> simp
      obtain ⟨a, x, b, rfl, ha, hb⟩ := ht.exists_branch_red d'
      obtain ⟨h', e', hr'⟩ := hr.rbInsertTurn_inner hk
      refine ⟨h', _, _, i, by rw [addrOf_branch, addrOf_branch, e'], hr', hs.branch_red ha d' y,
        hctx.black (hb.branch_red hu d' z), by simp, toList_plug_congr ?_ ctx⟩
      cases d' <;> simp

/-- The loop of `rb_insert` ends with a red-black tree, up to the colour of the root. -/
lemma Rep.rbInsertLoop (hr : Rep m h (plug t ctx)) (ht : RB t .red i) (hctx : Hole ctx .black i)
    (hn : ctx.length < n) :
    ∃ h' t', h.rbInsertLoop n (addrOf t) = some h' ∧ Rep m h' t' ∧
      (∃ j, RB t'.blacken .black j) ∧ t'.toList = (plug t ctx).toList := by
  induction n generalizing h t ctx i with
  | zero => omega
  | succ n ih =>
    obtain ⟨a, x, b, rfl, -, -⟩ := ht.exists_branch_red .left
    cases ctx with
    | nil =>
      refine ⟨h, _, ?_, hr, ht.blacken, rfl⟩
      rw [MrTree.rbInsertLoop, addrOf_branch, if_pos (hr.eq_root_iff.2 rfl)]
    | cons f ctx =>
      have hroot : x.1 ≠ h.root := fun hx => by simpa using hr.eq_root_iff.1 hx
      have hx := hr.mem_branch
      have hy := Rep.mem_branch (plug_cons ▸ hr)
      cases hf : f.color with
      | black =>
        obtain ⟨j, hj⟩ := (hctx.red_of_parent_black hf).plug ht
        refine ⟨h, _, ?_, hr, hj.blacken, rfl⟩
        simp [MrTree.rbInsertLoop, hroot, hx, hy, hf]
      | red =>
        obtain ⟨hs, g, ctx, rfl, hg, ⟨k, hu⟩, hctx'⟩ := hctx.exists_grandparent hf
        obtain ⟨d, c, y, s⟩ := f
        obtain ⟨d', c', z, u⟩ := g
        subst hf hg
        obtain ⟨h₁, t₁, ctx₁, i₁, e₁, hr₁, ht₁, hctx₁, hlen, hlist⟩ :=
          hr.rbInsertTurn ht hs hu hctx'
        have hlen' : ctx₁.length < n := by
          simp only [List.length_cons] at hn
          omega
        obtain ⟨h', t', e', hr', hrb, hlist'⟩ := ih hr₁ ht₁ hctx₁ hlen'
        refine ⟨h', t', ?_, hr', hrb, hlist'.trans hlist⟩
        rw [plug_cons] at hr
        have hz := Rep.mem_branch (d := d') hr
        have hside : (if y.1 = (MrNode.make d' .black z.2 (parentOf ctx) y.1 (addrOf u)).left
            then Dir.left else Dir.right) = d' := MrNode.side_eq hr.ne_sib
        rw [addrOf_branch] at e₁
        simp only [MrTree.rbInsertLoop, addrOf_branch, if_neg hroot, hx, hy, hz, MrNode.make_p,
          MrNode.make_color, parentOf_cons, ↓reduceIte, Option.bind_eq_bind, Option.bind_some,
          hside, e₁, e']

/-- The memory holds the tree `t` with the keys in order and the red-black invariant, and no other
node. -/
structure Stored (h : MrTree) (t : Shape) : Prop where
  rep : ∃ m, (∀ a ≠ nilnode, m a = none) ∧ Rep m h t
  sorted : Sorted key t
  balanced : ∃ n, RB t .black n

/-- At the start the tree is empty. -/
lemma stored_init : Stored init .nil where
  rep := by
    refine ⟨init.mem, fun a ha => if_neg ha, trivial, rfl, List.nodup_nil, by simp, fun _ _ => rfl,
      ?_⟩
    simp [init]
  sorted := List.Pairwise.nil
  balanced := ⟨0, .nil⟩

/-- A node that is not in memory is not in the tree. -/
lemma Stored.not_mem_of_none (hs : Stored h t) (ha : h.mem newnode = none) :
    newnode ∉ ids t ∧ newnode ≠ nilnode := by
  obtain ⟨m, -, hr⟩ := hs.rep
  constructor
  · intro hid
    obtain ⟨x, hx, rfl⟩ := List.mem_map.1 hid
    obtain ⟨c, l, r, ctx, rfl⟩ := exists_plug_of_mem hx
    have hmem := Rep.mem_branch (d := .left) hr
    rw [ha] at hmem
    cases hmem
  · rintro rfl
    obtain ⟨n, hn, -⟩ := hr.mem_nilnode
    rw [ha] at hn
    cases hn

/-- The search finds the node with an address that is in the tree; it looks at no more pointers
than the bound says. -/
lemma Stored.treeSearch_of_mem (hs : Stored h t) (hx : x ∈ t.toList)
    (hn : 2 * Nat.log 2 (t.toList.length + 1) < n) :
    h.treeSearch x.2.addr n h.root = some x.1 := by
  obtain ⟨m, -, hr⟩ := hs.rep
  obtain ⟨i, hrb⟩ := hs.balanced
  obtain ⟨c, l, r, hloc⟩ := hs.sorted.locate_of_mem hx
  rw [hr.root, treeSearch_eq hr.holds hr.nil_not_mem (hrb.height_le_log.trans_lt hn) [],
    addr_eq_key, hloc, addrOf_node]

lemma Stored.treeSearch_of_not_mem (hs : Stored h t) (hx : ∀ x ∈ t.toList, key x ≠ addr)
    (hn : 2 * Nat.log 2 (t.toList.length + 1) < n) :
    h.treeSearch addr n h.root = some nilnode := by
  obtain ⟨m, -, hr⟩ := hs.rep
  obtain ⟨i, hrb⟩ := hs.balanced
  rw [hr.root, treeSearch_eq hr.holds hr.nil_not_mem (hrb.height_le_log.trans_lt hn) [],
    locate_eq_nil hx, addrOf_nil]

/-- `rb_insert` adds the new node to the tree. -/
lemma Rep.rbInsert (hr : Rep m h t) (hsorted : Sorted key t) (hrb : RB t .black i)
    (hn : t.height < n) (hnew : h.mem newnode = some (.make .left c e q nilnode nilnode))
    (hid : newnode ∉ ids t) (hnil : newnode ≠ nilnode) (hkey : ∀ y ∈ t.toList, key y ≠ e.addr) :
    ∃ h' t', h.rbInsert n newnode = some h' ∧ Rep m h' t' ∧ Sorted key t' ∧
      (∃ j, RB t' .black j) ∧ t'.toList.Perm ((newnode, e) :: t.toList) := by
  obtain ⟨ctx, rfl, hsorted', h₁, e₁, hr₁⟩ := hr.treeInsert hsorted hn hnew hid hnil hkey
  obtain ⟨j, k, hnilrb, hctx⟩ := hrb.split
  obtain ⟨rfl, rfl⟩ : j = .black ∧ k = 0 := by
    cases hnilrb
    exact ⟨rfl, rfl⟩
  have hlen : ctx.length < n := by
    have := height_add_length_le .nil ctx
    omega
  obtain ⟨h₂, e₂, hr₂⟩ := Rep.setColor (d := .left) hr₁ .red
  have hred : RB (.node .red .nil (newnode, e) .nil : Shape) .red 0 := RB.nil.red .nil
  obtain ⟨h₃, t₃, e₃, hr₃, ⟨j, hrb₃⟩, hlist⟩ := hr₂.rbInsertLoop hred hctx hlen
  rw [addrOf_branch] at e₃
  have hlist : t₃.toList = (plug (.node c .nil (newnode, e) .nil) ctx).toList :=
    hlist.trans (toList_plug_congr (by simp) ctx)
  have hperm : t₃.toList.Perm ((newnode, e) :: (plug .nil ctx).toList) := by
    rw [hlist, toList_plug, toList_plug]
    simp
  cases t₃ with
  | nil => simp at hperm
  | node c₃ l x r =>
    obtain ⟨h₄, e₄, hr₄⟩ : ∃ h₄, h₃.modify x.1 (·.setColor .black) = some h₄ ∧
        Rep m h₄ (plug (branch .left .black l x r) []) := Rep.setColor (d := .left) hr₃ .black
    refine ⟨h₄, .node .black l x r, ?_, hr₄, ?_, ⟨j, hrb₃⟩, hperm⟩
    · simp only [MrTree.rbInsert, e₁, e₂, e₃, hr₃.root, addrOf_node, e₄, Option.bind_eq_bind,
        Option.bind_some]
    · rw [Sorted] at hsorted' ⊢
      rw [← hlist] at hsorted'
      exact hsorted'

/-- `persist_mr_add` keeps the tree a red-black search tree and adds one node to it. The node comes
from `malloc`; the address is not yet in the tree. -/
lemma Stored.persistMrAdd (hs : Stored h t) (hnew : h.mem newnode = none)
    (hkey : ∀ y ∈ t.toList, key y ≠ e.addr) (hn : 2 * Nat.log 2 (t.toList.length + 1) < n)
    (c : Color) :
    ∃ h' t', h.persistMrAdd n newnode c e.addr e.hndl e.prop = some h' ∧ Stored h' t' ∧
      t'.toList.Perm ((newnode, e) :: t.toList) := by
  obtain ⟨hid, hnil⟩ := hs.not_mem_of_none hnew
  obtain ⟨m, hm, hr⟩ := hs.rep
  obtain ⟨i, hrb⟩ := hs.balanced
  obtain ⟨h', t', e', hr', hsorted', hrb', hperm⟩ :=
    (hr.set_of_not_mem hid hnil).rbInsert hs.sorted hrb (hrb.height_le_log.trans_lt hn) set_mem hid
      hnil hkey
  refine ⟨h', t', e', ⟨⟨m, hm, hr'.frame_congr fun a ha => ?_⟩, hsorted', hrb'⟩, hperm⟩
  have hmem : newnode ∈ ids t' :=
    (hperm.map Prod.fst).mem_iff.2 (by simp)
  exact (Function.update_of_ne (ne_of_mem_of_not_mem hmem ha).symm _ _).symm

/-- The region at `addr` in the examples. -/
def sampleEntry (addr : ℕ) : Entry := ⟨addr, addr + 1, ⟨0, addr, 8, 0, 0, 0, 1⟩⟩

end

end NetPipe.Vapi.MrTree
