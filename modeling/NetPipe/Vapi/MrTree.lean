import NetPipe.Library.RedBlack

/-!
# The tree of memory regions

The nodes of the tree in which `ib.c` keeps its registered memory regions, as they lie in memory
with their parent pointers, and the pointer code that searches and changes it.
-/

namespace NetPipe.Vapi

/-- The address of a node, `0` for `NULL`. -/
abbrev Ptr := ℕ

/-- The address of `nilnode`, which stands for the empty tree. -/
def nilnode : Ptr := 1

/-- The properties of a memory region, `VAPI_mrw_t`. -/
structure Mrw where
  type : ℕ
  start : ℕ
  size : ℕ
  pd_hndl : ℕ
  l_key : ℕ
  r_key : ℕ
  acl : ℕ
  deriving DecidableEq, Repr

/-- What a node stores: the address of the region, which is the key, its handle and its
properties. -/
structure Entry where
  addr : ℕ
  hndl : ℕ
  prop : Mrw
  deriving DecidableEq, Repr

/-- A node in memory, `struct rndzv_mr_tree_node_t`. -/
structure MrNode where
  color : Color
  entry : Entry
  p : Ptr
  left : Ptr
  right : Ptr
  deriving DecidableEq, Repr

namespace MrNode

variable {n : MrNode} {d : Dir} {a : Ptr} {c : Color}

/-- The child on side `d`. -/
def child (n : MrNode) : Dir → Ptr
  | .left => n.left
  | .right => n.right

def setChild (n : MrNode) : Dir → Ptr → MrNode
  | .left, a => { n with left := a }
  | .right, a => { n with right := a }

def setP (n : MrNode) (a : Ptr) : MrNode := { n with p := a }

def setColor (n : MrNode) (c : Color) : MrNode := { n with color := c }

def setAddr (n : MrNode) (v : ℕ) : MrNode := { n with entry := { n.entry with addr := v } }

def setData (n : MrNode) (hndl : ℕ) (prop : Mrw) : MrNode :=
  { n with entry := { n.entry with hndl := hndl, prop := prop } }

/-- The node of an entry with its pointers, `a` the child on side `d` and `b` the other one. -/
def make : Dir → Color → Entry → Ptr → Ptr → Ptr → MrNode
  | .left, c, e, par, a, b => ⟨c, e, par, a, b⟩
  | .right, c, e, par, a, b => ⟨c, e, par, b, a⟩

variable {e : Entry} {par a' b : Ptr} {c' : Color}

@[simp]
lemma make_child : (make d c e par a b).child d = a := by cases d <;> rfl

@[simp]
lemma make_child_flip : (make d c e par a b).child d.flip = b := by cases d <;> rfl

@[simp]
lemma make_flip_child : (make d.flip c e par a b).child d = b := by cases d <;> rfl

@[simp]
lemma make_color : (make d c e par a b).color = c := by cases d <;> rfl

@[simp]
lemma make_entry : (make d c e par a b).entry = e := by cases d <;> rfl

@[simp]
lemma make_p : (make d c e par a b).p = par := by cases d <;> rfl

@[simp]
lemma make_setChild : (make d c e par a b).setChild d a' = make d c e par a' b := by
  cases d <;> rfl

@[simp]
lemma make_setChild_flip : (make d c e par a b).setChild d.flip a' = make d c e par a a' := by
  cases d <;> rfl

@[simp]
lemma make_setP : (make d c e par a b).setP a' = make d c e a' a b := by cases d <;> rfl

@[simp]
lemma make_setColor : (make d c e par a b).setColor c' = make d c' e par a b := by cases d <;> rfl

@[simp]
lemma make_setAddr {v : ℕ} :
    (make d c e par a b).setAddr v = make d c { e with addr := v } par a b := by cases d <;> rfl

@[simp]
lemma make_setData {v : ℕ} {q : Mrw} : (make d c e par a b).setData v q =
    make d c { e with hndl := v, prop := q } par a b := by cases d <;> rfl

/-- The side on which a child is, by a comparison with the left child. -/
lemma side_eq (h : a ≠ b) :
    (if a = (make d c e par a b).left then Dir.left else Dir.right) = d := by
  cases d with
  | left => simp [make]
  | right => simp [make, h]

end MrNode

/-- The memory with the nodes, and `rndzv_mr_tree_root`. -/
structure MrTree where
  mem : Ptr → Option MrNode
  root : Ptr

namespace MrTree

/-- The tree before the first region is registered: there is only `nilnode`, the other fields of
which are zero. -/
def init : MrTree where
  mem a := if a = nilnode then some ⟨.black, ⟨0, 0, ⟨0, 0, 0, 0, 0, 0, 0⟩⟩, 0, 0, 0⟩ else none
  root := nilnode

/-- Stores the node `n` at `a`. -/
def set (h : MrTree) (a : Ptr) (n : MrNode) : MrTree :=
  { h with mem := Function.update h.mem a (some n) }

/-- Changes the node at `a`; there is no result if there is no node. -/
def modify (h : MrTree) (a : Ptr) (f : MrNode → MrNode) : Option MrTree :=
  (h.mem a).map fun n => h.set a (f n)

/-- Sets the parent of `a`, unless `a` is `nilnode`. -/
def setParent (h : MrTree) (a par : Ptr) : Option MrTree :=
  if a ≠ nilnode then h.modify a (·.setP par) else some h

/-- Puts `b` in the place of `a` under the node `par`, or at the root if `par` is `nilnode`; the
child on side `d` is compared first. -/
def relink (d : Dir) (h : MrTree) (par a b : Ptr) : Option MrTree :=
  if par = nilnode then some { h with root := b }
  else do
    let p ← h.mem par
    if a = p.child d then h.modify par (·.setChild d b) else h.modify par (·.setChild d.flip b)

/-- The rotation that moves `node` to side `d`: `left_rotate`, and `right_rotate` with the sides
exchanged. -/
def rotate (d : Dir) (h : MrTree) (node : Ptr) : Option MrTree := do
  let n ← h.mem node
  let child := n.child d.flip
  let c ← h.mem child
  let h ← h.modify node (·.setChild d.flip (c.child d))
  let h ← h.setParent (c.child d) node
  let n ← h.mem node
  let h ← h.modify child (·.setP n.p)
  let h ← h.relink d n.p node child
  let h ← h.modify child (·.setChild d node)
  h.modify node (·.setP child)

/-- `left_rotate`. -/
def leftRotate : MrTree → Ptr → Option MrTree := rotate .left

/-- `right_rotate`. -/
def rightRotate : MrTree → Ptr → Option MrTree := rotate .right

section Shape

open ColorTree

/-- A tree with the addresses of its nodes. -/
abbrev Shape := ColorTree (Ptr × Entry)

variable {mem mem' : Ptr → Option MrNode} {par par' q q' a : Ptr} {s t u : Shape}
  {x y : Ptr × Entry} {c k : Color} {d : Dir} {f : Frame (Ptr × Entry)}
  {ctx : List (Frame (Ptr × Entry))}

/-- The address of the root of a tree. -/
def addrOf : Shape → Ptr
  | .nil => nilnode
  | .node _ _ x _ => x.1

@[simp]
lemma addrOf_nil : addrOf .nil = nilnode := rfl

@[simp]
lemma addrOf_node : addrOf (.node c s x t) = x.1 := rfl

@[simp]
lemma addrOf_branch : addrOf (branch d c s x t) = x.1 := by cases d <;> rfl

/-- The addresses of the nodes of a tree. -/
def ids (t : Shape) : List Ptr := t.toList.map Prod.fst

@[simp]
lemma ids_nil : ids .nil = [] := rfl

lemma mem_ids_branch : a ∈ ids (branch d c s x t) ↔ a = x.1 ∨ a ∈ ids s ∨ a ∈ ids t := by
  cases d <;> simp [ids] <;> tauto

lemma mem_ids_node : a ∈ ids (.node c s x t) ↔ a = x.1 ∨ a ∈ ids s ∨ a ∈ ids t :=
  mem_ids_branch (d := .left)

lemma addrOf_mem_ids : t = .nil ∨ addrOf t ∈ ids t := by
  cases t with
  | nil => exact Or.inl rfl
  | node c l x r => exact Or.inr (mem_ids_node.2 (Or.inl rfl))

/-- The node above the hole of a context. -/
def parentOf : List (Frame (Ptr × Entry)) → Ptr
  | [] => nilnode
  | f :: _ => f.val.1

@[simp]
lemma parentOf_nil : parentOf [] = nilnode := rfl

@[simp]
lemma parentOf_cons : parentOf (f :: ctx) = f.val.1 := rfl

/-- The addresses of the nodes of a context. -/
def ctxIds : List (Frame (Ptr × Entry)) → List Ptr
  | [] => []
  | f :: ctx => f.val.1 :: (ids f.sib ++ ctxIds ctx)

@[simp]
lemma ctxIds_nil : ctxIds [] = [] := rfl

@[simp]
lemma ctxIds_cons : ctxIds (f :: ctx) = f.val.1 :: (ids f.sib ++ ctxIds ctx) := rfl

lemma ctxIds_append (ctx₁ ctx₂ : List (Frame (Ptr × Entry))) :
    ctxIds (ctx₁ ++ ctx₂) = ctxIds ctx₁ ++ ctxIds ctx₂ := by
  induction ctx₁ with
  | nil => rfl
  | cons f ctx₁ ih => simp [ih]

lemma ids_branch_perm : (ids (branch d c s x t)).Perm (x.1 :: (ids s ++ ids t)) := by
  simpa [ids] using (toList_branch_perm (d := d) (c := c) (s := s) (x := x) (t := t)).map Prod.fst

lemma ids_plug_perm (t : Shape) (ctx : List (Frame (Ptr × Entry))) :
    (ids (plug t ctx)).Perm (ids t ++ ctxIds ctx) := by
  induction ctx generalizing t with
  | nil => simp
  | cons f ctx ih =>
    refine (ih _).trans ((ids_branch_perm.append_right _).trans ?_)
    simpa using List.perm_middle.symm

/-- The nodes of `t` are in memory, linked as in `t`, the root below `par`. -/
def Holds (mem : Ptr → Option MrNode) : Ptr → Shape → Prop
  | _, .nil => True
  | par, .node c l x r =>
    mem x.1 = some (.make .left c x.2 par (addrOf l) (addrOf r)) ∧
      Holds mem x.1 l ∧ Holds mem x.1 r

@[simp]
lemma holds_nil : Holds mem par .nil := trivial

lemma holds_branch : Holds mem par (branch d c s x t) ↔
    mem x.1 = some (.make d c x.2 par (addrOf s) (addrOf t)) ∧
      Holds mem x.1 s ∧ Holds mem x.1 t := by
  cases d with
  | left => exact Iff.rfl
  | right => exact and_congr_right fun _ => and_comm

/-- The nodes of a context are in memory, and the hole is filled with `q`. -/
def HoldsCtx (mem : Ptr → Option MrNode) : Ptr → List (Frame (Ptr × Entry)) → Prop
  | _, [] => True
  | q, f :: ctx =>
    mem f.val.1 = some (.make f.dir f.color f.val.2 (parentOf ctx) q (addrOf f.sib)) ∧
      Holds mem f.val.1 f.sib ∧ HoldsCtx mem f.val.1 ctx

@[simp]
lemma holdsCtx_nil : HoldsCtx mem q [] := trivial

lemma holdsCtx_cons : HoldsCtx mem q (f :: ctx) ↔
    mem f.val.1 = some (.make f.dir f.color f.val.2 (parentOf ctx) q (addrOf f.sib)) ∧
      Holds mem f.val.1 f.sib ∧ HoldsCtx mem f.val.1 ctx := Iff.rfl

lemma holds_plug : Holds mem nilnode (plug t ctx) ↔
    Holds mem (parentOf ctx) t ∧ HoldsCtx mem (addrOf t) ctx := by
  induction ctx generalizing t with
  | nil => simp
  | cons f ctx ih =>
    rw [plug_cons, ih, holds_branch, holdsCtx_cons, addrOf_branch, parentOf_cons]
    tauto

/-- Only the memory at the nodes of a tree counts. -/
lemma Holds.congr (h : Holds mem par t) (hmem : ∀ a ∈ ids t, mem' a = mem a) :
    Holds mem' par t := by
  induction t generalizing par with
  | nil => trivial
  | node c l x r ihl ihr =>
    obtain ⟨hx, hl, hr⟩ := h
    refine ⟨?_, ihl hl fun a ha => ?_, ihr hr fun a ha => ?_⟩
    · rw [hmem _ (mem_ids_node.2 (Or.inl rfl)), hx]
    · exact hmem a (mem_ids_node.2 (Or.inr (Or.inl ha)))
    · exact hmem a (mem_ids_node.2 (Or.inr (Or.inr ha)))

lemma HoldsCtx.congr (h : HoldsCtx mem q ctx) (hmem : ∀ a ∈ ctxIds ctx, mem' a = mem a) :
    HoldsCtx mem' q ctx := by
  induction ctx generalizing q with
  | nil => trivial
  | cons f ctx ih =>
    obtain ⟨hf, hs, hctx⟩ := h
    refine ⟨?_, hs.congr fun a ha => ?_, ih hctx fun a ha => ?_⟩
    · rw [hmem _ (by simp), hf]
    · exact hmem a (by simp [ha])
    · exact hmem a (by simp [ha])

/-- Another parent for the root of a tree. -/
lemma Holds.reparent (h : Holds mem par t) (hnd : (ids t).Nodup)
    (hmem : ∀ a ∈ ids t, a ≠ addrOf t → mem' a = mem a)
    (hroot : t ≠ .nil → mem' (addrOf t) = (mem (addrOf t)).map (·.setP par')) :
    Holds mem' par' t := by
  cases t with
  | nil => trivial
  | node c l x r =>
    obtain ⟨hx, hl, hr⟩ := h
    have hnd' := ids_branch_perm (d := .left) (c := c) (s := l) (x := x) (t := r) |>.nodup_iff.1 hnd
    rw [List.nodup_cons, List.mem_append, not_or] at hnd'
    refine ⟨?_, hl.congr fun a ha => ?_, hr.congr fun a ha => ?_⟩
    · have hroot := hroot (by simp)
      rw [addrOf_node] at hroot
      rw [hroot, hx]
      rfl
    · refine hmem a (mem_ids_node.2 (Or.inr (Or.inl ha))) ?_
      rintro rfl
      exact hnd'.1.1 ha
    · refine hmem a (mem_ids_node.2 (Or.inr (Or.inr ha))) ?_
      rintro rfl
      exact hnd'.1.2 ha

/-- The memory of `h` holds the tree `t`, with distinct addresses, below a black `nilnode`; at the
addresses that are not in `t` it is `m`. -/
structure Rep (m : Ptr → Option MrNode) (h : MrTree) (t : Shape) : Prop where
  holds : Holds h.mem nilnode t
  root : h.root = addrOf t
  nodup : (ids t).Nodup
  nil_not_mem : nilnode ∉ ids t
  rest : ∀ a ∉ ids t, h.mem a = m a
  nil_black : ∃ n, m nilnode = some n ∧ n.color = .black

variable {m m' : Ptr → Option MrNode} {h h' : MrTree}

lemma Rep.mem_branch (hr : Rep m h (plug (branch d c s x t) ctx)) :
    h.mem x.1 = some (.make d c x.2 (parentOf ctx) (addrOf s) (addrOf t)) :=
  (holds_branch.1 (holds_plug.1 hr.holds).1).1

lemma Rep.mem_nilnode (hr : Rep m h t) : ∃ n, h.mem nilnode = some n ∧ n.color = .black := by
  rw [hr.rest _ hr.nil_not_mem]
  exact hr.nil_black

lemma Rep.nodup_plug (hr : Rep m h (plug t ctx)) : (ids t ++ ctxIds ctx).Nodup :=
  (ids_plug_perm t ctx).nodup_iff.1 hr.nodup

lemma Rep.nodup_branch (hr : Rep m h (plug (branch d c s x t) ctx)) :
    (x.1 :: (ids s ++ ids t) ++ ctxIds ctx).Nodup :=
  (ids_branch_perm.append_right _).nodup_iff.1 hr.nodup_plug

/-- The address of the root of the whole tree, with `q` in the hole. -/
def rootOf (q : Ptr) : List (Frame (Ptr × Entry)) → Ptr
  | [] => q
  | f :: ctx => rootOf f.val.1 ctx

@[simp]
lemma rootOf_nil : rootOf q [] = q := rfl

@[simp]
lemma rootOf_cons : rootOf q (f :: ctx) = rootOf f.val.1 ctx := rfl

lemma addrOf_plug (t : Shape) (ctx : List (Frame (Ptr × Entry))) :
    addrOf (plug t ctx) = rootOf (addrOf t) ctx := by
  induction ctx generalizing t with
  | nil => rfl
  | cons f ctx ih => rw [plug_cons, ih, addrOf_branch, rootOf_cons]

lemma rootOf_mem (hctx : ctx ≠ []) (q : Ptr) : rootOf q ctx ∈ ctxIds ctx := by
  induction ctx generalizing q with
  | nil => exact absurd rfl hctx
  | cons f ctx ih =>
    cases ctx with
    | nil => simp
    | cons g ctx =>
      have hroot := ih (by simp) f.val.1
      rw [rootOf_cons, ctxIds_cons]
      exact List.mem_cons_of_mem _ (List.mem_append_right _ hroot)

/-- The root is reached exactly if nothing is above the node. -/
lemma Rep.eq_root_iff (hr : Rep m h (plug (branch d c s x t) ctx)) : x.1 = h.root ↔ ctx = [] := by
  rw [hr.root, addrOf_plug, addrOf_branch]
  constructor
  · intro hx
    by_contra hctx
    have hnd := hr.nodup_branch
    rw [List.cons_append, List.nodup_cons, hx] at hnd
    exact hnd.1 (List.mem_append_right _ (rootOf_mem hctx _))
  · rintro rfl
    rfl

/-- Another tree of the same nodes, after a change to these nodes. -/
lemma Rep.change (hr : Rep m h t) (hperm : (ids u).Perm (ids t)) (hholds : Holds h'.mem nilnode u)
    (hroot : h'.root = addrOf u) (hrest : ∀ a ∉ ids t, h'.mem a = h.mem a) : Rep m h' u where
  holds := hholds
  root := hroot
  nodup := hperm.nodup_iff.2 hr.nodup
  nil_not_mem hn := hr.nil_not_mem (hperm.mem_iff.1 hn)
  rest a ha := by
    rw [hperm.mem_iff] at ha
    rw [hrest a ha, hr.rest a ha]
  nil_black := hr.nil_black

@[simp]
lemma set_root {n : MrNode} : (h.set a n).root = h.root := rfl

@[simp]
lemma set_mem {n : MrNode} : (h.set a n).mem a = some n := Function.update_self _ _ _

lemma set_mem_of_ne {n : MrNode} {b : Ptr} (hb : b ≠ a) : (h.set a n).mem b = h.mem b :=
  Function.update_of_ne hb _ _

lemma modify_eq {n : MrNode} (hn : h.mem a = some n) (f : MrNode → MrNode) :
    h.modify a f = some (h.set a (f n)) := by
  simp [modify, hn]

/-- The memory at the nodes of the tree does not count for the rest. -/
lemma Rep.frame_congr (hr : Rep m h t) (hm : ∀ a ∉ ids t, m' a = m a) : Rep m' h t where
  holds := hr.holds
  root := hr.root
  nodup := hr.nodup
  nil_not_mem := hr.nil_not_mem
  rest a ha := by rw [hm a ha, hr.rest a ha]
  nil_black := by
    rw [hm _ hr.nil_not_mem]
    exact hr.nil_black

/-- A change outside the tree. -/
lemma Rep.set_of_not_mem {n : MrNode} (hr : Rep m h t) (ha : a ∉ ids t) (han : a ≠ nilnode) :
    Rep (Function.update m a (some n)) (h.set a n) t where
  holds := hr.holds.congr fun b hb => set_mem_of_ne (ne_of_mem_of_not_mem hb ha)
  root := hr.root
  nodup := hr.nodup
  nil_not_mem := hr.nil_not_mem
  rest b hb := by
    by_cases hab : b = a
    · subst hab
      simp
    · rw [set_mem_of_ne hab, Function.update_of_ne hab, hr.rest b hb]
  nil_black := by
    rw [Function.update_of_ne (Ne.symm han)]
    exact hr.nil_black

/-- A change to the colour and the entry of one node. -/
lemma Rep.modify {g : MrNode → MrNode} {e : Entry} (hr : Rep m h (plug (branch d c s x t) ctx))
    (hg : ∀ p a b, g (.make d c x.2 p a b) = .make d k e p a b) :
    ∃ h', h.modify x.1 g = some h' ∧ Rep m h' (plug (branch d k s (x.1, e) t) ctx) := by
  have hperm : (ids (branch d k s (x.1, e) t)).Perm (ids (branch d c s x t)) :=
    ids_branch_perm.trans (ids_branch_perm (x := x)).symm
  refine ⟨_, modify_eq hr.mem_branch _, hr.change ?_ ?_ ?_ ?_⟩
  · exact (ids_plug_perm _ _).trans ((hperm.append_right _).trans (ids_plug_perm _ _).symm)
  · obtain ⟨hb, hctx⟩ := holds_plug.1 hr.holds
    obtain ⟨-, hs, ht⟩ := holds_branch.1 hb
    have hnd := hr.nodup_branch
    simp only [List.cons_append, List.nodup_cons, List.mem_append, not_or] at hnd
    refine holds_plug.2 ⟨holds_branch.2 ⟨by rw [set_mem, hg], ?_, ?_⟩, ?_⟩
    · exact hs.congr fun a ha => set_mem_of_ne (ne_of_mem_of_not_mem ha hnd.1.1.1)
    · exact ht.congr fun a ha => set_mem_of_ne (ne_of_mem_of_not_mem ha hnd.1.1.2)
    · rw [addrOf_branch] at hctx ⊢
      exact hctx.congr fun a ha => set_mem_of_ne (ne_of_mem_of_not_mem ha hnd.1.2)
  · simp [hr.root, addrOf_plug]
  · intro a ha
    refine set_mem_of_ne ?_
    rintro rfl
    exact ha ((ids_plug_perm _ _).mem_iff.2
      (List.mem_append_left _ (mem_ids_branch.2 (Or.inl rfl))))

/-- A node of the tree gets another colour. -/
lemma Rep.setColor (hr : Rep m h (plug (branch d c s x t) ctx)) (k : Color) :
    ∃ h', h.modify x.1 (·.setColor k) = some h' ∧ Rep m h' (plug (branch d k s x t) ctx) :=
  hr.modify fun _ _ _ => MrNode.make_setColor

/-- The node above the hole gets the pointer `q'`. -/
lemma HoldsCtx.setHole (hctx : HoldsCtx h.mem q (f :: ctx)) (hnd : (ctxIds (f :: ctx)).Nodup)
    (q' : Ptr) :
    ∃ h', h.modify f.val.1 (·.setChild f.dir q') = some h' ∧ HoldsCtx h'.mem q' (f :: ctx) ∧
      h'.root = h.root ∧ ∀ a ∉ ctxIds (f :: ctx), h'.mem a = h.mem a := by
  obtain ⟨hf, hs, hctx⟩ := hctx
  simp only [ctxIds_cons, List.nodup_cons, List.mem_append, not_or] at hnd
  refine ⟨_, modify_eq hf _, holdsCtx_cons.2 ⟨by simp, hs.congr fun a ha => ?_,
    hctx.congr fun a ha => ?_⟩, rfl, fun a ha => ?_⟩
  · exact set_mem_of_ne (ne_of_mem_of_not_mem ha hnd.1.1)
  · exact set_mem_of_ne (ne_of_mem_of_not_mem ha hnd.1.2)
  · exact set_mem_of_ne fun hax => ha (by simp [hax])

/-- The pointer to the hole is exchanged. -/
lemma relink_spec (hctx : HoldsCtx h.mem q ctx) (hroot : h.root = rootOf q ctx)
    (hq : q ≠ nilnode) (hqc : q ∉ ctxIds ctx) (hnd : (ctxIds ctx).Nodup)
    (hn : nilnode ∉ ctxIds ctx) (d : Dir) (q' : Ptr) :
    ∃ h', h.relink d (parentOf ctx) q q' = some h' ∧ HoldsCtx h'.mem q' ctx ∧
      h'.root = rootOf q' ctx ∧ ∀ a ∉ ctxIds ctx, h'.mem a = h.mem a := by
  cases ctx with
  | nil => exact ⟨{ h with root := q' }, by simp [relink], trivial, rfl, fun _ _ => rfl⟩
  | cons f ctx =>
    obtain ⟨h', hmod, hctx', hroot', hmem⟩ := hctx.setHole hnd q'
    refine ⟨h', ?_, hctx', hroot'.trans hroot, hmem⟩
    simp only [ctxIds_cons, List.mem_cons, List.mem_append, not_or] at hqc hn
    have hsib : addrOf f.sib ≠ q := by
      rcases addrOf_mem_ids (t := f.sib) with hsib | hsib
      · simpa [hsib] using hq.symm
      · exact ne_of_mem_of_not_mem hsib hqc.2.1
    simp only [relink, parentOf_cons, if_neg (Ne.symm hn.1), hctx.1, Option.bind_eq_bind,
      Option.bind_some]
    by_cases hd : d = f.dir
    · subst hd
      simpa using hmod
    · obtain rfl : d = f.dir.flip := by
        revert hd
        cases d <;> cases f.dir <;> simp
      rwa [MrNode.make_child_flip, if_neg hsib.symm, Dir.flip_flip]

/-- The root of a subtree, if there is one, gets another parent. -/
lemma Holds.setParent (hs : Holds h.mem par s) (hnd : (ids s).Nodup) (hn : nilnode ∉ ids s)
    (par' : Ptr) :
    ∃ h', h.setParent (addrOf s) par' = some h' ∧ Holds h'.mem par' s ∧ h'.root = h.root ∧
      ∀ a ∉ ids s, h'.mem a = h.mem a := by
  cases s with
  | nil => exact ⟨h, by simp [MrTree.setParent], trivial, rfl, fun _ _ => rfl⟩
  | node c l x r =>
    have hx : x.1 ≠ nilnode := fun hx => hn (mem_ids_node.2 (Or.inl hx.symm))
    rw [MrTree.setParent, addrOf_node, if_pos hx, modify_eq hs.1]
    refine ⟨_, rfl, hs.reparent hnd (fun a _ ha => set_mem_of_ne ha) fun _ => ?_, rfl,
      fun a ha => set_mem_of_ne ?_⟩
    · simp [hs.1]
    · rintro rfl
      exact ha (mem_ids_node.2 (Or.inl rfl))

/-- A rotation of the memory is a rotation of the tree. -/
lemma Rep.rotate {s₁ s₂ : Shape}
    (hr : Rep m h (plug (branch d c s x (branch d k s₁ y s₂)) ctx)) :
    ∃ h', h.rotate d x.1 = some h' ∧
      Rep m h' (plug (branch d k (branch d c s x s₁) y s₂) ctx) := by
  have hperm : (ids (plug (branch d c s x (branch d k s₁ y s₂)) ctx)).Perm
      (x.1 :: (ids s ++ y.1 :: (ids s₁ ++ ids s₂)) ++ ctxIds ctx) :=
    (ids_plug_perm _ _).trans ((ids_branch_perm.trans
      ((List.Perm.append_left _ ids_branch_perm).cons _)).append_right _)
  have hperm' : (ids (plug (branch d k (branch d c s x s₁) y s₂) ctx)).Perm
      (x.1 :: (ids s ++ y.1 :: (ids s₁ ++ ids s₂)) ++ ctxIds ctx) := by
    refine (ids_plug_perm _ _).trans (List.Perm.append_right _ ?_)
    refine (ids_branch_perm.trans ((ids_branch_perm.append_right _).cons _)).trans ?_
    simp only [List.cons_append, List.append_assoc]
    exact (List.Perm.swap _ _ _).trans (List.perm_middle.symm.cons _)
  have hnd := hperm.nodup_iff.1 hr.nodup
  have hnil : nilnode ∉ x.1 :: (ids s ++ y.1 :: (ids s₁ ++ ids s₂)) ++ ctxIds ctx :=
    fun hn => hr.nil_not_mem (hperm.mem_iff.2 hn)
  simp only [List.cons_append, List.append_assoc, List.nodup_cons, List.mem_append, List.mem_cons,
    List.nodup_append, not_or] at hnd hnil
  obtain ⟨⟨hxs, hxy, hxs₁, hxs₂, hxc⟩, hs, ⟨⟨hys₁, hys₂, hyc⟩, hs₁, ⟨hs₂, hc, hs₂c⟩, hs₁'⟩, hs'⟩ :=
    hnd
  obtain ⟨hnx, hns, hny, hns₁, hns₂, hnc⟩ := hnil
  obtain ⟨hb, hctx⟩ := holds_plug.1 hr.holds
  obtain ⟨hx, hhs, hb⟩ := holds_branch.1 hb
  obtain ⟨hy, hhs₁, hhs₂⟩ := holds_branch.1 hb
  rw [addrOf_branch] at hx hctx
  -- the parent pointer of `s₁`
  have e₁ := modify_eq hx (·.setChild d.flip (addrOf s₁))
  rw [MrNode.make_setChild_flip] at e₁
  set h₁ := h.set x.1 (.make d c x.2 (parentOf ctx) (addrOf s) (addrOf s₁)) with h₁def
  have hm₁ : ∀ a, a ≠ x.1 → h₁.mem a = h.mem a := fun a ha => set_mem_of_ne ha
  obtain ⟨h₂, e₂, hhs₁', hroot₂, hm₂⟩ := (hhs₁.congr fun a ha =>
    hm₁ a (ne_of_mem_of_not_mem ha hxs₁)).setParent hs₁ hns₁ x.1
  have hx₂ : h₂.mem x.1 = some (.make d c x.2 (parentOf ctx) (addrOf s) (addrOf s₁)) := by
    rw [hm₂ _ hxs₁, set_mem]
  have hy₂ : h₂.mem y.1 = some (.make d k y.2 x.1 (addrOf s₁) (addrOf s₂)) := by
    rw [hm₂ _ hys₁, hm₁ _ (Ne.symm hxy), hy]
  -- the pointers from and to the node above
  have e₃ := modify_eq hy₂ (·.setP (parentOf ctx))
  rw [MrNode.make_setP] at e₃
  set h₃ := h₂.set y.1 (.make d k y.2 (parentOf ctx) (addrOf s₁) (addrOf s₂)) with h₃def
  have hm₃ : ∀ a, a ≠ y.1 → h₃.mem a = h₂.mem a := fun a ha => set_mem_of_ne ha
  have hctx₃ : HoldsCtx h₃.mem x.1 ctx := hctx.congr fun a ha => by
    rw [hm₃ _ (ne_of_mem_of_not_mem ha hyc), hm₂ _ fun h => hs₁' _ h _ (Or.inr ha) rfl,
      hm₁ _ (ne_of_mem_of_not_mem ha hxc)]
  have hroot₃ : h₃.root = rootOf x.1 ctx := by
    rw [set_root, hroot₂, set_root, hr.root, addrOf_plug, addrOf_branch]
  obtain ⟨h₄, e₄, hctx₄, hroot₄, hm₄⟩ :=
    relink_spec hctx₃ hroot₃ (Ne.symm hnx) hxc hc hnc d y.1
  -- the pointers between the two nodes
  have hy₄ : h₄.mem y.1 = some (.make d k y.2 (parentOf ctx) (addrOf s₁) (addrOf s₂)) := by
    rw [hm₄ _ hyc, set_mem]
  have hx₄ : h₄.mem x.1 = some (.make d c x.2 (parentOf ctx) (addrOf s) (addrOf s₁)) := by
    rw [hm₄ _ hxc, hm₃ _ hxy, hx₂]
  have e₅ := modify_eq hy₄ (·.setChild d x.1)
  rw [MrNode.make_setChild] at e₅
  set h₅ := h₄.set y.1 (.make d k y.2 (parentOf ctx) x.1 (addrOf s₂)) with h₅def
  have hx₅ : h₅.mem x.1 = some (.make d c x.2 (parentOf ctx) (addrOf s) (addrOf s₁)) := by
    rw [set_mem_of_ne hxy, hx₄]
  have e₆ := modify_eq hx₅ (·.setP y.1)
  rw [MrNode.make_setP] at e₆
  have hm₆ : ∀ n a, a ≠ x.1 → a ≠ y.1 → (h₅.set x.1 n).mem a = h₄.mem a := fun n a hax hay => by
    rw [set_mem_of_ne hax, set_mem_of_ne hay]
  have hm : ∀ n a, a ∉ x.1 :: (ids s ++ y.1 :: (ids s₁ ++ ids s₂)) ++ ctxIds ctx →
      (h₅.set x.1 n).mem a = h.mem a := fun n a ha => by
    simp only [List.cons_append, List.append_assoc, List.mem_cons, List.mem_append, not_or] at ha
    obtain ⟨hax, -, hay, has₁, -, hac⟩ := ha
    rw [hm₆ _ _ hax hay, hm₄ _ hac, hm₃ _ hay, hm₂ _ has₁, hm₁ _ hax]
  refine ⟨h₅.set x.1 (.make d c x.2 y.1 (addrOf s) (addrOf s₁)), ?_, ?_⟩
  · simp only [MrTree.rotate, hx, hy, MrNode.make_child, MrNode.make_child_flip, e₁, e₂, hx₂,
      MrNode.make_p, e₃, e₄, e₅, e₆, Option.bind_eq_bind, Option.bind_some]
  refine hr.change (hperm'.trans hperm.symm) ?_ ?_ fun a ha => hm _ _ fun h =>
    ha (hperm.mem_iff.2 h)
  · refine holds_plug.2 ⟨holds_branch.2 ⟨?_, holds_branch.2 ⟨set_mem, ?_, ?_⟩, ?_⟩, ?_⟩
    · rw [addrOf_branch, set_mem_of_ne (Ne.symm hxy), set_mem]
    · exact hhs.congr fun a ha => by
        have hax := ne_of_mem_of_not_mem ha hxs
        have hay : a ≠ y.1 := fun h => hs' _ ha _ (Or.inl h) rfl
        rw [hm₆ _ _ hax hay, hm₄ _ fun h => hs' _ ha _ (by simp [h]) rfl, hm₃ _ hay,
          hm₂ _ fun h => hs' _ ha _ (by simp [h]) rfl, hm₁ _ hax]
    · exact hhs₁'.congr fun a ha => by
        have hay := ne_of_mem_of_not_mem ha hys₁
        rw [hm₆ _ _ (ne_of_mem_of_not_mem ha hxs₁) hay, hm₄ _ fun h => hs₁' _ ha _ (by simp [h]) rfl,
          hm₃ _ hay]
    · exact hhs₂.congr fun a ha => by
        have hax := ne_of_mem_of_not_mem ha hxs₂
        have hay := ne_of_mem_of_not_mem ha hys₂
        rw [hm₆ _ _ hax hay, hm₄ _ fun h => hs₂c _ ha _ h rfl, hm₃ _ hay,
          hm₂ _ fun h => hs₁' _ h _ (Or.inl ha) rfl, hm₁ _ hax]
    · rw [addrOf_branch]
      exact hctx₄.congr fun a ha => hm₆ _ _ (ne_of_mem_of_not_mem ha hxc)
        (ne_of_mem_of_not_mem ha hyc)
  · rw [set_root, set_root, hroot₄, addrOf_plug, addrOf_branch]

/-- The node above a tree, with the tree and its sibling as children. -/
lemma Rep.mem_parent (hr : Rep m h (plug t (f :: ctx))) : h.mem f.val.1 =
    some (.make f.dir f.color f.val.2 (parentOf ctx) (addrOf t) (addrOf f.sib)) :=
  Rep.mem_branch (plug_cons ▸ hr)

/-- The colour that the code reads at a subtree; the empty tree is at `nilnode`. -/
lemma Rep.color_at (hr : Rep m h (plug t ctx)) :
    ∃ n, h.mem (addrOf t) = some n ∧ n.color = t.color := by
  cases t with
  | nil => exact hr.mem_nilnode
  | node c l x r =>
    have hx : h.mem x.1 = some (.make .left c x.2 (parentOf ctx) (addrOf l) (addrOf r)) :=
      hr.mem_branch (d := .left)
    exact ⟨_, hx, rfl⟩

lemma Rep.color_sib (hr : Rep m h (plug t (f :: ctx))) :
    ∃ n, h.mem (addrOf f.sib) = some n ∧ n.color = f.sib.color := by
  rw [plug_sib] at hr
  exact hr.color_at

/-- A node is not its own sibling. -/
lemma Rep.ne_sib (hr : Rep m h (plug (branch d c s x t) (f :: ctx))) : x.1 ≠ addrOf f.sib := by
  rcases addrOf_mem_ids (t := f.sib) with hsib | hsib
  · intro hx
    rw [hsib, addrOf_nil] at hx
    exact hr.nil_not_mem ((ids_plug_perm _ _).mem_iff.2 (by simp [mem_ids_branch, hx]))
  · have hnd := hr.nodup_branch
    rw [List.cons_append, List.nodup_cons] at hnd
    intro hx
    refine hnd.1 (List.mem_append_right _ ?_)
    rw [hx, ctxIds_cons]
    exact List.mem_cons_of_mem _ (List.mem_append_left _ hsib)

end Shape

end MrTree

end NetPipe.Vapi
