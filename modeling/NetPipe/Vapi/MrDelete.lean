import NetPipe.Vapi.MrInsert

/-!
# Neighbours and deletion

The walks to the next node in the order of the addresses, and `rb_delete` with its loop, which
moves a tree that is too short up until a rotation or a red node makes up for it.
-/

namespace NetPipe.Vapi.MrTree

/-- The last node from `node` to side `d`; no result if there are more than `n` nodes. -/
def outermost (d : Dir) (h : MrTree) : ℕ → Ptr → Option Ptr
  | 0, _ => none
  | n + 1, node => do
    let nd ← h.mem node
    if nd.child d ≠ nilnode then outermost d h n (nd.child d) else some node

/-- `tree_minimum`. -/
def treeMinimum : MrTree → ℕ → Ptr → Option Ptr := outermost .left

/-- `tree_maximum`. -/
def treeMaximum : MrTree → ℕ → Ptr → Option Ptr := outermost .right

/-- The way up from `node` as long as it comes from side `d`. -/
def climb (d : Dir) (h : MrTree) : ℕ → Ptr → Ptr → Option Ptr
  | 0, _, _ => none
  | n + 1, node, par =>
    if par = nilnode then some par
    else do
      let p ← h.mem par
      if node = p.child d then climb d h n par p.p else some par

/-- The next node to side `d`, or `nilnode`. -/
def neighbour (d : Dir) (h : MrTree) (n : ℕ) (node : Ptr) : Option Ptr := do
  let nd ← h.mem node
  if nd.child d ≠ nilnode then outermost d.flip h n (nd.child d) else climb d h n node nd.p

/-- `tree_successor`. -/
def treeSuccessor : MrTree → ℕ → Ptr → Option Ptr := neighbour .right

/-- `tree_predecessor`. -/
def treePredecessor : MrTree → ℕ → Ptr → Option Ptr := neighbour .left

/-- The first step of `rb_delete_fixup` for a node on side `d`: a red sibling is rotated above the
parent. -/
def fixupRed (d : Dir) (h : MrTree) (node : Ptr) : Option MrTree := do
  let n ← h.mem node
  let p ← h.mem n.p
  let s ← h.mem (p.child d.flip)
  if s.color = .red then do
    let h ← h.modify (p.child d.flip) (·.setColor .black)
    let h ← h.modify n.p (·.setColor .red)
    h.rotate d n.p
  else some h

/-- The second step: a red child of the sibling on side `d` is rotated above the sibling, if the
other child is black. -/
def fixupNear (d : Dir) (h : MrTree) (sibling : Ptr) : Option MrTree := do
  let s ← h.mem sibling
  let far ← h.mem (s.child d.flip)
  if far.color = .black then do
    let h ← h.modify (s.child d) (·.setColor .black)
    let h ← h.modify sibling (·.setColor .red)
    h.rotate d.flip sibling
  else some h

/-- The last step: the sibling takes the place of the parent. -/
def fixupFar (d : Dir) (h : MrTree) (node : Ptr) : Option MrTree := do
  let n ← h.mem node
  let p ← h.mem n.p
  let sibling := p.child d.flip
  let h ← h.modify sibling (·.setColor p.color)
  let h ← h.modify n.p (·.setColor .black)
  let s ← h.mem sibling
  let h ← h.modify (s.child d.flip) (·.setColor .black)
  h.rotate d n.p

/-- The rest of a round, with a black sibling: it becomes red if its children are black, and the
parent is next; otherwise the rotations end the loop at the root. -/
def fixupBlack (d : Dir) (h : MrTree) (node : Ptr) : Option (MrTree × Ptr) := do
  let n ← h.mem node
  let p ← h.mem n.p
  let sibling := p.child d.flip
  let s ← h.mem sibling
  let near ← h.mem (s.child d)
  let far ← h.mem (s.child d.flip)
  if near.color = .black ∧ far.color = .black then do
    let h ← h.modify sibling (·.setColor .red)
    some (h, n.p)
  else do
    let h ← h.fixupNear d sibling
    let h ← h.fixupFar d node
    some (h, h.root)

/-- One round of the loop of `rb_delete_fixup` for a node on side `d`. -/
def fixupTurn (d : Dir) (h : MrTree) (node : Ptr) : Option (MrTree × Ptr) := do
  let h ← h.fixupRed d node
  h.fixupBlack d node

/-- `rb_delete_fixup`; it has no result after `k` rounds. -/
def rbDeleteFixup : ℕ → MrTree → Ptr → Option MrTree
  | 0, _, _ => none
  | k + 1, h, node => do
    let n ← h.mem node
    if node ≠ h.root ∧ n.color = .black then do
      let p ← h.mem n.p
      let (h, node) ← h.fixupTurn (if node = p.left then .left else .right) node
      rbDeleteFixup k h node
    else h.modify node (·.setColor .black)

/-- The node that `rb_delete` splices out. -/
def spliced (n : ℕ) (h : MrTree) (delnode : Ptr) : Option Ptr := do
  let del ← h.mem delnode
  if del.left = nilnode ∨ del.right = nilnode then some delnode else h.treeSuccessor n delnode

/-- The part of `rb_delete` that moves the address of the spliced node to `delnode`, and handle and
properties of `delnode` to the spliced node. -/
def moveEntry (h : MrTree) (splicenode delnode : Ptr) : Option MrTree :=
  if splicenode ≠ delnode then do
    let s ← h.mem splicenode
    let h ← h.modify delnode (·.setAddr s.entry.addr)
    let d ← h.mem delnode
    h.modify splicenode (·.setData d.entry.hndl d.entry.prop)
  else some h

/-- `rb_delete`, with the node that is spliced out. -/
def rbDelete (n : ℕ) (h : MrTree) (delnode : Ptr) : Option (MrTree × Ptr) := do
  let splicenode ← h.spliced n delnode
  let s ← h.mem splicenode
  let tmpnode := if s.left ≠ nilnode then s.left else s.right
  let h ← h.modify tmpnode (·.setP s.p)
  let h ← h.relink .left s.p splicenode tmpnode
  let h ← h.moveEntry splicenode delnode
  if s.color = .black then do
    let h ← h.rbDeleteFixup n tmpnode
    some (h, splicenode)
  else some (h, splicenode)

/-- `free`. -/
def free (h : MrTree) (a : Ptr) : MrTree := { h with mem := Function.update h.mem a none }

/-- `persist_mr_del`; it exits if the address is not in the tree. -/
def persistMrDel (n : ℕ) (h : MrTree) (addr : ℕ) : Option (MrTree × ℕ × Mrw) := do
  let node ← h.treeSearch addr n h.root
  if node = nilnode then none
  else do
    let nd ← h.mem node
    let (h, splicenode) ← h.rbDelete n node
    some (h.free splicenode, nd.entry.hndl, nd.entry.prop)

/-- `persist_mr_delrand`: takes the first node out, `none` if the tree is empty. -/
def persistMrDelrand (n : ℕ) (h : MrTree) : Option (MrTree × Option Entry) := do
  if h.root = nilnode then some (h, none)
  else do
    let node ← h.treeMinimum n h.root
    let nd ← h.mem node
    let (h, splicenode) ← h.rbDelete n node
    some (h.free splicenode, some nd.entry)

/-- The loop of `ib_cleanup` that takes out what is left in the tree, with what `f` does for each
entry; no result after `k` rounds. -/
def drainMr {σ : Type} (f : σ → Entry → σ) (n : ℕ) : ℕ → MrTree → σ → Option (MrTree × σ)
  | 0, _, _ => none
  | k + 1, h, s => do
    let (h, e) ← h.persistMrDelrand n
    match e with
    | none => some (h, s)
    | some e => drainMr f n k h (f s e)

/-- The loop of `tree_print` from `node` on, with the entries that it prints. -/
def printFrom (n : ℕ) (h : MrTree) : ℕ → Ptr → Option (List Entry)
  | 0, _ => none
  | k + 1, node =>
    if node = nilnode then some []
    else do
      let nd ← h.mem node
      let next ← h.treeSuccessor n node
      let es ← printFrom n h k next
      some (nd.entry :: es)

/-- `tree_print`. -/
def treePrint (n k : ℕ) (h : MrTree) : Option (List Entry) :=
  if h.root ≠ nilnode then (h.treeMinimum n h.root).bind (h.printFrom n k) else some []

section Neighbour

open ColorTree

variable {s t : Shape} {x : Ptr × Entry} {c : Color} {d : Dir} {par : Ptr}
  {ctx : List (Frame (Ptr × Entry))} {m : Ptr → Option MrNode} {h : MrTree} {n : ℕ}

lemma addrOf_eq_nilnode_iff (hn : nilnode ∉ ids t) : addrOf t = nilnode ↔ t = .nil := by
  constructor
  · intro ht
    rcases addrOf_mem_ids (t := t) with rfl | hid
    · rfl
    · exact absurd (ht ▸ hid) hn
  · rintro rfl
    rfl

/-- The address of the first node of a list, or `nilnode`. -/
def headAddr : List (Ptr × Entry) → Ptr
  | [] => nilnode
  | x :: _ => x.1

@[simp]
lemma headAddr_cons {l : List (Ptr × Entry)} : headAddr (x :: l) = x.1 := rfl

/-- The walk to side `d` ends at the outermost node: nothing of the tree is on that side of it. -/
lemma outermost_eq (hh : Holds h.mem par t) (ht : t ≠ .nil) (hnil : nilnode ∉ ids t)
    (hn : t.height ≤ n) :
    ∃ c z u ctx, t = plug (branch d c .nil z u) ctx ∧ afterFrom d.flip ctx = [] ∧
      h.outermost d n (addrOf t) = some z.1 := by
  induction n generalizing t par with
  | zero =>
    cases t with
    | nil => exact absurd rfl ht
    | node c l x r =>
      rw [height_node] at hn
      omega
  | succ n ih =>
    cases t with
    | nil => exact absurd rfl ht
    | node c l x r =>
      obtain ⟨s, u, hb⟩ := exists_branch d c l x r
      rw [hb] at hh hnil hn ⊢
      obtain ⟨hx, hs, -⟩ := holds_branch.1 hh
      rw [height_branch] at hn
      simp only [mem_ids_branch, not_or] at hnil
      rw [outermost, addrOf_branch, hx, Option.bind_eq_bind, Option.bind_some,
        MrNode.make_child]
      by_cases hs' : s = .nil
      · subst hs'
        exact ⟨c, x, u, [], rfl, by cases d <;> rfl, if_neg (by simp)⟩
      · have haddr : addrOf s ≠ nilnode := by
          rw [ne_eq, addrOf_eq_nilnode_iff hnil.2.1]
          exact hs'
        rw [if_pos haddr]
        obtain ⟨c', z, u', ctx, rfl, hctx, he⟩ := ih hs hs' hnil.2.1 (by omega)
        refine ⟨c', z, u', ctx ++ [⟨d, c, x, u⟩], ?_, ?_, he⟩
        · rw [plug_append]
          rfl
        · rw [afterFrom_append, hctx]
          cases d <;> rfl

/-- The walk up from the last node of a subtree ends at the next node of the context. -/
lemma Rep.climb {d' : Dir} (hr : Rep m h (plug (branch d' c s x t) ctx)) (hn : ctx.length < n) :
    h.climb d.flip n x.1 (parentOf ctx) = some (headAddr (afterFrom d ctx)) := by
  induction ctx generalizing d' c s x t n with
  | nil =>
    cases n with
    | zero => simp at hn
    | succ n => cases d <;> rfl
  | cons f ctx ih =>
    cases n with
    | zero => simp at hn
    | succ n =>
      have hf : f.val.1 ≠ nilnode := fun hf =>
        hr.nil_not_mem ((ids_plug_perm _ _).mem_iff.2 (by simp [hf]))
      rw [MrTree.climb, parentOf_cons, if_neg hf, hr.mem_parent, addrOf_branch, Option.bind_eq_bind,
        Option.bind_some, MrNode.make_p]
      have hne := hr.ne_sib
      obtain ⟨d₁, c₁, y, u⟩ := f
      by_cases hd : d₁ = d
      · subst hd
        rw [MrNode.make_child_flip, if_neg hne, afterFrom_same]
        rfl
      · obtain rfl : d₁ = d.flip := by
          revert hd
          cases d₁ <;> cases d <;> simp
        rw [MrNode.make_child, if_pos rfl, afterFrom_flip]
        exact ih (plug_cons ▸ hr) (by simpa using hn)

/-- The walk to the neighbour of a node ends at the next node in the order from the other side. -/
lemma Rep.neighbour (hr : Rep m h (plug (branch d c s x t) ctx))
    (hn : (plug (branch d c s x t) ctx).height < n) :
    h.neighbour d.flip n x.1 = some (headAddr (toListFrom d t ++ afterFrom d ctx)) := by
  have hlen := height_add_length_le (branch d c s x t) ctx
  rw [height_branch] at hlen
  have hnil : nilnode ∉ ids t := fun ht => hr.nil_not_mem
    ((ids_plug_perm _ _).mem_iff.2 (List.mem_append_left _ (mem_ids_branch.2 (by simp [ht]))))
  rw [MrTree.neighbour, hr.mem_branch, Option.bind_eq_bind, Option.bind_some,
    MrNode.make_child_flip, MrNode.make_p, Dir.flip_flip]
  by_cases ht : t = .nil
  · subst ht
    rw [if_neg (by simp), toListFrom_nil, List.nil_append]
    exact hr.climb (by omega)
  · have haddr : addrOf t ≠ nilnode := by
      rw [ne_eq, addrOf_eq_nilnode_iff hnil]
      exact ht
    have hh : Holds h.mem x.1 t := (holds_branch.1 (holds_plug.1 hr.holds).1).2.2
    obtain ⟨c', z, u, ctx', rfl, hctx', he⟩ := outermost_eq (d := d) (n := n) hh ht hnil (by omega)
    rw [if_pos haddr, he, toListFrom_plug, hctx', toListFrom_branch]
    simp

end Neighbour

section Fixup

open ColorTree

variable {a b s t u : Shape} {x y z : Ptr × Entry} {c k : Color} {d : Dir}
  {f : Frame (Ptr × Entry)} {ctx : List (Frame (Ptr × Entry))} {m : Ptr → Option MrNode}
  {h : MrTree} {n i : ℕ} {e : Entry}

/-- The parent pointer is right, also where the tree is empty. -/
def ParentSet (m : Ptr → Option MrNode) (t : Shape) (ctx : List (Frame (Ptr × Entry))) : Prop :=
  t = .nil → ∃ nd, m nilnode = some nd ∧ nd.p = parentOf ctx

lemma parentSet_branch : ParentSet m (branch d c s x t) ctx := by
  intro h
  cases d <;> cases h

lemma Rep.parent_at (hr : Rep m h (plug t ctx)) (hp : ParentSet m t ctx) :
    ∃ nd, h.mem (addrOf t) = some nd ∧ nd.color = t.color ∧ nd.p = parentOf ctx := by
  cases t with
  | nil =>
    obtain ⟨nd, hnd, hpar⟩ := hp rfl
    obtain ⟨nd', hnd', hc⟩ := hr.nil_black
    rw [hnd] at hnd'
    cases hnd'
    exact ⟨nd, by rw [addrOf_nil, hr.rest _ hr.nil_not_mem, hnd], hc, hpar⟩
  | node c l x r => exact ⟨_, hr.mem_branch (d := .left), rfl, MrNode.make_p⟩

lemma Rep.fixupRed (hr : Rep m h (plug t (⟨d, c, x, branch d .red s y u⟩ :: ctx)))
    (hp : ParentSet m t (⟨d, c, x, branch d .red s y u⟩ :: ctx)) :
    ∃ h', h.fixupRed d (addrOf t) = some h' ∧
      Rep m h' (plug t (⟨d, .red, x, s⟩ :: ⟨d, .black, y, u⟩ :: ctx)) := by
  obtain ⟨nd, hnd, -, hpar⟩ := hr.parent_at hp
  have hx := hr.mem_parent
  rw [plug_sib] at hr
  have hy := hr.mem_branch
  obtain ⟨h₁, e₁, hr₁⟩ := hr.setColor .black
  rw [plug_cons, branch_flip] at hr₁
  obtain ⟨h₂, e₂, hr₂⟩ := hr₁.setColor .red
  obtain ⟨h₃, e₃, hr₃⟩ := hr₂.rotate
  refine ⟨h₃, ?_, hr₃⟩
  simp only [MrTree.fixupRed, hnd, hpar, parentOf_cons, hx, hy, MrNode.make_child_flip,
    addrOf_branch, MrNode.make_color, e₁, e₂, e₃, Option.bind_eq_bind, Option.bind_some,
    ↓reduceIte]

lemma Rep.fixupRed_black (hr : Rep m h (plug t (f :: ctx))) (hp : ParentSet m t (f :: ctx))
    (hf : f.sib.color = .black) : h.fixupRed f.dir (addrOf t) = some h := by
  obtain ⟨nd, hnd, -, hpar⟩ := hr.parent_at hp
  obtain ⟨ns, hs, hc⟩ := hr.color_sib
  simp [MrTree.fixupRed, hnd, hpar, hr.mem_parent, hs, hc, hf]

/-- The sibling in the second step, with a red child on the side of the short tree. -/
lemma Rep.fixupNear
    (hr : Rep m h (plug t (⟨d, c, x, branch d .black (branch d .red a z b) y u⟩ :: ctx)))
    (hu : u.color = .black) :
    ∃ h', h.fixupNear d y.1 = some h' ∧
      Rep m h' (plug t (⟨d, c, x, branch d .black a z (branch d .red b y u)⟩ :: ctx)) := by
  rw [plug_sib] at hr
  have hy := hr.mem_branch
  have hr : Rep m h (plug (branch d .red a z b)
      (⟨d, .black, y, u⟩ :: ⟨d.flip, c, x, t⟩ :: ctx)) := hr
  obtain ⟨nu, hnu, hc⟩ := hr.color_sib
  obtain ⟨h₁, e₁, hr₁⟩ := hr.setColor .black
  rw [plug_cons] at hr₁
  obtain ⟨h₂, e₂, hr₂⟩ := hr₁.setColor .red
  have hr₂ : Rep m h₂ (plug (branch d.flip .red u y (branch d.flip .black b z a))
      (⟨d.flip, c, x, t⟩ :: ctx)) := by
    rw [branch_flip, branch_flip]
    exact hr₂
  obtain ⟨h₃, e₃, hr₃⟩ := hr₂.rotate
  rw [branch_flip, branch_flip, plug_sib, Dir.flip_flip] at hr₃
  refine ⟨h₃, ?_, hr₃⟩
  simp only [MrTree.fixupNear, hy, hnu, hc, hu, MrNode.make_child, MrNode.make_child_flip,
    addrOf_branch, e₁, e₂, e₃, Option.bind_eq_bind, Option.bind_some, ↓reduceIte]

lemma Rep.fixupNear_far (hr : Rep m h (plug t (⟨d, c, x, branch d .black s y u⟩ :: ctx)))
    (hu : u.color = .red) : h.fixupNear d y.1 = some h := by
  rw [plug_sib] at hr
  have hy := hr.mem_branch
  have hr : Rep m h (plug s (⟨d, .black, y, u⟩ :: ⟨d.flip, c, x, t⟩ :: ctx)) := hr
  obtain ⟨nu, hnu, hc⟩ := hr.color_sib
  simp [MrTree.fixupNear, hy, hnu, hc, hu]

/-- The last step, with a red child of the sibling on the far side. -/
lemma Rep.fixupFar (hr : Rep m h (plug t (⟨d, c, x, branch d .black s y u⟩ :: ctx)))
    (hp : ParentSet m t (⟨d, c, x, branch d .black s y u⟩ :: ctx)) (hu : u.color = .red) :
    ∃ h', h.fixupFar d (addrOf t) = some h' ∧
      Rep m h' (plug (branch d c (branch d .black t x s) y u.blacken) ctx) := by
  obtain ⟨nd, hnd, -, hpar⟩ := hr.parent_at hp
  have hx := hr.mem_parent
  rw [plug_sib] at hr
  obtain ⟨h₁, e₁, hr₁⟩ := hr.setColor c
  rw [plug_cons, branch_flip] at hr₁
  obtain ⟨h₂, e₂, hr₂⟩ := hr₁.setColor .black
  have hr₂ : Rep m h₂ (plug t (⟨d, .black, x, branch d c s y u⟩ :: ctx)) := hr₂
  rw [plug_sib] at hr₂
  have hy := hr₂.mem_branch
  have hr₂ : Rep m h₂ (plug s (⟨d, c, y, u⟩ :: ⟨d.flip, .black, x, t⟩ :: ctx)) := hr₂
  rw [plug_sib] at hr₂
  cases u with
  | nil => cases hu
  | node cu l w r =>
    obtain ⟨h₃, e₃, hr₃⟩ : ∃ h₃, h₂.modify w.1 (·.setColor .black) = some h₃ ∧
        Rep m h₃ (plug (branch .left .black l w r)
          (⟨d.flip, c, y, s⟩ :: ⟨d.flip, .black, x, t⟩ :: ctx)) := hr₂.setColor (d := .left) .black
    rw [plug_cons, branch_flip, plug_cons, branch_flip] at hr₃
    obtain ⟨h₄, e₄, hr₄⟩ := hr₃.rotate
    refine ⟨h₄, ?_, hr₄⟩
    simp only [MrTree.fixupFar, hnd, hpar, parentOf_cons, hx, hy, MrNode.make_child_flip,
      MrNode.make_color, addrOf_branch, addrOf_node, e₁, e₂, e₃, e₄, Option.bind_eq_bind,
      Option.bind_some]

/-- The children of the sibling, by their colours. -/
lemma Rep.color_children (hr : Rep m h (plug t (⟨d, c, x, branch d k s y u⟩ :: ctx))) :
    h.mem y.1 = some (.make d k y.2 x.1 (addrOf s) (addrOf u)) ∧
      (∃ n, h.mem (addrOf s) = some n ∧ n.color = s.color) ∧
      ∃ n, h.mem (addrOf u) = some n ∧ n.color = u.color := by
  rw [plug_sib] at hr
  have hr' : Rep m h (plug s (⟨d, k, y, u⟩ :: ⟨d.flip, c, x, t⟩ :: ctx)) := hr
  exact ⟨hr.mem_branch, hr'.color_at, hr'.color_sib⟩

/-- A sibling with black children: the parent is the next node. -/
lemma Rep.fixupBlack_up (hr : Rep m h (plug t (⟨d, c, x, branch d .black s y u⟩ :: ctx)))
    (hp : ParentSet m t (⟨d, c, x, branch d .black s y u⟩ :: ctx)) (hs : s.color = .black)
    (hu : u.color = .black) :
    ∃ h', h.fixupBlack d (addrOf t) = some (h', x.1) ∧
      Rep m h' (plug (branch d c t x (branch d .red s y u)) ctx) := by
  obtain ⟨nd, hnd, -, hpar⟩ := hr.parent_at hp
  have hx := hr.mem_parent
  obtain ⟨hy, ⟨ns, hns, hcs⟩, nu, hnu, hcu⟩ := hr.color_children
  rw [plug_sib] at hr
  obtain ⟨h₁, e₁, hr₁⟩ := hr.setColor .red
  rw [plug_cons, branch_flip] at hr₁
  refine ⟨h₁, ?_, hr₁⟩
  simp only [MrTree.fixupBlack, hnd, hpar, parentOf_cons, hx, hy, MrNode.make_child,
    MrNode.make_child_flip, addrOf_branch, hns, hnu, hcs, hcu, hs, hu, e₁, Option.bind_eq_bind,
    Option.bind_some, and_self, ↓reduceIte]

/-- A sibling with a red child: the rotations make the tree complete. -/
lemma Rep.fixupBlack_done (hr : Rep m h (plug t (⟨d, c, x, branch d .black s y u⟩ :: ctx)))
    (hp : ParentSet m t (⟨d, c, x, branch d .black s y u⟩ :: ctx)) (ht : RB t .black i)
    (hctx : Hole (⟨d, c, x, branch d .black s y u⟩ :: ctx) .black (i + 1))
    (hred : ¬ (s.color = .black ∧ u.color = .black)) :
    ∃ h' t', h.fixupBlack d (addrOf t) = some (h', h'.root) ∧ Rep m h' t' ∧
      (∃ j, RB t' .black j) ∧
      t'.toList = (plug t (⟨d, c, x, branch d .black s y u⟩ :: ctx)).toList := by
  obtain ⟨nd, hnd, -, hpar⟩ := hr.parent_at hp
  have hx := hr.mem_parent
  obtain ⟨hy, ⟨ns, hns, hcs⟩, nu, hnu, hcu⟩ := hr.color_children
  obtain ⟨hs, hu⟩ := hctx.sibling_children
  have hturn : h.fixupBlack d (addrOf t) = (h.fixupNear d y.1).bind fun h' =>
      (h'.fixupFar d (addrOf t)).bind fun h' => some (h', h'.root) := by
    simp only [MrTree.fixupBlack, hnd, hpar, parentOf_cons, hx, hy, MrNode.make_child,
      MrNode.make_child_flip, addrOf_branch, hns, hnu, hcs, hcu, Option.bind_eq_bind,
      Option.bind_some, if_neg hred]
  cases hku : u.color with
  | red =>
    rw [hku] at hu
    obtain ⟨h', e', hr'⟩ := hr.fixupFar hp hku
    refine ⟨h', _, ?_, hr', hctx.replace (ht.branch_black hs d x) hu.blacken_red d y,
      toList_plug_congr ?_ ctx⟩
    · simp [hturn, hr.fixupNear_far hku, e']
    · cases d <;> simp
  | black =>
    have hks : s.color = .red := by
      cases hk : s.color
      · rfl
      · exact absurd ⟨hk, hku⟩ hred
    rw [hks] at hs
    rw [hku] at hu
    obtain ⟨a, z, b, rfl, ha, hb⟩ := hs.exists_branch_red d
    obtain ⟨h₁, e₁, hr₁⟩ := hr.fixupNear hku
    obtain ⟨h', e', hr'⟩ := hr₁.fixupFar hp (by simp)
    rw [blacken_branch] at hr'
    refine ⟨h', _, ?_, hr', hctx.replace (ht.branch_black ha d x) (hb.branch_black hu d y) d z,
      toList_plug_congr ?_ ctx⟩
    · simp [hturn, e₁, e']
    · cases d <;> simp

/-- After the first step the sibling is black. -/
lemma Rep.fixupRed_spec (hr : Rep m h (plug t (f :: ctx))) (hp : ParentSet m t (f :: ctx))
    (hctx : Hole (f :: ctx) .black (i + 1)) :
    ∃ h' c s y u ctx', h.fixupRed f.dir (addrOf t) = some h' ∧
      Rep m h' (plug t (⟨f.dir, c, f.val, branch f.dir .black s y u⟩ :: ctx')) ∧
      Hole (⟨f.dir, c, f.val, branch f.dir .black s y u⟩ :: ctx') .black (i + 1) ∧
      (c = .red ∨ ctx' = ctx) ∧
      (plug t (⟨f.dir, c, f.val, branch f.dir .black s y u⟩ :: ctx')).toList =
        (plug t (f :: ctx)).toList := by
  obtain ⟨d, c, x, sib⟩ := f
  obtain ⟨k, s, y, u, rfl⟩ : ∃ k s y u, sib = branch d k s y u := hctx.exists_sibling
  cases k with
  | red =>
    obtain ⟨rfl, hs, hctx'⟩ := hctx.sibling_red
    obtain ⟨h', e', hr'⟩ := hr.fixupRed hp
    obtain ⟨k, s₁, w, s₂, rfl⟩ := hs.exists_branch d
    obtain rfl : k = .black := by simpa using hs.color_eq
    refine ⟨h', .red, s₁, w, s₂, _, e', hr', hctx', Or.inl rfl, ?_⟩
    cases d <;> exact toList_plug_congr (by simp) ctx
  | black =>
    exact ⟨h, c, s, y, u, ctx, hr.fixupRed_black hp (by simp), hr, hctx, Or.inr rfl, rfl⟩

/-- A node below the root is not the root. -/
lemma Rep.ne_root (hr : Rep m h (plug t (f :: ctx))) : addrOf t ≠ h.root := by
  have hroot : h.root ∈ ctxIds (f :: ctx) := by
    rw [hr.root, addrOf_plug]
    exact rootOf_mem (by simp) _
  intro ht
  rw [← ht] at hroot
  rcases addrOf_mem_ids (t := t) with rfl | hid
  · exact hr.nil_not_mem ((ids_plug_perm _ _).mem_iff.2 (List.mem_append_right _ hroot))
  · exact (List.disjoint_of_nodup_append hr.nodup_plug) hid hroot

/-- The assignment after the loop. -/
lemma Rep.blacken (hr : Rep m h (plug t ctx)) :
    ∃ h', h.modify (addrOf t) (·.setColor .black) = some h' ∧ Rep m h' (plug t.blacken ctx) := by
  cases t with
  | nil =>
    obtain ⟨nd, hnd, hc⟩ := hr.mem_nilnode
    have hset : h.set nilnode (nd.setColor .black) = h := by
      have hnd' : nd.setColor .black = nd := by
        rw [MrNode.setColor, ← hc]
      rw [hnd', MrTree.set, ← hnd, Function.update_eq_self]
    exact ⟨h, by rw [addrOf_nil, modify_eq hnd, hset], hr⟩
  | node c l x r => exact hr.setColor (d := .left) .black

/-- `rb_delete_fixup` ends with a red-black tree of the same nodes. -/
lemma Rep.rbDeleteFixup (hr : Rep m h (plug t ctx)) (hp : ParentSet m t ctx) (ht : Short t i)
    (hctx : Hole ctx .black (i + 1)) (hn : (if t.color = .red then 0 else ctx.length + 1) < n) :
    ∃ h' t', h.rbDeleteFixup n (addrOf t) = some h' ∧ Rep m h' t' ∧ (∃ j, RB t' .black j) ∧
      t'.toList = (plug t ctx).toList := by
  induction n generalizing h t ctx i with
  | zero => omega
  | succ n ih =>
    obtain ⟨nd, hnd, hcol, hpar⟩ := hr.parent_at hp
    cases hk : t.color with
    | red =>
      obtain ⟨h', e', hr'⟩ := hr.blacken
      refine ⟨h', _, ?_, hr', hctx.plug (ht.rb_of_red hk), toList_plug_congr (by simp) ctx⟩
      simp [MrTree.rbDeleteFixup, hnd, hcol, hk, e']
    | black =>
      have hrb := ht.rb_of_black hk
      cases ctx with
      | nil =>
        obtain ⟨h', e', hr'⟩ := hr.blacken
        refine ⟨h', _, ?_, hr', hrb.blacken, by simp⟩
        simp [MrTree.rbDeleteFixup, hnd, hr.root, e']
      | cons f ctx =>
        have hroot := hr.ne_root
        obtain ⟨h₁, c, s, y, u, ctx₁, e₁, hr₁, hctx₁, hor, hlist₁⟩ := hr.fixupRed_spec hp hctx
        have hp₁ : ParentSet m t (⟨f.dir, c, f.val, branch f.dir .black s y u⟩ :: ctx₁) := hp
        -- the comparison with the left child finds the side
        obtain ⟨k, s', y', u', hsib⟩ := hctx.exists_sibling
        have hne : addrOf t ≠ addrOf f.sib := by
          have hr' := hr
          rw [plug_sib, hsib] at hr'
          rw [hsib, addrOf_branch]
          exact hr'.ne_sib.symm
        have hside : (if addrOf t = (MrNode.make f.dir f.color f.val.2 (parentOf ctx) (addrOf t)
            (addrOf f.sib)).left then Dir.left else Dir.right) = f.dir := MrNode.side_eq hne
        have hturn : ∀ r, h₁.fixupBlack f.dir (addrOf t) = some r →
            h.rbDeleteFixup (n + 1) (addrOf t) = r.1.rbDeleteFixup n r.2 := by
          intro r hr₂
          simp only [MrTree.rbDeleteFixup, hnd, hcol, hk, hpar, parentOf_cons, hr.mem_parent, hside,
            fixupTurn, e₁, hr₂, hroot, Option.bind_eq_bind, Option.bind_some, ne_eq,
            not_false_eq_true, and_self, ↓reduceIte]
        rw [hk, if_neg (by simp), List.length_cons] at hn
        by_cases hb : s.color = .black ∧ u.color = .black
        · obtain ⟨h₂, e₂, hr₂⟩ := hr₁.fixupBlack_up hp₁ hb.1 hb.2
          obtain ⟨j, hshort, hctx₂⟩ := hctx₁.sibling_black hrb hb.1 hb.2
          obtain ⟨h', t', e', hr', hrb', hlist'⟩ := ih hr₂ parentSet_branch hshort hctx₂ (by
            rw [color_branch]
            split
            · omega
            · rw [hor.resolve_left ‹_›]
              omega)
          refine ⟨h', t', ?_, hr', hrb', hlist'.trans (Eq.trans ?_ hlist₁)⟩
          · rw [hturn _ e₂, ← e', addrOf_branch]
          · cases f.dir <;> exact toList_plug_congr (by simp) ctx₁
        · obtain ⟨h₂, t₂, e₂, hr₂, ⟨j, hrb₂⟩, hlist₂⟩ := hr₁.fixupBlack_done hp₁ hrb hctx₁ hb
          have hne₂ : t₂ ≠ .nil := by
            rintro rfl
            rw [plug_cons, toList_plug] at hlist₂
            cases hd : f.dir <;> simp [hd] at hlist₂
          obtain ⟨h', t', e', hr', hrb', hlist'⟩ := ih (t := t₂) hr₂
            (fun h => absurd h hne₂) (.of_black hrb₂) .top (by
              split
              · omega
              · rw [List.length_nil]
                omega)
          refine ⟨h', t', ?_, hr', hrb', hlist'.trans (hlist₂.trans hlist₁)⟩
          rw [hturn _ e₂, hr₂.root, e']

end Fixup

section Delete

open ColorTree

variable {l r s t u w : Shape} {x y z : Ptr × Entry} {c k : Color} {d : Dir} {par : Ptr}
  {f : Frame (Ptr × Entry)} {ctx : List (Frame (Ptr × Entry))} {m : Ptr → Option MrNode}
  {h : MrTree} {n i addr : ℕ} {e : Entry}

/-- The parent pointer of the tree that takes the place of its parent, or of `nilnode`. -/
lemma Holds.setP (hh : Holds h.mem par t) (hnd : (ids t).Nodup) (hn : nilnode ∉ ids t)
    (hnil : ∃ nd, h.mem nilnode = some nd ∧ nd.color = .black) (q : Ptr) :
    ∃ h', h.modify (addrOf t) (·.setP q) = some h' ∧ Holds h'.mem q t ∧ h'.root = h.root ∧
      (∀ a ∉ ids t, a ≠ nilnode → h'.mem a = h.mem a) ∧
      ∃ nd, h'.mem nilnode = some nd ∧ nd.color = .black ∧ (t = .nil → nd.p = q) := by
  obtain ⟨nd, hnd', hc⟩ := hnil
  cases t with
  | nil =>
    refine ⟨_, modify_eq hnd' _, trivial, rfl, fun a _ ha => set_mem_of_ne ha, _, set_mem, hc,
      fun _ => rfl⟩
  | node c l x r =>
    have hx : nilnode ≠ x.1 := fun hx => hn (mem_ids_node.2 (Or.inl hx))
    refine ⟨_, modify_eq hh.1 _, hh.reparent hnd (fun a _ ha => set_mem_of_ne ha) fun _ => ?_, rfl,
      fun a ha _ => set_mem_of_ne ?_, nd, by rw [set_mem_of_ne hx, hnd'], hc,
      fun h => by cases h⟩
    · simp [hh.1]
    · rintro rfl
      exact ha (mem_ids_node.2 (Or.inl rfl))

/-- A node with one subtree is taken out of the tree; its memory stays. -/
lemma Rep.splice (hr : Rep m h (plug (.node c l z r) ctx)) (hlr : l = .nil ∨ r = .nil) :
    ∃ nd h₁ h₂ m' w, h.mem z.1 = some nd ∧ nd.color = c ∧ nd.entry = z.2 ∧
      w = (if l = .nil then r else l) ∧
      addrOf w = (if nd.left ≠ nilnode then nd.left else nd.right) ∧
      h.modify (addrOf w) (·.setP nd.p) = some h₁ ∧
      h₁.relink .left nd.p z.1 (addrOf w) = some h₂ ∧
      Rep m' h₂ (plug w ctx) ∧ ParentSet m' w ctx ∧ m' z.1 = some nd ∧
      z.1 ∉ ids (plug w ctx) ∧ z.1 ≠ nilnode ∧ ∀ a ≠ nilnode, a ≠ z.1 → m' a = m a := by
  have hz : h.mem z.1 = some (.make .left c z.2 (parentOf ctx) (addrOf l) (addrOf r)) :=
    hr.mem_branch (d := .left)
  have hperm := ids_plug_perm (.node c l z r) ctx
  have hnd := hr.nodup_branch (d := .left)
  have hnil := mt hperm.mem_iff.2 hr.nil_not_mem
  obtain ⟨hb, hctx⟩ := holds_plug.1 hr.holds
  simp only [List.mem_append, mem_ids_node, not_or] at hnil
  -- the subtree that is left
  set w : Shape := if l = .nil then r else l with hw
  obtain ⟨hidw, hhw, haddr⟩ : ids l ++ ids r = ids w ∧ Holds h.mem z.1 w ∧
      addrOf w = if addrOf l ≠ nilnode then addrOf l else addrOf r := by
    simp only [ne_eq, addrOf_eq_nilnode_iff hnil.1.2.1, ite_not]
    by_cases hl : l = .nil
    · rw [hw, if_pos hl, if_pos hl]
      exact ⟨by simp [hl], hb.2.2, rfl⟩
    · rw [hw, if_neg hl, if_neg hl]
      exact ⟨by simp [hlr.resolve_left hl], hb.2.1, rfl⟩
  simp only [hidw, List.cons_append, List.nodup_cons, List.mem_append, not_or] at hnd
  obtain ⟨⟨hzw, hzc⟩, hwc⟩ := hnd
  have hwn : nilnode ∉ ids w := by
    rw [← hidw, List.mem_append, not_or]
    exact hnil.1.2
  obtain ⟨h₁, e₁, hhw₁, hroot₁, hm₁, nn, hnn, hnc, hnp⟩ :=
    hhw.setP hwc.of_append_left hwn hr.mem_nilnode (parentOf ctx)
  have hdisj := List.disjoint_of_nodup_append hwc
  have hctx₁ : HoldsCtx h₁.mem z.1 ctx := hctx.congr fun a ha =>
    hm₁ a (fun hw => hdisj hw ha) (ne_of_mem_of_not_mem ha hnil.2)
  have hz₁ : h₁.root = rootOf z.1 ctx := by
    rw [hroot₁, hr.root, addrOf_plug, addrOf_node]
  obtain ⟨h₂, e₂, hctx₂, hroot₂, hm₂⟩ := relink_spec hctx₁ hz₁ (Ne.symm hnil.1.1) hzc
    hwc.of_append_right hnil.2 .left (addrOf w)
  have hz₂ : h₂.mem z.1 = h.mem z.1 := by
    rw [hm₂ _ hzc, hm₁ _ hzw (Ne.symm hnil.1.1)]
  have hid : ∀ a, a ∈ ids (plug w ctx) ↔ a ∈ ids w ∨ a ∈ ctxIds ctx := fun a => by
    rw [(ids_plug_perm w ctx).mem_iff, List.mem_append]
  obtain ⟨m', hm'₁, hm'₂⟩ : ∃ m' : Ptr → Option MrNode,
      (∀ a, a = nilnode ∨ a = z.1 → m' a = h₂.mem a) ∧
        ∀ a, ¬ (a = nilnode ∨ a = z.1) → m' a = m a :=
    ⟨fun a => if a = nilnode ∨ a = z.1 then h₂.mem a else m a, fun a ha => if_pos ha,
      fun a ha => if_neg ha⟩
  have hnn' : m' nilnode = some nn := by
    rw [hm'₁ _ (Or.inl rfl), hm₂ _ hnil.2, hnn]
  refine ⟨_, h₁, h₂, m', w, hz, MrNode.make_color, MrNode.make_entry, rfl, haddr, ?_, ?_, ?_,
    fun hwnil => ⟨nn, hnn', hnp hwnil⟩, ?_, ?_, Ne.symm hnil.1.1, fun a han haz => hm'₂ a ?_⟩
  · rw [MrNode.make_p, e₁]
  · rw [MrNode.make_p, e₂]
  · refine ⟨holds_plug.2 ⟨hhw₁.congr fun a ha => hm₂ a (hdisj ha), hctx₂⟩, ?_, ?_, ?_,
      fun a ha => ?_, nn, hnn', hnc⟩
    · rw [hroot₂, addrOf_plug]
    · exact (ids_plug_perm w ctx).nodup_iff.2 hwc
    · rw [hid, not_or]
      exact ⟨hwn, hnil.2⟩
    · rw [hid, not_or] at ha
      by_cases hor : a = nilnode ∨ a = z.1
      · rw [hm'₁ a hor]
      · rw [hm'₂ a hor]
        rw [not_or] at hor
        rw [hm₂ _ ha.2, hm₁ _ ha.1 hor.1]
        refine hr.rest a fun hin => ?_
        have := hperm.mem_iff.1 hin
        rw [List.mem_append, mem_ids_node, ← List.mem_append, hidw] at this
        tauto
  · rw [hm'₁ _ (Or.inr rfl), hz₂, hz]
  · rw [hid, not_or]
    exact ⟨hzw, hzc⟩
  · rw [not_or]
    exact ⟨han, haz⟩

/-- The end of `rb_delete`, after the splice. -/
lemma Rep.fixup_spliced (hr : Rep m h (plug w ctx)) (hp : ParentSet m w ctx)
    (hrb : RB (plug (.node c l z r) ctx) .black i) (hlr : l = .nil ∧ w = r ∨ r = .nil ∧ w = l)
    (hn : ctx.length + 1 < n) (q : Ptr) :
    ∃ h' t', (if c = .black then (h.rbDeleteFixup n (addrOf w)).bind fun h => some (h, q)
        else some (h, q)) = some (h', q) ∧
      Rep m h' t' ∧ (∃ j, RB t' .black j) ∧ t'.toList = (plug w ctx).toList := by
  obtain ⟨k, j, hz, hctx⟩ := hrb.split
  rcases hz.splice hlr with ⟨rfl, rfl, hw⟩ | ⟨rfl, rfl, hw, rfl⟩
  · exact ⟨h, _, if_neg (by simp), hr, hctx.black_of_red.plug hw, rfl⟩
  · obtain ⟨h', t', e', hr', hrb', hlist⟩ := hr.rbDeleteFixup hp hw hctx (n := n) (by
      split
      · omega
      · exact hn)
    exact ⟨h', t', by rw [if_pos rfl, e', Option.bind_some], hr', hrb', hlist⟩

/-- `rb_delete` of a node with an empty subtree takes this node out. -/
lemma Rep.rbDelete_one (hr : Rep m h (plug (.node c l z r) ctx)) (hlr : l = .nil ∨ r = .nil)
    (hrb : RB (plug (.node c l z r) ctx) .black i) (hn : ctx.length + 1 < n) :
    ∃ h' m' t', h.rbDelete n z.1 = some (h', z.1) ∧ Rep m' h' t' ∧ (∃ j, RB t' .black j) ∧
      t'.toList = before ctx ++ (l.toList ++ r.toList) ++ after ctx ∧
      ∀ a ≠ nilnode, a ≠ z.1 → m' a = m a := by
  obtain ⟨nd, h₁, h₂, m', w, hz, hc, -, hw, haddr, e₁, e₂, hr₂, hp₂, -, -, -, hm'⟩ :=
    hr.splice hlr
  have hlr' : l = .nil ∧ w = r ∨ r = .nil ∧ w = l := by
    by_cases hl : l = .nil
    · exact Or.inl ⟨hl, by rw [hw, if_pos hl]⟩
    · exact Or.inr ⟨hlr.resolve_left hl, by rw [hw, if_neg hl]⟩
  obtain ⟨h', t', e', hr', hrb', hlist⟩ := hr₂.fixup_spliced hp₂ hrb hlr' hn z.1
  refine ⟨h', m', t', ?_, hr', hrb', ?_, hm'⟩
  · have hsp : h.spliced n z.1 = some z.1 := by
      have hz' : h.mem z.1 = some (.make .left c z.2 (parentOf ctx) (addrOf l) (addrOf r)) :=
        hr.mem_branch (d := .left)
      rw [hz'] at hz
      cases hz
      have hnil : (MrNode.make .left c z.2 (parentOf ctx) (addrOf l) (addrOf r)).left = nilnode ∨
          (MrNode.make .left c z.2 (parentOf ctx) (addrOf l) (addrOf r)).right = nilnode := by
        rcases hlr with rfl | rfl
        · exact Or.inl rfl
        · exact Or.inr rfl
      rw [spliced, hz', Option.bind_eq_bind, Option.bind_some, if_pos hnil]
    simp only [MrTree.rbDelete, hsp, hz, ← haddr, e₁, e₂, moveEntry, hc, e', ne_eq, not_true_eq_false,
      Option.bind_eq_bind, Option.bind_some, ↓reduceIte]
  · rw [hlist, toList_plug]
    rcases hlr' with ⟨rfl, rfl⟩ | ⟨rfl, rfl⟩ <;> simp

/-- The address of a spliced node goes to a node of the tree. -/
lemma Rep.moveEntry {q : Ptr} {nd : MrNode} (hr : Rep m h (plug (branch d c s x t) ctx))
    (hq : q ∉ ids (plug (branch d c s x t) ctx)) (hqn : q ≠ nilnode) (hmq : m q = some nd) :
    ∃ h' nd', h.moveEntry q x.1 = some h' ∧ Rep (Function.update m q (some nd')) h'
      (plug (branch d c s (x.1, { x.2 with addr := nd.entry.addr }) t) ctx) := by
  have hqx : q ≠ x.1 := fun hqx => hq ((ids_plug_perm _ _).mem_iff.2
    (List.mem_append_left _ (mem_ids_branch.2 (Or.inl hqx))))
  have hq₀ : h.mem q = some nd := by rw [hr.rest _ hq, hmq]
  obtain ⟨h₁, e₁, hr₁⟩ := hr.modify (g := (·.setAddr nd.entry.addr)) fun _ _ _ =>
    MrNode.make_setAddr
  have hq₁ : q ∉ ids (plug (branch d c s (x.1, { x.2 with addr := nd.entry.addr }) t) ctx) := by
    rw [(ids_plug_perm _ _).mem_iff, List.mem_append, mem_ids_branch] at hq ⊢
    exact hq
  have hmq₁ : h₁.mem q = some nd := by rw [hr₁.rest _ hq₁, hmq]
  have e₂ := modify_eq hmq₁ (·.setData x.2.hndl x.2.prop)
  refine ⟨_, nd.setData x.2.hndl x.2.prop, ?_, hr₁.set_of_not_mem hq₁ hqn⟩
  simp only [MrTree.moveEntry, if_pos hqx, hq₀, e₁, hr₁.mem_branch, MrNode.make_entry, e₂,
    Option.bind_eq_bind, Option.bind_some]

/-- `rb_delete` of a node with two subtrees takes the next node `z` out; the node that stays has the
address of `z`, and handle and properties as before. -/
lemma Rep.rbDelete_two (hr : Rep m h (plug (.node c l x r) ctx)) (hl : l ≠ .nil) (hr' : r ≠ .nil)
    (hrb : RB (plug (.node c l x r) ctx) .black i)
    (hn : (plug (.node c l x r) ctx).height + 1 < n) :
    ∃ h' m' t' z post, h.rbDelete n x.1 = some (h', z.1) ∧ Rep m' h' t' ∧
      (∃ j, RB t' .black j) ∧ r.toList ++ after ctx = z :: post ∧
      t'.toList = before ctx ++ l.toList ++ (x.1, { x.2 with addr := z.2.addr }) :: post ∧
      ∀ a ≠ nilnode, a ≠ z.1 → m' a = m a := by
  have hx : h.mem x.1 = some (.make .left c x.2 (parentOf ctx) (addrOf l) (addrOf r)) :=
    hr.mem_branch (d := .left)
  have hid : ∀ a, a ∈ ids l ∨ a ∈ ids r → a ∈ ids (plug (.node c l x r) ctx) := fun a ha =>
    (ids_plug_perm _ _).mem_iff.2 (List.mem_append_left _ (mem_ids_node.2 (Or.inr ha)))
  have hnl : nilnode ∉ ids l := fun hn => hr.nil_not_mem (hid _ (Or.inl hn))
  have hnr : nilnode ∉ ids r := fun hn => hr.nil_not_mem (hid _ (Or.inr hn))
  -- the next node is the first one of the right subtree
  have hsucc : h.treeSuccessor n x.1 = some (headAddr (r.toList ++ after ctx)) :=
    Rep.neighbour (d := .left) hr (by rw [branch_left]; omega)
  have hsp : h.spliced n x.1 = some (headAddr (r.toList ++ after ctx)) := by
    rw [spliced, hx, Option.bind_eq_bind, Option.bind_some, if_neg, hsucc]
    rintro (hnil | hnil)
    · exact hl ((addrOf_eq_nilnode_iff hnl).1 hnil)
    · exact hr' ((addrOf_eq_nilnode_iff hnr).1 hnil)
  have hh : Holds h.mem x.1 r := (holds_plug.1 hr.holds).1.2.2
  obtain ⟨k, z, u, ctx', rfl, hctx', -⟩ := outermost_eq (d := .left) hh hr' hnr le_rfl
  have hbef : before ctx' = [] := by simpa [afterFrom] using hctx'
  have hpost : (plug (branch .left k .nil z u) ctx').toList ++ after ctx =
      z :: (u.toList ++ (after ctx' ++ after ctx)) := by
    rw [toList_plug, hbef]
    simp
  rw [hpost, headAddr_cons] at hsp
  have hr₁ : Rep m h (plug (.node k .nil z u) (ctx' ++ ⟨.right, c, x, l⟩ :: ctx)) := by
    rw [plug_append]
    exact hr
  have hxz : x.1 ≠ z.1 := by
    have hnd := hr₁.nodup_branch (d := .left)
    rw [List.cons_append, List.nodup_cons] at hnd
    refine ne_of_mem_of_not_mem (List.mem_append_right _ ?_) hnd.1
    simp [ctxIds_append]
  obtain ⟨nd, h₁, h₂, m', w, hz, hc, he, hw, haddr, e₁, e₂, hr₂, hp₂, hmz, hzid, hzn, hm'⟩ :=
    hr₁.splice (Or.inl rfl)
  rw [if_pos rfl] at hw
  subst hw
  -- the address of `z` goes to the node of `x`
  rw [plug_append] at hr₂ hzid
  obtain ⟨h₃, nd', e₃, hr₃⟩ := Rep.moveEntry (d := .right) hr₂ hzid hzn hmz
  rw [he] at hr₃
  have hr₃ : Rep (Function.update m' z.1 (some nd')) h₃
      (plug w (ctx' ++ ⟨.right, c, (x.1, { x.2 with addr := z.2.addr }), l⟩ :: ctx)) := by
    rw [plug_append]
    exact hr₃
  have hp₃ : ParentSet (Function.update m' z.1 (some nd')) w
      (ctx' ++ ⟨.right, c, (x.1, { x.2 with addr := z.2.addr }), l⟩ :: ctx) := by
    intro hw
    obtain ⟨nn, hnn, hnp⟩ := hp₂ hw
    refine ⟨nn, by rw [Function.update_of_ne hzn.symm, hnn], hnp.trans ?_⟩
    cases ctx' <;> rfl
  obtain ⟨j, hrb'⟩ := hrb.plug_val (x.1, { x.2 with addr := z.2.addr })
  have hrb' : RB (plug (.node k .nil z w)
      (ctx' ++ ⟨.right, c, (x.1, { x.2 with addr := z.2.addr }), l⟩ :: ctx)) .black j := by
    rw [plug_append]
    exact hrb'
  have hlen : (ctx' ++ ⟨.right, c, (x.1, { x.2 with addr := z.2.addr }), l⟩ :: ctx).length + 1 <
      n := by
    have h₁ := height_add_length_le (.node k .nil z w) ctx'
    have h₂ := height_add_length_le (.node c l x (plug (branch .left k .nil z w) ctx')) ctx
    rw [height_node] at h₁ h₂
    rw [branch_left] at hn h₂
    rw [List.length_append, List.length_cons]
    omega
  obtain ⟨h', t', e', hr', hrb', hlist⟩ :=
    hr₃.fixup_spliced hp₃ hrb' (Or.inl ⟨rfl, rfl⟩) hlen z.1
  refine ⟨h', _, t', z, _, ?_, hr', hrb', hpost, ?_, fun a han haz => ?_⟩
  · simp only [MrTree.rbDelete, hsp, hz, ← haddr, e₁, e₂, e₃, hc, e', Option.bind_eq_bind,
      Option.bind_some]
  · rw [hlist, plug_append, toList_plug, toList_plug, hbef]
    simp
  · rw [Function.update_of_ne haz, hm' a han haz]

@[simp]
lemma free_mem {q : Ptr} : (h.free q).mem q = none := Function.update_self _ _ _

lemma free_mem_of_ne {a q : Ptr} (ha : a ≠ q) : (h.free q).mem a = h.mem a :=
  Function.update_of_ne ha _ _

/-- Memory outside the tree is freed. -/
lemma Rep.free {q : Ptr} (hr : Rep m h t) (hq : q ∉ ids t) (hqn : q ≠ nilnode) :
    Rep (Function.update m q none) (h.free q) t where
  holds := hr.holds.congr fun a ha => free_mem_of_ne (ne_of_mem_of_not_mem ha hq)
  root := hr.root
  nodup := hr.nodup
  nil_not_mem := hr.nil_not_mem
  rest a ha := by
    by_cases haq : a = q
    · rw [haq, free_mem, Function.update_self]
    · rw [free_mem_of_ne haq, Function.update_of_ne haq, hr.rest a ha]
  nil_black := by
    rw [Function.update_of_ne hqn.symm]
    exact hr.nil_black

/-- After the free there is no node outside the tree. -/
lemma Rep.stored_free {q : Ptr} {m' : Ptr → Option MrNode} (hr : Rep m' h t)
    (hm : ∀ a ≠ nilnode, m a = none) (hm' : ∀ a ≠ nilnode, a ≠ q → m' a = m a) (hq : q ∉ ids t)
    (hqn : q ≠ nilnode) (hsorted : Sorted key t) (hrb : ∃ j, RB t .black j) :
    Stored (h.free q) t := by
  refine ⟨⟨_, fun a ha => ?_, hr.free hq hqn⟩, hsorted, hrb⟩
  by_cases haq : a = q
  · rw [haq, Function.update_self]
  · rw [Function.update_of_ne haq, hm' a ha haq, hm a ha]

/-- What `rb_delete` does to the nodes, by the pointers of the node `x`: with an empty subtree the
node goes, otherwise the next one goes and leaves its address to `x`. -/
def Deleted (nd : MrNode) (pre post : List (Ptr × Entry)) (x : Ptr × Entry)
    (l : List (Ptr × Entry)) : Prop :=
  if nd.left = nilnode ∨ nd.right = nilnode then l = pre ++ post
  else ∃ z post', post = z :: post' ∧ l = pre ++ (x.1, { x.2 with addr := z.2.addr }) :: post'

/-- `rb_delete` and `free` keep the red-black search tree. -/
lemma Stored.rbDelete {pre post : List (Ptr × Entry)} (hs : Stored h t)
    (hx : t.toList = pre ++ x :: post) (hn : 2 * Nat.log 2 (t.toList.length + 1) + 1 < n) :
    ∃ h' t' q nd, h.rbDelete n x.1 = some (h', q) ∧ Stored (h'.free q) t' ∧
      h.mem x.1 = some nd ∧ Deleted nd pre post x t'.toList := by
  obtain ⟨m, hm, hr⟩ := hs.rep
  obtain ⟨i, hrb⟩ := hs.balanced
  have hheight := hrb.height_le_log
  have hsorted := sorted_iff.1 hs.sorted
  have hnd := hr.nodup
  obtain ⟨c, l, r, ctx, rfl, rfl, rfl⟩ := exists_plug_of_append hx
  have hmem : h.mem x.1 = some (.make .left c x.2 (parentOf ctx) (addrOf l) (addrOf r)) :=
    hr.mem_branch (d := .left)
  have hlen := height_add_length_le (.node c l x r) ctx
  have hid : ∀ a, a ∈ ids l ∨ a ∈ ids r → a ∈ ids (plug (.node c l x r) ctx) := fun a ha =>
    (ids_plug_perm _ _).mem_iff.2 (List.mem_append_left _ (mem_ids_node.2 (Or.inr ha)))
  have hl := addrOf_eq_nilnode_iff fun hn => hr.nil_not_mem (hid _ (Or.inl hn))
  have hr' := addrOf_eq_nilnode_iff fun hn => hr.nil_not_mem (hid _ (Or.inr hn))
  rw [hx] at hsorted
  rw [ids, hx] at hnd
  rw [height_node] at hlen
  have hid' : ∀ a, a ∈ ids (plug (.node c l x r) ctx) → a ≠ nilnode := fun a ha =>
    ne_of_mem_of_not_mem ha hr.nil_not_mem
  by_cases hlr : l = .nil ∨ r = .nil
  · obtain ⟨h', m', t', e', hrep, hrb', hlist, hm'⟩ := hr.rbDelete_one (n := n) hlr hrb (by omega)
    have hlist' : t'.toList = before ctx ++ l.toList ++ (r.toList ++ after ctx) := by
      simp [hlist]
    refine ⟨h', t', x.1, _, e', hrep.stored_free hm hm' ?_ (hid' _ ?_) ?_ hrb', hmem, ?_⟩
    · rw [ids, hlist', List.map_append]
      rw [List.map_append, List.map_cons, List.nodup_middle, List.nodup_cons] at hnd
      exact hnd.1
    · rw [ids, hx]
      simp
    · rw [sorted_iff, hlist', List.map_append]
      rw [List.map_append, List.map_cons] at hsorted
      exact hsorted.sublist ((List.sublist_cons_self _ _).append_left _)
    · have hnil : addrOf l = nilnode ∨ addrOf r = nilnode := hlr.imp hl.2 hr'.2
      rw [Deleted, hlist']
      exact (if_pos hnil).mpr rfl
  · rw [not_or] at hlr
    obtain ⟨h', m', t', z, post, e', hrep, hrb', hpost, hlist, hm'⟩ :=
      hr.rbDelete_two (n := n) hlr.1 hlr.2 hrb (by omega)
    rw [hpost] at hsorted hnd hx
    refine ⟨h', t', z.1, _, e', hrep.stored_free hm hm' ?_ (hid' _ ?_) ?_ hrb', hmem, ?_⟩
    · rw [ids, hlist]
      simp only [List.map_append, List.map_cons, List.nodup_append, List.nodup_cons,
        List.mem_cons] at hnd
      simp only [List.map_append, List.map_cons, List.mem_append, List.mem_cons]
      grind
    · rw [ids, hx]
      simp
    · rw [sorted_iff, hlist]
      simp only [List.map_append, List.map_cons] at hsorted ⊢
      exact hsorted.sublist ((List.sublist_cons_self _ _).append_left _)
    · have hnil : ¬ (addrOf l = nilnode ∨ addrOf r = nilnode) := by
        rw [hl, hr', not_or]
        exact hlr
      rw [Deleted, hpost, hlist]
      exact (if_neg hnil).mpr ⟨z, post, rfl, rfl⟩

lemma Stored.mem_node (hs : Stored h t) (hx : x ∈ t.toList) :
    x.1 ≠ nilnode ∧ ∃ nd, h.mem x.1 = some nd ∧ nd.entry = x.2 := by
  obtain ⟨m, -, hr⟩ := hs.rep
  obtain ⟨c, l, r, ctx, rfl⟩ := exists_plug_of_mem hx
  exact ⟨ne_of_mem_of_not_mem (List.mem_map_of_mem hx) hr.nil_not_mem, _,
    hr.mem_branch (d := .left), rfl⟩

/-- A tree of three regions in memory: the root has two subtrees. -/
def sample : MrTree where
  mem a :=
    if a = nilnode then init.mem nilnode
    else if a = 2 then some (.make .left .black (sampleEntry 64) nilnode 3 4)
    else if a = 3 then some (.make .left .red (sampleEntry 32) 2 nilnode nilnode)
    else if a = 4 then some (.make .left .red (sampleEntry 96) 2 nilnode nilnode)
    else none
  root := 2

/-- The tree in `sample`. -/
def sampleShape : Shape :=
  .node .black (.node .red .nil (3, sampleEntry 32) .nil) (2, sampleEntry 64)
    (.node .red .nil (4, sampleEntry 96) .nil)

lemma stored_sample : Stored sample sampleShape where
  rep := by
    refine ⟨init.mem, fun a ha => if_neg ha, ⟨rfl, ⟨rfl, trivial, trivial⟩, rfl, trivial, trivial⟩,
      rfl, by decide, by decide, fun a ha => ?_, ⟨_, rfl, rfl⟩⟩
    have ha : a ≠ 3 ∧ a ≠ 2 ∧ a ≠ 4 := by simpa [ids, sampleShape] using ha
    by_cases han : a = nilnode
    · rw [han]
      rfl
    · simp [sample, init, han, ha]
  sorted := by
    rw [sorted_iff]
    decide
  balanced := ⟨1, .black (.red .nil .nil) (.red .nil .nil)⟩

/-- `persist_mr_del` returns handle and properties of the region, keeps the tree a red-black search
tree and takes the address out of it. A node with two subtrees gets the address of the next node,
but keeps handle and properties of the region that was to be deleted. -/
lemma Stored.persistMrDel {pre post : List (Ptr × Entry)} (hs : Stored h t)
    (hx : t.toList = pre ++ x :: post) (hn : 2 * Nat.log 2 (t.toList.length + 1) + 1 < n) :
    ∃ h' t' nd, h.persistMrDel n x.2.addr = some (h', x.2.hndl, x.2.prop) ∧ Stored h' t' ∧
      h.mem x.1 = some nd ∧ Deleted nd pre post x t'.toList := by
  obtain ⟨h', t', q, nd, e', hs', hnd, hdel⟩ := hs.rbDelete hx hn
  have hmem : x ∈ t.toList := by simp [hx]
  obtain ⟨hxn, nd', hnd', hentry⟩ := hs.mem_node hmem
  obtain rfl : nd' = nd := Option.some.inj (hnd'.symm.trans hnd)
  have hsearch := hs.treeSearch_of_mem (n := n) hmem (by omega)
  refine ⟨_, t', nd', ?_, hs', hnd, hdel⟩
  simp only [MrTree.persistMrDel, hsearch, if_neg hxn, hnd, hentry, e',
    Option.bind_eq_bind, Option.bind_some]

example : ∃ h' t' nd, sample.persistMrDel 6 64 =
      some (h', 65, (sampleEntry 64).prop) ∧ Stored h' t' ∧ sample.mem 2 = some nd ∧
      Deleted nd [(3, sampleEntry 32)] [(4, sampleEntry 96)] (2, sampleEntry 64) t'.toList :=
  stored_sample.persistMrDel rfl (by decide)

/-- The minimum is the first node, and its left child is `nilnode`. -/
lemma Stored.treeMinimum {post : List (Ptr × Entry)} (hs : Stored h t)
    (hx : t.toList = x :: post) (hn : 2 * Nat.log 2 (t.toList.length + 1) < n) :
    h.root ≠ nilnode ∧ h.treeMinimum n h.root = some x.1 ∧
      ∃ nd, h.mem x.1 = some nd ∧ nd.left = nilnode := by
  obtain ⟨m, -, hr⟩ := hs.rep
  obtain ⟨i, hrb⟩ := hs.balanced
  have hne : t ≠ .nil := by
    rintro rfl
    simp at hx
  have hroot : h.root ≠ nilnode := by
    rw [hr.root, ne_eq, addrOf_eq_nilnode_iff hr.nil_not_mem]
    exact hne
  have hheight := hrb.height_le_log
  obtain ⟨c, z, u, ctx, rfl, hctx, he⟩ :=
    outermost_eq (d := .left) (n := n) hr.holds hne hr.nil_not_mem (by omega)
  have hbef : before ctx = [] := by simpa [afterFrom] using hctx
  rw [toList_plug, hbef] at hx
  obtain ⟨rfl, -⟩ : z = x ∧ _ := by simpa using hx
  exact ⟨hroot, by rw [hr.root, MrTree.treeMinimum, he], _, hr.mem_branch (d := .left), rfl⟩

lemma Stored.root_eq_nil (hs : Stored h t) (ht : t.toList = []) : h.root = nilnode := by
  obtain ⟨m, -, hr⟩ := hs.rep
  cases t with
  | nil => exact hr.root
  | node c l x r => simp at ht

/-- `persist_mr_delrand` takes the region with the least address out. -/
lemma Stored.persistMrDelrand {post : List (Ptr × Entry)} (hs : Stored h t)
    (hx : t.toList = x :: post) (hn : 2 * Nat.log 2 (t.toList.length + 1) + 1 < n) :
    ∃ h' t', h.persistMrDelrand n = some (h', some x.2) ∧ Stored h' t' ∧ t'.toList = post := by
  have hx' : t.toList = [] ++ x :: post := hx
  obtain ⟨h', t', q, nd, e', hs', hnd, hdel⟩ := hs.rbDelete hx' hn
  obtain ⟨hroot, hmin, nd', hnd', hleft⟩ := hs.treeMinimum (n := n) hx (by omega)
  obtain rfl : nd' = nd := Option.some.inj (hnd'.symm.trans hnd)
  obtain ⟨-, nd'', hnd'', hentry⟩ := hs.mem_node (x := x) (by simp [hx])
  obtain rfl : nd'' = nd' := Option.some.inj (hnd''.symm.trans hnd)
  rw [Deleted, if_pos (Or.inl hleft)] at hdel
  refine ⟨_, t', ?_, hs', hdel⟩
  simp only [MrTree.persistMrDelrand, if_neg hroot, hmin, hnd, hentry, e', Option.bind_eq_bind,
    Option.bind_some]

/-- The loop of `ib_cleanup` takes out each stored region once, in the order of the addresses, and
leaves no node in memory. -/
lemma Stored.drainMr {σ : Type} {k : ℕ} (f : σ → Entry → σ) (s : σ) (hs : Stored h t)
    (hn : 2 * Nat.log 2 (t.toList.length + 1) + 1 < n) (hk : t.toList.length < k) :
    ∃ h', h.drainMr f n k s = some (h', (t.toList.map Prod.snd).foldl f s) ∧ Stored h' .nil := by
  induction k generalizing h t s with
  | zero => omega
  | succ k ih =>
    cases hl : t.toList with
    | nil =>
      obtain rfl : t = .nil := by
        cases t with
        | nil => rfl
        | node c l x r => simp at hl
      refine ⟨h, ?_, hs⟩
      simp [MrTree.drainMr, MrTree.persistMrDelrand, hs.root_eq_nil rfl]
    | cons x post =>
      obtain ⟨h₁, t₁, e₁, hs₁, hl₁⟩ := hs.persistMrDelrand hl hn
      have hlog : Nat.log 2 (t₁.toList.length + 1) ≤ Nat.log 2 (t.toList.length + 1) :=
        Nat.log_mono_right (by simp [hl, hl₁])
      rw [hl, List.length_cons] at hk
      obtain ⟨h', e', hs'⟩ := ih (f s x.2) hs₁ (by omega) (by rw [hl₁]; omega)
      refine ⟨h', ?_, hs'⟩
      simp only [MrTree.drainMr, e₁, e', hl₁, List.map_cons, List.foldl_cons, Option.bind_eq_bind,
        Option.bind_some]

/-- `tree_successor` goes to the next node. -/
lemma Stored.treeSuccessor {pre post : List (Ptr × Entry)} (hs : Stored h t)
    (hx : t.toList = pre ++ x :: post) (hn : 2 * Nat.log 2 (t.toList.length + 1) < n) :
    h.treeSuccessor n x.1 = some (headAddr post) := by
  obtain ⟨m, -, hr⟩ := hs.rep
  obtain ⟨i, hrb⟩ := hs.balanced
  have hheight := hrb.height_le_log
  obtain ⟨c, l, r, ctx, rfl, -, rfl⟩ := exists_plug_of_append hx
  exact Rep.neighbour (d := .left) hr (by rw [branch_left]; omega)

lemma Stored.printFrom {k : ℕ} {pre l : List (Ptr × Entry)} (hs : Stored h t)
    (hx : t.toList = pre ++ l) (hn : 2 * Nat.log 2 (t.toList.length + 1) < n)
    (hk : l.length < k) : h.printFrom n k (headAddr l) = some (l.map Prod.snd) := by
  induction l generalizing pre k with
  | nil =>
    cases k with
    | zero => simp at hk
    | succ k => rfl
  | cons x post ih =>
    cases k with
    | zero => simp at hk
    | succ k =>
      obtain ⟨hxn, nd, hnd, hentry⟩ := hs.mem_node (x := x) (by simp [hx])
      have hx' : t.toList = (pre ++ [x]) ++ post := by simp [hx]
      have hrest := ih (k := k) hx' (by simpa using hk)
      simp only [MrTree.printFrom, headAddr_cons, if_neg hxn, hnd, hs.treeSuccessor hx hn, hrest,
        hentry, List.map_cons, Option.bind_eq_bind, Option.bind_some]

/-- `tree_print` prints each stored region once, in the order of the addresses. -/
lemma Stored.treePrint {k : ℕ} (hs : Stored h t)
    (hn : 2 * Nat.log 2 (t.toList.length + 1) < n) (hk : t.toList.length < k) :
    h.treePrint n k = some (t.toList.map Prod.snd) := by
  cases hl : t.toList with
  | nil => simp [MrTree.treePrint, hs.root_eq_nil hl]
  | cons x post =>
    obtain ⟨hroot, hmin, -⟩ := hs.treeMinimum hl hn
    rw [MrTree.treePrint, if_pos hroot, hmin, Option.bind_some, ← hl, ← headAddr_cons (l := post),
      ← hl]
    exact hs.printFrom (List.nil_append _).symm hn hk

end Delete

end NetPipe.Vapi.MrTree
