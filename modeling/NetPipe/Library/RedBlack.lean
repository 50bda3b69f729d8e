import Mathlib

/-!
# Red-black trees

Binary trees with coloured nodes, the contexts in which a subtree stands, the red-black invariant
of both, and the single steps by which an insertion or a deletion restores it.
-/

namespace NetPipe

/-- The colour of a node. -/
inductive Color
  | red
  | black
  deriving DecidableEq, Repr

/-- The two sides of a node. -/
inductive Dir
  | left
  | right
  deriving DecidableEq, Repr

/-- The other side. -/
def Dir.flip : Dir → Dir
  | left => right
  | right => left

@[simp]
lemma Dir.flip_left : Dir.left.flip = .right := rfl

@[simp]
lemma Dir.flip_right : Dir.right.flip = .left := rfl

@[simp]
lemma Dir.flip_flip (d : Dir) : d.flip.flip = d := by cases d <;> rfl

/-- A binary tree with coloured nodes. -/
inductive ColorTree (α : Type*)
  | nil
  | node (c : Color) (l : ColorTree α) (x : α) (r : ColorTree α)
  deriving DecidableEq, Repr

namespace ColorTree

variable {α β κ : Type*} {s t u a b : ColorTree α} {x y z : α} {c k : Color} {d : Dir} {n m : ℕ}

/-- The node with `s` on side `d` and `t` on the other side. -/
def branch : Dir → Color → ColorTree α → α → ColorTree α → ColorTree α
  | .left, c, s, x, t => node c s x t
  | .right, c, s, x, t => node c t x s

@[simp]
lemma branch_left : branch .left c s x t = node c s x t := rfl

@[simp]
lemma branch_right : branch .right c s x t = node c t x s := rfl

lemma branch_flip (d : Dir) : branch d.flip c s x t = branch d c t x s := by cases d <;> rfl

lemma exists_branch (d : Dir) (c : Color) (l : ColorTree α) (x : α) (r : ColorTree α) :
    ∃ s t, node c l x r = branch d c s x t := by
  cases d with
  | left => exact ⟨l, r, rfl⟩
  | right => exact ⟨r, l, rfl⟩

/-- The colour of the root; the empty tree is black. -/
def color : ColorTree α → Color
  | nil => .black
  | node c _ _ _ => c

@[simp]
lemma color_nil : (nil : ColorTree α).color = .black := rfl

@[simp]
lemma color_node : (node c s x t).color = c := rfl

@[simp]
lemma color_branch : (branch d c s x t).color = c := by cases d <;> rfl

/-- The tree with a black root. -/
def blacken : ColorTree α → ColorTree α
  | nil => nil
  | node _ l x r => node .black l x r

@[simp]
lemma blacken_nil : (nil : ColorTree α).blacken = nil := rfl

@[simp]
lemma blacken_node : (node c s x t).blacken = node .black s x t := rfl

@[simp]
lemma blacken_branch : (branch d c s x t).blacken = branch d .black s x t := by cases d <;> rfl

/-- The values from left to right. -/
def toList : ColorTree α → List α
  | nil => []
  | node _ l x r => l.toList ++ x :: r.toList

@[simp]
lemma toList_nil : (nil : ColorTree α).toList = [] := rfl

@[simp]
lemma toList_node : (node c s x t).toList = s.toList ++ x :: t.toList := rfl

@[simp]
lemma toList_blacken : t.blacken.toList = t.toList := by cases t <;> rfl

lemma toList_branch_perm : (branch d c s x t).toList.Perm (x :: (s.toList ++ t.toList)) := by
  cases d with
  | left => exact List.perm_middle
  | right => exact List.perm_middle.trans (List.Perm.cons x List.perm_append_comm)

/-- A rotation keeps the order of the values. -/
lemma toList_rotate {s₁ s₂ : ColorTree α} {c₁ k₁ : Color} :
    (branch d c₁ (branch d k₁ s x s₁) y s₂).toList =
      (branch d c s x (branch d k s₁ y s₂)).toList := by
  cases d <;> simp

/-- The number of nodes on the longest path. -/
def height : ColorTree α → ℕ
  | nil => 0
  | node _ l _ r => max l.height r.height + 1

@[simp]
lemma height_nil : (nil : ColorTree α).height = 0 := rfl

@[simp]
lemma height_node : (node c s x t).height = max s.height t.height + 1 := rfl

/-- A node on the way to a subtree: the subtree is on side `dir`, `sib` is on the other. -/
structure Frame (α : Type*) where
  dir : Dir
  color : Color
  val : α
  sib : ColorTree α
  deriving DecidableEq, Repr

/-- The subtree together with the node above it. -/
def Frame.fill (f : Frame α) (t : ColorTree α) : ColorTree α := branch f.dir f.color t f.val f.sib

/-- The whole tree of a subtree and the nodes above it, the nearest one first. -/
def plug : ColorTree α → List (Frame α) → ColorTree α
  | t, [] => t
  | t, f :: ctx => plug (f.fill t) ctx

variable {f g : Frame α} {ctx : List (Frame α)}

@[simp]
lemma Frame.fill_eq : f.fill t = branch f.dir f.color t f.val f.sib := rfl

@[simp]
lemma plug_nil : plug t [] = t := rfl

@[simp]
lemma plug_cons : plug t (f :: ctx) = plug (branch f.dir f.color t f.val f.sib) ctx := rfl

lemma height_branch : (branch d c s x t).height = max s.height t.height + 1 := by
  cases d with
  | left => rfl
  | right => rw [branch_right, height_node, max_comm]

/-- A context is not longer than the tree is high. -/
lemma height_add_length_le (t : ColorTree α) (ctx : List (Frame α)) :
    t.height + ctx.length ≤ (plug t ctx).height := by
  induction ctx generalizing t with
  | nil => simp
  | cons f ctx ih =>
    have := ih (branch f.dir f.color t f.val f.sib)
    rw [height_branch] at this
    rw [plug_cons, List.length_cons]
    omega

/-- The sibling of a subtree as the subtree. -/
lemma plug_sib (t : ColorTree α) (f : Frame α) (ctx : List (Frame α)) :
    plug t (f :: ctx) = plug f.sib (⟨f.dir.flip, f.color, f.val, t⟩ :: ctx) := by
  rw [plug_cons, plug_cons, branch_flip]

/-- The values of the context that are to the left of the subtree. -/
def before : List (Frame α) → List α
  | [] => []
  | ⟨.left, _, _, _⟩ :: ctx => before ctx
  | ⟨.right, _, x, s⟩ :: ctx => before ctx ++ (s.toList ++ [x])

/-- The values of the context that are to the right of the subtree. -/
def after : List (Frame α) → List α
  | [] => []
  | ⟨.left, _, x, s⟩ :: ctx => x :: s.toList ++ after ctx
  | ⟨.right, _, _, _⟩ :: ctx => after ctx

@[simp]
lemma before_nil : before ([] : List (Frame α)) = [] := rfl

@[simp]
lemma before_left : before (⟨.left, c, x, s⟩ :: ctx) = before ctx := rfl

@[simp]
lemma before_right : before (⟨.right, c, x, s⟩ :: ctx) = before ctx ++ (s.toList ++ [x]) := rfl

@[simp]
lemma after_nil : after ([] : List (Frame α)) = [] := rfl

@[simp]
lemma after_left : after (⟨.left, c, x, s⟩ :: ctx) = x :: s.toList ++ after ctx := rfl

@[simp]
lemma after_right : after (⟨.right, c, x, s⟩ :: ctx) = after ctx := rfl

lemma toList_plug (t : ColorTree α) (ctx : List (Frame α)) :
    (plug t ctx).toList = before ctx ++ t.toList ++ after ctx := by
  induction ctx generalizing t with
  | nil => simp
  | cons f ctx ih =>
    obtain ⟨_ | _, c, x, s⟩ := f
    · simp [ih]
    · simp [ih]

/-- Only the values of the subtree count for the values of the whole. -/
lemma toList_plug_congr (h : s.toList = t.toList) (ctx : List (Frame α)) :
    (plug s ctx).toList = (plug t ctx).toList := by
  rw [toList_plug, toList_plug, h]

lemma plug_append (t : ColorTree α) (ctx₁ ctx₂ : List (Frame α)) :
    plug t (ctx₁ ++ ctx₂) = plug (plug t ctx₁) ctx₂ := by
  induction ctx₁ generalizing t with
  | nil => rfl
  | cons f ctx₁ ih => exact ih _

lemma before_append (ctx₁ ctx₂ : List (Frame α)) :
    before (ctx₁ ++ ctx₂) = before ctx₂ ++ before ctx₁ := by
  induction ctx₁ with
  | nil => simp
  | cons f ctx₁ ih =>
    obtain ⟨_ | _, c, x, s⟩ := f
    · simpa using ih
    · simp [ih]

lemma after_append (ctx₁ ctx₂ : List (Frame α)) :
    after (ctx₁ ++ ctx₂) = after ctx₁ ++ after ctx₂ := by
  induction ctx₁ with
  | nil => rfl
  | cons f ctx₁ ih =>
    obtain ⟨_ | _, c, x, s⟩ := f
    · simp [ih]
    · simpa using ih

/-- Each value of a tree is the root of a subtree, with the values around it in the tree and its
context. -/
lemma exists_plug_of_append {pre post : List α} (h : t.toList = pre ++ x :: post) :
    ∃ c l r ctx, t = plug (node c l x r) ctx ∧ pre = before ctx ++ l.toList ∧
      post = r.toList ++ after ctx := by
  induction t generalizing pre post with
  | nil => simp at h
  | node c l y r ihl ihr =>
    rw [toList_node, List.append_eq_append_iff] at h
    rcases h with ⟨a, rfl, h⟩ | ⟨a, hl, h⟩
    · cases a with
      | nil =>
        simp only [List.nil_append, List.cons.injEq] at h
        obtain ⟨rfl, rfl⟩ := h
        exact ⟨c, l, r, [], rfl, by simp, by simp⟩
      | cons b a =>
        simp only [List.cons_append, List.cons.injEq] at h
        obtain ⟨rfl, hr⟩ := h
        obtain ⟨c', l', r', ctx, rfl, rfl, rfl⟩ := ihr hr
        refine ⟨c', l', r', ctx ++ [⟨.right, c, y, l⟩], ?_, ?_, ?_⟩
        · rw [plug_append]
          rfl
        · simp [before_append]
        · simp [after_append]
    · cases a with
      | nil =>
        simp only [List.nil_append, List.cons.injEq] at h
        obtain ⟨rfl, rfl⟩ := h
        exact ⟨c, l, r, [], rfl, by simpa using hl.symm, by simp⟩
      | cons b a =>
        simp only [List.cons_append, List.cons.injEq] at h
        obtain ⟨rfl, rfl⟩ := h
        obtain ⟨c', l', r', ctx, rfl, rfl, rfl⟩ := ihl hl
        refine ⟨c', l', r', ctx ++ [⟨.left, c, y, r⟩], ?_, ?_, ?_⟩
        · rw [plug_append]
          rfl
        · simp [before_append]
        · simp [after_append]

/-- A value of a tree is the root of a subtree. -/
lemma exists_plug_of_mem (hx : x ∈ t.toList) : ∃ c l r ctx, t = plug (node c l x r) ctx := by
  obtain ⟨pre, post, h⟩ := List.append_of_mem hx
  obtain ⟨c, l, r, ctx, h, -, -⟩ := exists_plug_of_append h
  exact ⟨c, l, r, ctx, h⟩

/-- The values from side `d` on. -/
def toListFrom : Dir → ColorTree α → List α
  | .left, t => t.toList
  | .right, t => t.toList.reverse

lemma toListFrom_branch :
    toListFrom d (branch d c s x t) = toListFrom d s ++ x :: toListFrom d t := by
  cases d <;> simp [toListFrom]

@[simp]
lemma toListFrom_nil : toListFrom d (nil : ColorTree α) = [] := by cases d <;> rfl

/-- The values of a context that come after the hole, from side `d` on. -/
def afterFrom : Dir → List (Frame α) → List α
  | .left, ctx => after ctx
  | .right, ctx => (before ctx).reverse

lemma afterFrom_same :
    afterFrom d (⟨d, c, x, s⟩ :: ctx) = x :: toListFrom d s ++ afterFrom d ctx := by
  cases d <;> simp [afterFrom, toListFrom]

lemma afterFrom_flip : afterFrom d (⟨d.flip, c, x, s⟩ :: ctx) = afterFrom d ctx := by
  cases d <;> simp [afterFrom]

lemma afterFrom_append (d : Dir) (ctx₁ ctx₂ : List (Frame α)) :
    afterFrom d (ctx₁ ++ ctx₂) = afterFrom d ctx₁ ++ afterFrom d ctx₂ := by
  cases d with
  | left => exact after_append ctx₁ ctx₂
  | right => simp [afterFrom, before_append]

lemma toListFrom_plug (d : Dir) (t : ColorTree α) (ctx : List (Frame α)) :
    toListFrom d (plug t ctx) =
      (afterFrom d.flip ctx).reverse ++ toListFrom d t ++ afterFrom d ctx := by
  cases d <;> simp [toListFrom, afterFrom, toList_plug]

section Search

variable [LinearOrder κ] {key : α → κ} {v : κ}

/-- The keys increase from left to right. -/
def Sorted (key : α → κ) (t : ColorTree α) : Prop := t.toList.Pairwise fun x y => key x < key y

lemma sorted_iff : Sorted key t ↔ (t.toList.map key).Pairwise (· < ·) := List.pairwise_map.symm

/-- There is one value for a key. -/
lemma Sorted.eq_of_key_eq (hs : Sorted key t) (hx : x ∈ t.toList) (hy : y ∈ t.toList)
    (h : key x = key y) : x = y := by
  by_contra hne
  rcases List.pairwise_iff_getElem.1 hs with hs
  obtain ⟨i, hi, rfl⟩ := List.getElem_of_mem hx
  obtain ⟨j, hj, rfl⟩ := List.getElem_of_mem hy
  rcases lt_trichotomy i j with hij | rfl | hij
  · exact absurd h (hs i j hi hj hij).ne
  · exact hne rfl
  · exact absurd h (hs j i hj hi hij).ne'

/-- The way down to the value with key `v`, or to the place where it would be. -/
def locate (key : α → κ) (v : κ) :
    ColorTree α → List (Frame α) → ColorTree α × List (Frame α)
  | nil, ctx => (nil, ctx)
  | node c l x r, ctx =>
    if v = key x then (node c l x r, ctx)
    else if v < key x then locate key v l (⟨.left, c, x, r⟩ :: ctx)
    else locate key v r (⟨.right, c, x, l⟩ :: ctx)

@[simp]
lemma locate_nil : locate key v nil ctx = (nil, ctx) := rfl

lemma locate_node : locate key v (node c s x t) ctx =
    if v = key x then (node c s x t, ctx)
    else if v < key x then locate key v s (⟨.left, c, x, t⟩ :: ctx)
    else locate key v t (⟨.right, c, x, s⟩ :: ctx) := rfl

lemma plug_locate (key : α → κ) (v : κ) (t : ColorTree α) (ctx : List (Frame α)) :
    plug (locate key v t ctx).1 (locate key v t ctx).2 = plug t ctx := by
  induction t generalizing ctx with
  | nil => rfl
  | node c l x r ihl ihr =>
    rw [locate_node]
    split_ifs
    · rfl
    · exact ihl _
    · exact ihr _

/-- The way down stops at a value with the key. -/
lemma key_of_locate (h : (locate key v t ctx).1 = node c s x u) : key x = v := by
  induction t generalizing ctx with
  | nil => simp at h
  | node k l y r ihl ihr =>
    rw [locate_node] at h
    split_ifs at h with heq hlt
    · cases h
      exact heq.symm
    · exact ihl h
    · exact ihr h

/-- The way to a key that is not in the tree comes to an end. -/
lemma locate_eq_nil (h : ∀ y ∈ (plug t ctx).toList, key y ≠ v) : (locate key v t ctx).1 = nil := by
  cases hl : (locate key v t ctx).1 with
  | nil => rfl
  | node c l x r =>
    have hx : x ∈ (plug t ctx).toList := by
      rw [← plug_locate key v, hl, toList_plug]
      simp
    exact absurd (key_of_locate hl) (h x hx)

/-- If the way down comes to an end, then the key is not in the tree, and its place is found. -/
lemma Sorted.of_locate_nil (hs : Sorted key (plug t ctx))
    (h : (locate key v t ctx).1 = nil) (hb : ∀ y ∈ before ctx, key y < v) (ha : ∀ y ∈ after ctx, v < key y) :
    (∀ y ∈ before (locate key v t ctx).2, key y < v) ∧
      ∀ y ∈ after (locate key v t ctx).2, v < key y := by
  induction t generalizing ctx with
  | nil => exact ⟨hb, ha⟩
  | node c l x r ihl ihr =>
    rw [locate_node] at h ⊢
    have hs' := hs
    rw [Sorted, toList_plug, toList_node] at hs'
    simp only [List.pairwise_append, List.pairwise_cons, List.mem_append, List.mem_cons] at hs'
    obtain ⟨⟨-, ⟨-, ⟨hxr, -⟩, hlx⟩, -⟩, -⟩ := hs'
    split_ifs at h ⊢ with heq hlt
    · refine ihl hs h hb fun y hy => ?_
      simp only [after_left, List.cons_append, List.mem_cons, List.mem_append] at hy
      rcases hy with rfl | hy | hy
      · exact hlt
      · exact hlt.trans (hxr y hy)
      · exact ha y hy
    · have hlt : key x < v := lt_of_le_of_ne (not_lt.1 hlt) (Ne.symm heq)
      refine ihr hs h (fun y hy => ?_) ha
      simp only [before_right, List.mem_append, List.mem_singleton] at hy
      rcases hy with hy | hy | rfl
      · exact hb y hy
      · exact (hlx y hy x (Or.inl rfl)).trans hlt
      · exact hlt

lemma Sorted.place (hs : Sorted key t) (h : (locate key v t []).1 = nil) :
    (∀ y ∈ before (locate key v t []).2, key y < v) ∧
      ∀ y ∈ after (locate key v t []).2, v < key y :=
  of_locate_nil hs h (by simp) (by simp)

/-- The way down finds the value that has the key. -/
lemma Sorted.locate_of_mem (hs : Sorted key t) (hx : x ∈ t.toList) :
    ∃ c l r, (locate key (key x) t []).1 = node c l x r := by
  cases hl : (locate key (key x) t []).1 with
  | nil =>
    obtain ⟨hb, ha⟩ := hs.place hl
    have hplug := plug_locate key (key x) t []
    rw [hl, plug_nil] at hplug
    rw [← hplug, toList_plug] at hx
    simp only [toList_nil, List.append_nil, List.mem_append] at hx
    rcases hx with hx | hx
    · exact absurd (hb x hx) (lt_irrefl _)
    · exact absurd (ha x hx) (lt_irrefl _)
  | node c l y r =>
    have hy : y ∈ t.toList := by
      have hplug := plug_locate key (key x) t []
      rw [hl, plug_nil] at hplug
      rw [← hplug, toList_plug]
      simp
    rw [hs.eq_of_key_eq hx hy (key_of_locate hl).symm]
    exact ⟨c, l, r, rfl⟩

/-- The parent of the place is on the side that the comparison with it says. -/
lemma dir_of_place (hb : ∀ y ∈ before (f :: ctx), key y < v) (ha : ∀ y ∈ after (f :: ctx), v < key y) :
    v < key f.val ↔ f.dir = .left := by
  obtain ⟨_ | _, c, x, s⟩ := f
  · simpa using ha x (by simp)
  · simpa using (hb x (by simp)).le

/-- A value that is put where its key belongs keeps the order. -/
lemma sorted_of_place (hs : Sorted key (plug nil ctx)) (hb : ∀ y ∈ before ctx, key y < key x)
    (ha : ∀ y ∈ after ctx, key x < key y) : Sorted key (plug (node c nil x nil) ctx) := by
  rw [Sorted, toList_plug] at hs ⊢
  simp only [toList_nil, List.append_nil, toList_node, List.nil_append, List.pairwise_append,
    List.append_assoc, List.cons_append, List.pairwise_cons] at hs ⊢
  refine ⟨hs.1, ⟨ha, hs.2.1⟩, fun y hy z hz => ?_⟩
  rcases List.mem_cons.1 hz with rfl | hz
  · exact hb y hy
  · exact hs.2.2 y hy z hz

end Search

/-- `RB t c n`: no red node of `t` has a red child, each path down has `n` black nodes, and `c` is
the colour of the root. -/
inductive RB : ColorTree α → Color → ℕ → Prop
  | nil : RB nil .black 0
  | red {l r : ColorTree α} {x : α} {n : ℕ} :
    RB l .black n → RB r .black n → RB (node .red l x r) .red n
  | black {l r : ColorTree α} {x : α} {c k : Color} {n : ℕ} :
    RB l c n → RB r k n → RB (node .black l x r) .black (n + 1)

lemma RB.color_eq (h : RB t c n) : t.color = c := by cases h <;> rfl

lemma RB.branch_red (hs : RB s .black n) (ht : RB t .black n) (d : Dir) (x : α) :
    RB (branch d .red s x t) .red n := by
  cases d with
  | left => exact hs.red ht
  | right => exact ht.red hs

lemma RB.branch_black (hs : RB s c n) (ht : RB t k n) (d : Dir) (x : α) :
    RB (branch d .black s x t) .black (n + 1) := by
  cases d with
  | left => exact hs.black ht
  | right => exact ht.black hs

lemma RB.of_branch_red (h : RB (branch d .red s x t) c n) :
    c = .red ∧ RB s .black n ∧ RB t .black n := by
  cases d with
  | left => cases h with | red hs ht => exact ⟨rfl, hs, ht⟩
  | right => cases h with | red ht hs => exact ⟨rfl, hs, ht⟩

lemma RB.of_branch_black (h : RB (branch d .black s x t) c n) :
    ∃ m k₁ k₂, c = .black ∧ n = m + 1 ∧ RB s k₁ m ∧ RB t k₂ m := by
  cases d with
  | left => cases h with | black hs ht => exact ⟨_, _, _, rfl, rfl, hs, ht⟩
  | right => cases h with | black ht hs => exact ⟨_, _, _, rfl, rfl, hs, ht⟩

/-- A red root can be made black. -/
lemma RB.blacken_red (h : RB t .red n) : RB t.blacken .black (n + 1) := by
  cases h with
  | red hl hr => exact hl.black hr

/-- The root of a tree can always be made black. -/
lemma RB.blacken (h : RB t c n) : ∃ m, RB t.blacken .black m := by
  cases h with
  | nil => exact ⟨0, .nil⟩
  | red hl hr => exact ⟨_, hl.black hr⟩
  | black hl hr => exact ⟨_, hl.black hr⟩

/-- A red tree is a node over two black trees, seen from either side. -/
lemma RB.exists_branch_red (h : RB t .red n) (d : Dir) :
    ∃ s x u, t = ColorTree.branch d .red s x u ∧ RB s .black n ∧ RB u .black n := by
  cases h with
  | red hl hr =>
    cases d with
    | left => exact ⟨_, _, _, rfl, hl, hr⟩
    | right => exact ⟨_, _, _, rfl, hr, hl⟩

/-- A tree of black height at least one is a node, seen from either side. -/
lemma RB.exists_branch (h : RB t c (n + 1)) (d : Dir) :
    ∃ k s x u, t = ColorTree.branch d k s x u := by
  cases h with
  | red hl hr =>
    obtain ⟨s, u, h⟩ := ColorTree.exists_branch d _ _ _ _
    exact ⟨_, s, _, u, h⟩
  | black hl hr =>
    obtain ⟨s, u, h⟩ := ColorTree.exists_branch d _ _ _ _
    exact ⟨_, s, _, u, h⟩

/-- A path has at most two nodes for each black node, one more below a red root. -/
lemma RB.height_le (h : RB t c n) : t.height ≤ 2 * n + if c = .red then 1 else 0 := by
  induction h with
  | nil => simp
  | red hl hr ihl ihr =>
    simp only [reduceCtorEq, ↓reduceIte, add_zero] at ihl ihr
    simp only [height_node, ↓reduceIte]
    omega
  | @black l r x c k n hl hr ihl ihr =>
    have hc : (if c = .red then 1 else 0) ≤ 1 := by split <;> omega
    have hk : (if k = .red then 1 else 0) ≤ 1 := by split <;> omega
    simp only [height_node, reduceCtorEq, ↓reduceIte]
    omega

/-- A tree of black height `n` has at least `2 ^ n - 1` values. -/
lemma RB.two_pow_le (h : RB t c n) : 2 ^ n ≤ t.toList.length + 1 := by
  induction h with
  | nil => simp
  | red hl hr ihl ihr =>
    simp only [toList_node, List.length_append, List.length_cons]
    omega
  | black hl hr ihl ihr =>
    simp only [toList_node, List.length_append, List.length_cons, pow_succ]
    omega

/-- The height of a red-black tree is logarithmic in the number of its values. -/
lemma RB.height_le_log (h : RB t .black n) : t.height ≤ 2 * Nat.log 2 (t.toList.length + 1) := by
  have hn : n ≤ Nat.log 2 (t.toList.length + 1) :=
    Nat.le_log_of_pow_le (by omega) h.two_pow_le
  have := h.height_le
  simp only [reduceCtorEq, ↓reduceIte, add_zero] at this
  omega

/-- `Hole ctx c n`: a tree with root colour `c` and black height `n` makes the whole tree a
red-black tree with a black root. -/
inductive Hole : List (Frame α) → Color → ℕ → Prop
  | top {n : ℕ} : Hole [] .black n
  | red {d : Dir} {x : α} {s : ColorTree α} {ctx : List (Frame α)} {n : ℕ} :
    Hole ctx .red n → RB s .black n → Hole (⟨d, .red, x, s⟩ :: ctx) .black n
  | black {d : Dir} {x : α} {s : ColorTree α} {ctx : List (Frame α)} {c k : Color} {n : ℕ} :
    Hole ctx .black (n + 1) → RB s k n → Hole (⟨d, .black, x, s⟩ :: ctx) c n

lemma Hole.plug (h : Hole ctx c n) (ht : RB t c n) : ∃ m, RB (plug t ctx) .black m := by
  induction h generalizing t with
  | top => exact ⟨_, ht⟩
  | red _ hs ih => exact ih (ht.branch_red hs _ _)
  | black _ hs ih => exact ih (ht.branch_black hs _ _)

/-- The subtrees of a red-black tree and their contexts satisfy the invariant. -/
lemma RB.split (h : RB (plug t ctx) .black m) : ∃ c n, RB t c n ∧ Hole ctx c n := by
  induction ctx generalizing t with
  | nil => exact ⟨_, _, h, .top⟩
  | cons f ctx ih =>
    obtain ⟨d, c, x, s⟩ := f
    obtain ⟨c', n, ht, hctx⟩ := ih h
    cases c with
    | red =>
      obtain ⟨rfl, ht, hs⟩ := ht.of_branch_red
      exact ⟨_, _, ht, hctx.red hs⟩
    | black =>
      obtain ⟨n, k₁, k₂, rfl, rfl, ht, hs⟩ := ht.of_branch_black
      exact ⟨_, _, ht, hctx.black hs⟩

/-- Where a red tree fits, a black one does. -/
lemma Hole.black_of_red (h : Hole ctx .red n) : Hole ctx .black n := by
  cases h with
  | black hctx hs => exact hctx.black hs

/-- Above a red parent is a black grandparent. -/
lemma Hole.exists_grandparent (h : Hole (f :: ctx) .black n) (hf : f.color = .red) :
    RB f.sib .black n ∧ ∃ g ctx', ctx = g :: ctx' ∧ g.color = .black ∧ (∃ k, RB g.sib k n) ∧
      Hole ctx' .black (n + 1) := by
  cases h with
  | red hctx hs =>
    cases hctx with
    | black hctx' hu => exact ⟨hs, _, _, rfl, rfl, ⟨_, hu⟩, hctx'⟩
  | black hctx hs => cases hf

/-- Below a black parent, a red tree fits. -/
lemma Hole.red_of_parent_black (h : Hole (f :: ctx) .black n) (hf : f.color = .black) :
    Hole (f :: ctx) .red n := by
  cases h with
  | red hctx hs => cases hf
  | black hctx hs => exact hctx.black hs

/-- The value of a node does not count for the invariant. -/
lemma RB.plug_val (h : RB (plug (node c s x t) ctx) .black n) (y : α) :
    ∃ m, RB (plug (node c s y t) ctx) .black m := by
  obtain ⟨k, i, ht, hctx⟩ := h.split
  refine hctx.plug ?_
  cases ht with
  | red hs ht => exact hs.red ht
  | black hs ht => exact hs.black ht

/-- In place of a parent with its two subtrees, any node of the parent's colour over two black
trees fits. -/
lemma Hole.replace (h : Hole (f :: ctx) .black n) (hs : RB s .black n) (ht : RB t .black n)
    (d : Dir) (x : α) : ∃ m, RB (ColorTree.plug (ColorTree.branch d f.color s x t) ctx) .black m := by
  cases h with
  | red hctx => exact hctx.plug (hs.branch_red ht d x)
  | black hctx => exact hctx.plug (hs.branch_black ht d x)

/-- `Short t n`: with a black root `t` has black height `n` if it is black, and `n + 1` if it is
red. A deletion leaves such a tree where one of black height `n + 1` fits. -/
def Short (t : ColorTree α) (n : ℕ) : Prop :=
  RB t .black n ∨ t.color = .red ∧ RB t.blacken .black (n + 1)

lemma Short.of_black (h : RB t .black n) : Short t n := Or.inl h

lemma Short.of_red (h : RB t .red n) : Short t n := Or.inr ⟨h.color_eq, h.blacken_red⟩

lemma Short.rb_of_black (h : Short t n) (hc : t.color = .black) : RB t .black n := by
  rcases h with h | ⟨h, _⟩
  · exact h
  · rw [hc] at h
    cases h

lemma Short.rb_of_red (h : Short t n) (hc : t.color = .red) : RB t.blacken .black (n + 1) := by
  rcases h with h | ⟨_, h⟩
  · rw [h.color_eq] at hc
    cases hc
  · exact h

/-- A red sibling is rotated above the parent: the new sibling is black. -/
lemma Hole.sibling_red (h : Hole (⟨d, c, x, branch d .red s y u⟩ :: ctx) .black (n + 1)) :
    c = .black ∧ RB s .black (n + 1) ∧
      Hole (⟨d, .red, x, s⟩ :: ⟨d, .black, y, u⟩ :: ctx) .black (n + 1) := by
  cases h with
  | red hctx hs => cases hs.of_branch_red.1
  | black hctx hs =>
    obtain ⟨rfl, hs, hu⟩ := hs.of_branch_red
    exact ⟨rfl, hs, (hctx.black hu).red hs⟩

/-- A sibling without red children becomes red: the parent is the next short tree. -/
lemma Hole.sibling_black (h : Hole (⟨d, c, x, branch d .black s y u⟩ :: ctx) .black (n + 1))
    (ht : RB t .black n) (hs : s.color = .black) (hu : u.color = .black) :
    ∃ m, Short (branch d c t x (branch d .red s y u)) m ∧ Hole ctx .black (m + 1) := by
  cases h with
  | red hctx hsib =>
    obtain ⟨m, k₁, k₂, -, hm, hs', hu'⟩ := hsib.of_branch_black
    obtain rfl : n = m := by omega
    obtain rfl := hs'.color_eq.symm.trans hs
    obtain rfl := hu'.color_eq.symm.trans hu
    refine ⟨n, Or.inr ⟨color_branch, ?_⟩, hctx.black_of_red⟩
    rw [blacken_branch]
    exact ht.branch_black (hs'.branch_red hu' d y) d x
  | black hctx hsib =>
    obtain ⟨m, k₁, k₂, -, hm, hs', hu'⟩ := hsib.of_branch_black
    obtain rfl : n = m := by omega
    obtain rfl := hs'.color_eq.symm.trans hs
    obtain rfl := hu'.color_eq.symm.trans hu
    exact ⟨n + 1, .of_black (ht.branch_black (hs'.branch_red hu' d y) d x), hctx⟩

/-- The sibling of a short tree is a node. -/
lemma Hole.exists_sibling (h : Hole (f :: ctx) .black (n + 1)) :
    ∃ k s y u, f.sib = branch f.dir k s y u := by
  cases h with
  | red _ hs => exact hs.exists_branch _
  | black _ hs => exact hs.exists_branch _

/-- The subtrees of a black sibling. -/
lemma Hole.sibling_children (h : Hole (⟨d, c, x, branch d .black s y u⟩ :: ctx) .black (n + 1)) :
    RB s s.color n ∧ RB u u.color n := by
  have key : ∀ {k}, RB (branch d .black s y u) k (n + 1) → RB s s.color n ∧ RB u u.color n := by
    intro k hsib
    obtain ⟨m, k₁, k₂, -, hm, hs, hu⟩ := hsib.of_branch_black
    obtain rfl : n = m := by omega
    rw [hs.color_eq, hu.color_eq]
    exact ⟨hs, hu⟩
  cases h with
  | red hctx hsib => exact key hsib
  | black hctx hsib => exact key hsib

/-- The subtree that takes the place of a node with an empty subtree: it is short by one if the node
is black. -/
lemma RB.splice {l r w : ColorTree α} (h : RB (node c l x r) k n)
    (hlr : l = .nil ∧ w = r ∨ r = .nil ∧ w = l) :
    c = .red ∧ k = .red ∧ RB w .black n ∨ c = .black ∧ k = .black ∧ Short w 0 ∧ n = 1 := by
  have key : ∀ {k₁ k₂ m}, RB l k₁ m → RB r k₂ m → m = 0 ∧ ∃ k₃, RB w k₃ 0 := by
    intro k₁ k₂ m hl hr
    rcases hlr with ⟨rfl, rfl⟩ | ⟨rfl, rfl⟩
    · cases hl
      exact ⟨rfl, _, hr⟩
    · cases hr
      exact ⟨rfl, _, hl⟩
  cases h with
  | red hl hr =>
    rcases hlr with ⟨rfl, rfl⟩ | ⟨rfl, rfl⟩
    · exact Or.inl ⟨rfl, rfl, hr⟩
    · exact Or.inl ⟨rfl, rfl, hl⟩
  | black hl hr =>
    obtain ⟨rfl, k₃, hw⟩ := key hl hr
    refine Or.inr ⟨rfl, rfl, ?_, rfl⟩
    cases k₃ with
    | red => exact .of_red hw
    | black => exact .of_black hw

end ColorTree

end NetPipe
