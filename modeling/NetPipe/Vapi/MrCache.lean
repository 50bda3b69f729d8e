import NetPipe.Library.Mirror
import NetPipe.Vapi.MrDelete

/-!
# The cache of memory regions

`register_memory_region` looks a buffer up in the tree before it registers it. In memory the tree
stands for a map from addresses to registrations; over a run of requests this map is exactly what is
registered with the adapter.
-/

namespace NetPipe.Vapi

namespace MrTree

section Stores

open ColorTree

variable {h : MrTree} {t : Shape} {x : Ptr × Entry} {newnode : Ptr} {c : Color} {n k addr hndl : ℕ}
  {prop : Mrw} {M : ℕ → Option (ℕ × Mrw)} {v : ℕ × Mrw}

/-- The nodes `l` stand for the map `M`. -/
def Stands (l : List (Ptr × Entry)) (M : ℕ → Option (ℕ × Mrw)) : Prop :=
  ∀ a v, M a = some v ↔ ∃ x ∈ l, key x = a ∧ (x.2.hndl, x.2.prop) = v

namespace Stands

variable {l l' : List (Ptr × Entry)}

lemma perm (h : Stands l M) (hl : l'.Perm l) : Stands l' M := fun a v => by
  simp only [h a v, hl.mem_iff]

/-- A node with a new address -/
lemma cons (h : Stands l M) (hx : M (key x) = none) :
    Stands (x :: l) (Function.update M (key x) (some (x.2.hndl, x.2.prop))) := fun a v => by
  simp only [List.mem_cons, or_and_right, exists_or, exists_eq_left]
  by_cases ha : a = key x
  · subst ha
    rw [Function.update_self, Option.some.injEq]
    refine ⟨fun hv => Or.inl ⟨rfl, hv⟩, ?_⟩
    rintro (⟨-, hv⟩ | ⟨y, hy, hyx, -⟩)
    · exact hv
    · have := (h (key x) _).2 ⟨y, hy, hyx, rfl⟩
      rw [hx] at this
      cases this
  · rw [Function.update_of_ne ha, h a v]
    refine ⟨Or.inr, ?_⟩
    rintro (⟨hxa, -⟩ | hy)
    · exact absurd hxa.symm ha
    · exact hy

/-- One node fewer -/
lemma of_cons (h : Stands (x :: l) M) (hx : key x ∉ l.map key) :
    Stands l (Function.update M (key x) none) := fun a v => by
  by_cases ha : a = key x
  · subst ha
    rw [Function.update_self]
    refine ⟨fun hv => absurd hv (by simp), ?_⟩
    rintro ⟨y, hy, hyx, -⟩
    exact absurd (List.mem_map.2 ⟨y, hy, hyx⟩) hx
  · rw [Function.update_of_ne ha, h a v]
    simp only [List.mem_cons, or_and_right, exists_or, exists_eq_left]
    refine ⟨?_, Or.inr⟩
    rintro (⟨hxa, -⟩ | hy)
    · exact absurd hxa.symm ha
    · exact hy

end Stands

/-- The tree in memory stands for the map `M`, which has `k` addresses. -/
def Stores (h : MrTree) (M : ℕ → Option (ℕ × Mrw)) (k : ℕ) : Prop :=
  ∃ t, Stored h t ∧ t.toList.length = k ∧ Stands t.toList M

lemma stores_init : Stores init (fun _ => none) 0 :=
  ⟨.nil, stored_init, rfl, by simp [Stands]⟩

/-- `persist_mr_get` looks up the map; it looks at a logarithmic number of nodes. -/
lemma Stores.persistMrGet (hs : Stores h M k) (hn : 2 * Nat.log 2 (k + 1) < n) (addr : ℕ) :
    h.persistMrGet n addr = some (M addr) := by
  obtain ⟨t, ht, rfl, hM⟩ := hs
  cases hv : M addr with
  | none =>
    have hkey : ∀ x ∈ t.toList, key x ≠ addr := fun x hx hkey => by
      have := (hM addr _).2 ⟨x, hx, hkey, rfl⟩
      rw [hv] at this
      cases this
    simp [MrTree.persistMrGet, ht.treeSearch_of_not_mem hkey hn]
  | some v =>
    obtain ⟨x, hx, rfl, rfl⟩ := (hM addr v).1 hv
    obtain ⟨hxn, nd, hnd, hentry⟩ := ht.mem_node hx
    have hsearch := ht.treeSearch_of_mem hx hn
    rw [addr_eq_key] at hsearch
    simp [MrTree.persistMrGet, hsearch, hxn, hnd, hentry]

/-- `persist_mr_add` adds an address to the map. -/
lemma Stores.persistMrAdd (hs : Stores h M k) (hn : 2 * Nat.log 2 (k + 1) < n)
    (hnew : h.mem newnode = none) (haddr : M addr = none) (c : Color) (hndl : ℕ) (prop : Mrw) :
    ∃ h', h.persistMrAdd n newnode c addr hndl prop = some h' ∧
      Stores h' (Function.update M addr (some (hndl, prop))) (k + 1) := by
  obtain ⟨t, ht, rfl, hM⟩ := hs
  have hkey : ∀ x ∈ t.toList, key x ≠ (⟨addr, hndl, prop⟩ : Entry).addr := fun x hx hkey => by
    have := (hM addr _).2 ⟨x, hx, hkey, rfl⟩
    rw [haddr] at this
    cases this
  obtain ⟨h', t', e', ht', hperm⟩ := ht.persistMrAdd hnew hkey hn c
  exact ⟨h', e', t', ht', by simpa using hperm.length_eq,
    (hM.cons (x := (newnode, ⟨addr, hndl, prop⟩)) haddr).perm hperm⟩

lemma Stored.key_not_mem {pre post : List (Ptr × Entry)} (hs : Stored h t)
    (hx : t.toList = pre ++ x :: post) : key x ∉ (pre ++ post).map key := by
  have hnd := (sorted_iff.1 hs.sorted).nodup
  rw [hx, List.map_append, List.map_cons, List.nodup_middle, List.nodup_cons] at hnd
  rw [List.map_append]
  exact hnd.1

/-- `persist_mr_edit` changes handle and properties of one node. -/
lemma Stored.persistMrEdit {pre post : List (Ptr × Entry)} (hs : Stored h t)
    (hx : t.toList = pre ++ x :: post) (hn : 2 * Nat.log 2 (t.toList.length + 1) < n)
    (hndl : ℕ) (prop : Mrw) :
    ∃ h' t', h.persistMrEdit n x.2.addr hndl prop = some h' ∧ Stored h' t' ∧
      t'.toList = pre ++ (x.1, ⟨x.2.addr, hndl, prop⟩) :: post := by
  have hmem : x ∈ t.toList := by simp [hx]
  have hsearch := hs.treeSearch_of_mem hmem hn
  have hxn := (hs.mem_node hmem).1
  obtain ⟨m, hm, hr⟩ := hs.rep
  obtain ⟨i, hrb⟩ := hs.balanced
  have hsorted := sorted_iff.1 hs.sorted
  rw [hx] at hsorted
  obtain ⟨c, l, r, ctx, rfl, rfl, rfl⟩ := exists_plug_of_append hx
  obtain ⟨h', e', hr'⟩ := Rep.modify (d := .left) (g := (·.setData hndl prop)) hr fun _ _ _ =>
    MrNode.make_setData
  have hlist : (plug (branch .left c l (x.1, { x.2 with hndl := hndl, prop := prop }) r)
      ctx).toList = before ctx ++ l.toList ++
        (x.1, ⟨x.2.addr, hndl, prop⟩) :: (r.toList ++ after ctx) := by
    rw [toList_plug]
    simp
  refine ⟨h', _, ?_, ⟨⟨m, hm, hr'⟩, ?_, hrb.plug_val _⟩, hlist⟩
  · simp only [MrTree.persistMrEdit, hsearch, if_neg hxn, e', Option.bind_eq_bind,
      Option.bind_some]
  · rw [List.map_append, List.map_cons] at hsorted
    rw [sorted_iff, hlist, List.map_append, List.map_cons]
    exact hsorted

/-- `persist_mr_edit` changes what is stored for an address. -/
lemma Stores.persistMrEdit (hs : Stores h M k) (hn : 2 * Nat.log 2 (k + 1) < n)
    (haddr : M addr = some v) (hndl : ℕ) (prop : Mrw) :
    ∃ h', h.persistMrEdit n addr hndl prop = some h' ∧
      Stores h' (Function.update M addr (some (hndl, prop))) k := by
  obtain ⟨t, ht, rfl, hM⟩ := hs
  obtain ⟨x, hx, rfl, rfl⟩ := (hM addr v).1 haddr
  obtain ⟨pre, post, hsplit⟩ := List.append_of_mem hx
  obtain ⟨h', t', e', ht', hlist⟩ := ht.persistMrEdit hsplit hn hndl prop
  have hrest := (hM.perm (hsplit ▸ List.perm_middle.symm)).of_cons (ht.key_not_mem hsplit)
  have hnew := (hrest.cons (x := (x.1, ⟨x.2.addr, hndl, prop⟩)) (Function.update_self _ _ _)).perm
    (hlist ▸ List.perm_middle)
  rw [show key (x.1, (⟨x.2.addr, hndl, prop⟩ : Entry)) = key x from rfl, Function.update_idem]
    at hnew
  exact ⟨h', e', t', ht', by simp [hlist, hsplit], hnew⟩

end Stores

end MrTree

/-- The adapter, as `register_memory_region` uses it: its state, the registrations that are alive,
and the two calls. -/
structure Hca (σ : Type*) where
  live : σ → ℕ → Option Mrw
  registerMr : σ → Mrw → Option (σ × ℕ × Mrw)
  deregisterMr : σ → ℕ → Option σ

/-- What `register_memory_region` asks for: the rights `acl` on `nbytes` bytes. -/
def Mrw.Covers (mr : Mrw) (nbytes acl : ℕ) : Prop := mr.acl &&& acl = acl ∧ nbytes ≤ mr.size

instance (mr : Mrw) (nbytes acl : ℕ) : Decidable (mr.Covers nbytes acl) :=
  inferInstanceAs (Decidable (_ ∧ _))

section Hca

variable {σ : Type} (V : Hca σ)

/-- The documented behaviour of the two calls: a registration gets a handle that is not in use and
at least the properties that are asked for, a deregistration ends it. -/
structure Hca.Lawful : Prop where
  register {s s' : σ} {mr out : Mrw} {hndl : ℕ} :
    V.registerMr s mr = some (s', hndl, out) → V.live s hndl = none ∧
      V.live s' = Function.update (V.live s) hndl (some out) ∧ out.Covers mr.size mr.acl
  deregister {s s' : σ} {hndl : ℕ} :
    V.deregisterMr s hndl = some s' → V.live s' = Function.update (V.live s) hndl none

/-- The properties with which a region is registered again: what was asked for before and now. -/
def Mrw.widen (out : Mrw) (nbytes acl : ℕ) : Mrw :=
  { out with
    acl := if out.acl &&& acl ≠ acl then out.acl ||| acl else out.acl
    size := if out.size < nbytes then nbytes else out.size }

/-- A call of `register_memory_region`; `newnode` and `color` are what `malloc` gives for a new
node. -/
structure Request where
  start : ℕ
  nbytes : ℕ
  acl : ℕ
  newnode : Ptr
  color : Color
  deriving DecidableEq, Repr

/-- `register_memory_region`, with the handle and the properties that it returns. There is no
result if a call of the adapter fails: the program exits. -/
def registerMemoryRegion (vapiMr pdHndl n : ℕ) (h : MrTree) (s : σ) (r : Request) :
    Option (MrTree × σ × ℕ × Mrw) := do
  let found ← h.persistMrGet n r.start
  match found with
  | some (hndl, out) =>
    if out.acl &&& r.acl ≠ r.acl ∨ out.size < r.nbytes then do
      let s ← V.deregisterMr s hndl
      let (s, hndl, out) ← V.registerMr s (out.widen r.nbytes r.acl)
      let h ← h.persistMrEdit n r.start hndl out
      some (h, s, hndl, out)
    else some (h, s, hndl, out)
  | none => do
    let mrIn : Mrw := ⟨vapiMr, r.start % 2 ^ 32, r.nbytes, pdHndl, 0, 0, r.acl⟩
    let (s, hndl, out) ← V.registerMr s mrIn
    let h ← h.persistMrAdd n r.newnode r.color r.start hndl out
    some (h, s, hndl, out)

variable {V} {vapiMr pdHndl n k a b hndl : ℕ} {h h' : MrTree} {s s' : σ} {r : Request} {out : Mrw}
  {M : ℕ → Option (ℕ × Mrw)} {v w : ℕ × Mrw}

variable {L : ℕ → Option Mrw} {mr : Mrw}

/-- More rights cover each of their parts. -/
lemma Mrw.Covers.mono {mr : Mrw} {nbytes nbytes' acl acl' : ℕ} (h : mr.Covers nbytes acl)
    (hn : nbytes' ≤ nbytes) (ha : acl &&& acl' = acl') : mr.Covers nbytes' acl' := by
  refine ⟨?_, hn.trans h.2⟩
  rw [← ha, ← Nat.land_assoc, h.1]

/-- The properties of a second registration cover the request. -/
lemma Mrw.Covers.of_widen {mr mr' : Mrw} {nbytes acl : ℕ}
    (h : mr'.Covers (mr.widen nbytes acl).size (mr.widen nbytes acl).acl) :
    mr'.Covers nbytes acl := by
  refine h.mono ?_ ?_
  · change nbytes ≤ if mr.size < nbytes then nbytes else mr.size
    split <;> omega
  · rw [Mrw.widen]
    by_cases ha : mr.acl &&& acl ≠ acl
    · rw [if_pos ha]
      apply Nat.eq_of_testBit_eq
      intro i
      simp only [Nat.testBit_and, Nat.testBit_or]
      cases mr.acl.testBit i <;> cases acl.testBit i <;> rfl
    · rw [if_neg ha]
      exact not_not.1 ha

/-- The tree holds a map, and what is registered with the adapter is exactly this map. -/
structure Cached (V : Hca σ) (h : MrTree) (s : σ) (M : ℕ → Option (ℕ × Mrw)) (k : ℕ) : Prop where
  stores : h.Stores M k
  mirror : Mirror (V.live s) M

/-- A request is answered with a live registration that covers it. What is stored for other
addresses stays, and what is stored for its address stays if it covers the request. -/
lemma Cached.call (hc : Cached V h s M k) (hV : V.Lawful) (hnew : h.mem r.newnode = none)
    (hn : 2 * Nat.log 2 (k + 1) < n)
    (hcall : registerMemoryRegion V vapiMr pdHndl n h s r = some (h', s', hndl, out)) :
    ∃ M' k', Cached V h' s' M' k' ∧ k' ≤ k + 1 ∧ M' r.start = some (hndl, out) ∧
      out.Covers r.nbytes r.acl ∧ (∀ a ≠ r.start, M' a = M a) ∧
      ∀ v, M r.start = some v → v.2.Covers r.nbytes r.acl → M' = M := by
  rw [registerMemoryRegion, hc.stores.persistMrGet hn, Option.bind_eq_bind, Option.bind_some] at hcall
  cases hM : M r.start with
  | none =>
    simp only [hM, Option.bind_eq_bind, Option.bind_eq_some_iff] at hcall
    obtain ⟨⟨s₁, hndl₁, out₁⟩, hreg, h₁, hadd, hcall⟩ := hcall
    obtain ⟨h₂, e₂, hstores⟩ := hc.stores.persistMrAdd hn hnew hM r.color hndl₁ out₁
    rw [hadd, Option.some.injEq] at e₂
    simp only [Option.some.injEq, Prod.mk.injEq] at hcall
    obtain ⟨rfl, rfl, rfl, rfl⟩ := hcall
    subst e₂
    obtain ⟨hfree, hlive, hcov⟩ := hV.register hreg
    refine ⟨_, k + 1, ⟨hstores, ?_⟩, le_rfl, Function.update_self _ _ _, hcov,
      fun a ha => Function.update_of_ne ha _ _, fun v hv => by cases hv⟩
    rw [hlive]
    exact hc.mirror.insert hfree hM out₁
  | some v =>
    obtain ⟨hndl₀, out₀⟩ := v
    simp only [hM] at hcall
    split at hcall
    · rename_i hcov₀
      simp only [Option.bind_eq_bind, Option.bind_eq_some_iff] at hcall
      obtain ⟨s₁, hdereg, ⟨s₂, hndl₂, out₂⟩, hreg, h₂, hedit, hcall⟩ := hcall
      obtain ⟨h₃, e₃, hstores⟩ := hc.stores.persistMrEdit hn hM hndl₂ out₂
      rw [hedit, Option.some.injEq] at e₃
      simp only [Option.some.injEq, Prod.mk.injEq] at hcall
      obtain ⟨rfl, rfl, rfl, rfl⟩ := hcall
      subst e₃
      obtain ⟨hfree, hlive, hcov⟩ := hV.register hreg
      refine ⟨_, k, ⟨hstores, ?_⟩, Nat.le_succ k, Function.update_self _ _ _, hcov.of_widen,
        fun a ha => Function.update_of_ne ha _ _, fun v hv hcov' => ?_⟩
      · rw [hlive, hV.deregister hdereg] at *
        have hm := (hc.mirror.remove hM).insert (a := r.start) hfree
          (Function.update_self _ _ _) out₂
        rwa [Function.update_idem] at hm
      · cases hv
        rcases hcov₀ with h | h
        · exact absurd hcov'.1 h
        · exact absurd hcov'.2 (by simpa using h)
    · rename_i hcov₀
      rw [not_or, not_not, not_lt] at hcov₀
      simp only [Option.some.injEq, Prod.mk.injEq] at hcall
      obtain ⟨rfl, rfl, rfl, rfl⟩ := hcall
      exact ⟨M, k, hc, Nat.le_succ k, hM, hcov₀, fun _ _ => rfl, fun _ _ _ => rfl⟩

/-- A sequence of requests from the state `h₀`, `s₀` on, with the answers. -/
inductive CacheRun (V : Hca σ) (vapiMr pdHndl n : ℕ) (h₀ : MrTree) (s₀ : σ) :
    List (Request × ℕ × Mrw) → MrTree → σ → Prop
  | nil : CacheRun V vapiMr pdHndl n h₀ s₀ [] h₀ s₀
  | snoc {calls : List (Request × ℕ × Mrw)} {h h' : MrTree} {s s' : σ} {r : Request} {hndl : ℕ}
    {out : Mrw} : CacheRun V vapiMr pdHndl n h₀ s₀ calls h s → h.mem r.newnode = none →
      registerMemoryRegion V vapiMr pdHndl n h s r = some (h', s', hndl, out) →
      CacheRun V vapiMr pdHndl n h₀ s₀ (calls ++ [(r, hndl, out)]) h' s'

variable {calls before later : List (Request × ℕ × Mrw)} {s₀ : σ}

lemma two_log_mono {i j : ℕ} (hij : i ≤ j) (hn : 2 * Nat.log 2 (j + 1) < n) :
    2 * Nat.log 2 (i + 1) < n := by
  have hlog : Nat.log 2 (i + 1) ≤ Nat.log 2 (j + 1) := Nat.log_mono_right (by omega)
  omega

/-- Over a run, the map in the tree is exactly what is registered with the adapter. -/
lemma CacheRun.cached (hrun : CacheRun V vapiMr pdHndl n .init s₀ calls h s) (hV : V.Lawful)
    (hs₀ : ∀ hndl, V.live s₀ hndl = none) (hn : 2 * Nat.log 2 (calls.length + 1) < n) :
    ∃ M k, Cached V h s M k ∧ k ≤ calls.length := by
  induction hrun with
  | nil => exact ⟨_, 0, ⟨MrTree.stores_init, by rw [funext hs₀]; exact Mirror.empty⟩, le_rfl⟩
  | snoc hrun hnew hcall ih =>
    rw [List.length_append, List.length_singleton] at hn
    obtain ⟨M, k, hc, hk⟩ := ih (two_log_mono (Nat.le_succ _) hn)
    obtain ⟨M', k', hc', hk', -⟩ := hc.call hV hnew (two_log_mono (hk.trans (Nat.le_succ _)) hn) hcall
    exact ⟨M', k', hc', by rw [List.length_append, List.length_singleton]; omega⟩

/-- The answer to a request stays stored as long as it covers the later requests for its address. -/
lemma CacheRun.stored (hrun : CacheRun V vapiMr pdHndl n .init s₀ calls h s) (hV : V.Lawful)
    (hs₀ : ∀ hndl, V.live s₀ hndl = none) (hn : 2 * Nat.log 2 (calls.length + 1) < n)
    (hcalls : calls = before ++ (r, hndl, out) :: later)
    (hlater : ∀ x ∈ later, x.1.start = r.start → out.Covers x.1.nbytes x.1.acl) :
    ∃ M k, Cached V h s M k ∧ k ≤ calls.length ∧ M r.start = some (hndl, out) ∧
      out.Covers r.nbytes r.acl := by
  induction hrun generalizing later with
  | nil => simp at hcalls
  | @snoc calls h h' s s' r' hndl' out' hrun hnew hcall ih =>
    rw [List.length_append, List.length_singleton] at hn ⊢
    rcases List.eq_nil_or_concat later with rfl | ⟨later, x, rfl⟩
    · obtain ⟨rfl, hlast⟩ := List.append_inj' hcalls rfl
      cases hlast
      obtain ⟨M, k, hc, hk⟩ := hrun.cached hV hs₀ (two_log_mono (Nat.le_succ _) hn)
      obtain ⟨M', k', hc', hk', hM', hcov, -⟩ :=
        hc.call hV hnew (two_log_mono (hk.trans (Nat.le_succ _)) hn) hcall
      exact ⟨M', k', hc', by omega, hM', hcov⟩
    · rw [List.concat_eq_append] at hcalls hlater
      rw [← List.cons_append, ← List.append_assoc] at hcalls
      obtain ⟨rfl, hlast⟩ := List.append_inj' hcalls rfl
      cases hlast
      obtain ⟨M, k, hc, hk, hM, hcov⟩ := ih (two_log_mono (Nat.le_succ _) hn) rfl
        fun y hy => hlater y (List.mem_append_left _ hy)
      obtain ⟨M', k', hc', hk', -, -, hother, hsame⟩ :=
        hc.call hV hnew (two_log_mono (hk.trans (Nat.le_succ _)) hn) hcall
      refine ⟨M', k', hc', by omega, ?_, hcov⟩
      by_cases hstart : r'.start = r.start
      · have hM₀ : M r'.start = some (hndl, out) := by rw [hstart, hM]
        have hcov' := hlater (r', hndl', out') (by simp) hstart
        rw [hsame _ hM₀ hcov', hM]
      · rw [hother _ (Ne.symm hstart), hM]

/-- Over any run of requests, the handle that a request gets is registered with enough bytes and
rights, as long as each later request for its address is covered as well. -/
theorem CacheRun.registered (hrun : CacheRun V vapiMr pdHndl n .init s₀ calls h s) (hV : V.Lawful)
    (hs₀ : ∀ hndl, V.live s₀ hndl = none) (hn : 2 * Nat.log 2 (calls.length + 1) < n)
    (hcalls : calls = before ++ (r, hndl, out) :: later)
    (hlater : ∀ x ∈ later, x.1.start = r.start → out.Covers x.1.nbytes x.1.acl) :
    V.live s hndl = some out ∧ out.Covers r.nbytes r.acl := by
  obtain ⟨M, k, hc, -, hM, hcov⟩ := hrun.stored hV hs₀ hn hcalls hlater
  exact ⟨(hc.mirror.live hndl out).2 ⟨_, hM⟩, hcov⟩

/-- An adapter that counts its handles. -/
def countingHca : Hca (List (Option Mrw)) where
  live s hndl := (s[hndl]?).join
  registerMr s mr := some (s ++ [some mr], s.length, mr)
  deregisterMr s hndl := some (s.set hndl none)

lemma countingHca_lawful : countingHca.Lawful where
  register {s s' mr out hndl} h := by
    obtain ⟨rfl, rfl, rfl⟩ : s ++ [some mr] = s' ∧ s.length = hndl ∧ mr = out := by
      simpa [countingHca] using h
    refine ⟨by simp [countingHca], funext fun i => ?_, by simp [Mrw.Covers]⟩
    by_cases hi : i = s.length
    · simp [countingHca, hi]
    · rw [Function.update_of_ne hi]
      rcases Nat.lt_or_gt_of_ne hi with hlt | hgt
      · simp [countingHca, List.getElem?_append_left hlt]
      · have h₁ : (s ++ [some mr])[i]? = none := by
          rw [List.getElem?_eq_none_iff, List.length_append, List.length_singleton]
          omega
        have h₂ : s[i]? = none := by
          rw [List.getElem?_eq_none_iff]
          omega
        simp only [countingHca, h₁, h₂]
  deregister {s s' hndl} h := by
    obtain rfl : s.set hndl none = s' := by simpa [countingHca] using h
    refine funext fun i => ?_
    by_cases hi : i = hndl
    · subst hi
      simp only [countingHca, Function.update_self, List.getElem?_set_self']
      cases s[i]? <;> rfl
    · simp [countingHca, Function.update_of_ne hi, List.getElem?_set_ne (Ne.symm hi)]

/-- A request for bytes at `64`. -/
def sampleRequest (nbytes : ℕ) (newnode : Ptr) : Request := ⟨64, nbytes, 1, newnode, .red⟩

/-- The properties that the request gets. -/
def sampleAnswer (nbytes : ℕ) : Mrw := ⟨0, 64, nbytes, 5, 0, 0, 1⟩

lemma sample_cacheRun : ∃ h s, CacheRun countingHca 0 5 4 .init []
    [(sampleRequest 8 2, 0, sampleAnswer 8), (sampleRequest 4 3, 0, sampleAnswer 8)] h s :=
  ⟨_, _, .snoc (.snoc .nil rfl rfl) rfl rfl⟩

theorem registered_sample : ∃ h s, CacheRun countingHca 0 5 4 .init []
      [(sampleRequest 8 2, 0, sampleAnswer 8), (sampleRequest 4 3, 0, sampleAnswer 8)] h s ∧
    countingHca.live s 0 = some (sampleAnswer 8) ∧ (sampleAnswer 8).Covers 8 1 := by
  obtain ⟨h, s, hrun⟩ := sample_cacheRun
  exact ⟨h, s, hrun, hrun.registered countingHca_lawful (by simp [countingHca]) (by decide)
    (List.nil_append _).symm (by simp [sampleAnswer, sampleRequest, Mrw.Covers])⟩

/-- The deregistration in the loop of `ib_cleanup`; an error is printed only. -/
def deregister (V : Hca σ) (s : σ) (e : Entry) : σ := (V.deregisterMr s e.hndl).getD s

/-- After the loop over all live handles nothing is registered. -/
lemma live_foldl_deregister (hV : V.Lawful)
    (hdereg : ∀ s hndl, V.live s hndl ≠ none → (V.deregisterMr s hndl).isSome) {es : List Entry}
    (hes : ∀ hndl, V.live s hndl ≠ none → hndl ∈ es.map Entry.hndl) (hndl : ℕ) :
    V.live (es.foldl (deregister V) s) hndl = none := by
  induction es generalizing s with
  | nil =>
    by_contra hl
    simpa using hes hndl hl
  | cons e es ih =>
    rw [List.foldl_cons]
    refine ih fun hndl hl => ?_
    cases hd : V.deregisterMr s e.hndl with
    | none =>
      rw [deregister, hd, Option.getD_none] at hl
      have hmem := hes hndl hl
      rw [List.map_cons, List.mem_cons] at hmem
      refine hmem.resolve_left ?_
      rintro rfl
      have := hdereg s e.hndl hl
      simp [hd] at this
    | some s₁ =>
      rw [deregister, hd, Option.getD_some, hV.deregister hd] at hl
      have hne : hndl ≠ e.hndl := by
        rintro rfl
        simp at hl
      rw [Function.update_of_ne hne] at hl
      have hmem := hes hndl hl
      rw [List.map_cons, List.mem_cons] at hmem
      exact hmem.resolve_left hne

/-- After any run of requests, the loop of `ib_cleanup` ends, frees every node of the tree and ends
every registration. -/
theorem CacheRun.drained (hrun : CacheRun V vapiMr pdHndl n .init s₀ calls h s) (hV : V.Lawful)
    (hs₀ : ∀ hndl, V.live s₀ hndl = none)
    (hdereg : ∀ s hndl, V.live s hndl ≠ none → (V.deregisterMr s hndl).isSome)
    (hn : 2 * Nat.log 2 (calls.length + 1) + 1 < n) :
    ∃ h' s', h.drainMr (deregister V) n (calls.length + 1) s = some (h', s') ∧
      (∀ a ≠ nilnode, h'.mem a = none) ∧ ∀ hndl, V.live s' hndl = none := by
  obtain ⟨M, k, ⟨⟨t, ht, rfl, hM⟩, hm⟩, hk⟩ := hrun.cached hV hs₀ (by omega)
  have hlog : Nat.log 2 (t.toList.length + 1) ≤ Nat.log 2 (calls.length + 1) :=
    Nat.log_mono_right (by omega)
  obtain ⟨h', e', hs'⟩ := ht.drainMr (deregister V) s (n := n) (k := calls.length + 1)
    (by omega) (by omega)
  refine ⟨h', _, e', fun a ha => ?_, live_foldl_deregister hV hdereg fun hndl hl => ?_⟩
  · obtain ⟨m, hm, hr⟩ := hs'.rep
    rw [hr.rest a (by simp), hm a ha]
  · obtain ⟨mr, hmr⟩ := Option.ne_none_iff_exists'.1 hl
    obtain ⟨a, ha⟩ := (hm.live hndl mr).1 hmr
    obtain ⟨x, hx, -, hv⟩ := (hM a _).1 ha
    rw [Prod.mk.injEq] at hv
    simp only [List.map_map, List.mem_map, Function.comp_apply]
    exact ⟨x, hx, hv.1⟩

theorem drained_sample : ∃ h s, CacheRun countingHca 0 5 6 .init []
      [(sampleRequest 8 2, 0, sampleAnswer 8), (sampleRequest 16 3, 1, sampleAnswer 16)] h s ∧
    ∃ h' s', h.drainMr (deregister countingHca) 6 3 s = some (h', s') ∧
      (∀ a ≠ nilnode, h'.mem a = none) ∧ ∀ hndl, countingHca.live s' hndl = none := by
  have hrun : ∃ h s, CacheRun countingHca 0 5 6 .init []
      [(sampleRequest 8 2, 0, sampleAnswer 8), (sampleRequest 16 3, 1, sampleAnswer 16)] h s :=
    ⟨_, _, .snoc (.snoc .nil rfl rfl) rfl rfl⟩
  obtain ⟨h, s, hrun⟩ := hrun
  exact ⟨h, s, hrun, hrun.drained countingHca_lawful (by simp [countingHca])
    (by simp [countingHca]) (by decide)⟩

end Hca

end NetPipe.Vapi
