import NetPipe.Library.CallRuns
import NetPipe.Library.LinkedList

/-!
# Memory tracking

`malloc_block`, `realloc_block` and `free_block` keep a linked list of the blocks that are in use,
and `memdump` adds up their sizes.
-/

namespace NetPipe.MpLite

/-- `struct memblock` without its pointer to the next one. -/
structure MemBlock where
  ptr : ℕ
  size : UInt64
  name : String
  deriving DecidableEq, Repr

/-- What is printed. -/
inductive MemMessage where
  | memory (name : String) (mb total_mb : ℚ)
  | mallocFailed (nbytes : UInt64)
  | nonExistent
  deriving DecidableEq, Repr

/-- The list from `membase`, the sums, the number of nodes that were allocated so far, and the
messages. -/
structure MemTracker where
  mem : Heap MemBlock
  membase : Option ℕ
  mem_string : String
  total_mb : ℚ
  max_mb : ℚ
  nodes : ℕ
  messages : List MemMessage

/-- The cast of a `size_t` to `int`. -/
def narrow (size : UInt64) : ℤ := (size.toNat : ℤ).bmod (2 ^ 32)

/-- An `int` can hold the number. -/
def FitsInt (x : ℤ) : Prop := -2 ^ 31 ≤ x ∧ x < 2 ^ 31

instance (x : ℤ) : Decidable (FitsInt x) := inferInstanceAs (Decidable (_ ∧ _))

lemma toNat_neg_emod (size : UInt64) : ((-size).toNat : ℤ) = -(size.toNat : ℤ) % 2 ^ 64 := by
  rw [UInt64.toNat_neg, UInt64.size]
  have hsize := size.toNat_lt
  omega

lemma toNat_sub_emod (nbytes size : UInt64) :
    ((nbytes - size).toNat : ℤ) = ((nbytes.toNat : ℤ) - size.toNat) % 2 ^ 64 := by
  rw [UInt64.toNat_sub]
  have hnbytes := nbytes.toNat_lt
  have hsize := size.toNat_lt
  omega

/-- A number of bytes modulo `2 ^ 64` keeps its value in the cast exactly if it fits. -/
lemma narrow_eq_iff {size : UInt64} {x : ℤ} (h : (size.toNat : ℤ) = x % 2 ^ 64) :
    narrow size = x ↔ FitsInt x := by
  unfold narrow FitsInt
  rw [h, Int.bmod]
  push_cast
  split_ifs <;> omega

namespace MemTracker

/-- Nothing is allocated yet. -/
def init : MemTracker := ⟨fun _ => none, none, "", 0, 0, 0, []⟩

/-- `memdump`. -/
def memdump (b : MemBlock) (s : MemTracker) : MemTracker :=
  let mb : ℚ := narrow b.size / (1024 * 1024)
  let total_mb := s.total_mb + mb
  if total_mb > s.max_mb then
    { s with
      total_mb := total_mb
      max_mb := total_mb
      messages := if |mb| ≥ 1 / 10 then s.messages ++ [.memory b.name mb total_mb] else s.messages }
  else { s with total_mb := total_mb }

/-- The part of `malloc_block` that sets the pointer to the new node `c`. It has no result if the loop
to the last node comes to an address without a node. -/
def link (c : ℕ) (s : MemTracker) : Option MemTracker :=
  match s.membase with
  | none => some { s with membase := some c }
  | some a => (s.mem.last s.nodes a).bind fun b =>
      (s.mem.setNext b (some c)).map fun mem => { s with mem := mem }

/-- `malloc_block`, where `malloc` returns `c` for the node and `p` for the block. -/
def mallocBlock (nbytes : UInt64) (c p : ℕ) (s : MemTracker) : Option (MemTracker × ℕ) :=
  (s.link c).map fun s =>
    let b : MemBlock := ⟨p, nbytes, s.mem_string⟩
    let s : MemTracker := { s with
      mem := Function.update s.mem c (some ⟨b, none⟩)
      mem_string := ""
      nodes := s.nodes + 1
      messages := if p = 0 then s.messages ++ [.mallocFailed nbytes] else s.messages }
    (s.memdump b, p)

/-- `free_block`. The node is taken out of the list and not freed. -/
def freeBlock (ptr : ℕ) (s : MemTracker) : Option MemTracker :=
  (s.mem.find (fun b => b.ptr == ptr) s.nodes none s.membase).bind fun r =>
    match r.2 with
    | none => some { s with messages := s.messages ++ [.nonExistent] }
    | some a => (s.mem a).bind fun node =>
        let b := { node.val with size := -node.val.size }
        let s := memdump b { s with mem := Function.update s.mem a (some ⟨b, node.next⟩) }
        match r.1 with
        | none => some { s with membase := node.next }
        | some blast => (s.mem.setNext blast node.next).map fun mem => { s with mem := mem }

/-- `realloc_block`, where `realloc` or `malloc` returns `p`, and `c` for a new node. -/
def reallocBlock (ptr : ℕ) (nbytes : UInt64) (c p : ℕ) (s : MemTracker) :
    Option (MemTracker × ℕ) :=
  (s.mem.find (fun b => b.ptr == ptr) s.nodes none s.membase).bind fun r =>
    match r.2 with
    | none => s.mallocBlock nbytes c p
    | some a =>
      if ptr = 0 then s.mallocBlock nbytes c p
      else (s.mem a).map fun node =>
        let s := memdump { node.val with size := nbytes - node.val.size } s
        let b := { node.val with ptr := p, size := nbytes }
        ({ s with mem := Function.update s.mem a (some ⟨b, node.next⟩) }, p)

/-- The list from `membase` is `chain`. -/
structure Chained (s : MemTracker) (chain : List (ℕ × MemBlock)) : Prop where
  linked : s.mem.Segment s.membase chain none
  nodup : (chain.map Prod.fst).Nodup
  bound : chain.length ≤ s.nodes

/-- `memdump` was called for a block of `size` bytes. -/
structure Charged (s s' : MemTracker) (size : UInt64) : Prop where
  total_mb : s'.total_mb = s.total_mb + narrow size / 2 ^ 20
  max_mb : s'.max_mb = max s.max_mb s'.total_mb

section

variable {s s' : MemTracker} {b : MemBlock} {chain l₁ l₂ : List (ℕ × MemBlock)} {ptr c p a : ℕ}
  {nbytes size : UInt64}

@[simp] lemma memdump_mem : (s.memdump b).mem = s.mem := by
  rw [memdump]
  split_ifs <;> rfl

@[simp] lemma memdump_membase : (s.memdump b).membase = s.membase := by
  rw [memdump]
  split_ifs <;> rfl

@[simp] lemma memdump_nodes : (s.memdump b).nodes = s.nodes := by
  rw [memdump]
  split_ifs <;> rfl

lemma charged_memdump (htotal : s'.total_mb = s.total_mb) (hmax : s'.max_mb = s.max_mb) :
    s.Charged (s'.memdump b) b.size := by
  have hmb : (1024 * 1024 : ℚ) = 2 ^ 20 := by norm_num
  rw [memdump, hmb, htotal, hmax]
  by_cases hnew : s.total_mb + (narrow b.size : ℚ) / 2 ^ 20 > s.max_mb
  · rw [if_pos hnew]
    exact ⟨rfl, (max_eq_right hnew.le).symm⟩
  · rw [if_neg hnew]
    exact ⟨rfl, (max_eq_left (not_lt.mp hnew)).symm⟩

lemma Chained.init : init.Chained [] := ⟨rfl, List.nodup_nil, le_rfl⟩

lemma Chained.link (h : s.Chained chain) (hc : s.mem c = none) (x : MemBlock) :
    ∃ mem membase, s.link c = some { s with mem := mem, membase := membase } ∧
      Heap.Segment (Function.update mem c (some ⟨x, none⟩)) membase (chain ++ [(c, x)]) none := by
  have hlinked := h.linked
  rcases List.eq_nil_or_concat chain with rfl | ⟨l, ⟨b, y⟩, rfl⟩
  · have hbase : s.membase = none := hlinked
    refine ⟨s.mem, some c, by rw [MemTracker.link, hbase], ?_⟩
    simp
  · rw [List.concat_eq_append] at hlinked ⊢
    obtain ⟨a, ha⟩ : ∃ a, s.membase = some a := by
      cases l with
      | nil => exact ⟨_, hlinked.1⟩
      | cons dz l => exact ⟨_, hlinked.1⟩
    have hbound : l.length < s.nodes := by
      simpa using h.bound
    obtain ⟨r, -, -, s', hb, hnext⟩ := Heap.segment_append.mp hlinked
    rw [Heap.segment_nil] at hnext
    subst hnext
    have hlast : s.mem.last s.nodes a = some b := Heap.Segment.last (ha ▸ hlinked) hbound
    have hset : s.mem.setNext b (some c) =
        some (Function.update s.mem b (some ⟨y, some c⟩)) := by
      simp [Heap.setNext, hb]
    refine ⟨Function.update s.mem b (some ⟨y, some c⟩), s.membase, ?_, ?_⟩
    · rw [MemTracker.link, ha]
      simp only [hlast, hset, Option.bind_some, Option.map_some]
    · have hnodup : (l.map Prod.fst ++ [b]).Nodup := by
        simpa using h.nodup
      rw [List.append_assoc]
      exact hlinked.append_last hnodup hc

/-- `malloc_block` links the new block behind the last one. -/
lemma Chained.mallocBlock (h : s.Chained chain) (hc : s.mem c = none) (p : ℕ) (nbytes : UInt64) :
    ∃ s', s.mallocBlock nbytes c p = some (s', p) ∧
      s'.Chained (chain ++ [(c, ⟨p, nbytes, s.mem_string⟩)]) ∧ s.Charged s' nbytes := by
  obtain ⟨mem, membase, hlink, hlinked⟩ := h.link hc ⟨p, nbytes, s.mem_string⟩
  rw [MemTracker.mallocBlock, hlink]
  refine ⟨_, rfl, ⟨?_, ?_, ?_⟩, charged_memdump (s := s) rfl rfl⟩
  · simpa using hlinked
  · rw [List.map_append, List.map_cons, List.map_nil, List.nodup_middle, List.append_nil]
    exact List.nodup_cons.mpr ⟨h.linked.not_mem hc, h.nodup⟩
  · simpa using h.bound

/-- The loop for a pointer stops at its block. -/
lemma Chained.find (h : s.Chained (l₁ ++ (a, b) :: l₂)) (hl₁ : ∀ d ∈ l₁, d.2.ptr ≠ b.ptr) :
    s.mem.find (fun d => d.ptr == b.ptr) s.nodes none s.membase =
      some ((l₁.map Prod.fst).getLast?, some a) := by
  have hother : ∀ y ∈ l₁.map Prod.snd, (y.ptr == b.ptr) = false := by
    intro y hy
    obtain ⟨d, hd, rfl⟩ := List.mem_map.mp hy
    exact beq_eq_false_iff_ne.mpr (hl₁ d hd)
  have hlen : l₁.length < s.nodes := by
    apply lt_of_lt_of_le _ h.bound
    simp
  have hfind : s.mem.find (fun d => d.ptr == b.ptr) s.nodes none s.membase = _ :=
    h.linked.find hother (beq_self_eq_true b.ptr) hlen
  rwa [Option.or_none] at hfind

/-- The loop for a pointer without a block comes to the end. -/
lemma Chained.find_none (h : s.Chained chain) (hptr : ∀ d ∈ chain, d.2.ptr ≠ ptr) :
    ∃ last, s.mem.find (fun d => d.ptr == ptr) s.nodes none s.membase = some (last, none) := by
  apply h.linked.find_none _ h.bound
  intro y hy
  obtain ⟨d, hd, rfl⟩ := List.mem_map.mp hy
  exact beq_eq_false_iff_ne.mpr (hptr d hd)

/-- `realloc_block` changes the pointer and the size of a block. -/
lemma Chained.reallocBlock (h : s.Chained (l₁ ++ (a, b) :: l₂)) (hl₁ : ∀ d ∈ l₁, d.2.ptr ≠ b.ptr)
    (hb : b.ptr ≠ 0) (c p : ℕ) (nbytes : UInt64) :
    ∃ s', s.reallocBlock b.ptr nbytes c p = some (s', p) ∧
      s'.Chained (l₁ ++ (a, { b with ptr := p, size := nbytes }) :: l₂) ∧
      s.Charged s' (nbytes - b.size) := by
  obtain ⟨r, ha, hlinked⟩ := h.linked.set_val h.nodup { b with ptr := p, size := nbytes }
  have hnodup := h.nodup
  have hbound := h.bound
  have hcharged : s.Charged (s.memdump { b with size := nbytes - b.size }) (nbytes - b.size) :=
    charged_memdump rfl rfl
  simp only [MemTracker.reallocBlock, h.find hl₁, Option.bind_some, if_neg hb, ha, Option.map_some]
  refine ⟨_, rfl, ⟨?_, ?_, ?_⟩, hcharged.total_mb, hcharged.max_mb⟩
  · simpa using hlinked
  · simpa using hnodup
  · simpa using hbound

/-- `free_block` takes a block out of the list. -/
lemma Chained.freeBlock (h : s.Chained (l₁ ++ (a, b) :: l₂)) (hl₁ : ∀ d ∈ l₁, d.2.ptr ≠ b.ptr) :
    ∃ s', s.freeBlock b.ptr = some s' ∧ s'.Chained (l₁ ++ l₂) ∧ s.Charged s' (-b.size) := by
  obtain ⟨r, ha, hlinked⟩ := h.linked.set_val h.nodup { b with size := -b.size }
  have hsub : (l₁ ++ l₂).Sublist (l₁ ++ (a, b) :: l₂) :=
    (List.sublist_cons_self _ _).append_left _
  have hnodup : ((l₁ ++ l₂).map Prod.fst).Nodup := h.nodup.sublist (hsub.map _)
  have hbound : (l₁ ++ l₂).length ≤ s.nodes := hsub.length_le.trans h.bound
  have hcharged : s.Charged (memdump { b with size := -b.size }
      { s with mem := Function.update s.mem a (some ⟨{ b with size := -b.size }, r⟩) }) (-b.size) :=
    charged_memdump rfl rfl
  have hfind := h.find hl₁
  rcases List.eq_nil_or_concat l₁ with rfl | ⟨l, ⟨d, y⟩, rfl⟩
  · simp only [MemTracker.freeBlock, hfind, Option.bind_some, ha, List.map_nil, List.getLast?_nil]
    refine ⟨_, rfl, ⟨?_, hnodup, by simpa using hbound⟩, hcharged.total_mb, hcharged.max_mb⟩
    obtain ⟨-, r', ha', hl₂⟩ := hlinked
    rw [Function.update_self] at ha'
    cases ha'
    simpa using hl₂
  · rw [List.concat_eq_append] at hfind hlinked hnodup hbound ⊢
    have hnodes := h.nodup
    rw [List.concat_eq_append] at hnodes
    rw [List.append_assoc, List.singleton_append] at hlinked hnodes hnodup hbound ⊢
    obtain ⟨q, ha', hd, hbypass⟩ := hlinked.bypass (by simpa using hnodes)
    rw [Function.update_self] at ha'
    cases ha'
    have hset : Heap.setNext (Function.update s.mem a (some ⟨{ b with size := -b.size }, r⟩)) d r =
        some (Function.update (Function.update s.mem a (some ⟨{ b with size := -b.size }, r⟩)) d
          (some ⟨y, r⟩)) := by
      simp [Heap.setNext, hd]
    have hlast : ((l ++ [(d, y)]).map Prod.fst).getLast? = some d := by simp
    simp only [MemTracker.freeBlock, hfind, hlast, Option.bind_some, ha, memdump_mem, hset,
      Option.map_some]
    exact ⟨_, rfl, ⟨by simpa using hbypass, hnodup, by simpa using hbound⟩, hcharged.total_mb,
      hcharged.max_mb⟩

end

end MemTracker

/-! ### What it is for -/

/-- The bytes of some blocks, given by their pointers and sizes. -/
def totalBytes (live : List (ℕ × UInt64)) : ℕ := (live.map fun b => b.2.toNat).sum

/-- The blocks that are in use, and the most bytes that were in use at any time so far. -/
structure Usage where
  live : List (ℕ × UInt64)
  peak : ℕ
  le_peak : totalBytes live ≤ peak

@[simp] lemma totalBytes_nil : totalBytes [] = 0 := rfl

@[simp] lemma totalBytes_cons (b : ℕ × UInt64) (live : List (ℕ × UInt64)) :
    totalBytes (b :: live) = b.2.toNat + totalBytes live := by
  simp [totalBytes]

@[simp] lemma totalBytes_append (live live' : List (ℕ × UInt64)) :
    totalBytes (live ++ live') = totalBytes live + totalBytes live' := by
  simp [totalBytes]

namespace Usage

/-- Nothing is in use. -/
def empty : Usage := ⟨[], 0, le_rfl⟩

/-- Other blocks are in use from now on. -/
def record (u : Usage) (live : List (ℕ × UInt64)) : Usage :=
  ⟨live, max u.peak (totalBytes live), le_max_right _ _⟩

/-- The size of the block at a pointer, and `0` if there is none. -/
def sizeAt (u : Usage) (ptr : ℕ) : ℕ := totalBytes (u.live.filter fun b => b.1 = ptr)

variable {u : Usage} {l₁ l₂ : List (ℕ × UInt64)} {ptr : ℕ} {size : UInt64}

lemma record_live (u : Usage) : u.record u.live = u := by
  obtain ⟨live, peak, hpeak⟩ := u
  simp [record, hpeak]

lemma sizeAt_eq (hlive : u.live = l₁ ++ (ptr, size) :: l₂) (hl₁ : ∀ b ∈ l₁, b.1 ≠ ptr)
    (hl₂ : ∀ b ∈ l₂, b.1 ≠ ptr) : u.sizeAt ptr = size.toNat := by
  have hother : ∀ l : List (ℕ × UInt64), (∀ b ∈ l, b.1 ≠ ptr) →
      l.filter (fun b => b.1 = ptr) = [] := fun l hl => by simpa using hl
  rw [sizeAt, hlive, List.filter_append, hother l₁ hl₁, List.filter_cons_of_pos (by simp),
    hother l₂ hl₂]
  simp

lemma sizeAt_eq_zero (hptr : ptr ∉ u.live.map Prod.fst) : u.sizeAt ptr = 0 := by
  have hfilter : u.live.filter (fun b => b.1 = ptr) = [] := by
    rw [List.filter_eq_nil_iff]
    intro b hb heq
    exact hptr (List.mem_map.mpr ⟨b, hb, of_decide_eq_true heq⟩)
  rw [sizeAt, hfilter, totalBytes_nil]

end Usage

/-- A call, with what `malloc` returns for a new node, and what `malloc` or `realloc` returns for the
block. -/
inductive MemCall where
  | malloc (nbytes : UInt64) (c p : ℕ)
  | realloc (ptr : ℕ) (nbytes : UInt64) (c p : ℕ)
  | free (ptr : ℕ)
  deriving DecidableEq, Repr

namespace MemCall

/-- What the code does. -/
def run (s : MemTracker) : MemCall → Option MemTracker
  | malloc nbytes c p => (s.mallocBlock nbytes c p).map Prod.fst
  | realloc ptr nbytes c p => (s.reallocBlock ptr nbytes c p).map Prod.fst
  | free ptr => s.freeBlock ptr

/-- The blocks in use after a call. A block that is not in use is not reallocated but allocated. -/
def usage (u : Usage) : MemCall → Usage
  | malloc nbytes _ p => u.record (u.live ++ [(p, nbytes)])
  | realloc ptr nbytes _ p =>
    if ptr ∈ u.live.map Prod.fst then
      u.record (u.live.map fun b => if b.1 = ptr then (p, nbytes) else b)
    else u.record (u.live ++ [(p, nbytes)])
  | free ptr => u.record (u.live.filter fun b => b.1 ≠ ptr)

/-- By how many bytes a call changes what is in use. -/
def change (u : Usage) : MemCall → ℤ
  | malloc nbytes _ _ => nbytes.toNat
  | realloc ptr nbytes _ _ => nbytes.toNat - u.sizeAt ptr
  | free ptr => -u.sizeAt ptr

/-- An `int` can hold the change. -/
def Fits (u : Usage) (call : MemCall) : Prop := FitsInt (call.change u)

instance (u : Usage) (call : MemCall) : Decidable (call.Fits u) :=
  inferInstanceAs (Decidable (FitsInt _))

/-- Allocations succeed, and what is allocated is not in use. -/
def Proper (s : MemTracker) (u : Usage) : MemCall → Prop
  | malloc _ c p => s.mem c = none ∧ p ≠ 0 ∧ p ∉ u.live.map Prod.fst
  | realloc ptr _ c p => s.mem c = none ∧ p ≠ 0 ∧ (p = ptr ∨ p ∉ u.live.map Prod.fst)
  | free _ => True

/-- The state after some calls. -/
def runAll (calls : List MemCall) : Option MemTracker := calls.foldlM run .init

/-- The blocks in use after some calls. -/
def usageAll (calls : List MemCall) : Usage := calls.foldl usage .empty

end MemCall

namespace MemTracker

/-- The pointers and sizes of the blocks of a list. -/
def blocks (chain : List (ℕ × MemBlock)) : List (ℕ × UInt64) :=
  chain.map fun d => (d.2.ptr, d.2.size)

/-- The list holds exactly the blocks `live`, with their pointers and sizes. -/
structure Listed (s : MemTracker) (live : List (ℕ × UInt64)) : Prop where
  list : ∃ chain, s.Chained chain ∧ blocks chain = live
  nodup : (live.map Prod.fst).Nodup
  nonnull : 0 ∉ live.map Prod.fst

/-- The list and the sums are right. -/
structure Tracks (s : MemTracker) (u : Usage) : Prop where
  listed : s.Listed u.live
  total_mb : s.total_mb = totalBytes u.live / 2 ^ 20
  max_mb : s.max_mb = u.peak / 2 ^ 20

variable {s s' : MemTracker} {u : Usage} {live : List (ℕ × UInt64)} {ptr c p : ℕ}
  {nbytes size : UInt64} {x : ℤ} {chain l₁ l₂ : List (ℕ × MemBlock)}

@[simp] lemma blocks_append : blocks (l₁ ++ l₂) = blocks l₁ ++ blocks l₂ := List.map_append

@[simp] lemma blocks_cons {d : ℕ × MemBlock} :
    blocks (d :: l₁) = (d.2.ptr, d.2.size) :: blocks l₁ := rfl

lemma forall_mem_blocks : (∀ b ∈ blocks chain, b.1 ≠ ptr) ↔ ∀ d ∈ chain, d.2.ptr ≠ ptr :=
  List.forall_mem_map

/-- After `memdump` the sums are right exactly if the change fits. -/
lemma Tracks.record_iff (h : s.Tracks u) (hcharged : s.Charged s' size)
    (hsize : (size.toNat : ℤ) = x % 2 ^ 64)
    (hbytes : (totalBytes live : ℤ) = totalBytes u.live + x) (hlisted : s'.Listed live) :
    s'.Tracks (u.record live) ↔ FitsInt x := by
  have hbytes' : (totalBytes live : ℚ) = totalBytes u.live + x := by exact_mod_cast hbytes
  rw [← narrow_eq_iff hsize]
  constructor
  · intro h'
    have htotal := h'.total_mb
    rw [hcharged.total_mb, h.total_mb] at htotal
    have hsum : (narrow size : ℚ) = x := by
      have hlive : (totalBytes (u.record live).live : ℚ) = totalBytes u.live + x := hbytes'
      rw [hlive] at htotal
      linarith
    exact_mod_cast hsum
  · intro hnarrow
    have htotal : s'.total_mb = totalBytes live / 2 ^ 20 := by
      rw [hcharged.total_mb, h.total_mb, hnarrow, hbytes', add_div]
    refine ⟨hlisted, htotal, ?_⟩
    have hpeak : ((u.record live).peak : ℚ) = max (u.peak : ℚ) (totalBytes live) := by
      simp [Usage.record]
    rw [hcharged.max_mb, h.max_mb, htotal, hpeak, max_div_div_right (by positivity)]

/-- The block of a pointer in the list. -/
lemma Listed.exists_block (h : s.Listed live) (hptr : ptr ∈ live.map Prod.fst) :
    ∃ l₁ a b l₂, s.Chained (l₁ ++ (a, b) :: l₂) ∧ b.ptr = ptr ∧
      live = blocks l₁ ++ (ptr, b.size) :: blocks l₂ ∧
      (∀ d ∈ l₁, d.2.ptr ≠ ptr) ∧ ∀ d ∈ l₂, d.2.ptr ≠ ptr := by
  obtain ⟨⟨chain, hchain, rfl⟩, hnodup, -⟩ := h
  rw [blocks, List.map_map] at hptr hnodup
  obtain ⟨⟨a, b⟩, hmem, rfl⟩ := List.mem_map.mp hptr
  obtain ⟨l₁, l₂, rfl⟩ := List.append_of_mem hmem
  rw [List.map_append, List.map_cons, List.nodup_append] at hnodup
  obtain ⟨-, htail, hdisj⟩ := hnodup
  refine ⟨l₁, a, b, l₂, hchain, rfl, by simp, fun d hd heq => ?_, fun d hd heq => ?_⟩
  · exact hdisj _ (List.mem_map_of_mem hd) _ List.mem_cons_self heq
  · exact (List.nodup_cons.mp htail).1 (List.mem_map.mpr ⟨d, hd, heq⟩)

/-- No block of the list has the pointer. -/
lemma Listed.exists_chain (h : s.Listed live) (hptr : ptr ∉ live.map Prod.fst) :
    ∃ chain, s.Chained chain ∧ blocks chain = live ∧ ∀ d ∈ chain, d.2.ptr ≠ ptr := by
  obtain ⟨⟨chain, hchain, rfl⟩, -, -⟩ := h
  refine ⟨chain, hchain, rfl, fun d hd heq => hptr ?_⟩
  rw [blocks, List.map_map]
  exact List.mem_map.mpr ⟨d, hd, heq⟩

/-- `malloc_block` keeps the list right, and the sums if the size fits. -/
lemma Tracks.mallocBlock (h : s.Tracks u) (hc : s.mem c = none) (hp : p ≠ 0)
    (hnew : p ∉ u.live.map Prod.fst) (nbytes : UInt64) :
    ∃ s', s.mallocBlock nbytes c p = some (s', p) ∧
      (s'.Tracks (u.record (u.live ++ [(p, nbytes)])) ↔ FitsInt nbytes.toNat) := by
  obtain ⟨⟨chain, hchain, hlive⟩, hnodup, hnonnull⟩ := h.listed
  obtain ⟨s', hs', hchain', hcharged⟩ := hchain.mallocBlock hc p nbytes
  refine ⟨s', hs', h.record_iff hcharged ?_ ?_ ⟨⟨_, hchain', ?_⟩, ?_, ?_⟩⟩
  · exact (Int.emod_eq_of_lt (Int.natCast_nonneg _) (by exact_mod_cast nbytes.toNat_lt)).symm
  · simp
  · rw [blocks_append, hlive]
    rfl
  · rw [List.map_append, List.map_cons, List.map_nil, List.nodup_middle, List.append_nil]
    exact List.nodup_cons.mpr ⟨hnew, hnodup⟩
  · simp only [List.map_append, List.mem_append, not_or]
    exact ⟨hnonnull, fun hzero => hp (List.mem_singleton.mp hzero).symm⟩

/-- `free_block` does so if the size of the block fits with a minus. -/
lemma Tracks.freeBlock (h : s.Tracks u) (ptr : ℕ) :
    ∃ s', s.freeBlock ptr = some s' ∧
      (s'.Tracks (u.record (u.live.filter fun b => b.1 ≠ ptr)) ↔ FitsInt (-u.sizeAt ptr)) := by
  have hkept : ∀ l : List (ℕ × UInt64), (∀ b ∈ l, b.1 ≠ ptr) →
      l.filter (fun b => b.1 ≠ ptr) = l := fun l hl => List.filter_eq_self.mpr (by simpa using hl)
  by_cases hptr : ptr ∈ u.live.map Prod.fst
  · obtain ⟨l₁, a, b, l₂, hchain, rfl, hlive, hl₁, hl₂⟩ := h.listed.exists_block hptr
    obtain ⟨s', hs', hchain', hcharged⟩ := hchain.freeBlock hl₁
    have hfilter : u.live.filter (fun d => d.1 ≠ b.ptr) = blocks l₁ ++ blocks l₂ := by
      rw [hlive, List.filter_append, hkept _ (forall_mem_blocks.mpr hl₁),
        List.filter_cons_of_neg (by simp), hkept _ (forall_mem_blocks.mpr hl₂)]
    have hsub : (blocks l₁ ++ blocks l₂).Sublist u.live := hfilter ▸ List.filter_sublist
    rw [hfilter, Usage.sizeAt_eq hlive (forall_mem_blocks.mpr hl₁) (forall_mem_blocks.mpr hl₂)]
    refine ⟨s', hs', h.record_iff hcharged (toNat_neg_emod _) ?_ ⟨⟨_, hchain', ?_⟩, ?_, ?_⟩⟩
    · rw [hlive]
      simp only [totalBytes_append, totalBytes_cons]
      push_cast
      ring
    · exact blocks_append
    · exact h.listed.nodup.sublist (hsub.map _)
    · exact fun hzero => h.listed.nonnull ((hsub.map _).subset hzero)
  · obtain ⟨chain, hchain, hlive, hother⟩ := h.listed.exists_chain hptr
    obtain ⟨last, hfind⟩ := hchain.find_none hother
    rw [hkept _ (hlive ▸ forall_mem_blocks.mpr hother), Usage.record_live, Usage.sizeAt_eq_zero hptr]
    refine ⟨{ s with messages := s.messages ++ [.nonExistent] }, ?_, iff_of_true ?_ (by decide)⟩
    · rw [MemTracker.freeBlock, hfind]
      rfl
    · exact ⟨⟨⟨chain, ⟨hchain.linked, hchain.nodup, hchain.bound⟩, hlive⟩, h.listed.nodup,
        h.listed.nonnull⟩, h.total_mb, h.max_mb⟩

/-- `realloc_block` does so if the difference of the sizes fits. -/
lemma Tracks.reallocBlock (h : s.Tracks u) (hc : s.mem c = none) (hp : p ≠ 0)
    (hnew : p = ptr ∨ p ∉ u.live.map Prod.fst) (nbytes : UInt64) :
    ∃ s', s.reallocBlock ptr nbytes c p = some (s', p) ∧
      (s'.Tracks ((MemCall.realloc ptr nbytes c p).usage u) ↔
        FitsInt (nbytes.toNat - u.sizeAt ptr)) := by
  by_cases hptr : ptr ∈ u.live.map Prod.fst
  · obtain ⟨l₁, a, b, l₂, hchain, rfl, hlive, hl₁, hl₂⟩ := h.listed.exists_block hptr
    have hnull : b.ptr ≠ 0 := fun hzero => h.listed.nonnull (hzero ▸ hptr)
    obtain ⟨s', hs', hchain', hcharged⟩ := hchain.reallocBlock hl₁ hnull c p nbytes
    have hkept : ∀ l : List (ℕ × UInt64), (∀ d ∈ l, d.1 ≠ b.ptr) →
        l.map (fun d => if d.1 = b.ptr then (p, nbytes) else d) = l := by
      intro l hl
      rw [List.map_congr_left fun d hd => if_neg (hl d hd), List.map_id']
    have hmap : u.live.map (fun d => if d.1 = b.ptr then (p, nbytes) else d) =
        blocks l₁ ++ (p, nbytes) :: blocks l₂ := by
      rw [hlive, List.map_append, List.map_cons, hkept _ (forall_mem_blocks.mpr hl₁),
        hkept _ (forall_mem_blocks.mpr hl₂), if_pos rfl]
    have hnodup := h.listed.nodup
    have hnonnull := h.listed.nonnull
    rw [MemCall.usage, if_pos hptr, hmap,
      Usage.sizeAt_eq hlive (forall_mem_blocks.mpr hl₁) (forall_mem_blocks.mpr hl₂)]
    refine ⟨s', hs', h.record_iff hcharged (toNat_sub_emod _ _) ?_ ⟨⟨_, hchain', ?_⟩, ?_, ?_⟩⟩
    · rw [hlive]
      simp only [totalBytes_append, totalBytes_cons]
      push_cast
      ring
    · simp
    · rw [hlive, List.map_append, List.map_cons, List.nodup_middle, List.nodup_cons] at hnodup
      rw [List.map_append, List.map_cons, List.nodup_middle, List.nodup_cons]
      refine ⟨?_, hnodup.2⟩
      rcases hnew with rfl | hnew
      · exact hnodup.1
      · rw [hlive] at hnew
        simp only [List.map_append, List.map_cons, List.mem_append, List.mem_cons, not_or] at hnew ⊢
        exact ⟨hnew.1, hnew.2.2⟩
    · rw [hlive] at hnonnull
      simp only [List.map_append, List.map_cons, List.mem_append, List.mem_cons, not_or]
        at hnonnull ⊢
      exact ⟨hnonnull.1, hp.symm, hnonnull.2.2⟩
  · obtain ⟨chain, hchain, -, hother⟩ := h.listed.exists_chain hptr
    obtain ⟨last, hfind⟩ := hchain.find_none hother
    have hfresh : p ∉ u.live.map Prod.fst := hnew.elim (fun heq => heq ▸ hptr) id
    rw [MemCall.usage, if_neg hptr, Usage.sizeAt_eq_zero hptr, Nat.cast_zero, sub_zero,
      MemTracker.reallocBlock, hfind]
    exact h.mallocBlock hc hp hfresh nbytes

lemma tracks_init : init.Tracks .empty :=
  ⟨⟨⟨[], .init, rfl⟩, List.nodup_nil, List.not_mem_nil⟩, by simp [init, Usage.empty],
    by simp [init, Usage.empty]⟩

end MemTracker

namespace MemCall

/-- After every call the list and the sums are right exactly if every call changes the bytes in use
by a number that fits. -/
theorem tracks_iff_fits (calls : List MemCall)
    (hproper : ∀ pre call s, pre ++ [call] <+: calls → runAll pre = some s →
      call.Proper s (usageAll pre)) :
    (∀ pre, pre <+: calls → ∃ s, runAll pre = some s ∧ s.Tracks (usageAll pre)) ↔
      ∀ pre call, pre ++ [call] <+: calls → call.Fits (usageAll pre) := by
  refine CallRuns.forall_prefix_iff MemTracker.tracks_init ?_ calls hproper
  intro s u call h hcall
  cases call with
  | malloc nbytes c p =>
    obtain ⟨hc, hp, hnew⟩ := hcall
    obtain ⟨s', hs', htracks⟩ := h.mallocBlock hc hp hnew nbytes
    exact ⟨s', by rw [run, hs']; rfl, htracks⟩
  | realloc ptr nbytes c p =>
    obtain ⟨hc, hp, hnew⟩ := hcall
    obtain ⟨s', hs', htracks⟩ := h.reallocBlock hc hp hnew nbytes
    exact ⟨s', by rw [run, hs']; rfl, htracks⟩
  | free ptr => exact h.freeBlock ptr

/-- A block of 100 bytes becomes smaller and is freed. -/
def smaller : List MemCall := [malloc 100 8 1000, realloc 1000 40 16 2000, free 2000]

/-- A block of 2 GiB. -/
def twoGiB : List MemCall := [malloc 2147483648 8 1000]

lemma proper_smaller (pre : List MemCall) (call : MemCall) (s : MemTracker)
    (hpre : pre ++ [call] <+: smaller) (hs : runAll pre = some s) :
    call.Proper s (usageAll pre) := by
  obtain ⟨i, hi, rfl, rfl⟩ := CallRuns.exists_take_of_concat_prefix hpre
  simp only [smaller, List.length_cons, List.length_nil] at hi
  interval_cases i
  · cases hs
    exact ⟨rfl, by decide, by decide⟩
  · cases hs
    refine ⟨?_, by decide, by decide⟩
    simp only [MemTracker.memdump_mem]
    rfl
  · trivial

theorem tracks_smaller : ∃ s, runAll smaller = some s ∧ s.Tracks (usageAll smaller) := by
  have hfits : ∀ pre call, pre ++ [call] <+: smaller → call.Fits (usageAll pre) := by
    intro pre call hpre
    obtain ⟨i, hi, rfl, rfl⟩ := CallRuns.exists_take_of_concat_prefix hpre
    simp only [smaller, List.length_cons, List.length_nil] at hi
    clear hpre
    interval_cases i <;> decide +revert
  exact (tracks_iff_fits smaller proper_smaller).mpr hfits smaller List.prefix_rfl

/-- The sum is below zero. -/
theorem not_tracks_twoGiB :
    (∀ pre call s, pre ++ [call] <+: twoGiB → runAll pre = some s →
      call.Proper s (usageAll pre)) ∧
    (∃ s, runAll twoGiB = some s ∧ s.total_mb = -2048) ∧
    ¬ ∀ pre, pre <+: twoGiB → ∃ s, runAll pre = some s ∧ s.Tracks (usageAll pre) := by
  obtain ⟨s, hs, htotal⟩ : ∃ s, runAll twoGiB = some s ∧ s.total_mb = -2048 := by
    obtain ⟨s, hs, -, hcharged⟩ := MemTracker.Chained.init.mallocBlock (c := 8) rfl 1000 2147483648
    have hnarrow : narrow 2147483648 = -2 ^ 31 := by decide
    refine ⟨s, ?_, ?_⟩
    · simp [runAll, twoGiB, run, hs]
    · rw [hcharged.total_mb, hnarrow]
      norm_num [MemTracker.init]
  refine ⟨fun pre call s hpre hs => ?_, ⟨s, hs, htotal⟩, fun h => ?_⟩
  · obtain ⟨i, hi, rfl, rfl⟩ := CallRuns.exists_take_of_concat_prefix hpre
    simp only [twoGiB, List.length_cons, List.length_nil] at hi
    interval_cases i
    cases hs
    exact ⟨rfl, by decide, by decide⟩
  · obtain ⟨s', hs', htracks⟩ := h twoGiB List.prefix_rfl
    obtain rfl := Option.some.inj (hs.symm.trans hs')
    have hbytes : totalBytes (usageAll twoGiB).live = 2 ^ 31 := by decide
    have htotal' := htracks.total_mb
    rw [htotal, hbytes] at htotal'
    norm_num at htotal'

end MemCall

end NetPipe.MpLite
