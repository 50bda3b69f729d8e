import NetPipe.Driver.Calls

/-!
# Buffer pointers

Addresses are integers and `NULL` is `0`. `Ptrs` holds the global buffer pointers of one process;
`mallocBufs`, `initBufferData` and `advancePtrs` move them as `netpipe.c` does.
-/

namespace NetPipe

/-- `MEMSIZE` of `netpipe.h`. -/
def memsize : ℤ := 200000000

/-- `sizeof(void *)`. -/
def ptrSize : ℤ := 8

/-- What the pointer functions read besides the pointers: the offset arguments, the page size
of the system and whether the module is `memcpy`. -/
structure Layout where
  soffset : ℤ
  roffset : ℤ
  pagesize : ℤ
  memcpy : Bool
  pagesize_pos : 0 < pagesize

/-- The global buffer pointers of a process. -/
structure Ptrs where
  sr_buf : ℤ
  s_buf : ℤ
  s_ptr : ℤ
  r_buf : ℤ
  r_ptr : ℤ
  dsr_buf : ℤ
  ds_buf : ℤ
  ds_ptr : ℤ
  dr_buf : ℤ
  dr_ptr : ℤ
  deriving DecidableEq, Repr

namespace Ptrs

/-- The pointers before any allocation. -/
def null : Ptrs := ⟨0, 0, 0, 0, 0, 0, 0, 0, 0, 0⟩

/-- Dereference the address of a pointer variable. -/
def get (p : Ptrs) : PtrVar → ℤ
  | .s_ptr => p.s_ptr
  | .r_ptr => p.r_ptr
  | .ds_ptr => p.ds_ptr
  | .dr_ptr => p.dr_ptr

/-- Assign through the address of a pointer variable. -/
def set (p : Ptrs) (v : PtrVar) (x : ℤ) : Ptrs :=
  match v with
  | .s_ptr => { p with s_ptr := x }
  | .r_ptr => { p with r_ptr := x }
  | .ds_ptr => { p with ds_ptr := x }
  | .dr_ptr => { p with dr_ptr := x }

variable (p : Ptrs) (v : PtrVar) (x : ℤ)

@[simp] lemma get_s_ptr : p.get .s_ptr = p.s_ptr := rfl
@[simp] lemma get_r_ptr : p.get .r_ptr = p.r_ptr := rfl
@[simp] lemma get_ds_ptr : p.get .ds_ptr = p.ds_ptr := rfl
@[simp] lemma get_dr_ptr : p.get .dr_ptr = p.dr_ptr := rfl
@[simp] lemma set_sr_buf : (p.set v x).sr_buf = p.sr_buf := by cases v <;> rfl
@[simp] lemma set_s_buf : (p.set v x).s_buf = p.s_buf := by cases v <;> rfl
@[simp] lemma set_r_buf : (p.set v x).r_buf = p.r_buf := by cases v <;> rfl
@[simp] lemma set_dsr_buf : (p.set v x).dsr_buf = p.dsr_buf := by cases v <;> rfl
@[simp] lemma set_ds_buf : (p.set v x).ds_buf = p.ds_buf := by cases v <;> rfl
@[simp] lemma set_dr_buf : (p.set v x).dr_buf = p.dr_buf := by cases v <;> rfl

end Ptrs

/-! ### Allocation -/

/-- Round up to an even number of pages. -/
def roundPage (l : Layout) (n : ℤ) : ℤ :=
  if n % l.pagesize > 0 then n + (l.pagesize - n % l.pagesize) else n

lemma le_roundPage (l : Layout) (n : ℤ) : n ≤ roundPage l n := by
  have := Int.emod_lt_of_pos n l.pagesize_pos
  unfold roundPage
  split_ifs <;> omega

/-- The size of each half of a pool, `nbytes` in `MallocBufs`. -/
def halfSize (l : Layout) (size : ℤ) : ℤ := roundPage l (size / 2 + max l.soffset l.roffset)

lemma le_halfSize (l : Layout) (size : ℤ) : size / 2 + max l.soffset l.roffset ≤ halfSize l size :=
  le_roundPage l _

/-- `MallocBufs`: the allocator returned `base`; `dsr` is the remote buffer `Module_malloc` may
have set, `0` in a two-sided module. -/
def mallocBufs (l : Layout) (size base dsr : ℤ) (p : Ptrs) : Ptrs :=
  let nbytes := halfSize l size
  let p := { p with
    sr_buf := base, s_buf := base, r_buf := base + nbytes, dsr_buf := dsr
    s_ptr := base + l.soffset, r_ptr := base + nbytes + l.roffset }
  let p := if dsr ≠ 0 then { p with
    ds_buf := dsr, dr_buf := dsr + nbytes
    dr_ptr := dsr + nbytes + l.roffset, ds_ptr := dsr + l.soffset } else p
  if l.memcpy then { p with
    dsr_buf := p.sr_buf, ds_buf := p.s_buf, ds_ptr := p.s_ptr, dr_buf := p.r_buf
    dr_ptr := p.r_ptr } else p

/-- The pointer part of `InitBufferData`. -/
def initBufferData (l : Layout) (p : Ptrs) : Ptrs :=
  { p with
    r_ptr := p.r_buf + l.roffset, s_ptr := p.s_buf + l.soffset
    dr_ptr := p.dr_buf + l.roffset, ds_ptr := p.ds_buf + l.soffset }

/-! ### Motion -/

/-- `size` rounded up to a multiple of the pointer size. -/
def blocksize (size : ℤ) : ℤ :=
  if size % ptrSize > 0 then size + (ptrSize - size % ptrSize) else size

lemma le_blocksize (size : ℤ) : size ≤ blocksize size := by
  unfold blocksize ptrSize
  split_ifs <;> omega

/-- Move on by one block if there is room for two below `limit`, else go back to `base`. -/
def walk (bs limit base cur : ℤ) : ℤ := if cur + 2 * bs < limit then cur + bs else base

/-- The send half of the nocache branch of `AdvancePtrs`. -/
def advanceSend (l : Layout) (bs : ℤ) (s_no : PtrVar) (p : Ptrs) : Ptrs :=
  if p.get s_no = p.s_ptr then
    p.set s_no (walk bs p.r_buf (p.s_buf + l.soffset) (p.get s_no))
  else if p.get s_no = p.ds_ptr ∧ p.get s_no ≠ 0 then
    -- the reset goes to the local buffer here, unlike that of the receive half
    p.set s_no (walk bs p.dr_buf (p.s_buf + l.soffset) (p.get s_no))
  else p

/-- The receive half of the nocache branch of `AdvancePtrs`. -/
def advanceRecv (l : Layout) (bs : ℤ) (r_no : PtrVar) (p : Ptrs) : Ptrs :=
  if p.get r_no = p.r_ptr then
    p.set r_no (walk bs (p.sr_buf + memsize) (p.r_buf + l.roffset) (p.get r_no))
  else if p.get r_no = p.dr_ptr ∧ p.get r_no ≠ 0 then
    p.set r_no (walk bs (p.dsr_buf + memsize) (p.dr_buf + l.roffset) (p.get r_no))
  else p

/-- `AdvancePtrs`. The result is `none` when a `NULL` argument is dereferenced. -/
def advancePtrs (cache : Bool) (l : Layout) (size : ℤ) (s_cache r_cache : PtrVar)
    (s_no : Option PtrVar) (r_no : PtrVar) (p : Ptrs) : Option Ptrs :=
  if cache then
    some (if p.get s_cache ≠ 0 then
      (p.set s_cache (p.get r_cache)).set r_cache (p.get s_cache) else p)
  else s_no.map fun s_no =>
    advanceRecv l (blocksize size) r_no (advanceSend l (blocksize size) s_no p)

section

variable (l : Layout) (bs : ℤ) (v : PtrVar) (p : Ptrs)

/-- Each half of `AdvancePtrs` moves the pointer it was given and no other. -/
lemma advanceSend_eq_set : ∃ x, advanceSend l bs v p = p.set v x := by
  unfold advanceSend
  split_ifs
  · exact ⟨_, rfl⟩
  · exact ⟨_, rfl⟩
  · exact ⟨p.get v, by cases v <;> rfl⟩

lemma advanceRecv_eq_set : ∃ x, advanceRecv l bs v p = p.set v x := by
  unfold advanceRecv
  split_ifs
  · exact ⟨_, rfl⟩
  · exact ⟨_, rfl⟩
  · exact ⟨p.get v, by cases v <;> rfl⟩

lemma advanceSend_s_ptr : advanceSend l bs .s_ptr p =
    p.set .s_ptr (walk bs p.r_buf (p.s_buf + l.soffset) p.s_ptr) := by
  simp [advanceSend]

lemma advanceRecv_r_ptr : advanceRecv l bs .r_ptr p =
    p.set .r_ptr (walk bs (p.sr_buf + memsize) (p.r_buf + l.roffset) p.r_ptr) := by
  simp [advanceRecv]

end

/-- The nocache motion after a send. -/
lemma advancePtrs_nocache_sent {l : Layout} {size : ℤ} {p q : Ptrs}
    (h : advancePtrs false l size .ds_ptr .dr_ptr (some .s_ptr) .dr_ptr p = some q) :
    ∃ x, q = (p.set .s_ptr (walk (blocksize size) p.r_buf (p.s_buf + l.soffset) p.s_ptr)).set
      .dr_ptr x := by
  obtain ⟨x, hx⟩ := advanceRecv_eq_set l (blocksize size) .dr_ptr
    (advanceSend l (blocksize size) .s_ptr p)
  refine ⟨x, ?_⟩
  rw [← advanceSend_s_ptr, ← hx]
  simpa [advancePtrs] using h.symm

/-- The nocache motion after a receive. -/
lemma advancePtrs_nocache_received {l : Layout} {size : ℤ} {p q : Ptrs}
    (h : advancePtrs false l size .s_ptr .r_ptr (some .ds_ptr) .r_ptr p = some q) :
    ∃ x, q = (p.set .ds_ptr x).set .r_ptr
      (walk (blocksize size) (p.sr_buf + memsize) (p.r_buf + l.roffset) p.r_ptr) := by
  obtain ⟨x, hx⟩ := advanceSend_eq_set l (blocksize size) .ds_ptr p
  refine ⟨x, ?_⟩
  have hq : q = advanceRecv l (blocksize size) .r_ptr (p.set .ds_ptr x) := by
    rw [← hx]
    simpa [advancePtrs] using h.symm
  rw [hq, advanceRecv_r_ptr]
  rfl

/-! ### Running a list of calls on the pointers -/

/-- The pointers together with `s_saved`, `r_saved` and the current `buflen`. -/
structure PtrState where
  ptrs : Ptrs
  s_saved : ℤ
  r_saved : ℤ
  buflen : ℕ

/-- What the modules see of the pointers: the windows used by each call. -/
inductive Window where
  | posted (r_ptr : ℤ)
  | sent (s_ptr dr_ptr : ℤ)
  | received (r_ptr : ℤ)
  | checked (r_ptr : ℤ)
  deriving DecidableEq, Repr

/-- The addresses the two allocations of a run return: the pool at `base` and, for a module with
remote buffers, the peer's pool at `dsr`. -/
structure Pools where
  base : ℤ
  dsr : ℤ

/-- The effect of one call on the pointers and the window it uses, if any. -/
def Call.runPtrs (cache : Bool) (l : Layout) (a : Pools) (s : PtrState) :
    Call → Option (PtrState × List Window)
  | .test buflen => some ({ s with buflen := buflen }, [])
  | .mallocBufs => some ({ s with ptrs := NetPipe.mallocBufs l (2 * s.buflen) a.base a.dsr s.ptrs },
    [])
  | .initBufferData => some ({ s with ptrs := NetPipe.initBufferData l s.ptrs }, [])
  | .savePtrs => some ({ s with s_saved := s.ptrs.s_ptr, r_saved := s.ptrs.r_ptr }, [])
  | .restorePtrs =>
    some ({ s with ptrs := { s.ptrs with s_ptr := s.s_saved, r_ptr := s.r_saved } }, [])
  | .prepostRecv => some (s, [.posted s.ptrs.r_ptr])
  | .advancePtrs s_cache r_cache s_no r_no =>
    (NetPipe.advancePtrs cache l s.buflen s_cache r_cache s_no r_no s.ptrs).map
      fun p => ({ s with ptrs := p }, [])
  | .sendData => some (s, [.sent s.ptrs.s_ptr s.ptrs.dr_ptr])
  | .recvData => some (s, [.received s.ptrs.r_ptr])
  | .checkBufferData => some (s, [.checked s.ptrs.r_ptr])
  | .freeBufs | .flushcache | .sync | .setupBufferData | .doWork | .reset | .gather => some (s, [])

/-- Run a list of calls, collecting the windows used. -/
def runPtrs (cache : Bool) (l : Layout) (a : Pools) :
    List Call → PtrState → Option (PtrState × List Window)
  | [], s => some (s, [])
  | c :: cs, s =>
    (c.runPtrs cache l a s).bind fun r =>
      (runPtrs cache l a cs r.1).map fun r' => (r'.1, r.2 ++ r'.2)

section

variable {cache : Bool} {l : Layout} {a : Pools} {s s' s'' : PtrState}
  {cs cs' : List Call} {w w' : List Window}

@[simp] lemma runPtrs_nil : runPtrs cache l a [] s = some (s, []) := rfl

lemma runPtrs_cons {c : Call} (h : c.runPtrs cache l a s = some (s', w))
    (h' : runPtrs cache l a cs s' = some (s'', w')) :
    runPtrs cache l a (c :: cs) s = some (s'', w ++ w') := by
  simp [runPtrs, h, h']

lemma runPtrs_append (h : runPtrs cache l a cs s = some (s', w))
    (h' : runPtrs cache l a cs' s' = some (s'', w')) :
    runPtrs cache l a (cs ++ cs') s = some (s'', w ++ w') := by
  induction cs generalizing s w with
  | nil => simp_all
  | cons c cs ih =>
    simp only [runPtrs, Option.bind_eq_some_iff, Option.map_eq_some_iff] at h
    obtain ⟨⟨s₁, w₁⟩, hc, ⟨s₂, w₂⟩, hcs, heq⟩ := h
    simp only [Prod.mk.injEq] at heq
    obtain ⟨rfl, rfl⟩ := heq
    rw [List.cons_append, runPtrs_cons hc (ih hcs), List.append_assoc]

/-- The loop rule: a body that takes `f j` to `f (j + 1)` and uses the windows `w j`. -/
lemma runPtrs_range {body : ℕ → List Call} {f : ℕ → PtrState} {w : ℕ → List Window} {n : ℕ}
    (h : ∀ j < n, runPtrs cache l a (body j) (f j) = some (f (j + 1), w j)) :
    runPtrs cache l a ((List.range n).flatMap body) (f 0) =
      some (f n, (List.range n).flatMap w) := by
  induction n with
  | zero => rfl
  | succ n ih =>
    rw [List.range_succ, List.flatMap_append, List.flatMap_append]
    refine runPtrs_append (ih fun j hj => h j (by omega)) ?_
    simpa using h n (by omega)

end

end NetPipe
