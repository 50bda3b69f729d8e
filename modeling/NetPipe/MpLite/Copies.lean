import NetPipe.MpLite.Memmove

/-!
# Optimised copies

The routines of `copy.c` that are compiled in the place of `memcpy`. What they do does not depend on
what is in the memory, so a routine is the list of the operations it carries out: calls of `memcpy`,
copies through the registers, and reads whose value is not used.
-/

namespace NetPipe.MpLite

/-- What a routine does with the memory. -/
inductive CopyOp
  /-- `memcpy(dest, src, n)` -/
  | memcpy (dest src n : ℕ)
  /-- `_mm_stream_ps(b, _mm_loadu_ps(a))` -/
  | streamLoadu (b a : ℕ)
  /-- `_mm_stream_ps(b, _mm_load_ps(a))` -/
  | streamLoad (b a : ℕ)
  /-- the 64 bytes of a block through `mm0` to `mm3` -/
  | block (dest src : ℕ)
  /-- `*rptr_double = *sptr_double` -/
  | double (rptr sptr : ℕ)
  /-- `*crptr = *csptr` -/
  | char (crptr csptr : ℕ)
  /-- `temp = *a` -/
  | read (a : ℕ)

namespace CopyOp

/-- Where the bytes are written. -/
def dest : CopyOp → ℕ
  | memcpy dest _ _ => dest
  | streamLoadu b _ => b
  | streamLoad b _ => b
  | block dest _ => dest
  | double rptr _ => rptr
  | char crptr _ => crptr
  | read a => a

/-- Where the bytes are read. -/
def src : CopyOp → ℕ
  | memcpy _ src _ => src
  | streamLoadu _ a => a
  | streamLoad _ a => a
  | block _ src => src
  | double _ sptr => sptr
  | char _ csptr => csptr
  | read a => a

/-- The number of bytes that are written. -/
def written : CopyOp → ℕ
  | memcpy _ _ n => n
  | streamLoadu _ _ | streamLoad _ _ => 16
  | block _ _ => 64
  | double _ _ => 8
  | char _ _ => 1
  | read _ => 0

/-- The number of bytes that are read. -/
def nread : CopyOp → ℕ
  | read _ => 8
  | op => op.written

/-- The addresses that are to be multiples of 16. -/
def aligned : CopyOp → List ℕ
  | streamLoadu b _ => [b]
  | streamLoad b a => [b, a]
  | _ => []

/-- The memory after the operation. -/
def exec (op : CopyOp) (m : ℕ → UInt8) : ℕ → UInt8 := blit m m op.dest op.src op.written

/-- Nothing is written outside the `n` bytes at `dest`, and nothing is read outside those at `src`. -/
structure Within (dest src n : ℕ) (op : CopyOp) : Prop where
  writes : ∀ x, op.dest ≤ x → x < op.dest + op.written → dest ≤ x ∧ x < dest + n
  reads : ∀ x, op.src ≤ x → x < op.src + op.nread → src ≤ x ∧ x < src + n

end CopyOp

/-- The memory after a routine. -/
def run (ops : List CopyOp) (m : ℕ → UInt8) : ℕ → UInt8 := ops.foldl (fun m op => op.exec m) m

/-- A routine does what `memcpy(dest, src, n)` does. -/
structure IsMemcpy (ops : List CopyOp) (dest src n : ℕ) : Prop where
  move : ∀ m, IsMove m (run ops m) dest src n
  within : ∀ op ∈ ops, op.Within dest src n

/-- The areas do not overlap. -/
def NoOverlap (dest src n : ℕ) : Prop := dest + n ≤ src ∨ src + n ≤ dest

/-- `for (kk = lo; kk < hi; kk += step)` -/
def forLoop (hi step : ℕ) [NeZero step] (body : ℕ → List CopyOp) (kk : ℕ) : List CopyOp :=
  if kk < hi then body kk ++ forLoop hi step body (kk + step) else []
termination_by hi - kk
decreasing_by
  have := Nat.pos_of_neZero step
  omega

/-! ### memcpy_8 and memcpy_16 -/

/-- The main part up to a multiple of `k`, and the last few bytes. -/
def mainAfter (k dest src nbytes : ℕ) : List CopyOp :=
  let nb_after := nbytes % k
  let nbytes := nbytes - nb_after
  (if 0 < nbytes then [.memcpy dest src nbytes] else []) ++
    if 0 < nb_after then [.memcpy (dest + nbytes) (src + nbytes) nb_after] else []

/-- The bytes up to a boundary first, if there are so many. -/
def boundaryFirst (k nb_b4 dest src nbytes : ℕ) : List CopyOp :=
  if nb_b4 ≠ k ∧ nb_b4 ≤ nbytes then
    .memcpy dest src nb_b4 :: mainAfter k (dest + nb_b4) (src + nb_b4) (nbytes - nb_b4)
  else mainAfter k dest src nbytes

/-- `memcpy_8`, up to a boundary of the source. -/
def memcpy_8 (destination source nbytes : ℕ) : List CopyOp :=
  boundaryFirst 8 (8 - source % 8) destination source nbytes

/-- `memcpy_16`, up to a boundary of the destination. -/
def memcpy_16 (destination source nbytes : ℕ) : List CopyOp :=
  boundaryFirst 16 (16 - destination % 16) destination source nbytes

/-! ### ntcopy -/

/-- The reads that prime the TLB for a block of `blocksize` doubles. -/
def tlbPriming (a blocksize : ℕ) : List CopyOp :=
  forLoop blocksize 512
    (fun jj => if jj + 512 < blocksize then [.read (a + 8 * (jj + 512))] else []) 0

/-- A copy of two doubles, with an aligned load if the source is aligned. -/
def stream (b a kk : ℕ) : CopyOp :=
  if a % 16 ≠ 0 then .streamLoadu (b + 8 * kk) (a + 8 * kk)
  else .streamLoad (b + 8 * kk) (a + 8 * kk)

/-- One block: cache lines of 16 doubles, and what is left. -/
def ntBlock (b a blocksize : ℕ) : List CopyOp :=
  let size1 := blocksize - blocksize % 16
  tlbPriming a blocksize ++
    forLoop size1 16 (fun kk => [stream b a kk, stream b a (kk + 2), stream b a (kk + 4),
      stream b a (kk + 6), stream b a (kk + 8), stream b a (kk + 10), stream b a (kk + 12),
      stream b a (kk + 14)]) 0 ++
    forLoop blocksize 2 (fun kk => [stream b a kk]) size1

/-- The loop over the blocks. It ends because no block is empty. -/
def ntLoop (b a N blocksize : ℕ) (h : 0 < N → 0 < blocksize) : List CopyOp :=
  if hN : 0 < N then
    ntBlock b a (min N blocksize) ++ ntLoop (b + 8 * min N blocksize) (a + 8 * min N blocksize)
      (N - min N blocksize) (min N blocksize) (fun _ => Nat.lt_min.mpr ⟨hN, h hN⟩)
  else []
termination_by N
decreasing_by exact Nat.sub_lt hN (Nat.lt_min.mpr ⟨hN, h hN⟩)

/-- The blocks of at most `maxBlock` doubles, and the last few bytes. -/
def ntBlocks (maxBlock : ℕ) (hmax : 0 < maxBlock) (b a size : ℕ) : List CopyOp :=
  let N := 2 * (size / 16)
  let LEFT := size % 16
  ntLoop b a N (min N maxBlock) (fun hN => Nat.lt_min.mpr ⟨hN, hmax⟩) ++
    if 0 < LEFT then [.memcpy (b + 8 * N) (a + 8 * N) LEFT] else []

/-- The copy with non-temporal stores, in blocks of at most `maxBlock` doubles. -/
def nonTemporal (maxBlock : ℕ) (hmax : 0 < maxBlock) (dst src size : ℕ) : List CopyOp :=
  if size ≤ 16 then [.memcpy dst src size]
  else if dst % 16 ≠ 0 then
    let delta := 16 - dst % 16
    .memcpy dst src delta :: ntBlocks maxBlock hmax (dst + delta) (src + delta) (size - delta)
  else ntBlocks maxBlock hmax dst src size

/-- `ntcopy`. A block is half the cache. -/
def ntcopy (dst src size : ℕ) : List CopyOp :=
  nonTemporal (262144 / 2 / 8) (by norm_num) dst src size

/-! ### kmemcpy -/

/-- `k` passes of a loop that copies a block of 64 bytes and goes on to the next one. -/
def blocks : ℕ → ℕ → ℕ → List CopyOp
  | 0, _, _ => []
  | k + 1, dest, src => .block dest src :: blocks k (dest + 64) (src + 64)

/-- `kmemcpy`. Both loops count from `(4096-320)/64` to `4096/64`. -/
def kmemcpy (dest src len : ℕ) : List CopyOp :=
  let k := 4096 / 64 - (4096 - 320) / 64
  blocks k dest src ++ blocks k (dest + 64 * k) (src + 64 * k) ++
    [.memcpy (dest + 64 * k + 64 * k) (src + 64 * k + 64 * k) (len % 64)]

variable {dest src n a b k kk lo hi step blocksize x : ℕ} {op : CopyOp} {ops ops' : List CopyOp}
  {body : ℕ → List CopyOp}

lemma dvd_min (ha : k ∣ a) (hb : k ∣ b) : k ∣ min a b := by
  rcases min_choice a b with heq | heq
  · rwa [heq]
  · rwa [heq]

lemma exists_of_mem_forLoop [NeZero step] (hop : op ∈ forLoop hi step body lo) :
    ∃ kk, lo ≤ kk ∧ kk < hi ∧ step ∣ kk - lo ∧ op ∈ body kk := by
  induction lo using forLoop.induct hi step with
  | case1 lo hlt ih =>
    rw [forLoop, if_pos hlt, List.mem_append] at hop
    rcases hop with hop | hop
    · exact ⟨lo, le_rfl, hlt, by simp, hop⟩
    · obtain ⟨kk, hle, hkk, hdvd, hop⟩ := ih hop
      have hsum : kk - lo = kk - (lo + step) + step := by omega
      refine ⟨kk, (Nat.le_add_right _ _).trans hle, hkk, ?_, hop⟩
      rw [hsum]
      exact Nat.dvd_add hdvd dvd_rfl
  | case2 lo hge =>
    rw [forLoop, if_neg hge] at hop
    simp at hop

/-- The reads of the TLB priming stay in the block. -/
lemma exists_of_mem_tlbPriming (hop : op ∈ tlbPriming a blocksize) :
    ∃ x, op = .read x ∧ a ≤ x ∧ x + 8 ≤ a + 8 * blocksize := by
  obtain ⟨jj, -, -, -, hop⟩ := exists_of_mem_forLoop hop
  split_ifs at hop with hlt
  · rw [List.mem_singleton] at hop
    exact ⟨_, hop, Nat.le_add_right _ _, by omega⟩
  · simp at hop

/-! ### Copies that follow one another -/

/-- The operations copy the `n` bytes at `src` to `dest` from front to back, and read nothing else
in between. -/
inductive Tiles : List CopyOp → ℕ → ℕ → ℕ → Prop
  | nil {dest src : ℕ} : Tiles [] dest src 0
  | copy (op : CopyOp) {ops : List CopyOp} {n : ℕ} (h : op.nread = op.written) :
    Tiles ops (op.dest + op.written) (op.src + op.written) n →
    Tiles (op :: ops) op.dest op.src (op.written + n)
  | read {a : ℕ} {ops : List CopyOp} {dest src n : ℕ} : src ≤ a → a + 8 ≤ src + n →
    Tiles ops dest src n → Tiles (.read a :: ops) dest src n

namespace Tiles

lemma append (h : Tiles ops dest src a) (h' : Tiles ops' (dest + a) (src + a) b) :
    Tiles (ops ++ ops') dest src (a + b) := by
  induction h with
  | nil => simpa using h'
  | @copy op ops n hread _ ih =>
    rw [Nat.add_assoc, List.cons_append]
    refine copy op hread (ih ?_)
    rwa [Nat.add_assoc, Nat.add_assoc]
  | read hle hlt _ ih =>
    exact read hle (hlt.trans (Nat.add_le_add_left (Nat.le_add_right _ _) _)) (ih h')

/-- Each operation stays within the areas. -/
lemma within (h : Tiles ops dest src n) : ∀ op ∈ ops, op.Within dest src n := by
  induction h with
  | nil => simp
  | @copy op ops n hread _ ih =>
    rw [List.forall_mem_cons]
    constructor
    · constructor <;> intro x hle hlt <;> omega
    · intro op' hop
      obtain ⟨hwrites, hreads⟩ := ih op' hop
      constructor
      · intro x hle hlt
        have := hwrites x hle hlt
        omega
      · intro x hle hlt
        have := hreads x hle hlt
        omega
  | @read a ops dest src n hle hlt _ ih =>
    rw [List.forall_mem_cons]
    refine ⟨⟨?_, ?_⟩, ih⟩
    · intro x hax hxa
      exact absurd hxa (Nat.not_lt.mpr hax)
    · intro x hax hxa
      exact ⟨hle.trans hax, hxa.trans_le hlt⟩

/-- The memory after copies that follow one another. -/
lemma run_eq {m : ℕ → UInt8} (h : Tiles ops dest src n) (hno : NoOverlap dest src n) :
    run ops m = blit m m dest src n := by
  induction h generalizing m with
  | nil => simp [run]
  | @copy op ops n hread _ ih =>
    have hrest : NoOverlap (op.dest + op.written) (op.src + op.written) n := by
      rw [NoOverlap] at hno ⊢
      omega
    have hfirst : op.dest ≤ op.src ∨ op.src + op.written + n ≤ op.dest := by
      rw [NoOverlap] at hno
      omega
    rw [run, List.foldl_cons, ← run, ih hrest, CopyOp.exec, blit_blit hfirst]
  | @read a ops dest src n _ _ _ ih =>
    have hread : (CopyOp.read a).exec m = m := blit_zero m m a a
    rw [run, List.foldl_cons, ← run, hread, ih hno]

/-- Copies that follow one another are `memcpy`. -/
lemma isMemcpy (h : Tiles ops dest src n) (hno : NoOverlap dest src n) :
    IsMemcpy ops dest src n where
  move _ := isMove_iff.mpr (h.run_eq hno)
  within := h.within

lemma memcpy (dest src n : ℕ) : Tiles [.memcpy dest src n] dest src n :=
  copy (.memcpy dest src n) rfl nil

lemma memcpy_cons (h : Tiles ops (dest + a) (src + a) n) :
    Tiles (.memcpy dest src a :: ops) dest src (a + n) :=
  copy (.memcpy dest src a) rfl h

/-- A loop whose passes copy `8 * step` bytes each. -/
lemma forLoop (hi step b a kk : ℕ) [NeZero step] (hstep : step ∣ hi - kk) (hle : kk ≤ hi)
    (h : ∀ kk < hi, Tiles (body kk) (b + 8 * kk) (a + 8 * kk) (8 * step)) :
    Tiles (forLoop hi step body kk) (b + 8 * kk) (a + 8 * kk) (8 * (hi - kk)) := by
  induction kk using forLoop.induct hi step with
  | case1 kk hlt ih =>
    have hstep_le : step ≤ hi - kk := Nat.le_of_dvd (Nat.sub_pos_of_lt hlt) hstep
    have hrest : hi - kk = step + (hi - (kk + step)) := by omega
    have hdvd : step ∣ hi - (kk + step) := by
      rw [Nat.sub_add_eq]
      exact Nat.dvd_sub hstep dvd_rfl
    rw [MpLite.forLoop, if_pos hlt, hrest, Nat.mul_add]
    apply (h kk hlt).append
    simpa [Nat.mul_add, Nat.add_assoc] using ih hdvd (by omega)
  | case2 kk hge =>
    rw [MpLite.forLoop, if_neg hge, Nat.sub_eq_zero_of_le (Nat.not_lt.mp hge)]
    exact nil

/-- Reads in between change nothing. -/
lemma reads_append (hreads : ∀ op ∈ ops', ∃ x, op = .read x ∧ src ≤ x ∧ x + 8 ≤ src + n)
    (h : Tiles ops dest src n) : Tiles (ops' ++ ops) dest src n := by
  induction ops' with
  | nil => exact h
  | cons op ops' ih =>
    rw [List.forall_mem_cons] at hreads
    obtain ⟨⟨x, rfl, hle, hlt⟩, hreads⟩ := hreads
    exact read hle hlt (ih hreads)

/-! ### The routines -/

lemma mainAfter (k dest src n : ℕ) : Tiles (mainAfter k dest src n) dest src n := by
  have hmod : n - n % k + n % k = n := Nat.sub_add_cancel (Nat.mod_le n k)
  have hlast : ∀ dest src : ℕ,
      Tiles (if 0 < n % k then [.memcpy dest src (n % k)] else []) dest src (n % k) := by
    intro dest src
    split_ifs with hpos
    · exact memcpy dest src _
    · rw [Nat.eq_zero_of_not_pos hpos]
      exact nil
  rw [MpLite.mainAfter]
  conv_rhs => rw [← hmod]
  apply append
  · split_ifs with hpos
    · exact memcpy dest src _
    · rw [Nat.eq_zero_of_not_pos hpos]
      exact nil
  · exact hlast _ _

lemma boundaryFirst (k b dest src n : ℕ) : Tiles (boundaryFirst k b dest src n) dest src n := by
  rw [MpLite.boundaryFirst]
  split_ifs with hb
  · rw [← Nat.add_sub_cancel' hb.2]
    apply memcpy_cons
    rw [Nat.add_sub_cancel' hb.2]
    exact mainAfter k _ _ _
  · exact mainAfter k dest src n

lemma stream (b a kk : ℕ) (h : Tiles ops (b + 8 * (kk + 2)) (a + 8 * (kk + 2)) n) :
    Tiles (stream b a kk :: ops) (b + 8 * kk) (a + 8 * kk) (16 + n) := by
  rw [MpLite.stream]
  split_ifs
  · exact copy (.streamLoadu (b + 8 * kk) (a + 8 * kk)) rfl h
  · exact copy (.streamLoad (b + 8 * kk) (a + 8 * kk)) rfl h

/-- A block of an even number of doubles. -/
lemma ntBlock (b a : ℕ) (heven : 2 ∣ blocksize) :
    Tiles (ntBlock b a blocksize) b a (8 * blocksize) := by
  have hmod := Nat.mod_le blocksize 16
  have hlines := forLoop (blocksize - blocksize % 16) 16 b a 0 (Nat.dvd_sub_mod blocksize)
    (Nat.zero_le _) fun kk _ => stream b a kk <| stream b a (kk + 2) <| stream b a (kk + 4) <|
      stream b a (kk + 6) <| stream b a (kk + 8) <| stream b a (kk + 10) <|
      stream b a (kk + 12) <| stream b a (kk + 14) nil
  have hrest := forLoop blocksize 2 b a (blocksize - blocksize % 16) (by omega)
    (Nat.sub_le _ _) fun kk _ => stream b a kk nil
  have hsum : 8 * blocksize = 8 * (blocksize - blocksize % 16 - 0) +
      8 * (blocksize - (blocksize - blocksize % 16)) := by omega
  rw [MpLite.ntBlock, List.append_assoc]
  apply reads_append fun op hop => exists_of_mem_tlbPriming hop
  rw [hsum]
  exact hlines.append hrest

lemma ntLoop (b a N blocksize : ℕ) (h : 0 < N → 0 < blocksize) (hN : 2 ∣ N)
    (heven : 2 ∣ blocksize) : Tiles (ntLoop b a N blocksize h) b a (8 * N) := by
  induction b, a, N, blocksize, h using ntLoop.induct with
  | case1 b a N blocksize h hpos ih =>
    have hmin : 2 ∣ min N blocksize := dvd_min hN heven
    have hsum : 8 * N = 8 * min N blocksize + 8 * (N - min N blocksize) := by
      have := Nat.min_le_left N blocksize
      omega
    rw [MpLite.ntLoop, dif_pos hpos, hsum]
    exact (ntBlock b a hmin).append (ih (Nat.dvd_sub hN hmin) hmin)
  | case2 b a N blocksize h hzero =>
    rw [MpLite.ntLoop, dif_neg hzero, Nat.eq_zero_of_not_pos hzero]
    exact nil

lemma ntBlocks (maxBlock : ℕ) (hmax : 0 < maxBlock) (heven : 2 ∣ maxBlock) (b a n : ℕ) :
    Tiles (ntBlocks maxBlock hmax b a n) b a n := by
  have hsum : n = 8 * (2 * (n / 16)) + n % 16 := by omega
  have hmin : 2 ∣ min (2 * (n / 16)) maxBlock := dvd_min (Nat.dvd_mul_right _ _) heven
  rw [MpLite.ntBlocks]
  conv_rhs => rw [hsum]
  apply (ntLoop b a _ _ _ (Nat.dvd_mul_right _ _) hmin).append
  split_ifs with hpos
  · exact memcpy _ _ _
  · rw [Nat.eq_zero_of_not_pos hpos]
    exact nil

lemma nonTemporal (maxBlock : ℕ) (hmax : 0 < maxBlock) (heven : 2 ∣ maxBlock) (dst src n : ℕ) :
    Tiles (nonTemporal maxBlock hmax dst src n) dst src n := by
  rw [MpLite.nonTemporal]
  split_ifs with hsmall haligned
  · exact memcpy dst src n
  · have hsum : n = 16 - dst % 16 + (n - (16 - dst % 16)) := by omega
    conv_rhs => rw [hsum]
    exact memcpy_cons (ntBlocks maxBlock hmax heven _ _ _)
  · exact ntBlocks maxBlock hmax heven dst src n

lemma blocks (k dest src : ℕ) : Tiles (blocks k dest src) dest src (64 * k) := by
  induction k generalizing dest src with
  | zero => exact nil
  | succ k ih =>
    have hsum : 64 * (k + 1) = 64 + 64 * k := by omega
    rw [hsum]
    exact copy (.block dest src) rfl (ih _ _)

/-- Ten blocks and the last bytes of `len` are copied, whatever `len` is. -/
lemma kmemcpy (dest src len : ℕ) : Tiles (kmemcpy dest src len) dest src (640 + len % 64) := by
  have hten : 640 = 64 * 5 + 64 * 5 := by norm_num
  rw [MpLite.kmemcpy, hten]
  apply ((blocks 5 dest src).append (blocks 5 _ _)).append
  rw [← Nat.add_assoc, ← Nat.add_assoc]
  exact memcpy _ _ _

end Tiles

/-! ### Aligned accesses -/

/-- All aligned loads and stores are at multiples of 16. -/
def Aligned (ops : List CopyOp) : Prop := ∀ op ∈ ops, ∀ x ∈ op.aligned, 16 ∣ x

lemma aligned_append (h : Aligned ops) (h' : Aligned ops') : Aligned (ops ++ ops') :=
  List.forall_mem_append.mpr ⟨h, h'⟩

lemma aligned_memcpy (h : Aligned ops) (dest src n : ℕ) :
    Aligned (.memcpy dest src n :: ops) :=
  List.forall_mem_cons.mpr ⟨by simp [CopyOp.aligned], h⟩

lemma aligned_stream (hb : 16 ∣ b) (hkk : 2 ∣ kk) : ∀ x ∈ (stream b a kk).aligned, 16 ∣ x := by
  have hdest : 16 ∣ b + 8 * kk := Nat.dvd_add hb (Nat.mul_dvd_mul_left 8 hkk)
  rw [stream]
  split_ifs with ha
  · simpa [CopyOp.aligned] using hdest
  · rw [not_not] at ha
    have hsrc : 16 ∣ a + 8 * kk :=
      Nat.dvd_add (Nat.dvd_of_mod_eq_zero ha) (Nat.mul_dvd_mul_left 8 hkk)
    simpa [CopyOp.aligned] using ⟨hdest, hsrc⟩

lemma aligned_ntBlock (hb : 16 ∣ b) (a blocksize : ℕ) : Aligned (ntBlock b a blocksize) := by
  rw [ntBlock]
  apply aligned_append
  · apply aligned_append
    · intro op hop
      obtain ⟨x, rfl, -, -⟩ := exists_of_mem_tlbPriming hop
      simp [CopyOp.aligned]
    · intro op hop
      obtain ⟨kk, -, -, hdvd, hop⟩ := exists_of_mem_forLoop hop
      have heven : 2 ∣ kk := by omega
      simp only [List.mem_cons, List.not_mem_nil, or_false] at hop
      rcases hop with rfl | rfl | rfl | rfl | rfl | rfl | rfl | rfl
      all_goals exact aligned_stream hb (by omega)
  · intro op hop
    obtain ⟨kk, hle, -, hdvd, hop⟩ := exists_of_mem_forLoop hop
    rw [List.mem_singleton] at hop
    subst hop
    apply aligned_stream hb
    omega

lemma aligned_ntLoop (b a N blocksize : ℕ) (h : 0 < N → 0 < blocksize) (hN : 2 ∣ N)
    (heven : 2 ∣ blocksize) (hb : 16 ∣ b) : Aligned (ntLoop b a N blocksize h) := by
  induction b, a, N, blocksize, h using ntLoop.induct with
  | case1 b a N blocksize h hpos ih =>
    have hmin : 2 ∣ min N blocksize := dvd_min hN heven
    rw [ntLoop, dif_pos hpos]
    apply aligned_append (aligned_ntBlock hb a _)
    exact ih (Nat.dvd_sub hN hmin) hmin (Nat.dvd_add hb (Nat.mul_dvd_mul_left 8 hmin))
  | case2 b a N blocksize h hzero =>
    rw [ntLoop, dif_neg hzero]
    simp [Aligned]

lemma aligned_ntBlocks (maxBlock : ℕ) (hmax : 0 < maxBlock) (heven : 2 ∣ maxBlock) (a n : ℕ)
    (hb : 16 ∣ b) : Aligned (ntBlocks maxBlock hmax b a n) := by
  have hmin : 2 ∣ min (2 * (n / 16)) maxBlock := dvd_min (Nat.dvd_mul_right _ _) heven
  rw [ntBlocks]
  apply aligned_append (aligned_ntLoop b a _ _ _ (Nat.dvd_mul_right _ _) hmin hb)
  split_ifs
  · exact aligned_memcpy (by simp [Aligned]) _ _ _
  · simp [Aligned]

lemma aligned_nonTemporal (maxBlock : ℕ) (hmax : 0 < maxBlock) (heven : 2 ∣ maxBlock)
    (dst src n : ℕ) : Aligned (nonTemporal maxBlock hmax dst src n) := by
  rw [nonTemporal]
  split_ifs with hsmall haligned
  · exact aligned_memcpy (by simp [Aligned]) _ _ _
  · apply aligned_memcpy
    apply aligned_ntBlocks maxBlock hmax heven
    omega
  · rw [not_not] at haligned
    exact aligned_ntBlocks maxBlock hmax heven _ _ (Nat.dvd_of_mod_eq_zero haligned)

/-! ### What kmemcpy copies -/

lemma not_within_kmemcpy (hn : n < 640) :
    ¬ ∀ op ∈ kmemcpy dest src n, op.Within dest src n := by
  intro h
  have hop : CopyOp.block (dest + 576) (src + 576) ∈ kmemcpy dest src n := by
    simp [kmemcpy, blocks]
  have hlast := (h _ hop).writes (dest + 639) (by simp [CopyOp.dest])
    (by simp [CopyOp.dest, CopyOp.written])
  omega

/-- The last byte of more than ten blocks is not copied. -/
lemma not_isMove_kmemcpy (h : NoOverlap dest src n) (hn : 704 ≤ n) :
    ¬ ∀ m, IsMove m (run (kmemcpy dest src n) m) dest src n := by
  intro hmove
  have hshort : NoOverlap dest src (640 + n % 64) := by
    rw [NoOverlap] at h ⊢
    omega
  have hbyte := (hmove fun y => if y = src + (n - 1) then 1 else 0).copied (n - 1) (by omega)
  rw [(Tiles.kmemcpy dest src n).run_eq hshort, blit_of_not_mem (by omega), if_pos rfl,
    if_neg] at hbyte
  · simp at hbyte
  · rw [NoOverlap] at h
    omega

/-- `kmemcpy` is `memcpy` exactly for ten blocks and some more bytes. -/
theorem isMemcpy_kmemcpy_iff (h : NoOverlap dest src n) :
    IsMemcpy (kmemcpy dest src n) dest src n ↔ 640 ≤ n ∧ n < 704 := by
  constructor
  · intro hcopy
    constructor
    · by_contra hlt
      exact not_within_kmemcpy (Nat.not_le.mp hlt) hcopy.within
    · by_contra hge
      exact not_isMove_kmemcpy h (Nat.not_lt.mp hge) hcopy.move
  · rintro ⟨hge, hlt⟩
    have hlen : 640 + n % 64 = n := by omega
    have htiles := Tiles.kmemcpy dest src n
    rw [hlen] at htiles
    exact htiles.isMemcpy h

theorem isMemcpy_kmemcpy_650 :
    IsMemcpy (kmemcpy 0 1000 650) 0 1000 650 ↔ 640 ≤ 650 ∧ 650 < 704 :=
  isMemcpy_kmemcpy_iff (Or.inl (by norm_num))

/-- One block of 64 bytes: the second pass of the loop writes behind it. -/
theorem not_isMemcpy_kmemcpy : ¬ IsMemcpy (kmemcpy 0 1000 64) 0 1000 64 := by
  intro h
  exact not_within_kmemcpy (by norm_num) h.within

end NetPipe.MpLite
