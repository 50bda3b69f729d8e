import NetPipe.Driver.Pointers
import NetPipe.Driver.Schedule

/-!
# The nocache windows

In nocache mode one pool of `MEMSIZE` bytes is allocated for the whole run and the windows walk
through its two halves. Nothing ties the sizes the parser accepts to the size of the pool.
-/

namespace NetPipe

/-- The sizes tested in a run with these arguments. -/
def TestedSize (a : SizeArgs) (factors_of_2 : Bool) (late : ℤ → Bool) (b : ℤ) : Prop :=
  ∃ d ∈ schedule a factors_of_2 late, b ∈ d.buflens

/-- The pointer states of a nocache run once its first test has started. Every test runs
`InitBufferData` on the pool allocated before the main loop; within a test, any number of
`AdvancePtrs` calls of the timed loops follow. -/
inductive NocacheReach (l : Layout) (sizes : ℤ → Prop) (pool : Pools) : ℤ → Ptrs → Prop where
  | first {b : ℤ} (hb : sizes b) :
      NocacheReach l sizes pool b
        (initBufferData l (mallocBufs l memsize pool.base pool.dsr Ptrs.null))
  | next {b b' : ℤ} {p : Ptrs} (h : NocacheReach l sizes pool b p) (hb' : sizes b') :
      NocacheReach l sizes pool b' (initBufferData l p)
  | sent {b : ℤ} {p q : Ptrs} (h : NocacheReach l sizes pool b p)
      (hq : advancePtrs false l b .ds_ptr .dr_ptr (some .s_ptr) .dr_ptr p = some q) :
      NocacheReach l sizes pool b q
  | received {b : ℤ} {p q : Ptrs} (h : NocacheReach l sizes pool b p)
      (hq : advancePtrs false l b .s_ptr .r_ptr (some .ds_ptr) .r_ptr p = some q) :
      NocacheReach l sizes pool b q

/-- The windows of length `b` lie in their halves of the pool. -/
def InHalves (l : Layout) (b : ℤ) (p : Ptrs) : Prop :=
  p.s_buf ≤ p.s_ptr ∧ p.s_ptr + b ≤ p.r_buf ∧
    p.r_buf ≤ p.r_ptr ∧ p.r_ptr + b ≤ p.sr_buf + 2 * halfSize l memsize

/-- The windows at the start of the halves fit. -/
def BaseFits (l : Layout) (b : ℤ) : Prop :=
  0 ≤ l.soffset ∧ 0 ≤ l.roffset ∧
    l.soffset + b ≤ halfSize l memsize ∧ l.roffset + b ≤ halfSize l memsize

instance (l : Layout) (b : ℤ) (p : Ptrs) : Decidable (InHalves l b p) :=
  inferInstanceAs (Decidable (_ ∧ _))

/-- The pool pointers stay as `MallocBufs` left them. -/
structure PoolPtrs (l : Layout) (p : Ptrs) : Prop where
  s_buf : p.s_buf = p.sr_buf
  r_buf : p.r_buf = p.sr_buf + halfSize l memsize

lemma poolPtrs_mallocBufs (l : Layout) (base dsr : ℤ) (p : Ptrs) :
    PoolPtrs l (mallocBufs l memsize base dsr p) := by
  unfold mallocBufs
  by_cases hd : dsr = 0 <;> by_cases hm : l.memcpy = true <;> constructor <;> simp [hd, hm]

section

variable {l : Layout} {b : ℤ} {p q : Ptrs}

lemma PoolPtrs.set (h : PoolPtrs l p) (v : PtrVar) (x : ℤ) : PoolPtrs l (p.set v x) :=
  ⟨by simpa using h.s_buf, by simpa using h.r_buf⟩

/-- After `InitBufferData` the windows are in their halves exactly when the first ones fit. -/
lemma initBufferData_spec (h : PoolPtrs l p) :
    PoolPtrs l (initBufferData l p) ∧ (InHalves l b (initBufferData l p) ↔ BaseFits l b) := by
  have hs := h.s_buf
  have hr := h.r_buf
  refine ⟨⟨hs, hr⟩, ?_⟩
  simp only [InHalves, initBufferData, BaseFits]
  omega

/-- A window that walks on has room for a block, one that goes back is the first one. -/
lemma walk_mem {bs limit cur lo hi : ℤ} (base : ℤ) (hb : b ≤ bs) (hbs : 0 ≤ bs) (hlimit : limit ≤ hi)
    (hbase : lo ≤ base ∧ base + b ≤ hi) (hcur : lo ≤ cur) :
    lo ≤ walk bs limit base cur ∧ walk bs limit base cur + b ≤ hi := by
  unfold walk
  split_ifs with h
  · constructor <;> omega
  · exact hbase

lemma InHalves.sent (hpos : 0 ≤ b) (hfit : BaseFits l b) (hp : PoolPtrs l p) (hin : InHalves l b p)
    (hq : advancePtrs false l b .ds_ptr .dr_ptr (some .s_ptr) .dr_ptr p = some q) :
    PoolPtrs l q ∧ InHalves l b q := by
  obtain ⟨x, rfl⟩ := advancePtrs_nocache_sent hq
  obtain ⟨hs, -, hr⟩ := hin
  obtain ⟨ho, -, hbase, -⟩ := hfit
  have hle := le_blocksize b
  have hwalk := walk_mem (p.s_buf + l.soffset) hle (by omega) (le_refl p.r_buf)
    ⟨by omega, by rw [hp.s_buf, hp.r_buf]; omega⟩ hs
  exact ⟨(hp.set _ _).set _ _, hwalk.1, hwalk.2, hr⟩

lemma InHalves.received (hpos : 0 ≤ b) (hfit : BaseFits l b) (hp : PoolPtrs l p)
    (hin : InHalves l b p)
    (hq : advancePtrs false l b .s_ptr .r_ptr (some .ds_ptr) .r_ptr p = some q) :
    PoolPtrs l q ∧ InHalves l b q := by
  obtain ⟨x, rfl⟩ := advancePtrs_nocache_received hq
  obtain ⟨hs, hs', hr, -⟩ := hin
  obtain ⟨hso, hro, -, hbase⟩ := hfit
  have hle := le_blocksize b
  -- the walk is bounded by `sr_buf + MEMSIZE`, which the rounding keeps inside the pool
  have hhalf := le_halfSize l memsize
  have hpool : p.sr_buf + memsize ≤ p.sr_buf + 2 * halfSize l memsize := by
    have hmem : memsize / 2 * 2 = memsize := rfl
    have hmax : l.soffset ≤ max l.soffset l.roffset := le_max_left _ _
    omega
  have hwalk := walk_mem (p.r_buf + l.roffset) hle (by omega) hpool
    ⟨by omega, by rw [hp.r_buf]; omega⟩ hr
  exact ⟨(hp.set _ _).set _ _, hs, hs', hwalk.1, hwalk.2⟩

end

/-- Over a whole run: if the first windows of every tested size fit, all windows stay in their
halves. -/
lemma NocacheReach.inHalves {l : Layout} {sizes : ℤ → Prop} {pool : Pools}
    (hpos : ∀ b, sizes b → 0 ≤ b) (hfit : ∀ b, sizes b → BaseFits l b) {b : ℤ} {p : Ptrs}
    (h : NocacheReach l sizes pool b p) : sizes b ∧ PoolPtrs l p ∧ InHalves l b p := by
  induction h with
  | @first b hb =>
    have hspec := initBufferData_spec (b := b) (poolPtrs_mallocBufs l pool.base pool.dsr Ptrs.null)
    exact ⟨hb, hspec.1, hspec.2.mpr (hfit _ hb)⟩
  | @next _ b' _ _ hb' ih =>
    have hspec := initBufferData_spec (b := b') ih.2.1
    exact ⟨hb', hspec.1, hspec.2.mpr (hfit _ hb')⟩
  | sent _ hq ih =>
    obtain ⟨hb, hp, hin⟩ := ih
    exact ⟨hb, hin.sent (hpos _ hb) (hfit _ hb) hp hq⟩
  | received _ hq ih =>
    obtain ⟨hb, hp, hin⟩ := ih
    exact ⟨hb, hin.received (hpos _ hb) (hfit _ hb) hp hq⟩

/-- In a nocache run all windows stay in their halves of the pool exactly when the offsets are not
negative and every tested size fits behind its offset in half of the pool. -/
theorem nocache_windows_iff (a : SizeArgs) (factors_of_2 : Bool) (late : ℤ → Bool) (l : Layout)
    (pool : Pools) :
    (∀ b p, NocacheReach l (TestedSize a factors_of_2 late) pool b p → InHalves l b p) ↔
      ∀ b, TestedSize a factors_of_2 late b → BaseFits l b := by
  constructor
  · intro h b hb
    have hspec := initBufferData_spec (b := b)
      (poolPtrs_mallocBufs l pool.base pool.dsr Ptrs.null)
    exact hspec.2.mp (h b _ (.first hb))
  · intro h b p hreach
    refine (hreach.inHalves (fun b hb => ?_) h).2.2
    obtain ⟨d, hd, hmem⟩ := hb
    have := one_le_of_mem_schedule hd hmem
    omega

/-- `--end 150000000 --start 150000000 --pert 0`. -/
def largeArgs : SizeArgs := ⟨150000000, 150000000, 0, by decide, by decide⟩

lemma testedSize_largeArgs : TestedSize largeArgs false (fun _ => false) 150000000 := by
  refine ⟨(Loop.init largeArgs).centre largeArgs false, ?_, ?_⟩
  · rw [schedule, mainLoop]
    exact List.mem_cons_self
  · simp [Loop.centre, Loop.init, largeArgs, perts_eq]

/-- The first message of such a nocache run already leaves the send half. -/
theorem nocache_large_fails :
    ¬ ∀ b p, NocacheReach ⟨0, 0, 4096, false, by decide⟩
      (TestedSize largeArgs false fun _ => false) ⟨4096, 0⟩ b p →
        InHalves ⟨0, 0, 4096, false, by decide⟩ b p := by
  intro h
  exact absurd (h _ _ (.first testedSize_largeArgs)) (by decide)

end NetPipe
