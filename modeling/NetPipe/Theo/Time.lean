import NetPipe.Theo.Options

/-!
# The theoretical time

`Theo_Time` of `theo.c` adds up the latency, the bytes of the packets with their headers, and a further
latency for each threshold that the message exceeds. For some InfiniBand cards a small message is padded to
half a packet, and the thresholds are compared with the padded size. The numbers here are exact.
-/

namespace NetPipe.Args

/-! ### The code -/

namespace TheoVars

/-- `n`, which is padded to half a packet. -/
def size (c : TheoVars) (buflen : ℤ) : ℤ := if c.padded ∧ buflen ≤ c.half then c.half else buflen

/-- `npackets`; there is none if the size of a packet is zero. -/
def npackets (c : TheoVars) (buflen : ℤ) : Option ℤ :=
  if c.padded ∧ buflen ≤ c.half then some 1
  else if c.mtu = 0 then none
  else if c.padded then some (1 + (buflen - c.half + c.mtu - 1).tdiv c.mtu)
  else some ((buflen + c.mtu - 1).tdiv c.mtu)

/-- An extra latency hit behind half a packet. -/
def halfHit (c : TheoVars) (buflen : ℤ) : Bool := c.padded ∧ c.size buflen > c.half

/-- `n > max_inline` -/
def inlineHit (c : TheoVars) (buflen : ℤ) : Bool := c.size buflen > c.max_inline

/-- `n > rendezvous` -/
def rendezvousHit (c : TheoVars) (buflen : ℤ) : Bool := c.size buflen > c.rendezvous

/-- `Theo_Time`, in seconds; there is no time if it divides by zero. -/
def theoTime (c : TheoVars) (buflen : ℤ) : Option ℚ :=
  match c.npackets buflen with
  | none => none
  | some npackets =>
    if c.maxrate = 0 then none
    else
      let t := c.latency + (c.nheader * (npackets - 1) + c.size buflen : ℤ) / c.maxrate
      let t := if c.halfHit buflen then t + c.latency else t
      let t := if c.inlineHit buflen then t + c.latency else t
      let t := if c.rendezvousHit buflen then t + c.latency else t
      some (t / 10 ^ 9)

/-- The time is defined, positive and monotone, the packets of a plain network are counted, and each
threshold is compared with the size of the message. -/
structure Sensible (c : TheoVars) : Prop where
  time : ∀ buflen, 1 ≤ buflen → ∃ t, c.theoTime buflen = some t ∧ 0 < t
  mono : ∀ a b ta tb, 1 ≤ a → a ≤ b → c.theoTime a = some ta → c.theoTime b = some tb → ta ≤ tb
  packets : ¬ c.padded → ∀ buflen, 1 ≤ buflen →
    c.npackets buflen = some ⌈(buflen : ℚ) / c.mtu⌉
  inline : ∀ buflen, 1 ≤ buflen → (c.inlineHit buflen ↔ buflen > c.max_inline)
  rendezvous : ∀ buflen, 1 ≤ buflen → (c.rendezvousHit buflen ↔ buflen > c.rendezvous)

/-! ### The conditions -/

/-- One more byte than `b`: the time of the byte, of a header if it begins a packet, and a latency for
each threshold that `b` is. -/
def jump (c : TheoVars) (b : ℤ) : ℚ :=
  (1 + if c.mtu ∣ b - c.half then c.nheader else 0) / c.maxrate +
    c.latency * ((if b = c.half then 1 else 0) + (if b = c.max_inline then 1 else 0) +
      if b = c.rendezvous then 1 else 0)

/-- A threshold that the padding does not cross. -/
def Clear (c : TheoVars) (thr : ℤ) : Prop := thr ≤ 0 ∨ c.half ≤ thr

/-- The size of a packet is positive. With padding the thresholds are clear of it, and where the
adjusted latency is added, at the first byte and behind a threshold, the time does not fall. -/
structure Balanced (c : TheoVars) : Prop where
  mtu_pos : 1 ≤ c.mtu
  inline : c.padded → c.Clear c.max_inline
  rendezvous : c.padded → c.Clear c.rendezvous
  first : c.padded → 0 < c.latency + c.half / c.maxrate +
    c.latency * ((if c.max_inline < 1 then 1 else 0) + if c.rendezvous < 1 then 1 else 0)
  jumps : c.padded → ∀ b ∈ [c.half, c.max_inline, c.rendezvous], 1 ≤ b → c.half ≤ b → 0 ≤ c.jump b

/-! ### The time as a sum -/

/-- The packets, if their size is not zero. -/
def packets (c : TheoVars) (buflen : ℤ) : ℤ :=
  if c.padded ∧ buflen ≤ c.half then 1
  else if c.padded then 1 + (buflen - c.half + c.mtu - 1).tdiv c.mtu
  else (buflen + c.mtu - 1).tdiv c.mtu

/-- The latencies that are added. -/
def hits (c : TheoVars) (buflen : ℤ) : ℚ :=
  (if c.halfHit buflen then 1 else 0) + (if c.inlineHit buflen then 1 else 0) +
    if c.rendezvousHit buflen then 1 else 0

/-- The time in nanoseconds. -/
def nanos (c : TheoVars) (buflen : ℤ) : ℚ :=
  c.latency + (c.nheader * (c.packets buflen - 1) + c.size buflen) / c.maxrate +
    c.latency * c.hits buflen

variable {c : TheoVars} {a b thr n m : ℤ}

lemma npackets_eq (h : c.mtu ≠ 0) (b : ℤ) : c.npackets b = some (c.packets b) := by
  rw [npackets, packets, if_neg h]
  split_ifs <;> rfl

lemma theoTime_eq (hc : Configured c) (h : c.mtu ≠ 0) (b : ℤ) :
    c.theoTime b = some (c.nanos b / 10 ^ 9) := by
  have hrate : c.maxrate ≠ 0 := hc.maxrate_pos.ne'
  rw [theoTime, npackets_eq h]
  simp only [hrate, if_false, nanos, hits, Option.some.injEq]
  push_cast
  split_ifs <;> ring

lemma size_of_le (hpad : c.padded) (hb : b ≤ c.half) : c.size b = c.half := if_pos ⟨hpad, hb⟩

lemma size_of_ge (hb : c.half ≤ b) : c.size b = b := by
  rw [size]
  split_ifs with h
  · omega
  · rfl

/-- Rounding up. -/
lemma tdiv_eq_ceil (hm : 1 ≤ m) (hn : 1 ≤ n) : (n + m - 1).tdiv m = ⌈(n : ℚ) / m⌉ := by
  have hdiv := Int.emod_add_mul_ediv (n + m - 1) m
  have hlt := Int.emod_lt_of_pos (n + m - 1) hm
  have hnonneg := Int.emod_nonneg (n + m - 1) (by omega : m ≠ 0)
  have hm' : (0 : ℚ) < m := by exact_mod_cast hm
  rw [Int.tdiv_eq_ediv_of_nonneg (by omega), eq_comm, Int.ceil_eq_iff]
  constructor
  · rw [lt_div_iff₀ hm']
    norm_cast
    linarith
  · rw [div_le_iff₀ hm']
    norm_cast
    linarith

/-- One more byte begins a packet or not. -/
lemma tdiv_succ (hm : 1 ≤ m) (hn : 0 ≤ n) :
    (n + 1 + m - 1).tdiv m = (n + m - 1).tdiv m + if m ∣ n then 1 else 0 := by
  have hpos : 0 < m := hm
  have hdiv := Int.emod_add_mul_ediv n m
  have hlt := Int.emod_lt_of_pos n hpos
  have hnonneg := Int.emod_nonneg n hpos.ne'
  rw [Int.tdiv_eq_ediv_of_nonneg (by omega), Int.tdiv_eq_ediv_of_nonneg (by omega)]
  have hnext : (n + 1 + m - 1) / m = n / m + 1 :=
    ((Int.ediv_emod_unique hpos (r := n % m)).mpr ⟨by linarith, hnonneg, hlt⟩).1
  rw [hnext]
  split_ifs with hdvd
  · have hzero : n % m = 0 := Int.emod_eq_zero_of_dvd hdvd
    have hthis : (n + m - 1) / m = n / m :=
      ((Int.ediv_emod_unique hpos (r := m - 1)).mpr ⟨by linarith, by linarith, by linarith⟩).1
    rw [hthis]
  · have hne : n % m ≠ 0 := fun h => hdvd (Int.dvd_of_emod_eq_zero h)
    have hthis : (n + m - 1) / m = n / m + 1 :=
      ((Int.ediv_emod_unique hpos (r := n % m - 1)).mpr
        ⟨by linarith, by omega, by linarith⟩).1
    rw [hthis, add_zero]

/-! ### Without padding -/

lemma packets_plain (hpad : ¬ c.padded) (b : ℤ) :
    c.packets b = (b + c.mtu - 1).tdiv c.mtu := by
  rw [packets, if_neg (by simp [hpad]), if_neg hpad]

lemma size_plain (hpad : ¬ c.padded) (b : ℤ) : c.size b = b := if_neg (by simp [hpad])

/-- A threshold is passed by more bytes as well. -/
lemma hit_mono (h : a ≤ b) (thr : ℤ) :
    (if a > thr then (1 : ℚ) else 0) ≤ if b > thr then 1 else 0 := by
  split_ifs with ha hb
  · exact le_rfl
  · omega
  · exact zero_le_one
  · exact le_rfl

lemma hits_nonneg (c : TheoVars) (b : ℤ) : 0 ≤ c.hits b := by
  rw [hits]
  positivity

lemma nanos_mono_plain (hc : Configured c) (hm : 1 ≤ c.mtu) (hpad : ¬ c.padded) (ha : 1 ≤ a)
    (hab : a ≤ b) : c.nanos a ≤ c.nanos b := by
  have hrate := hc.maxrate_pos
  have hlatency : 0 < c.latency := by simpa [hpad] using hc.latency_pos
  have hheader : (0 : ℚ) ≤ c.nheader := by
    have := hc.le_nheader
    exact_mod_cast (by omega : (0 : ℤ) ≤ c.nheader)
  have hpackets : (c.packets a : ℚ) ≤ c.packets b := by
    rw [packets_plain hpad, packets_plain hpad, tdiv_eq_ceil hm ha, tdiv_eq_ceil hm (ha.trans hab)]
    gcongr
  have hhits : c.hits a ≤ c.hits b := by
    have hhalf : ∀ b, c.halfHit b = false := fun b => by simp [halfHit, hpad]
    simp only [hits, hhalf, inlineHit, rendezvousHit, size_plain hpad, decide_eq_true_eq]
    have hinline := hit_mono hab c.max_inline
    have hrendezvous := hit_mono hab c.rendezvous
    gcongr
  have hsize : (a : ℚ) ≤ b := by exact_mod_cast hab
  rw [nanos, nanos, size_plain hpad, size_plain hpad]
  gcongr

/-! ### With padding -/

lemma half_nonneg (hm : 1 ≤ c.mtu) : 0 ≤ c.half := Int.tdiv_nonneg (by omega) (by norm_num)

lemma packets_padded (hpad : c.padded) (hm : 1 ≤ c.mtu) (hb : c.half ≤ b) :
    c.packets b = 1 + (b - c.half + c.mtu - 1).tdiv c.mtu := by
  rw [packets]
  split_ifs with h
  · have hzero : b - c.half = 0 := by omega
    rw [hzero, zero_add, Int.tdiv_eq_ediv_of_nonneg (by omega), Int.ediv_eq_zero_of_lt (by omega) (by omega),
      add_zero]
  · rfl

/-- Small messages are all padded to the same. -/
lemma nanos_of_le (hpad : c.padded) (ha : a ≤ c.half) (hb : b ≤ c.half) : c.nanos a = c.nanos b := by
  simp only [nanos, packets, hits, halfHit, inlineHit, rendezvousHit, size_of_le hpad ha,
    size_of_le hpad hb, hpad, ha, hb, and_self, if_true]

/-- A threshold is passed by the byte behind it. -/
lemma hit_succ (b thr : ℤ) : (if b + 1 > thr then (1 : ℚ) else 0) =
    (if b > thr then 1 else 0) + if b = thr then 1 else 0 := by
  split_ifs <;> first | omega | norm_num

/-- Behind the padding each byte makes the time jump. -/
lemma nanos_succ (hpad : c.padded) (hm : 1 ≤ c.mtu) (hb : c.half ≤ b) :
    c.nanos (b + 1) = c.nanos b + c.jump b := by
  have hpackets : c.packets (b + 1) = c.packets b + if c.mtu ∣ b - c.half then 1 else 0 := by
    have hsub : b + 1 - c.half = b - c.half + 1 := by ring
    rw [packets_padded hpad hm (by omega), packets_padded hpad hm hb, hsub,
      tdiv_succ hm (by omega), add_assoc]
  have hhits : c.hits (b + 1) = c.hits b + ((if b = c.half then 1 else 0) +
      (if b = c.max_inline then 1 else 0) + if b = c.rendezvous then 1 else 0) := by
    simp only [hits, halfHit, inlineHit, rendezvousHit, size_of_ge hb,
      size_of_ge (by omega : c.half ≤ b + 1), hpad, true_and, decide_eq_true_eq, hit_succ]
    ring
  rw [nanos, nanos, jump, hpackets, hhits, size_of_ge hb, size_of_ge (by omega : c.half ≤ b + 1)]
  push_cast
  split_ifs <;> ring

lemma nheader_nonneg (hc : Configured c) : (0 : ℚ) ≤ c.nheader := by
  have := hc.le_nheader
  exact_mod_cast (by omega : (0 : ℤ) ≤ c.nheader)

/-- Away from the thresholds the time rises. -/
lemma jump_nonneg (hc : Configured c) (hb : b ∉ [c.half, c.max_inline, c.rendezvous]) :
    0 ≤ c.jump b := by
  simp only [List.mem_cons, List.not_mem_nil, or_false, not_or] at hb
  have hrate := hc.maxrate_pos
  have hheader := nheader_nonneg hc
  rw [jump, if_neg hb.1, if_neg hb.2.1, if_neg hb.2.2]
  split_ifs
  · simp only [add_zero, mul_zero]
    positivity
  · simp only [Int.cast_zero, add_zero, mul_zero]
    positivity

/-- What does not fall from one size to the next does not fall. -/
lemma mono_of_succ {f : ℤ → ℚ} (hf : ∀ b, 1 ≤ b → f b ≤ f (b + 1)) (ha : 1 ≤ a) (hab : a ≤ b) :
    f a ≤ f b := by
  induction b, hab using Int.leInduction with
  | base => exact le_rfl
  | succ b hab ih => exact ih.trans (hf b (ha.trans hab))

/-- The time is monotone if and only if it is at the thresholds. -/
lemma nanos_mono_iff (hc : Configured c) (hpad : c.padded) (hm : 1 ≤ c.mtu) :
    (∀ a b, 1 ≤ a → a ≤ b → c.nanos a ≤ c.nanos b) ↔
      ∀ b ∈ [c.half, c.max_inline, c.rendezvous], 1 ≤ b → c.half ≤ b → 0 ≤ c.jump b := by
  constructor
  · intro hmono b _ hb hhalf
    have hle := hmono b (b + 1) hb (by omega)
    rw [nanos_succ hpad hm hhalf] at hle
    exact le_add_iff_nonneg_right _ |>.mp hle
  · intro hjumps a b ha hab
    refine mono_of_succ (fun b hb => ?_) ha hab
    rcases lt_or_ge b c.half with hlt | hge
    · exact (nanos_of_le hpad hlt.le hlt).le
    · rw [nanos_succ hpad hm hge]
      refine le_add_of_nonneg_right ?_
      by_cases hmem : b ∈ [c.half, c.max_inline, c.rendezvous]
      · exact hjumps b hmem hb hge
      · exact jump_nonneg hc hmem

/-- The padded size passes a threshold as the size does if and only if the threshold is clear of the
padding. -/
lemma clear_iff (hpad : c.padded) (thr : ℤ) :
    (∀ b, 1 ≤ b → (c.size b > thr ↔ b > thr)) ↔ c.Clear thr := by
  constructor
  · intro h
    rcases lt_or_ge c.half 1 with hlt | hge
    · rw [Clear]
      omega
    · have hone := h 1 le_rfl
      rw [size_of_le hpad hge] at hone
      rw [Clear]
      omega
  · intro hclear b hb
    rcases le_total b c.half with hle | hge
    · rw [size_of_le hpad hle]
      rw [Clear] at hclear
      omega
    · rw [size_of_ge hge]

/-- The time of the smallest message. -/
lemma nanos_one_pos_iff (hc : Configured c) (hpad : c.padded) (hm : 1 ≤ c.mtu)
    (hinline : c.Clear c.max_inline) (hrendezvous : c.Clear c.rendezvous) :
    0 < c.nanos 1 ↔ 0 < c.latency + c.half / c.maxrate +
      c.latency * ((if c.max_inline < 1 then 1 else 0) + if c.rendezvous < 1 then 1 else 0) := by
  have hpos := hc.latency_pos
  rw [if_pos hpad] at hpos
  rcases lt_or_ge c.half 1 with hlt | hge
  · have hzero : c.half = 0 := le_antisymm (by omega) (half_nonneg hm)
    have hrate := hc.maxrate_pos
    have hheader := nheader_nonneg hc
    rw [hzero, Int.cast_zero, zero_div, add_zero] at hpos ⊢
    have hpackets : (1 : ℚ) ≤ c.packets 1 := by
      have hceil : (1 : ℤ) ≤ ⌈((1 : ℤ) : ℚ) / c.mtu⌉ := by
        rw [Int.one_le_ceil_iff]
        positivity
      have htdiv := tdiv_eq_ceil hm (le_refl (1 : ℤ))
      rw [packets_padded hpad hm (by omega), hzero, sub_zero, htdiv]
      exact_mod_cast (by omega : (1 : ℤ) ≤ 1 + ⌈((1 : ℤ) : ℚ) / c.mtu⌉)
    refine iff_of_true ?_ ?_
    · have hsub : 0 ≤ (c.packets 1 : ℚ) - 1 := sub_nonneg.mpr hpackets
      have hhits := hits_nonneg c 1
      rw [nanos, size_of_ge (by omega)]
      positivity
    · positivity
  · have hhits : c.hits 1 =
        (if c.max_inline < 1 then 1 else 0) + if c.rendezvous < 1 then 1 else 0 := by
      have hi := (clear_iff hpad _).mpr hinline 1 le_rfl
      have hr := (clear_iff hpad _).mpr hrendezvous 1 le_rfl
      have hhalf : c.halfHit 1 = false := by simp [halfHit, size_of_le hpad hge]
      simp only [hits, hhalf, inlineHit, rendezvousHit, hi, hr, decide_eq_true_eq,
        Bool.false_eq_true, if_false, zero_add, gt_iff_lt]
    have hpackets : c.packets 1 = 1 := if_pos ⟨hpad, hge⟩
    rw [nanos, hhits, hpackets, size_of_le hpad hge, Int.cast_one, sub_self, mul_zero, zero_add]

/-! ### The size of a packet -/

/-- Packets of no bytes divide by zero. -/
lemma theoTime_of_mtu_eq_zero (h : c.mtu = 0) : c.theoTime 1 = none := by
  have hhalf : c.half = 0 := by rw [half, h]; rfl
  rw [theoTime, npackets, hhalf, if_neg (by simp), if_pos h]

/-- A negative size of a packet counts one packet for one byte. -/
lemma npackets_of_mtu_neg (hpad : ¬ c.padded) (h : c.mtu < 0) :
    c.npackets 1 ≠ some ⌈((1 : ℤ) : ℚ) / c.mtu⌉ := by
  have hceil : ⌈((1 : ℤ) : ℚ) / c.mtu⌉ ≤ 0 := by
    have hmtu : (c.mtu : ℚ) < 0 := by exact_mod_cast h
    rw [Int.ceil_le, Int.cast_one, Int.cast_zero]
    exact (one_div_neg.mpr hmtu).le
  have hone : (1 + c.mtu - 1).tdiv c.mtu = 1 := by
    rw [add_sub_cancel_left]
    exact Int.tdiv_self h.ne
  rw [npackets_eq h.ne, packets_plain hpad, hone, ne_eq, Option.some.injEq]
  omega

/-- A negative size of a packet makes the time fall now and then. -/
lemma nanos_of_mtu_neg (hc : Configured c) (hpad : c.padded) (h : c.mtu < 0) :
    ∃ b, 1 ≤ b ∧ c.nanos (b + 1) < c.nanos b := by
  have hrate := hc.maxrate_pos
  obtain ⟨m, hm⟩ : ∃ m, c.mtu = -m := ⟨-c.mtu, (neg_neg _).symm⟩
  have hmpos : 0 < m := by omega
  have hhalf : c.half = -(m / 2) := by
    rw [half, hm, Int.neg_tdiv, Int.tdiv_eq_ediv_of_nonneg hmpos.le]
  -- far behind all thresholds the last byte of a packet takes a packet away
  obtain ⟨k, hk⟩ : ∃ k, k = |c.max_inline| + |c.rendezvous| + 2 := ⟨_, rfl⟩
  have hi := le_abs_self c.max_inline
  have hr := le_abs_self c.rendezvous
  have hi' := abs_nonneg c.max_inline
  have hr' := abs_nonneg c.rendezvous
  have hfar : k ≤ k * m := le_mul_of_one_le_right (by omega) hmpos
  obtain ⟨b, hb⟩ : ∃ b, b = (k + 1) * m + c.half := ⟨_, rfl⟩
  have hkb : k ≤ b := by
    rw [hb, add_mul, one_mul]
    omega
  have hpackets : c.packets (b + 1) = c.packets b - 1 := by
    have hthis : b - c.half + c.mtu - 1 = k * m - 1 := by
      rw [hb, hm]
      ring
    have hnext : b + 1 - c.half + c.mtu - 1 = k * m := by
      rw [hb, hm]
      ring
    have hdiv : (k * m - 1) / m = k - 1 :=
      ((Int.ediv_emod_unique hmpos (r := m - 1)).mpr ⟨by ring, by omega, by omega⟩).1
    rw [packets, if_neg (by omega), if_pos hpad, packets, if_neg (by omega), if_pos hpad, hthis,
      hnext, hm, Int.tdiv_neg, Int.tdiv_neg, Int.mul_tdiv_cancel _ hmpos.ne',
      Int.tdiv_eq_ediv_of_nonneg (by omega), hdiv]
    ring
  have hhits : c.hits (b + 1) = c.hits b := by
    simp only [hits, halfHit, inlineHit, rendezvousHit, size_of_ge (by omega : c.half ≤ b),
      size_of_ge (by omega : c.half ≤ b + 1), hit_succ, hpad, true_and, decide_eq_true_eq]
    rw [if_neg (by omega : b ≠ c.half), if_neg (by omega : b ≠ c.max_inline),
      if_neg (by omega : b ≠ c.rendezvous)]
    ring
  refine ⟨b, by omega, ?_⟩
  have hheader : (34 : ℚ) ≤ c.nheader := by exact_mod_cast hc.le_nheader
  have hfall : (c.nheader * ((c.packets (b + 1) : ℚ) - 1) + c.size (b + 1)) / c.maxrate <
      (c.nheader * ((c.packets b : ℚ) - 1) + c.size b) / c.maxrate := by
    rw [hpackets, size_of_ge (by omega), size_of_ge (by omega), div_lt_div_iff_of_pos_right hrate]
    push_cast
    linarith
  rw [nanos, nanos, hhits]
  linarith

lemma Sensible.mtu_pos (hc : Configured c) (h : c.Sensible) : 1 ≤ c.mtu := by
  by_contra hm
  rcases (by omega : c.mtu = 0 ∨ c.mtu < 0) with hzero | hneg
  · obtain ⟨t, ht, -⟩ := h.time 1 le_rfl
    rw [theoTime_of_mtu_eq_zero hzero] at ht
    cases ht
  · by_cases hpad : c.padded
    · obtain ⟨b, hb, hlt⟩ := nanos_of_mtu_neg hc hpad hneg
      have hle := h.mono b (b + 1) _ _ hb (by omega) (theoTime_eq hc hneg.ne b)
        (theoTime_eq hc hneg.ne (b + 1))
      exact absurd hlt (not_lt.mpr ((div_le_div_iff_of_pos_right (by norm_num)).mp hle))
    · exact npackets_of_mtu_neg hpad hneg (h.packets hpad 1 le_rfl)

/-! ### The time is sensible under the conditions only -/

/-- What the times have to be, for the nanoseconds. -/
lemma sensible_iff_nanos (hc : Configured c) (hm : 1 ≤ c.mtu) : c.Sensible ↔
    (∀ b, 1 ≤ b → 0 < c.nanos b) ∧ (∀ a b, 1 ≤ a → a ≤ b → c.nanos a ≤ c.nanos b) ∧
      (∀ b, 1 ≤ b → (c.size b > c.max_inline ↔ b > c.max_inline)) ∧
      ∀ b, 1 ≤ b → (c.size b > c.rendezvous ↔ b > c.rendezvous) := by
  have hmtu : c.mtu ≠ 0 := by omega
  have hnano : (0 : ℚ) < 10 ^ 9 := by norm_num
  constructor
  · intro h
    refine ⟨fun b hb => ?_, fun a b ha hab => ?_, fun b hb => ?_, fun b hb => ?_⟩
    · obtain ⟨t, ht, hpos⟩ := h.time b hb
      rw [theoTime_eq hc hmtu, Option.some.injEq] at ht
      rw [← ht] at hpos
      exact (div_pos_iff_of_pos_right hnano).mp hpos
    · have hle := h.mono a b _ _ ha hab (theoTime_eq hc hmtu a) (theoTime_eq hc hmtu b)
      exact (div_le_div_iff_of_pos_right hnano).mp hle
    · simpa [inlineHit] using h.inline b hb
    · simpa [rendezvousHit] using h.rendezvous b hb
  · rintro ⟨hpos, hmono, hinline, hrendezvous⟩
    constructor
    · intro b hb
      exact ⟨_, theoTime_eq hc hmtu b, div_pos (hpos b hb) hnano⟩
    · intro a b ta tb ha hab hta htb
      rw [theoTime_eq hc hmtu, Option.some.injEq] at hta htb
      rw [← hta, ← htb]
      exact (div_le_div_iff_of_pos_right hnano).mpr (hmono a b ha hab)
    · intro hpad b hb
      rw [npackets_eq hmtu, packets_plain hpad, tdiv_eq_ceil hm hb]
    · intro b hb
      simpa [inlineHit] using hinline b hb
    · intro b hb
      simpa [rendezvousHit] using hrendezvous b hb

lemma sensible_of_plain (hc : Configured c) (hm : 1 ≤ c.mtu) (hpad : ¬ c.padded) : c.Sensible := by
  rw [sensible_iff_nanos hc hm]
  refine ⟨fun b hb => ?_, fun a b ha hab => nanos_mono_plain hc hm hpad ha hab, fun b _ => ?_,
    fun b _ => ?_⟩
  · have hrate := hc.maxrate_pos
    have hlatency : 0 < c.latency := by simpa [hpad] using hc.latency_pos
    have hheader := nheader_nonneg hc
    have hhits := hits_nonneg c b
    have hb' : (1 : ℚ) ≤ b := by exact_mod_cast hb
    have hpackets : (0 : ℚ) ≤ (c.packets b : ℚ) - 1 := by
      have hceil : (1 : ℤ) ≤ ⌈(b : ℚ) / c.mtu⌉ := by
        rw [Int.one_le_ceil_iff]
        positivity
      rw [packets_plain hpad, tdiv_eq_ceil hm hb, sub_nonneg]
      exact_mod_cast hceil
    rw [nanos, size_plain hpad]
    positivity
  · rw [size_plain hpad]
  · rw [size_plain hpad]

lemma sensible_iff_of_padded (hc : Configured c) (hm : 1 ≤ c.mtu) (hpad : c.padded) :
    c.Sensible ↔ c.Balanced := by
  rw [sensible_iff_nanos hc hm, clear_iff hpad, clear_iff hpad, nanos_mono_iff hc hpad hm]
  constructor
  · rintro ⟨hpos, hjumps, hinline, hrendezvous⟩
    have hfirst := (nanos_one_pos_iff hc hpad hm hinline hrendezvous).mp (hpos 1 le_rfl)
    exact ⟨hm, fun _ => hinline, fun _ => hrendezvous, fun _ => hfirst, fun _ => hjumps⟩
  · intro h
    have hjumps := h.jumps hpad
    have hone := (nanos_one_pos_iff hc hpad hm (h.inline hpad) (h.rendezvous hpad)).mpr (h.first hpad)
    have hmono := (nanos_mono_iff hc hpad hm).mpr hjumps
    exact ⟨fun b hb => hone.trans_le (hmono 1 b le_rfl hb), hjumps, h.inline hpad, h.rendezvous hpad⟩

lemma sensible_iff_balanced (hc : Configured c) : c.Sensible ↔ c.Balanced := by
  by_cases hm : 1 ≤ c.mtu
  · by_cases hpad : c.padded
    · exact sensible_iff_of_padded hc hm hpad
    · refine iff_of_true (sensible_of_plain hc hm hpad) ⟨hm, ?_, ?_, ?_, ?_⟩
      all_goals exact fun h => absurd h hpad
  · exact iff_of_false (fun h => hm (h.mtu_pos hc)) fun h => hm h.mtu_pos

end TheoVars

/-- The times of an accepted command line are sensible if and only if its network is balanced. -/
theorem theoTime_sensible_iff (atof : String → ℚ) (argv : List String) (v : Vars TheoVars)
    (h : enter (theoModule atof) argv = .ok v) : v.own.Sensible ↔ v.own.Balanced :=
  TheoVars.sensible_iff_balanced (configured_of_enter h)

/-- The variables of a QDR InfiniBand network at 32 Gbps with Alliance cards and a latency of 2
microseconds, of which half a packet takes 512 nanoseconds. -/
def qdrVars (max_inline : ℤ) : Vars TheoVars where
  glob := { Globals.init with
    nprocs := 1
    transmitter := true
    stream := true
    nrepeat_const := 1
    ntrials := 1 }
  own := ⟨4, 1488, 4096, 34, 1000000000, max_inline, true, false⟩

/-- The command line of such a network. -/
def qdrArgs : List String :=
  ["--infiniband", "--alliance", "--maxrate", "32", "--latency", "2"]

lemma enter_qdr (os : List String) (max_inline : ℤ)
    (h : parseArgs (theoModule fun s => atoi s) ((theoModule fun s => atoi s).init Globals.init)
      (splitArgs (qdrArgs ++ os)) =
        .ok ⟨(qdrVars 0).glob, ⟨(32 : ℤ), (2 : ℤ), 4096, 34, 1000000000, max_inline, true, false⟩⟩) :
    enter (theoModule fun s => atoi s) (qdrArgs ++ os) = .ok (qdrVars max_inline) := by
  have hrate : ¬ (((32 : ℤ) : ℚ) ≤ 0 ∨ ((2 : ℤ) : ℚ) ≤ 0) := by norm_num
  have hsetup : theoSetup ⟨(qdrVars 0).glob,
      ⟨(32 : ℤ), (2 : ℤ), 4096, 34, 1000000000, max_inline, true, false⟩⟩ = .ok (qdrVars max_inline) := by
    rw [theoSetup, if_neg hrate, if_neg (by norm_num)]
    have hhalf : Int.tdiv 4096 2 = 2048 := rfl
    norm_num [Vars.theo, qdrVars, TheoVars.padded, TheoVars.half, hhalf]
  rw [enter, h]
  exact hsetup ▸ rfl

/-- One byte is counted as more than 128 bytes, to which it was padded. -/
theorem not_sensible_inline : enter (theoModule fun s => atoi s) (qdrArgs ++ ["--inline", "128"]) =
    .ok (qdrVars 128) ∧ ¬ (qdrVars 128).own.Sensible := by
  refine ⟨enter_qdr _ _ rfl, fun h => ?_⟩
  have hone := h.inline 1 le_rfl
  exact absurd (hone.mp (by decide)) (by decide)

/-- Without a threshold the times of the network are sensible. -/
theorem sensible_qdr : (qdrVars 1000000000).own.Sensible := by
  have henter : enter (theoModule fun s => atoi s) (qdrArgs ++ []) = .ok (qdrVars 1000000000) :=
    enter_qdr _ _ rfl
  have hhalf : Int.tdiv 4096 2 = 2048 := rfl
  rw [theoTime_sensible_iff _ _ _ henter]
  constructor
  all_goals norm_num [qdrVars, TheoVars.Clear, TheoVars.half, TheoVars.jump, hhalf]

end NetPipe.Args
