import NetPipe.MpLite.Collective

/-!
# `MP_Bcast_masked`

The broadcast from a root to the processes in a mask. The processes are numbered anew with the root
first, and a process receives from the one whose number lacks its lowest bit.
-/

namespace NetPipe.MpLite

open NetPipe.Exchange

/-- The array `vproc`, of `nvprocs` processes. -/
def bcastVproc (nprocs root : ℕ) (mask : ℕ → ℤ) : List ℕ :=
  root :: (List.range nprocs).filter fun n => n ≠ root ∧ mask n = 1

/-- `myvproc`. -/
def bcastMyvproc (root : ℕ) (mask : ℕ → ℤ) (myproc : ℕ) : ℕ :=
  if myproc = root then 0
  else 1 + ((List.range myproc).filter fun n => n ≠ root ∧ mask n = 1).length

section

variable (nbytes : ℕ) (vproc : List ℕ) (dim myvproc : ℕ)

/-- The first loop, when `b` is `2 ^ k`: the receive is posted. -/
def bcastPrepost : ℕ → Bool → List VecAct
  | 0, _ => []
  | k + 1, igot =>
    if igot = false ∧ myvproc % 2 ^ k = 0 then
      vecARecv 0 nbytes (vproc.getD (myvproc - 2 ^ k) 0) 1711 (dim - k) :: bcastPrepost k true
    else bcastPrepost k igot

/-- The second loop, when `b` is `2 ^ k`: the data is awaited, then sent on. -/
def bcastSends : ℕ → Bool → List VecAct
  | 0, _ => []
  | k + 1, true =>
    if myvproc + 2 ^ k < vproc.length then
      vecSend 0 nbytes (vproc.getD (myvproc + 2 ^ k) 0) 1711 (dim - k) :: bcastSends k true
    else bcastSends k true
  | k + 1, false =>
    if myvproc % 2 ^ k = 0 then .wait :: bcastSends k true else bcastSends k false

end

/-- `MP_Bcast_masked` on process `myproc`. It stops the program if the root is not in the mask. The
loops begin at the first power of two that is not below `nvprocs`. -/
def bcastMasked (nprocs nbytes root : ℕ) (mask : ℕ → ℤ) (myproc : ℕ) : Option (List VecAct) :=
  if mask myproc ≠ 1 then some []
  else if mask root = 0 then none
  else if nprocs = 1 then some []
  else
    let vproc := bcastVproc nprocs root mask
    if vproc.length ≤ 1 then some []
    else
      let myvproc := bcastMyvproc root mask myproc
      let dim := Nat.clog 2 vproc.length
      let igot := decide (myproc = root)
      some (bcastPrepost nbytes vproc dim myvproc dim igot ++
        bcastSends nbytes vproc dim myvproc dim igot)

/-! ### The virtual processes -/

section

variable {nprocs nbytes root : ℕ} {mask : ℕ → ℤ} {a : ℕ}

lemma mem_bcastVproc (hroot : root < nprocs) (hmask : mask root = 1) :
    a ∈ bcastVproc nprocs root mask ↔ a < nprocs ∧ mask a = 1 := by
  rcases eq_or_ne a root with rfl | ha
  · simp [bcastVproc, hroot, hmask]
  · simp [bcastVproc, ha]

lemma bcast_ranks (nprocs root : ℕ) (mask : ℕ → ℤ) :
    Ranks (bcastVproc nprocs root mask) (bcastMyvproc root mask) := by
  refine ⟨?_, ?_⟩
  · rw [bcastVproc, List.nodup_cons]
    exact ⟨by simp, List.nodup_range.filter _⟩
  · intro a ha
    rw [bcastMyvproc]
    split_ifs with hroot
    · rw [hroot]
      rfl
    · rw [bcastVproc, List.mem_cons] at ha
      have hmem := List.mem_filter.mp (ha.resolve_left hroot)
      rw [bcastVproc, Nat.add_comm, List.getElem?_cons_succ]
      exact getElem?_filter_range (List.mem_range.mp hmem.1) hmem.2

lemma bcastMyvproc_eq_zero : bcastMyvproc root mask a = 0 ↔ a = root := by
  rw [bcastMyvproc]
  split_ifs with h <;> simp [h]

end

/-! ### The loops -/

section

variable {nbytes : ℕ} {vproc : List ℕ} {dim v k : ℕ}

lemma bcastSends_succ : bcastSends nbytes vproc dim v (k + 1) true =
    if v + 2 ^ k < vproc.length then
      vecSend 0 nbytes (vproc.getD (v + 2 ^ k) 0) 1711 (dim - k) ::
        bcastSends nbytes vproc dim v k true
    else bcastSends nbytes vproc dim v k true := rfl

lemma bcastPrepost_true (k : ℕ) : bcastPrepost nbytes vproc dim v k true = [] := by
  induction k with
  | zero => rfl
  | succ k ih => simpa [bcastPrepost] using ih

/-- A process other than the root receives from the one whose number lacks the lowest bit, and then
sends to those with one more bit below it. -/
lemma bcast_receive (nbytes : ℕ) (vproc : List ℕ) (dim : ℕ) (hk : ¬ 2 ^ k ∣ v) : ∃ j < k, 2 ^ j ∣ v ∧ ¬ 2 ^ (j + 1) ∣ v ∧
    bcastPrepost nbytes vproc dim v k false ++ bcastSends nbytes vproc dim v k false =
      vecARecv 0 nbytes (vproc.getD (v - 2 ^ j) 0) 1711 (dim - j) :: .wait ::
        bcastSends nbytes vproc dim v j true := by
  induction k with
  | zero => simp at hk
  | succ k ih =>
    by_cases hdvd : 2 ^ k ∣ v
    · have hmod : v % 2 ^ k = 0 := Nat.mod_eq_zero_of_dvd hdvd
      refine ⟨k, Nat.lt_succ_self k, hdvd, hk, ?_⟩
      simp [bcastPrepost, bcastSends, hmod, bcastPrepost_true]
    · have hmod : v % 2 ^ k ≠ 0 := fun h => hdvd (Nat.dvd_of_mod_eq_zero h)
      obtain ⟨j, hj, h₁, h₂, heq⟩ := ih hdvd
      refine ⟨j, hj.trans (Nat.lt_succ_self k), h₁, h₂, ?_⟩
      simpa [bcastPrepost, bcastSends, hmod] using heq

lemma sendsTo_bcastSends_of_not_mem {b : ℕ} (hb : b ∉ vproc) (k : ℕ) :
    sendsTo b (bcastSends nbytes vproc dim v k true) = [] := by
  induction k with
  | zero => rfl
  | succ k ih =>
    rw [bcastSends_succ]
    split_ifs with hlt
    · have hne : vproc.getD (v + 2 ^ k) 0 ≠ b := fun h => hb (h ▸ Ranks.getD_mem hlt)
      rw [vecSend, sendsTo_send, if_neg hne, ih]
    · exact ih

/-- The second loop sends to the processes with one more bit. -/
lemma sendsTo_bcastSends (nbytes dim v : ℕ) {rank : ℕ → ℕ} (h : Ranks vproc rank) {b : ℕ} (hb : b ∈ vproc) (k : ℕ) :
    ((∀ i < k, rank b ≠ v + 2 ^ i) → sendsTo b (bcastSends nbytes vproc dim v k true) = []) ∧
    ∀ i < k, rank b = v + 2 ^ i →
      sendsTo b (bcastSends nbytes vproc dim v k true) = [⟨dim - i, 1711, nbytes⟩] := by
  induction k with
  | zero => simp [bcastSends]
  | succ k ih =>
    have hiff : v + 2 ^ k < vproc.length →
        (vproc.getD (v + 2 ^ k) 0 = b ↔ rank b = v + 2 ^ k) := by
      intro hlt
      rw [h.getD_eq_iff hlt hb, eq_comm]
    refine ⟨fun hne => ?_, fun i hi hbi => ?_⟩
    · have hrec := ih.1 fun i hi => hne i (hi.trans (Nat.lt_succ_self k))
      rw [bcastSends_succ]
      split_ifs with hlt
      · rw [vecSend, sendsTo_send, if_neg (mt (hiff hlt).mp (hne k (Nat.lt_succ_self k))), hrec]
      · exact hrec
    · rcases Nat.lt_succ_iff_lt_or_eq.mp hi with hi | rfl
      · have hrec := ih.2 i hi hbi
        have hne : rank b ≠ v + 2 ^ k := by
          rw [hbi]
          have hlt := Nat.pow_lt_pow_right Nat.one_lt_two hi
          exact fun heq => hlt.ne (Nat.add_left_cancel heq)
        rw [bcastSends_succ]
        split_ifs with hlt
        · rw [vecSend, sendsTo_send, if_neg (mt (hiff hlt).mp hne), hrec]
        · exact hrec
      · have hlt : v + 2 ^ i < vproc.length := hbi ▸ h.lt hb
        have hnil := ih.1 fun j hj heq => by
          have hlt' := Nat.pow_lt_pow_right Nat.one_lt_two hj
          rw [hbi] at heq
          exact hlt'.ne (Nat.add_left_cancel heq).symm
        rw [bcastSends_succ, if_pos hlt, vecSend, sendsTo_send, if_pos ((hiff hlt).mpr hbi), hnil]

lemma postsFrom_bcastSends (a k : ℕ) :
    postsFrom a (bcastSends nbytes vproc dim v k true) = [] := by
  induction k with
  | zero => rfl
  | succ k ih =>
    rw [bcastSends_succ]
    split_ifs
    · exact ih
    · exact ih

lemma posts_bcastSends (nbytes : ℕ) (vproc : List ℕ) (dim v k : ℕ) : posts (bcastSends nbytes vproc dim v k true) = [] ∧
    waits (bcastSends nbytes vproc dim v k true) = 0 := by
  induction k with
  | zero => exact ⟨rfl, rfl⟩
  | succ k ih =>
    rw [bcastSends_succ]
    split_ifs
    · exact ih
    · exact ih

/-- What is sent is the data of the root. -/
lemma conforms_bcastSends {i : ℕ} {final : (ℕ → UInt8) → Prop} {s : ℕ → UInt8} {X : List UInt8}
    (hs : bytesAt s 0 nbytes = X) (hfinal : final s) (k : ℕ) :
    Conforms (fun _ _ _ => X) i final (bcastSends nbytes vproc dim v k true) none s := by
  induction k with
  | zero => exact hfinal
  | succ k ih =>
    rw [bcastSends_succ]
    split_ifs
    · exact ⟨hs, ih⟩
    · exact ih

lemma keys_bcastSends (nbytes : ℕ) (vproc : List ℕ) (v : ℕ) (hk : k ≤ dim) :
    (keys Label.round (bcastSends nbytes vproc dim v k true) none).Pairwise (· ≤ ·) ∧
      ∀ x ∈ keys Label.round (bcastSends nbytes vproc dim v k true) none,
        2 * (dim - k) + 2 ≤ x := by
  induction k with
  | zero => simp [bcastSends, keys]
  | succ k ih =>
    obtain ⟨ih₁, ih₂⟩ := ih (Nat.le_of_succ_le hk)
    have hle : 2 * (dim - (k + 1)) + 2 = 2 * (dim - k) := by omega
    rw [bcastSends_succ, hle]
    split_ifs
    · refine ⟨List.pairwise_cons.mpr ⟨fun x hx => ?_, ih₁⟩, fun x hx => ?_⟩
      · exact (Nat.le_add_right _ 2).trans (ih₂ x hx)
      · rcases List.mem_cons.mp hx with rfl | hx
        · exact le_refl _
        · exact (Nat.le_add_right _ 2).trans (ih₂ x hx)
    · exact ⟨ih₁, fun x hx => (Nat.le_add_right _ 2).trans (ih₂ x hx)⟩

end

/-! ### The lowest bit -/

/-- The exponent of the lowest bit is unique. -/
lemma lowbit_unique {w i j : ℕ} (hi : 2 ^ i ∣ w) (hi' : ¬ 2 ^ (i + 1) ∣ w) (hj : 2 ^ j ∣ w)
    (hj' : ¬ 2 ^ (j + 1) ∣ w) : i = j := by
  rcases lt_trichotomy i j with hlt | heq | hgt
  · exact absurd ((pow_dvd_pow 2 hlt).trans hj) hi'
  · exact heq
  · exact absurd ((pow_dvd_pow 2 hgt).trans hi) hj'

/-- Without its lowest bit a number is divisible once more. -/
lemma dvd_sub_lowbit {w j : ℕ} (hj : 2 ^ j ∣ w) (hj' : ¬ 2 ^ (j + 1) ∣ w) :
    2 ^ (j + 1) ∣ w - 2 ^ j := by
  obtain ⟨c, rfl⟩ := hj
  rw [pow_succ, Nat.mul_dvd_mul_iff_left (by positivity)] at hj'
  have hodd : c % 2 = 1 := by omega
  refine ⟨c / 2, ?_⟩
  have hc : c = 2 * (c / 2) + 1 := by omega
  calc 2 ^ j * c - 2 ^ j = 2 ^ j * (c - 1) := by rw [Nat.mul_sub, mul_one]
    _ = 2 ^ j * (2 * (c / 2)) := by rw [show c - 1 = 2 * (c / 2) by omega]
    _ = 2 ^ (j + 1) * (c / 2) := by rw [pow_succ, mul_assoc]

/-- One more bit below the lowest one. -/
lemma lowbit_add {u i j : ℕ} (hj : 2 ^ j ∣ u) (hij : i < j) :
    2 ^ i ∣ u + 2 ^ i ∧ ¬ 2 ^ (i + 1) ∣ u + 2 ^ i := by
  have hsucc : 2 ^ (i + 1) ∣ u := (pow_dvd_pow 2 hij).trans hj
  refine ⟨(((pow_dvd_pow 2 (Nat.le_succ i)).trans hsucc).add (dvd_refl _)), fun hdvd => ?_⟩
  have hlast := (Nat.dvd_add_right hsucc).mp hdvd
  exact absurd (Nat.le_of_dvd (by positivity) hlast)
    (not_le.mpr (Nat.pow_lt_pow_right Nat.one_lt_two (Nat.lt_succ_self i)))

/-! ### The programs -/

/-- The programs of all processes. -/
def bcastScript (nprocs nbytes root : ℕ) (mask : ℕ → ℤ) (a : ℕ) : List VecAct :=
  if a < nprocs then (bcastMasked nprocs nbytes root mask a).getD [] else []

section

variable {nprocs nbytes root : ℕ} {mask : ℕ → ℤ} {a b : ℕ}

lemma bcastScript_of_not_mem (hroot : root < nprocs) (hmask : mask root = 1)
    (ha : a ∉ bcastVproc nprocs root mask) : bcastScript nprocs nbytes root mask a = [] := by
  rw [mem_bcastVproc hroot hmask, not_and] at ha
  rw [bcastScript]
  split_ifs with hlt
  · simp [bcastMasked, ha hlt]
  · rfl

lemma bcastScript_small (hmask : mask root = 1)
    (hN : (bcastVproc nprocs root mask).length ≤ 1) : bcastScript nprocs nbytes root mask a = [] := by
  rw [bcastScript]
  split_ifs with hlt
  · by_cases ha : mask a = 1 <;> simp [bcastMasked, hmask, hN, ha]
  · rfl

lemma bcastMasked_large (nbytes : ℕ) (hroot : root < nprocs) (hmask : mask root = 1)
    (hN : 1 < (bcastVproc nprocs root mask).length) (ha : a ∈ bcastVproc nprocs root mask) :
    bcastScript nprocs nbytes root mask a =
      bcastPrepost nbytes (bcastVproc nprocs root mask)
          (Nat.clog 2 (bcastVproc nprocs root mask).length) (bcastMyvproc root mask a)
          (Nat.clog 2 (bcastVproc nprocs root mask).length) (a = root) ++
        bcastSends nbytes (bcastVproc nprocs root mask)
          (Nat.clog 2 (bcastVproc nprocs root mask).length) (bcastMyvproc root mask a)
          (Nat.clog 2 (bcastVproc nprocs root mask).length) (a = root) := by
  obtain ⟨hlt, hone⟩ := (mem_bcastVproc hroot hmask).mp ha
  have hne : nprocs ≠ 1 := by
    rintro rfl
    obtain rfl : root = 0 := Nat.lt_one_iff.mp hroot
    simp [bcastVproc] at hN
  simp [bcastScript, bcastMasked, hlt, hone, hmask, hne, hN.not_ge]

/-- The program of a process: the lowest bit of its number is `2 ^ j`. -/
lemma bcastScript_mem (nbytes : ℕ) (hroot : root < nprocs) (hmask : mask root = 1)
    (hN : 1 < (bcastVproc nprocs root mask).length) (ha : a ∈ bcastVproc nprocs root mask) :
    let vproc := bcastVproc nprocs root mask
    let dim := Nat.clog 2 vproc.length
    let v := bcastMyvproc root mask a
    ∃ j ≤ dim, 2 ^ j ∣ v ∧
      (a = root ∧ j = dim ∧
          bcastScript nprocs nbytes root mask a = bcastSends nbytes vproc dim v j true ∨
        a ≠ root ∧ j < dim ∧ ¬ 2 ^ (j + 1) ∣ v ∧ bcastScript nprocs nbytes root mask a =
          vecARecv 0 nbytes (vproc.getD (v - 2 ^ j) 0) 1711 (dim - j) :: .wait ::
            bcastSends nbytes vproc dim v j true) := by
  intro vproc dim v
  have hscript := bcastMasked_large nbytes hroot hmask hN ha
  rcases eq_or_ne a root with rfl | hne
  · have hv : v = 0 := bcastMyvproc_eq_zero.mpr rfl
    refine ⟨dim, le_refl _, by simp [hv], Or.inl ⟨rfl, rfl, ?_⟩⟩
    simpa [bcastPrepost_true] using hscript
  · have hpos : 0 < v := Nat.pos_of_ne_zero (mt bcastMyvproc_eq_zero.mp hne)
    have hlt : v < 2 ^ dim :=
      ((bcast_ranks nprocs root mask).lt ha).trans_le (Nat.le_pow_clog Nat.one_lt_two _)
    obtain ⟨j, hj, h₁, h₂, heq⟩ :=
      bcast_receive nbytes vproc dim (Nat.not_dvd_of_pos_of_lt hpos hlt)
    refine ⟨j, hj.le, h₁, Or.inr ⟨hne, hj, h₂, ?_⟩⟩
    rw [hscript, decide_eq_false hne]
    exact heq

/-- Sends and receives meet. -/
lemma bcast_labels (hroot : root < nprocs) (hmask : mask root = 1) (a b : ℕ) :
    sendsTo b (bcastScript nprocs nbytes root mask a) =
      postsFrom a (bcastScript nprocs nbytes root mask b) := by
  rcases Nat.lt_or_ge 1 (bcastVproc nprocs root mask).length with hN | hN
  swap
  · simp [bcastScript_small hmask hN]
  have hranks := bcast_ranks nprocs root mask
  by_cases hb : b ∈ bcastVproc nprocs root mask
  swap
  · rw [bcastScript_of_not_mem hroot hmask hb, postsFrom_nil]
    by_cases ha : a ∈ bcastVproc nprocs root mask
    · obtain ⟨j, -, -, ⟨-, -, hs⟩ | ⟨-, -, -, hs⟩⟩ :=
        bcastScript_mem nbytes hroot hmask hN ha
      · rw [hs, sendsTo_bcastSends_of_not_mem hb]
      · rw [hs, vecARecv, sendsTo_post, sendsTo_wait, sendsTo_bcastSends_of_not_mem hb]
    · rw [bcastScript_of_not_mem hroot hmask ha, sendsTo_nil]
  obtain ⟨jb, -, hdvd, hscript⟩ := bcastScript_mem nbytes hroot hmask hN hb
  have hpos : b ≠ root → 2 ^ jb ≤ bcastMyvproc root mask b := fun hne =>
    Nat.le_of_dvd (Nat.pos_of_ne_zero (mt bcastMyvproc_eq_zero.mp hne)) hdvd
  by_cases ha : a ∈ bcastVproc nprocs root mask
  swap
  · rw [bcastScript_of_not_mem hroot hmask ha, sendsTo_nil]
    rcases hscript with ⟨-, -, hs⟩ | ⟨hne, -, -, hs⟩
    · rw [hs, postsFrom_bcastSends]
    · have hlt := (Nat.sub_le (bcastMyvproc root mask b) (2 ^ jb)).trans_lt (hranks.lt hb)
      have hsrc : (bcastVproc nprocs root mask).getD (bcastMyvproc root mask b - 2 ^ jb) 0 ≠ a :=
        fun h => ha (h ▸ Ranks.getD_mem hlt)
      rw [hs, vecARecv, postsFrom_post, if_neg hsrc, postsFrom_wait, postsFrom_bcastSends]
  obtain ⟨ja, hja, hdvda, hscripta⟩ := bcastScript_mem nbytes hroot hmask hN ha
  have hsends : sendsTo b (bcastScript nprocs nbytes root mask a) = sendsTo b
      (bcastSends nbytes (bcastVproc nprocs root mask)
        (Nat.clog 2 (bcastVproc nprocs root mask).length) (bcastMyvproc root mask a) ja true) := by
    rcases hscripta with ⟨-, -, hs⟩ | ⟨-, -, -, hs⟩ <;> rw [hs]
    rfl
  obtain ⟨hnone, hsome⟩ := sendsTo_bcastSends nbytes
    (Nat.clog 2 (bcastVproc nprocs root mask).length) (bcastMyvproc root mask a) hranks hb ja
  rw [hsends]
  rcases hscript with ⟨rfl, -, hs⟩ | ⟨hne, hlt, hndvd, hs⟩
  · have hzero : bcastMyvproc b mask b = 0 := bcastMyvproc_eq_zero.mpr rfl
    rw [hs, postsFrom_bcastSends, hnone]
    intro i _
    rw [hzero]
    positivity
  · rw [hs, vecARecv, postsFrom_post, postsFrom_wait, postsFrom_bcastSends]
    have hle := hpos hne
    have hlt' := (Nat.sub_le (bcastMyvproc root mask b) (2 ^ jb)).trans_lt (hranks.lt hb)
    simp only [hranks.getD_eq_iff hlt' ha]
    split_ifs with hsrc
    · -- the sender has the number without the lowest bit
      refine hsome jb ?_ (by omega)
      rcases hscripta with ⟨-, rfl, -⟩ | ⟨-, -, hndvda, -⟩
      · exact hlt
      · by_contra hjj
        have hsub := dvd_sub_lowbit hdvd hndvd
        rw [hsrc] at hsub
        exact hndvda ((pow_dvd_pow 2 (by omega)).trans hsub)
    · refine hnone fun i hi hbi => hsrc ?_
      obtain ⟨h₁, h₂⟩ := lowbit_add hdvda hi
      rw [← hbi] at h₁ h₂
      obtain rfl := lowbit_unique h₁ h₂ hdvd hndvd
      omega

/-- The memory of a process in the end. -/
def BcastFinal (nprocs nbytes root : ℕ) (mask : ℕ → ℤ) (start : ℕ → ℕ → UInt8) (a : ℕ)
    (vec : ℕ → UInt8) : Prop :=
  if a < nprocs ∧ mask a = 1 then bytesAt vec 0 nbytes = bytesAt (start root) 0 nbytes
  else vec = start a

/-- The programs of the broadcast meet, with the data of the root in all messages. The others in the
mask store it. -/
lemma bcast_meets_of (nbytes : ℕ) (hroot : root < nprocs) (hmask : mask root = 1)
    {start : ℕ → ℕ → UInt8} {final : ℕ → (ℕ → UInt8) → Prop}
    (hkeep : ∀ a, (a ∈ bcastVproc nprocs root mask → a = root) → final a (start a))
    (hstore : ∀ a ∈ bcastVproc nprocs root mask, a ≠ root →
      final a (storeAt 0 (bytesAt (start root) 0 nbytes) (start a))) :
    Meets Label.round (fun _ _ _ => bytesAt (start root) 0 nbytes) final
      (bcastScript nprocs nbytes root mask) start := by
  refine ⟨fun a => ?_, bcast_labels hroot hmask, fun a => ?_⟩
  · by_cases ha : a ∈ bcastVproc nprocs root mask
    swap
    · rw [bcastScript_of_not_mem hroot hmask ha, Conforms]
      exact hkeep a fun h => absurd h ha
    rcases Nat.lt_or_ge 1 (bcastVproc nprocs root mask).length with hN | hN
    swap
    · have hzero : bcastMyvproc root mask a = 0 :=
        Nat.lt_one_iff.mp (((bcast_ranks nprocs root mask).lt ha).trans_le hN)
      rw [bcastScript_small hmask hN, Conforms]
      exact hkeep a fun _ => bcastMyvproc_eq_zero.mp hzero
    obtain ⟨j, -, -, ⟨rfl, -, hs⟩ | ⟨hne, -, -, hs⟩⟩ := bcastScript_mem nbytes hroot hmask hN ha
    · rw [hs]
      exact conforms_bcastSends rfl (hkeep a fun _ => rfl) j
    · rw [hs]
      have hread := bytesAt_storeAt 0 (bytesAt (start root) 0 nbytes) (start a)
      rw [length_bytesAt] at hread
      exact conforms_bcastSends hread (hstore a ha hne) j
  · by_cases ha : a ∈ bcastVproc nprocs root mask
    swap
    · rw [bcastScript_of_not_mem hroot hmask ha]
      exact List.Pairwise.nil
    rcases Nat.lt_or_ge 1 (bcastVproc nprocs root mask).length with hN | hN
    swap
    · rw [bcastScript_small hmask hN]
      exact List.Pairwise.nil
    obtain ⟨j, hj, -, ⟨-, -, hs⟩ | ⟨-, -, -, hs⟩⟩ := bcastScript_mem nbytes hroot hmask hN ha
    · rw [hs]
      exact (keys_bcastSends _ _ _ hj).1
    · obtain ⟨hsorted, hlow⟩ := keys_bcastSends nbytes (bcastVproc nprocs root mask)
        (bcastMyvproc root mask a) hj
      rw [hs]
      exact List.pairwise_cons.mpr
        ⟨fun x hx => (Nat.le_succ _).trans (hlow x hx), hsorted⟩

lemma bcast_meets (nbytes : ℕ) (hroot : root < nprocs) (hmask : mask root = 1)
    (start : ℕ → ℕ → UInt8) :
    Meets Label.round (fun _ _ _ => bytesAt (start root) 0 nbytes)
      (BcastFinal nprocs nbytes root mask start) (bcastScript nprocs nbytes root mask) start := by
  apply bcast_meets_of nbytes hroot hmask
  · intro a ha
    rw [BcastFinal]
    split_ifs with hmember
    · rw [ha ((mem_bcastVproc hroot hmask).mpr hmember)]
    · rfl
  · intro a ha _
    have hread := bytesAt_storeAt 0 (bytesAt (start root) 0 nbytes) (start a)
    rw [length_bytesAt] at hread
    rwa [BcastFinal, if_pos ((mem_bcastVproc hroot hmask).mp ha)]

/-- A process other than the root posts one receive and waits once. -/
lemma bcast_once (nbytes : ℕ) (hroot : root < nprocs) (hmask : mask root = 1) (ha : a < nprocs)
    (hone : mask a = 1) (hne : a ≠ root) :
    (posts (bcastScript nprocs nbytes root mask a)).length = 1 ∧
      waits (bcastScript nprocs nbytes root mask a) = 1 := by
  have hmem := (mem_bcastVproc hroot hmask).mpr ⟨ha, hone⟩
  have hN : 1 < (bcastVproc nprocs root mask).length :=
    lt_of_le_of_lt (Nat.pos_of_ne_zero (mt bcastMyvproc_eq_zero.mp hne))
      ((bcast_ranks nprocs root mask).lt hmem)
  obtain ⟨j, -, -, ⟨hr, -, -⟩ | ⟨-, -, -, hs⟩⟩ := bcastScript_mem nbytes hroot hmask hN hmem
  · exact absurd hr hne
  · obtain ⟨hposts, hwaits⟩ := posts_bcastSends nbytes (bcastVproc nprocs root mask)
      (Nat.clog 2 (bcastVproc nprocs root mask).length) (bcastMyvproc root mask a) j
    rw [hs, vecARecv, posts_post, posts_wait, waits_post, waits_wait, hposts, hwaits]
    exact ⟨rfl, rfl⟩

/-- What `MP_Bcast_masked` does, in a state `n` of a run. -/
structure BcastCorrect (nprocs nbytes root : ℕ) (mask : ℕ → ℤ) (start : ℕ → ℕ → UInt8)
    (n : Net ℕ Label (ℕ → UInt8) (List UInt8)) : Prop where
  /-- no process stops the program -/
  total : ∀ a < nprocs, (bcastMasked nprocs nbytes root mask a).isSome
  once : ∀ a < nprocs, mask a = 1 → a ≠ root →
    (posts (bcastScript nprocs nbytes root mask a)).length = 1 ∧
      waits (bcastScript nprocs nbytes root mask a) = 1
  /-- the sends from `a` to `b` are the receives that `b` posts for `a` -/
  matched : ∀ a b, sendsTo b (bcastScript nprocs nbytes root mask a) =
    postsFrom a (bcastScript nprocs nbytes root mask b)
  /-- what is sent is the data of the root -/
  sends : ∀ a dst l data cs, (n.proc a).todo = .send dst l data :: cs →
    data (n.proc a).mem = bytesAt (start root) 0 nbytes
  posted : ∀ a cs, (n.proc a).todo = .wait :: cs → (n.proc a).rid ≠ none
  /-- the run can be completed -/
  completes : ∃ n', Relation.ReflTransGen (Step Label.Accepts) n n' ∧ ∀ a, (n'.proc a).todo = []
  finished : (∀ a, (n.proc a).todo = []) →
    (∀ a < nprocs, mask a = 1 → bytesAt (n.proc a).mem 0 nbytes = bytesAt (start root) 0 nbytes) ∧
      ∀ a b, n.chan a b = []

/-- `MP_Bcast_masked` delivers the data of the root to the masked processes in every run. -/
theorem bcast_correct (hroot : root < nprocs) (hmask : mask root = 1) (start : ℕ → ℕ → UInt8)
    {n : Net ℕ Label (ℕ → UInt8) (List UInt8)}
    (hrun : Relation.ReflTransGen (Step Label.Accepts)
      (init (bcastScript nprocs nbytes root mask) start) n) :
    BcastCorrect nprocs nbytes root mask start n := by
  have hmeets := bcast_meets nbytes hroot hmask start
  have hinv := hmeets.inv Label.accepts_self hrun
  refine ⟨?_, fun a => bcast_once nbytes hroot hmask, bcast_labels hroot hmask, ?_,
    fun a cs h => hinv.posted h, hmeets.completes (I := Finset.range nprocs) Label.accepts_self ?_ hrun,
    fun h => ?_⟩
  · intro a _
    simp only [bcastMasked, hmask]
    split_ifs <;> simp_all
  · intro a dst l data cs h
    exact ((hinv.expected a).send h).1
  · exact fun a ha => if_neg fun hlt => ha (Finset.mem_range.mpr hlt)
  · obtain ⟨hfinal, hchan⟩ := hinv.finished h
    refine ⟨fun a ha hone => ?_, hchan⟩
    have hfin := hfinal a
    rwa [BcastFinal, if_pos ⟨ha, hone⟩] at hfin

/-- Four of five processes, where the root is the third of them, get the byte of the root. -/
theorem bcast_correct_four : ∃ n : Net ℕ Label (ℕ → UInt8) (List UInt8),
    BcastCorrect 5 1 3 (fun a => if a = 2 then 0 else 1) (fun a _ => UInt8.ofNat a) n ∧
      (∀ a, (n.proc a).todo = []) ∧ bytesAt (n.proc 4).mem 0 1 = [3] := by
  have hstart : BcastCorrect 5 1 3 (fun a => if a = 2 then 0 else 1) (fun a _ => UInt8.ofNat a) _ :=
    bcast_correct (by decide) (by decide) _ .refl
  obtain ⟨n, hrun, hend⟩ := hstart.completes
  have hcorrect : BcastCorrect 5 1 3 (fun a => if a = 2 then 0 else 1) _ n :=
    bcast_correct (by decide) (by decide) _ hrun
  exact ⟨n, hcorrect, hend, (hcorrect.finished hend).1 4 (by decide) (by decide)⟩

end

/-! ### MP_Broadcast -/

section

variable {nprocs nbytes p : ℕ} {start mem : ℕ → ℕ → UInt8}

/-- What process `p` holds after the broadcast of the first `nbytes` bytes of `x` from process 0, if it
held `y` before. -/
def received (nbytes : ℕ) (x y : ℕ → UInt8) (p : ℕ) : ℕ → UInt8 := fun i =>
  if p = 0 ∨ i < nbytes then x i else y i

@[simp] lemma received_zero (nbytes : ℕ) (x y : ℕ → UInt8) : received nbytes x y 0 = x :=
  funext fun _ => if_pos (Or.inl rfl)

/-- `MP_Broadcast` has ended on all processes, which held `start` and now hold `mem`. -/
def Broadcasts (nprocs nbytes : ℕ) (start mem : ℕ → ℕ → UInt8) : Prop :=
  ∃ n : Net ℕ Label (ℕ → UInt8) (List UInt8),
    Relation.ReflTransGen (Step Label.Accepts)
      (init (bcastScript nprocs nbytes 0 fun _ => 1) start) n ∧
    (∀ a, (n.proc a).todo = []) ∧ ∀ a, (n.proc a).mem = mem a

lemma broadcast_meets (hn : 0 < nprocs) (nbytes : ℕ) (start : ℕ → ℕ → UInt8) :
    Meets Label.round (fun _ _ _ => bytesAt (start 0) 0 nbytes)
      (fun a vec => a < nprocs → vec = received nbytes (start 0) (start a) a)
      (bcastScript nprocs nbytes 0 fun _ => 1) start := by
  apply bcast_meets_of nbytes hn rfl
  · intro a ha hlt
    rw [ha ((mem_bcastVproc hn rfl).mpr ⟨hlt, rfl⟩), received_zero]
  · intro a _ hne _
    funext i
    rw [storeAt_bytesAt, received]
    simp [hne]

lemma Broadcasts.eq (h : Broadcasts nprocs nbytes start mem) (hp : p < nprocs) :
    mem p = received nbytes (start 0) (start p) p := by
  obtain ⟨n, hrun, hend, hmem⟩ := h
  have hmeets := broadcast_meets (Nat.zero_lt_of_lt hp) nbytes start
  rw [← hmem p]
  exact ((hmeets.inv Label.accepts_self hrun).finished hend).1 p hp

lemma exists_broadcasts (hn : 0 < nprocs) (nbytes : ℕ) (start : ℕ → ℕ → UInt8) :
    ∃ mem, Broadcasts nprocs nbytes start mem := by
  have hnone : ∀ a ∉ Finset.range nprocs, bcastScript nprocs nbytes 0 (fun _ => 1) a = [] :=
    fun a ha => if_neg fun hlt => ha (Finset.mem_range.mpr hlt)
  obtain ⟨n, hrun, hend⟩ :=
    (broadcast_meets hn nbytes start).completes Label.accepts_self hnone .refl
  exact ⟨fun a => (n.proc a).mem, n, hrun, hend, fun _ => rfl⟩

end

end NetPipe.MpLite
