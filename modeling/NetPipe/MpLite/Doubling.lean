import NetPipe.Library.Blocks
import NetPipe.MpLite.Collective

/-!
# The loop of `MP_Global` and `MP_Global_gather`

In step `np` each process exchanges data with the one whose number differs in that bit. If the number
of processes is not a power of two, the last process plays the missing ones: it sends for those whose
block has a real process, which `trial` records.
-/

namespace NetPipe.MpLite

open NetPipe.Exchange NetPipe.Blocks

/-! ### Virtual processes -/

/-- The array `vproc`, of `nvprocs` processes. -/
def globalVproc (nprocs : ℕ) (mask : ℕ → ℤ) : List ℕ :=
  (List.range nprocs).filter fun n => mask n = 1

/-- `myvproc`. -/
def globalMyvproc (mask : ℕ → ℤ) (myproc : ℕ) : ℕ :=
  ((List.range myproc).filter fun n => mask n = 1).length

lemma mem_globalVproc {nprocs a : ℕ} {mask : ℕ → ℤ} :
    a ∈ globalVproc nprocs mask ↔ a < nprocs ∧ mask a = 1 := by
  simp [globalVproc]

lemma global_ranks (nprocs : ℕ) (mask : ℕ → ℤ) :
    Ranks (globalVproc nprocs mask) (globalMyvproc mask) := by
  refine ⟨List.nodup_range.filter _, fun a ha => ?_⟩
  obtain ⟨hlt, hmask⟩ := mem_globalVproc.mp ha
  exact getElem?_filter_range hlt (decide_eq_true hmask)

/-! ### The loop -/

/-- The array `trial` before the loop. -/
def trialInit (nvprocs i : ℕ) : ℕ := if i < nvprocs then 1 else 0

/-- The loop over `trial` at the end of a step, which changes it in place. -/
def trialNext (mxprocs np : ℕ) (trial : ℕ → ℕ) : ℕ → ℕ :=
  (List.range mxprocs).foldl
    (fun trial i => Function.update trial i (trial i + trial (i ^^^ np))) trial

/-- What `MP_Global` and `MP_Global_gather` do in step `k`: the label of the receive for the data of
`source`, where the data goes if it comes from `adj`, the label and data of what process `v` sends,
and what is done with the data received. -/
structure Doubling (σ δ : Type*) where
  recvLabel : ℕ → ℕ → Label
  store : ℕ → ℕ → δ → σ → σ
  sendLabel : ℕ → ℕ → Label
  data : ℕ → ℕ → σ → δ
  works : List (σ → σ)

namespace Doubling

variable {σ δ : Type*} (p : Doubling σ δ) (vproc : List ℕ) (dim v : ℕ)

/-- `MP_ARecv` for the data of `source`. -/
def arecv (k source : ℕ) : Act ℕ Label σ δ :=
  let adj := if source ≥ vproc.length then vproc.length - 1 else source
  .post ⟨vproc.getD adj 0, p.recvLabel k source, p.store k adj⟩

/-- `MP_Send` to `dest`. -/
def send (k dest : ℕ) : Act ℕ Label σ δ :=
  .send (vproc.getD dest 0) (p.sendLabel k v) (p.data k v)

/-- The missing processes for which the last one sends. -/
def missing (k : ℕ) (trial : ℕ → ℕ) : List ℕ :=
  (List.range' vproc.length (2 ^ dim - vproc.length)).filter fun vp =>
    trial vp ≠ 0 ∧ vp ^^^ 2 ^ k < vproc.length - 1

/-- A step of the loop, where `np` is `2 ^ k`. -/
def round (k : ℕ) (trial : ℕ → ℕ) : List (Act ℕ Label σ δ) :=
  (if trial (v ^^^ 2 ^ k) ≠ 0 then [p.arecv vproc k (v ^^^ 2 ^ k)] else []) ++
    (if v ^^^ 2 ^ k < vproc.length then [p.send vproc v k (v ^^^ 2 ^ k)] else []) ++
    (if v = vproc.length - 1 then
      (missing vproc dim k trial).map fun vp => p.send vproc v k (vp ^^^ 2 ^ k) else []) ++
    (if trial (v ^^^ 2 ^ k) ≠ 0 then .wait :: p.works.map .work else [])

/-- The loop from step `k` on, of which `m` steps remain. -/
def loop : ℕ → ℕ → (ℕ → ℕ) → List (Act ℕ Label σ δ)
  | 0, _, _ => []
  | m + 1, k, trial =>
    p.round vproc dim v k trial ++ loop m (k + 1) (trialNext (2 ^ dim) (2 ^ k) trial)

/-- The program of process `myproc`: it does nothing outside the mask or alone. -/
def script (nprocs : ℕ) (mask : ℕ → ℤ) (myproc : ℕ) : List (Act ℕ Label σ δ) :=
  if nprocs = 1 ∨ mask myproc ≠ 1 then []
  else
    let vproc := globalVproc nprocs mask
    if vproc.length ≤ 1 then []
    else
      let dim := Nat.clog 2 vproc.length
      p.loop vproc dim (globalMyvproc mask myproc) dim 0 (trialInit vproc.length)

end Doubling

/-! ### The array `trial` -/

/-- The array `trial` in step `k`. -/
def trialAt (dim N : ℕ) : ℕ → ℕ → ℕ
  | 0 => trialInit N
  | k + 1 => trialNext (2 ^ dim) (2 ^ k) (trialAt dim N k)

/-- After the loop, an entry is zero only if both were. -/
lemma trialNext_ne_zero (trial : ℕ → ℕ) (k m i : ℕ) :
    trialNext m (2 ^ k) trial i ≠ 0 ↔
      if i < m then trial i ≠ 0 ∨ trial (i ^^^ 2 ^ k) ≠ 0 else trial i ≠ 0 := by
  induction m generalizing i with
  | zero => simp [trialNext]
  | succ m ih =>
    have hstep : trialNext (m + 1) (2 ^ k) trial = Function.update (trialNext m (2 ^ k) trial) m
        (trialNext m (2 ^ k) trial m + trialNext m (2 ^ k) trial (m ^^^ 2 ^ k)) := by
      simp [trialNext, List.range_succ]
    rw [hstep]
    rcases eq_or_ne i m with rfl | hi
    · have hself := ih i
      have hother := ih (i ^^^ 2 ^ k)
      rw [partner_partner] at hother
      rw [if_neg (lt_irrefl i)] at hself
      rw [Function.update_self, if_pos (Nat.lt_succ_self i)]
      have hsum : ∀ a b : ℕ, a + b ≠ 0 ↔ a ≠ 0 ∨ b ≠ 0 := by omega
      rw [hsum, hself, hother]
      split_ifs <;> tauto
    · rw [Function.update_of_ne hi, ih i]
      have hiff : i < m ↔ i < m + 1 := by omega
      simp [hiff]

/-- An entry is zero exactly if no process is in the block. -/
lemma trialAt_ne_zero {dim N k i : ℕ} (hk : k ≤ dim) (hi : i < 2 ^ dim) :
    trialAt dim N k i ≠ 0 ↔ Occupied N k (i / 2 ^ k) := by
  induction k generalizing i with
  | zero => simp [trialAt, trialInit, Occupied]
  | succ k ih =>
    rw [trialAt, trialNext_ne_zero, if_pos hi, ih (Nat.le_of_succ_le hk) hi,
      ih (Nat.le_of_succ_le hk) (partner_lt hi hk), occupied_succ]

/-! ### Sends and receives -/

/-- The process that sends the data of `source`. -/
def lastOf (N source : ℕ) : ℕ := if source ≥ N then N - 1 else source

lemma lastOf_lt {N source : ℕ} (hN : 0 < N) : lastOf N source < N := by
  rw [lastOf]
  split_ifs <;> omega

lemma lastOf_div {N k source : ℕ} (hN : 0 < N) (h : Occupied N k (source / 2 ^ k)) :
    lastOf N source / 2 ^ k = source / 2 ^ k := by
  rw [lastOf]
  split_ifs with hle
  · exact last_div hN hle h
  · rfl

namespace Doubling

variable {σ δ : Type*} {p : Doubling σ δ} {vproc : List ℕ} {dim v k : ℕ} {rank : ℕ → ℕ}

/-- The processes to which process `v` sends in step `k`. -/
def dests (vproc : List ℕ) (dim v k : ℕ) (trial : ℕ → ℕ) : List ℕ :=
  (if v ^^^ 2 ^ k < vproc.length then [v ^^^ 2 ^ k] else []) ++
    if v = vproc.length - 1 then (missing vproc dim k trial).map (· ^^^ 2 ^ k) else []

lemma round_eq (p : Doubling σ δ) (vproc : List ℕ) (dim v k : ℕ) (trial : ℕ → ℕ) :
    p.round vproc dim v k trial =
      (if trial (v ^^^ 2 ^ k) ≠ 0 then [p.arecv vproc k (v ^^^ 2 ^ k)] else []) ++
        (dests vproc dim v k trial).map (p.send vproc v k) ++
        (if trial (v ^^^ 2 ^ k) ≠ 0 then .wait :: p.works.map .work else []) := by
  rw [round, dests, List.map_append, ← List.append_assoc]
  split_ifs <;> simp

lemma dests_lt {trial : ℕ → ℕ} {d : ℕ} (hd : d ∈ dests vproc dim v k trial) : d < vproc.length := by
  rcases List.mem_append.mp hd with hd | hd
  · split_ifs at hd with hlt
    · rwa [List.mem_singleton.mp hd]
    · simp at hd
  · split_ifs at hd
    · obtain ⟨vp, hvp, rfl⟩ := List.mem_map.mp hd
      have hlt := (List.mem_filter.mp hvp).2
      simp only [decide_eq_true_eq] at hlt
      exact hlt.2.trans_le (Nat.sub_le _ _)
    · simp at hd

lemma dests_nodup {trial : ℕ → ℕ} (hv : v < vproc.length) :
    (dests vproc dim v k trial).Nodup := by
  have hinj : Function.Injective fun x : ℕ => x ^^^ 2 ^ k := by
    intro x y hxy
    have hself : x ^^^ 2 ^ k ^^^ 2 ^ k = y ^^^ 2 ^ k ^^^ 2 ^ k := congrArg (· ^^^ 2 ^ k) hxy
    rwa [partner_partner, partner_partner] at hself
  refine List.nodup_append.mpr ⟨?_, ?_, ?_⟩
  · split_ifs <;> simp
  · split_ifs
    · exact (List.Nodup.filter _ List.nodup_range').map hinj
    · exact List.nodup_nil
  · intro x hx y hy hxy
    split_ifs at hx hy with h₁ h₂ h₂
    · obtain ⟨vp, hvp, rfl⟩ := List.mem_map.mp hy
      have hle := (List.mem_range'_1.mp (List.mem_filter.mp hvp).1).1
      rw [List.mem_singleton.mp hx] at hxy
      obtain rfl : v = vp := hinj hxy
      exact absurd hv (not_lt.mpr hle)
    all_goals simp at hx hy

/-- A process sends to those that receive from it. -/
lemma mem_dests {w : ℕ} (hv : v < vproc.length) (hw : w < vproc.length)
    (hdim : vproc.length ≤ 2 ^ dim) (hk : k < dim) :
    w ∈ dests vproc dim v k (trialAt dim vproc.length k) ↔
      Occupied vproc.length k ((w ^^^ 2 ^ k) / 2 ^ k) ∧
        lastOf vproc.length (w ^^^ 2 ^ k) = v := by
  have hlt : w ^^^ 2 ^ k < 2 ^ dim := partner_lt (hw.trans_le hdim) hk
  have htrial := trialAt_ne_zero (N := vproc.length) hk.le hlt
  have hmissing : ∀ vp, vp ∈ missing vproc dim k (trialAt dim vproc.length k) ↔
      (vproc.length ≤ vp ∧ vp < 2 ^ dim) ∧
        trialAt dim vproc.length k vp ≠ 0 ∧ vp ^^^ 2 ^ k < vproc.length - 1 := by
    intro vp
    rw [missing, List.mem_filter, List.mem_range'_1, Nat.add_sub_cancel' hdim, decide_eq_true_eq]
  rw [dests, List.mem_append, lastOf]
  by_cases hge : w ^^^ 2 ^ k ≥ vproc.length
  · rw [if_pos hge]
    constructor
    · rintro (hmem | hmem)
      · split_ifs at hmem
        · rw [List.mem_singleton.mp hmem, partner_partner] at hge
          exact absurd hv (not_lt.mpr hge)
        · simp at hmem
      · split_ifs at hmem with hlast
        · obtain ⟨vp, hvp, rfl⟩ := List.mem_map.mp hmem
          obtain ⟨-, hne, -⟩ := (hmissing vp).mp hvp
          rw [partner_partner] at htrial ⊢
          exact ⟨htrial.mp hne, hlast.symm⟩
        · simp at hmem
    · rintro ⟨hocc, hlast⟩
      refine Or.inr ?_
      rw [if_pos hlast.symm]
      refine List.mem_map.mpr ⟨w ^^^ 2 ^ k, (hmissing _).mpr ⟨⟨hge, hlt⟩, htrial.mpr hocc, ?_⟩,
        partner_partner w k⟩
      -- the last process does not send to itself
      rw [partner_partner]
      have hne : w ≠ vproc.length - 1 := by
        rintro rfl
        exact last_partner (by omega) hge hocc
      omega
  · rw [if_neg hge]
    rw [ge_iff_le, not_le] at hge
    have hocc : Occupied vproc.length k ((w ^^^ 2 ^ k) / 2 ^ k) := occupied_of_lt hge
    constructor
    · rintro (hmem | hmem)
      · split_ifs at hmem
        · rw [List.mem_singleton.mp hmem, partner_partner] at hocc ⊢
          exact ⟨hocc, rfl⟩
        · simp at hmem
      · split_ifs at hmem
        · obtain ⟨vp, hvp, rfl⟩ := List.mem_map.mp hmem
          rw [partner_partner] at hge
          exact absurd hge (not_lt.mpr ((hmissing vp).mp hvp).1.1)
        · simp at hmem
    · rintro ⟨-, rfl⟩
      refine Or.inl ?_
      rw [partner_partner, if_pos hw]
      exact List.mem_singleton_self w

/-! ### Sends meet receives -/

lemma sendsTo_sends {b : ℕ} (hranks : Ranks vproc rank) (hb : b ∈ vproc) {l : List ℕ}
    (hl : ∀ d ∈ l, d < vproc.length) (hnodup : l.Nodup) :
    sendsTo b (l.map (p.send vproc v k)) = if rank b ∈ l then [p.sendLabel k v] else [] := by
  induction l with
  | nil => rfl
  | cons d l ih =>
    obtain ⟨hd, hnodup⟩ := List.nodup_cons.mp hnodup
    have hrec := ih (fun d' hd' => hl d' (List.mem_cons_of_mem d hd')) hnodup
    have hiff := hranks.getD_eq_iff (hl d List.mem_cons_self) hb
    rw [List.map_cons, send, sendsTo_send, hrec]
    by_cases hdb : d = rank b
    · rw [if_pos (hiff.mpr hdb), if_neg (hdb ▸ hd), if_pos (hdb ▸ List.mem_cons_self)]
    · rw [if_neg (mt hiff.mp hdb)]
      simp [Ne.symm hdb]

lemma sendsTo_sends_of_not_mem {b : ℕ} (hb : b ∉ vproc) {l : List ℕ}
    (hl : ∀ d ∈ l, d < vproc.length) : sendsTo b (l.map (p.send vproc v k)) = [] := by
  induction l with
  | nil => rfl
  | cons d l ih =>
    have hne : vproc.getD d 0 ≠ b :=
      fun h => hb (h ▸ Ranks.getD_mem (hl d List.mem_cons_self))
    rw [List.map_cons, send, sendsTo_send, if_neg hne]
    exact ih fun d' hd' => hl d' (List.mem_cons_of_mem d hd')

lemma postsFrom_sends (a : ℕ) (l : List ℕ) : postsFrom a (l.map (p.send vproc v k)) = [] := by
  induction l with
  | nil => rfl
  | cons d l ih => exact ih

lemma sendsTo_works (b : ℕ) (fs : List (σ → σ)) :
    sendsTo b (fs.map fun f => (.work f : Act ℕ Label σ δ)) = [] := by
  induction fs with
  | nil => rfl
  | cons f fs ih => exact ih

lemma postsFrom_works (a : ℕ) (fs : List (σ → σ)) :
    postsFrom a (fs.map fun f => (.work f : Act ℕ Label σ δ)) = [] := by
  induction fs with
  | nil => rfl
  | cons f fs ih => exact ih

lemma sendsTo_round (b : ℕ) (trial : ℕ → ℕ) : sendsTo b (p.round vproc dim v k trial) =
    sendsTo b ((dests vproc dim v k trial).map (p.send vproc v k)) := by
  rw [round_eq, sendsTo_append, sendsTo_append]
  split_ifs <;> simp [arecv, sendsTo_works]

lemma postsFrom_round (a : ℕ) (trial : ℕ → ℕ) : postsFrom a (p.round vproc dim v k trial) =
    if trial (v ^^^ 2 ^ k) ≠ 0 then
      if vproc.getD (lastOf vproc.length (v ^^^ 2 ^ k)) 0 = a then
        [p.recvLabel k (v ^^^ 2 ^ k)] else []
    else [] := by
  rw [round_eq, postsFrom_append, postsFrom_append, postsFrom_sends]
  split_ifs with h₁ h₂ <;> simp_all [arecv, postsFrom_works, lastOf]

/-- What the receiver expects is what the sender sends. -/
structure Agrees (p : Doubling σ δ) (N : ℕ) : Prop where
  label : ∀ k source v, v < N → source / 2 ^ k = v / 2 ^ k →
    p.recvLabel k source = p.sendLabel k v
  round : ∀ k v, (p.sendLabel k v).round = k

lemma labels_round (hp : p.Agrees vproc.length) (hranks : Ranks vproc rank)
    (hdim : vproc.length ≤ 2 ^ dim) (hk : k < dim) {a b : ℕ} (ha : a ∈ vproc) (hb : b ∈ vproc) :
    sendsTo b (p.round vproc dim (rank a) k (trialAt dim vproc.length k)) =
      postsFrom a (p.round vproc dim (rank b) k (trialAt dim vproc.length k)) := by
  have hu := hranks.lt ha
  have hw := hranks.lt hb
  have hN : 0 < vproc.length := Nat.zero_lt_of_lt hu
  have hiff := mem_dests hu hw hdim hk
  have htrial := trialAt_ne_zero (N := vproc.length) hk.le
    (partner_lt (hw.trans_le hdim) hk)
  rw [sendsTo_round, postsFrom_round,
    sendsTo_sends hranks hb (fun _ hd => dests_lt hd) (dests_nodup hu)]
  simp only [htrial, hranks.getD_eq_iff (lastOf_lt hN) ha, hiff]
  by_cases hocc : Occupied vproc.length k ((rank b ^^^ 2 ^ k) / 2 ^ k)
  · by_cases hlast : lastOf vproc.length (rank b ^^^ 2 ^ k) = rank a
    · have hdiv := lastOf_div hN hocc
      rw [hlast] at hdiv
      simp [hocc, hlast, hp.label k _ _ hu hdiv.symm]
    · simp [hlast]
  · simp [hocc]

/-- Sends and receives of the loop meet. -/
lemma labels_loop (hp : p.Agrees vproc.length) (hranks : Ranks vproc rank)
    (hdim : vproc.length ≤ 2 ^ dim) {a b : ℕ} (ha : a ∈ vproc) (hb : b ∈ vproc) {m k : ℕ}
    (hm : k + m = dim) :
    sendsTo b (p.loop vproc dim (rank a) m k (trialAt dim vproc.length k)) =
      postsFrom a (p.loop vproc dim (rank b) m k (trialAt dim vproc.length k)) := by
  induction m generalizing k with
  | zero => rfl
  | succ m ih =>
    have hrec := ih (k := k + 1) (by omega)
    rw [trialAt] at hrec
    rw [loop, loop, sendsTo_append, postsFrom_append, hrec,
      labels_round hp hranks hdim (by omega) ha hb]

lemma sendsTo_loop_of_not_mem {b : ℕ} (hb : b ∉ vproc) (m k : ℕ) (trial : ℕ → ℕ) :
    sendsTo b (p.loop vproc dim v m k trial) = [] := by
  induction m generalizing k trial with
  | zero => rfl
  | succ m ih =>
    rw [loop, sendsTo_append, sendsTo_round,
      sendsTo_sends_of_not_mem hb fun _ hd => dests_lt hd, ih, List.append_nil]

lemma postsFrom_loop_of_not_mem {a : ℕ} (ha : a ∉ vproc) (hN : 0 < vproc.length) (m k : ℕ)
    (trial : ℕ → ℕ) : postsFrom a (p.loop vproc dim v m k trial) = [] := by
  induction m generalizing k trial with
  | zero => rfl
  | succ m ih =>
    have hne : vproc.getD (lastOf vproc.length (v ^^^ 2 ^ k)) 0 ≠ a :=
      fun h => ha (h ▸ Ranks.getD_mem (lastOf_lt hN))
    rw [loop, postsFrom_append, postsFrom_round, ih, List.append_nil, if_neg hne, ite_self]

/-! ### The order of sends and waits -/

lemma keys_sends (hround : (p.sendLabel k v).round = k) (l : List ℕ)
    (cs : List (Act ℕ Label σ δ)) (q : Option (Posted ℕ Label σ δ)) :
    keys Label.round (l.map (p.send vproc v k) ++ cs) q =
      List.replicate l.length (2 * k) ++ keys Label.round cs q := by
  induction l with
  | nil => rfl
  | cons d l ih =>
    rw [List.map_cons, List.cons_append, send, keys, ih, hround]
    rfl

lemma keys_works (fs : List (σ → σ)) (cs : List (Act ℕ Label σ δ)) :
    keys Label.round (fs.map .work ++ cs) none = keys Label.round cs none := by
  induction fs with
  | nil => rfl
  | cons f fs ih => exact ih

/-- In a step all sends come before the wait. -/
lemma keys_round (hp : p.Agrees vproc.length) (hN : 0 < vproc.length) {trial : ℕ → ℕ}
    (htrial : trial (v ^^^ 2 ^ k) ≠ 0 → Occupied vproc.length k ((v ^^^ 2 ^ k) / 2 ^ k))
    (cs : List (Act ℕ Label σ δ)) :
    ∃ ks : List ℕ, ks.Pairwise (· ≤ ·) ∧ (∀ x ∈ ks, 2 * k ≤ x ∧ x ≤ 2 * k + 1) ∧
      keys Label.round (p.round vproc dim v k trial ++ cs) none =
        ks ++ keys Label.round cs none := by
  set n := (dests vproc dim v k trial).length
  rw [round_eq]
  by_cases ht : trial (v ^^^ 2 ^ k) ≠ 0
  · have hround : (p.recvLabel k (v ^^^ 2 ^ k)).round = k := by
      rw [hp.label k _ _ (lastOf_lt hN) (lastOf_div hN (htrial ht)).symm, hp.round]
    refine ⟨List.replicate n (2 * k) ++ [2 * k + 1], ?_, ?_, ?_⟩
    · refine List.pairwise_append.mpr ⟨List.pairwise_replicate.mpr (Or.inr (le_refl _)),
        List.pairwise_singleton _ _, ?_⟩
      intro x hx y hy
      rw [List.eq_of_mem_replicate hx, List.mem_singleton.mp hy]
      exact Nat.le_succ _
    · intro x hx
      rcases List.mem_append.mp hx with hx | hx
      · rw [List.eq_of_mem_replicate hx]
        omega
      · rw [List.mem_singleton.mp hx]
        omega
    · rw [if_pos ht, if_pos ht, List.append_assoc, List.append_assoc, List.singleton_append, arecv,
        keys, keys_sends (hp.round k v), List.cons_append, keys, keys_works, hround,
        List.append_assoc, List.singleton_append]
  · refine ⟨List.replicate n (2 * k), List.pairwise_replicate.mpr (Or.inr (le_refl _)), ?_, ?_⟩
    · intro x hx
      rw [List.eq_of_mem_replicate hx]
      omega
    · rw [if_neg ht, if_neg ht, List.nil_append, List.append_nil, keys_sends (hp.round k v)]

lemma keys_loop (hp : p.Agrees vproc.length) (hdim : vproc.length ≤ 2 ^ dim)
    (hv : v < vproc.length) {m k : ℕ} (hm : k + m = dim) :
    (keys Label.round (p.loop vproc dim v m k (trialAt dim vproc.length k)) none).Pairwise
        (· ≤ ·) ∧
      ∀ x ∈ keys Label.round (p.loop vproc dim v m k (trialAt dim vproc.length k)) none,
        2 * k ≤ x := by
  induction m generalizing k with
  | zero => simp [loop, keys]
  | succ m ih =>
    obtain ⟨hsorted, hlow⟩ := ih (k := k + 1) (by omega)
    rw [trialAt] at hsorted hlow
    have hk : k < dim := by omega
    have htrial := trialAt_ne_zero (N := vproc.length) hk.le (partner_lt (hv.trans_le hdim) hk)
    obtain ⟨ks, hks, hbound, heq⟩ := @keys_round _ _ _ _ dim _ _ hp (Nat.zero_lt_of_lt hv) _
      htrial.mp (p.loop vproc dim v m (k + 1)
        (trialNext (2 ^ dim) (2 ^ k) (trialAt dim vproc.length k)))
    rw [loop, heq]
    refine ⟨List.pairwise_append.mpr ⟨hks, hsorted, fun x hx y hy => ?_⟩, fun x hx => ?_⟩
    · have hx' := (hbound x hx).2
      have hy' := hlow y hy
      omega
    · rcases List.mem_append.mp hx with hx | hx
      · exact (hbound x hx).1
      · have hx' := hlow x hx
        omega

/-! ### Data -/

/-- `known k v` holds of the memory of process `v` before step `k`, and `out k v` is what it sends. -/
structure Carries (p : Doubling σ δ) (N : ℕ) (known : ℕ → ℕ → σ → Prop) (out : ℕ → ℕ → δ) :
    Prop where
  sends : ∀ k v s, v < N → known k v s → p.data k v s = out k v
  /-- what is sent does not depend on whether the message has arrived -/
  keeps : ∀ k v s, v < N → Occupied N k ((v ^^^ 2 ^ k) / 2 ^ k) → known k v s →
    p.data k v (p.store k (lastOf N (v ^^^ 2 ^ k)) (out k (lastOf N (v ^^^ 2 ^ k))) s) = out k v
  next : ∀ k v s, v < N → Occupied N k ((v ^^^ 2 ^ k) / 2 ^ k) → known k v s →
    known (k + 1) v (p.works.foldl (fun s f => f s)
      (p.store k (lastOf N (v ^^^ 2 ^ k)) (out k (lastOf N (v ^^^ 2 ^ k))) s))
  idle : ∀ k v s, v < N → ¬ Occupied N k ((v ^^^ 2 ^ k) / 2 ^ k) → known k v s → known (k + 1) v s

/-- The data of a message, by its round and its sender. -/
def roundMsg (rank : ℕ → ℕ) (out : ℕ → ℕ → δ) (a _ : ℕ) (l : Label) : δ := out l.round (rank a)

variable {known : ℕ → ℕ → σ → Prop} {out : ℕ → ℕ → δ} {b : ℕ} {final : σ → Prop}

lemma conforms_sends {l : List ℕ} {cs : List (Act ℕ Label σ δ)} {s : σ}
    (hround : (p.sendLabel k (rank b)).round = k) (hs : p.data k (rank b) s = out k (rank b))
    (hcs : Conforms (roundMsg rank out) b final cs none s) :
    Conforms (roundMsg rank out) b final (l.map (p.send vproc (rank b) k) ++ cs) none s := by
  induction l with
  | nil => exact hcs
  | cons d l ih =>
    refine ⟨?_, ih⟩
    rw [roundMsg, hround, hs]

lemma conforms_sends_posted {l : List ℕ} {cs : List (Act ℕ Label σ δ)} {s : σ}
    {q : Posted ℕ Label σ δ} (hround : (p.sendLabel k (rank b)).round = k)
    (hs : p.data k (rank b) s = out k (rank b))
    (hstore : p.data k (rank b) (q.store (roundMsg rank out q.src b q.label) s) = out k (rank b))
    (hcs : Conforms (roundMsg rank out) b final cs (some q) s) :
    Conforms (roundMsg rank out) b final (l.map (p.send vproc (rank b) k) ++ cs) (some q) s := by
  induction l with
  | nil => exact hcs
  | cons d l ih =>
    refine ⟨?_, ?_, ih⟩
    · rw [roundMsg, hround, hs]
    · rw [hstore, roundMsg, hround]

lemma conforms_works {fs : List (σ → σ)} {cs : List (Act ℕ Label σ δ)} {s : σ}
    (hcs : Conforms (roundMsg rank out) b final cs none (fs.foldl (fun s f => f s) s)) :
    Conforms (roundMsg rank out) b final (fs.map .work ++ cs) none s := by
  induction fs generalizing s with
  | nil => exact hcs
  | cons f fs ih => exact ih hcs

/-- A step of the loop brings the memory to the next step. -/
lemma conforms_round (hp : p.Agrees vproc.length) (hc : p.Carries vproc.length known out)
    (hranks : Ranks vproc rank) (hb : b ∈ vproc) {trial : ℕ → ℕ} {cs : List (Act ℕ Label σ δ)}
    (htrial : trial (rank b ^^^ 2 ^ k) ≠ 0 ↔
      Occupied vproc.length k ((rank b ^^^ 2 ^ k) / 2 ^ k)) {s : σ} (hs : known k (rank b) s)
    (hcs : ∀ s, known (k + 1) (rank b) s → Conforms (roundMsg rank out) b final cs none s) :
    Conforms (roundMsg rank out) b final (p.round vproc dim (rank b) k trial ++ cs) none s := by
  have hv := hranks.lt hb
  have hN := Nat.zero_lt_of_lt hv
  have hround := hp.round k (rank b)
  have hdata := hc.sends k _ s hv hs
  rw [round_eq]
  by_cases ht : trial (rank b ^^^ 2 ^ k) ≠ 0
  · have hocc := htrial.mp ht
    set adj := lastOf vproc.length (rank b ^^^ 2 ^ k)
    have hadj : adj < vproc.length := lastOf_lt hN
    have hmsg : roundMsg rank out (vproc.getD adj 0) b (p.recvLabel k (rank b ^^^ 2 ^ k)) =
        out k adj := by
      rw [roundMsg, hranks.rank_getD hadj,
        hp.label k _ _ hadj (lastOf_div hN hocc).symm, hp.round]
    rw [if_pos ht, if_pos ht, List.append_assoc, List.append_assoc, List.singleton_append]
    refine conforms_sends_posted hround hdata ?_ (conforms_works (hcs _ ?_))
    · exact (congrArg (fun d => p.data k (rank b) (p.store k adj d s)) hmsg).trans
        (hc.keeps k _ s hv hocc hs)
    · have hnext := hc.next k _ s hv hocc hs
      rw [← hmsg] at hnext
      exact hnext
  · rw [if_neg ht, if_neg ht, List.nil_append, List.append_nil]
    exact conforms_sends hround hdata (hcs s (hc.idle k _ s hv (mt htrial.mpr ht) hs))

lemma conforms_loop (hp : p.Agrees vproc.length) (hc : p.Carries vproc.length known out)
    (hranks : Ranks vproc rank) (hdim : vproc.length ≤ 2 ^ dim) (hb : b ∈ vproc) {m : ℕ}
    (hm : k + m = dim) {s : σ} (hs : known k (rank b) s)
    (hfinal : ∀ s, known dim (rank b) s → final s) :
    Conforms (roundMsg rank out) b final
      (p.loop vproc dim (rank b) m k (trialAt dim vproc.length k)) none s := by
  induction m generalizing k s with
  | zero =>
    obtain rfl : k = dim := hm
    exact hfinal s hs
  | succ m ih =>
    have hk : k < dim := by omega
    refine conforms_round hp hc hranks hb
      (trialAt_ne_zero hk.le (partner_lt ((hranks.lt hb).trans_le hdim) hk)) hs ?_
    exact fun s' hs' => ih (k := k + 1) (by omega) hs'

/-! ### All processes -/

/-- The programs of all processes. -/
def programs (p : Doubling σ δ) (nprocs : ℕ) (mask : ℕ → ℤ) (a : ℕ) : List (Act ℕ Label σ δ) :=
  if a < nprocs then p.script nprocs mask a else []

variable {nprocs a : ℕ} {mask : ℕ → ℤ} {start : ℕ → σ}

lemma programs_of_not_mem (ha : a ∉ globalVproc nprocs mask) : p.programs nprocs mask a = [] := by
  rw [mem_globalVproc, not_and] at ha
  rw [programs]
  split_ifs with hlt
  · rw [script, if_pos (Or.inr (ha hlt))]
  · rfl

/-- A process alone in the mask has no step to make. -/
lemma programs_of_mem (ha : a ∈ globalVproc nprocs mask) :
    p.programs nprocs mask a =
      p.loop (globalVproc nprocs mask) (Nat.clog 2 (globalVproc nprocs mask).length)
        (globalMyvproc mask a) (Nat.clog 2 (globalVproc nprocs mask).length) 0
        (trialInit (globalVproc nprocs mask).length) := by
  obtain ⟨hlt, hone⟩ := mem_globalVproc.mp ha
  rw [programs, if_pos hlt, script]
  have hle : (globalVproc nprocs mask).length ≤ nprocs :=
    (List.length_filter_le _ _).trans (List.length_range).le
  rcases Nat.lt_or_ge 1 (globalVproc nprocs mask).length with hN | hN
  · have hnprocs : nprocs ≠ 1 := by omega
    rw [if_neg (not_or.mpr ⟨hnprocs, not_not.mpr hone⟩), if_neg (not_le.mpr hN)]
  · rw [if_pos hN, ite_self, Nat.clog_of_right_le_one hN]
    rfl

/-- Sends and receives of all processes meet. -/
lemma labels_programs (hp : p.Agrees (globalVproc nprocs mask).length) (a b : ℕ) :
    sendsTo b (p.programs nprocs mask a) = postsFrom a (p.programs nprocs mask b) := by
  have hranks := global_ranks nprocs mask
  have hdim : (globalVproc nprocs mask).length ≤ 2 ^ Nat.clog 2 (globalVproc nprocs mask).length :=
    Nat.le_pow_clog Nat.one_lt_two _
  by_cases ha : a ∈ globalVproc nprocs mask
  · rw [programs_of_mem ha]
    by_cases hb : b ∈ globalVproc nprocs mask
    · rw [programs_of_mem hb]
      exact labels_loop hp hranks hdim ha hb (Nat.zero_add _)
    · rw [programs_of_not_mem hb, postsFrom_nil, sendsTo_loop_of_not_mem hb]
  · rw [programs_of_not_mem ha, sendsTo_nil]
    by_cases hb : b ∈ globalVproc nprocs mask
    · rw [programs_of_mem hb,
        postsFrom_loop_of_not_mem ha (Nat.zero_lt_of_lt (hranks.lt hb))]
    · rw [programs_of_not_mem hb, postsFrom_nil]

/-- The memory of a process in the end. -/
def Final (nprocs : ℕ) (mask : ℕ → ℤ) (known : ℕ → ℕ → σ → Prop) (start : ℕ → σ) (a : ℕ) (s : σ) :
    Prop :=
  if a < nprocs ∧ mask a = 1 then
    known (Nat.clog 2 (globalVproc nprocs mask).length) (globalMyvproc mask a) s
  else s = start a

lemma meets (hp : p.Agrees (globalVproc nprocs mask).length)
    (hc : p.Carries (globalVproc nprocs mask).length known out)
    (hstart : ∀ a ∈ globalVproc nprocs mask, known 0 (globalMyvproc mask a) (start a)) :
    Meets Label.round (roundMsg (globalMyvproc mask) out) (Final nprocs mask known start)
      (p.programs nprocs mask) start := by
  have hranks := global_ranks nprocs mask
  have hdim : (globalVproc nprocs mask).length ≤ 2 ^ Nat.clog 2 (globalVproc nprocs mask).length :=
    Nat.le_pow_clog Nat.one_lt_two _
  refine ⟨fun a => ?_, labels_programs hp, fun a => ?_⟩
  · by_cases ha : a ∈ globalVproc nprocs mask
    · rw [programs_of_mem ha]
      refine conforms_loop hp hc hranks hdim ha (Nat.zero_add _) (hstart a ha) fun s hs => ?_
      rwa [Final, if_pos (mem_globalVproc.mp ha)]
    · rw [programs_of_not_mem ha, Conforms, Final, if_neg (mt mem_globalVproc.mpr ha)]
  · by_cases ha : a ∈ globalVproc nprocs mask
    · rw [programs_of_mem ha]
      exact (keys_loop hp hdim (hranks.lt ha) (Nat.zero_add _)).1
    · rw [programs_of_not_mem ha]
      exact List.Pairwise.nil

end Doubling

end NetPipe.MpLite
