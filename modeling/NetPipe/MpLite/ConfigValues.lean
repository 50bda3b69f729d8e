import NetPipe.MpLite.Broadcast
import NetPipe.MpLite.ConfigFile

/-!
# The values of a config file on all processes

`MP_Read_Type` behind the tokens: process 0 stores each element at its place in `vec`, then `nbytes`
bytes of `vec` are broadcast.
-/

namespace NetPipe.MpLite

/-- `atof` and `atoi`: the bytes of the number that a token is converted to. -/
structure Numbers where
  double : List UInt8 → Vector UInt8 8
  int : List UInt8 → Vector UInt8 4
  float : List UInt8 → Vector UInt8 4

/-- The arguments of a call. -/
structure ReadArgs where
  op_type : OpType
  n : ℕ
  wlen : ℕ
  numbers : Numbers

namespace ReadArgs

/-- How far apart the elements of `vec` are. -/
def stride (args : ReadArgs) : ℕ :=
  match args.op_type with
  | .d => 8
  | .i | .f => 4
  | .c => 1
  | .w => args.wlen

/-- What is stored for an element. That a word is too long is only reported. -/
def stored (args : ReadArgs) (p : List UInt8) : List UInt8 :=
  match args.op_type with
  | .d => (args.numbers.double p).toList
  | .i => (args.numbers.int p).toList
  | .f => (args.numbers.float p).toList
  | .c => p
  | .w => p ++ [0]

/-- The elements that are stored, in their order. -/
def values (args : ReadArgs) (found : List (ℕ × List UInt8)) : List (List UInt8) :=
  found.map fun e => args.stored e.2

end ReadArgs

/-- `vec` when the elements from number `count` on have been stored. -/
def storeAll (stride count : ℕ) : List (List UInt8) → (ℕ → UInt8) → ℕ → UInt8
  | [], vec => vec
  | v :: vs, vec => storeAll stride (count + 1) vs (storeAt (count * stride) v vec)

/-- `strlen(cvec)` is `len`. -/
def IsStrlen (cvec : ℕ → UInt8) (len : ℕ) : Prop := cvec len = 0 ∧ ∀ i < len, cvec i ≠ 0

/-- A `size_t` that is assigned to an `int`. -/
def wrapInt (x : ℕ) : ℤ := Int.bmod x (2 ^ 32)

/-- The number of bytes that are broadcast, if `len` is `strlen(cvec)`. -/
def ReadArgs.nbytes (args : ReadArgs) (len : ℕ) : ℤ :=
  match args.op_type with
  | .w => wrapInt (len + 1)
  | _ => wrapInt (args.n * args.stride)

/-- All processes have returned from `MP_Read_Type`, where process 0 has found the elements `found`.
Process `p` held `y p` at `vec` before, and holds `mem p` now. The length is that of process 0, which
broadcasts it; with a negative one no bytes are transferred. -/
def Returned (args : ReadArgs) (nprocs : ℕ) (found : List (ℕ × List UInt8))
    (y mem : ℕ → ℕ → UInt8) : Prop :=
  let vec := storeAll args.stride 0 (args.values found) (y 0)
  ∃ len, (args.op_type = .w → IsStrlen vec len) ∧
    Broadcasts nprocs (args.nbytes len).toNat (Function.update y 0 vec) mem

/-- The elements from number `count` on are in `vec`. -/
def InVec (stride count : ℕ) (vs : List (List UInt8)) (vec : ℕ → UInt8) : Prop :=
  ∀ k v, vs[k]? = some v → bytesAt vec ((count + k) * stride) v.length = v

/-- The elements from number `count` on end within the first `size` bytes of `vec`. -/
def Inside (stride count size : ℕ) (vs : List (List UInt8)) : Prop :=
  ∀ k v, vs[k]? = some v → (count + k) * stride + v.length ≤ size

/-- Process 0 stores all elements in `vec`, where the index of a word is an `int`, and all processes
have them in `vec` in the end. -/
def Agree (args : ReadArgs) (nprocs : ℕ) (found : List (ℕ × List UInt8)) : Prop :=
  Inside args.stride 0 (args.n * args.stride) (args.values found) ∧
  (args.op_type = .w → ∀ k < args.n, k * args.wlen < 2 ^ 31) ∧
  ∀ y mem, Returned args nprocs found y mem →
    ∀ p < nprocs, InVec args.stride 0 (args.values found) (mem p)

/-- Every word ends before the place of the next one, or it goes on there with exactly the next word.
With several processes it has to go on. The last word ends in its place. -/
def Chained (nprocs wlen : ℕ) : List (List UInt8) → Prop
  | [] => True
  | [w] => w.length < wlen
  | w :: w' :: ws => (w.drop wlen = w' ∨ nprocs = 1 ∧ w.length < wlen) ∧ Chained nprocs wlen (w' :: ws)

/-- What is broadcast reaches as far as the last element, and words do not run into others. -/
def Deliverable (args : ReadArgs) (nprocs : ℕ) (found : List (ℕ × List UInt8)) : Prop :=
  if args.op_type = .w then
    Chained nprocs args.wlen (found.map Prod.snd) ∧ (args.n - 1) * args.wlen < 2 ^ 31
  else nprocs = 1 ∨ args.n * args.stride < 2 ^ 31

variable {stride count size nprocs wlen nbytes n i a : ℕ} {vs : List (List UInt8)} {v w w' : List UInt8}
  {ws : List (List UInt8)} {vec vec' cvec : ℕ → UInt8}

/-! ### Elements in the array -/

lemma inVec_nil : InVec stride count [] vec := nofun

lemma inVec_cons : InVec stride count (v :: vs) vec ↔
    bytesAt vec (count * stride) v.length = v ∧ InVec stride (count + 1) vs vec := by
  constructor
  · refine fun h => ⟨h 0 v rfl, fun k v' hk => ?_⟩
    have hv := h (k + 1) v' hk
    rwa [← Nat.add_assoc, Nat.add_right_comm] at hv
  · rintro ⟨hv, hvs⟩ (- | k) v' hk
    · obtain rfl := Option.some.inj hk
      exact hv
    · have hv' := hvs k v' hk
      rwa [Nat.add_right_comm, Nat.add_assoc] at hv'

lemma inside_cons : Inside stride count size (v :: vs) ↔
    count * stride + v.length ≤ size ∧ Inside stride (count + 1) size vs := by
  constructor
  · refine fun h => ⟨h 0 v rfl, fun k v' hk => ?_⟩
    have hv := h (k + 1) v' hk
    rwa [← Nat.add_assoc, Nat.add_right_comm] at hv
  · rintro ⟨hv, hvs⟩ (- | k) v' hk
    · obtain rfl := Option.some.inj hk
      exact hv
    · have hv' := hvs k v' hk
      rwa [Nat.add_right_comm, Nat.add_assoc] at hv'

lemma storeAll_of_lt (hi : i < count * stride) : storeAll stride count vs vec i = vec i := by
  induction vs generalizing count vec with
  | nil => rfl
  | cons v vs ih =>
    rw [storeAll, ih (hi.trans_le (Nat.mul_le_mul_right stride (Nat.le_succ count))),
      storeAt_of_lt hi]

/-- What ends before the next place is not overwritten. -/
lemma bytesAt_storeAll {len : ℕ} (hlen : len ≤ stride) (hv : len ≤ v.length) :
    bytesAt (storeAll stride (count + 1) vs (storeAt (count * stride) v vec)) (count * stride) len =
      v.take len := by
  have hread : bytesAt (storeAll stride (count + 1) vs (storeAt (count * stride) v vec))
      (count * stride) len = bytesAt (storeAt (count * stride) v vec) (count * stride) len := by
    refine bytesAt_congr fun i hi => storeAll_of_lt ?_
    rw [Nat.add_one_mul]
    exact Nat.add_lt_add_left (hi.trans_le hlen) _
  have hstored := bytesAt_storeAt (count * stride) v vec
  rw [← Nat.add_sub_cancel' hv, bytesAt_add] at hstored
  rw [hread, ← congrArg (List.take len) hstored, List.take_left' (length_bytesAt _ _ _)]

/-- Elements that are not longer than the stride are all stored. -/
lemma inVec_storeAll (h : ∀ v ∈ vs, v.length ≤ stride) :
    InVec stride count vs (storeAll stride count vs vec) := by
  induction vs generalizing count vec with
  | nil => exact inVec_nil
  | cons v vs ih =>
    rw [List.forall_mem_cons] at h
    refine inVec_cons.mpr ⟨?_, ih h.2⟩
    rw [storeAll, bytesAt_storeAll h.1 le_rfl, List.take_length]

/-! ### The broadcast -/

/-- The values that are in the array of process 0 get to all processes if they are broadcast
entirely. -/
lemma inVec_received {y : ℕ → ℕ → UInt8} {p : ℕ} (h : InVec stride 0 vs vec)
    (hsize : p = 0 ∨ Inside stride 0 nbytes vs) :
    InVec stride 0 vs (received nbytes vec (y p) p) := by
  intro k v hk
  refine Eq.trans (bytesAt_congr fun i hi => if_pos (hsize.imp_right fun hsize => ?_)) (h k v hk)
  exact (Nat.add_lt_add_left hi _).trans_le (hsize k v hk)

/-- The value of a byte that is read. -/
lemma bytesAt_inj (h : bytesAt vec a n = bytesAt vec' a n) (hi : i < n) :
    vec (a + i) = vec' (a + i) :=
  List.map_inj_left.mp h i (List.mem_range.mpr hi)

/-- A process that held other bytes before must receive all bytes of the values. -/
lemma inside_of_inVec_received (h : InVec stride 0 vs vec)
    (hreceived : InVec stride 0 vs (received nbytes vec (fun i => vec i + 1) 1))
    (hvs : ∀ v ∈ vs, v ≠ []) : Inside stride 0 nbytes vs := by
  intro k v hk
  have hpos := List.length_pos_of_ne_nil (hvs v (List.mem_of_getElem? hk))
  have hbyte := bytesAt_inj ((hreceived k v hk).trans (h k v hk).symm) (Nat.sub_lt hpos Nat.one_pos)
  by_contra hle
  have hout : ¬ (1 = 0 ∨ (0 + k) * stride + (v.length - 1) < nbytes) := by omega
  rw [received, if_neg hout] at hbyte
  simp at hbyte

/-! ### Words -/

/-- The string at the address `a`. -/
lemma isStrlen_of_bytesAt (h : bytesAt vec a (w.length + 1) = w ++ [0]) (hw : 0 ∉ w) :
    IsStrlen (fun i => vec (a + i)) w.length := by
  have hchars : bytesAt vec a w.length = w ∧ bytesAt vec (a + w.length) 1 = [0] := by
    rw [bytesAt_add] at h
    exact List.append_inj h (length_bytesAt _ _ _)
  refine ⟨List.singleton_inj.mp hchars.2, fun i hi hzero => hw ?_⟩
  rw [← hchars.1, ← hzero]
  exact List.mem_map_of_mem (List.mem_range.mpr hi)

lemma IsStrlen.unique {len len' : ℕ} (h : IsStrlen cvec len) (h' : IsStrlen cvec len') :
    len = len' :=
  Nat.le_antisymm (Nat.not_lt.mp fun hlt => h.2 len' hlt h'.1)
    (Nat.not_lt.mp fun hlt => h'.2 len hlt h.1)

lemma string_unique (h : bytesAt vec a (w.length + 1) = w ++ [0]) (hw : 0 ∉ w)
    (h' : bytesAt vec a (w'.length + 1) = w' ++ [0]) (hw' : 0 ∉ w') : w = w' := by
  have hlen := (isStrlen_of_bytesAt h hw).unique (isStrlen_of_bytesAt h' hw')
  rw [hlen, h'] at h
  exact (List.append_left_injective [0] h).symm

/-- A word that is in the array up to the next place, where another string stands, is complete exactly
if it goes on with that string, or if it ends before. -/
lemma word_iff (hw : 0 ∉ w) (hw' : 0 ∉ w')
    (hkeep : ∀ len ≤ wlen, len ≤ (w ++ [0]).length → bytesAt vec a len = (w ++ [0]).take len)
    (hnext : bytesAt vec (a + wlen) (w' ++ [0]).length = w' ++ [0]) :
    bytesAt vec a (w ++ [0]).length = w ++ [0] ↔ w.drop wlen = w' ∨ w.length < wlen := by
  rw [List.length_append, List.length_singleton] at hkeep hnext ⊢
  rcases Nat.lt_or_ge w.length wlen with hlt | hge
  · rw [hkeep _ hlt le_rfl]
    exact iff_of_true (List.take_of_length_le (by simp)) (Or.inr hlt)
  have hsplit : w.take wlen ++ (w.drop wlen ++ [0]) = w ++ [0] := by
    rw [← List.append_assoc, List.take_append_drop]
  have hlen : wlen + ((w.drop wlen).length + 1) = w.length + 1 := by
    rw [List.length_drop, ← Nat.add_assoc, Nat.add_sub_cancel' hge]
  have hfirst : bytesAt vec a wlen = w.take wlen := by
    rw [hkeep wlen le_rfl (Nat.le_succ_of_le hge), List.take_append_of_le_length hge]
  rw [← hlen, bytesAt_add, hfirst, ← hsplit, List.append_cancel_left_eq,
    or_iff_left (Nat.not_lt.mpr hge)]
  constructor
  · exact fun h => string_unique h (fun hmem => hw (List.mem_of_mem_drop hmem)) hnext hw'
  · rintro rfl
    exact hnext

/-- Such a word does not end behind the string at the next place. -/
lemma end_le_next (count : ℕ) (h : w.drop wlen = w' ∨ w.length < wlen) :
    count * wlen + (w ++ [0]).length ≤ (count + 1) * wlen + (w' ++ [0]).length := by
  have hlen : w.length ≤ wlen + w'.length := by
    rcases h with rfl | hlt
    · rw [List.length_drop]
      exact le_add_tsub
    · exact Nat.le_add_right_of_le hlt.le
  rw [Nat.add_one_mul, Nat.add_assoc, List.length_append, List.length_append, ← Nat.add_assoc wlen]
  exact Nat.add_le_add_left (Nat.add_le_add_right hlen _) _

/-- The words are stored as strings at their places exactly if each ends there or goes on with the
next one. -/
lemma words_iff (hws : ∀ w ∈ ws, 0 ∉ w) (hsize : (count + ws.length) * wlen = size) :
    InVec wlen count (ws.map (· ++ [0])) (storeAll wlen count (ws.map (· ++ [0])) vec) ∧
        Inside wlen count size (ws.map (· ++ [0])) ↔
      Chained 1 wlen ws := by
  induction ws generalizing count vec with
  | nil => exact ⟨fun _ => trivial, fun _ => ⟨inVec_nil, nofun⟩⟩
  | cons w ws ih =>
    rw [List.forall_mem_cons] at hws
    rw [List.length_cons, ← Nat.add_assoc, Nat.add_right_comm] at hsize
    rw [List.map_cons, storeAll, inVec_cons, inside_cons]
    cases ws with
    | nil =>
      have hend : count * wlen + (w ++ [0]).length ≤ size ↔ w.length < wlen := by
        rw [← hsize, List.length_nil, Nat.add_zero, Nat.add_one_mul, Nat.add_le_add_iff_left,
          List.length_append, List.length_singleton, Nat.succ_le_iff]
      rw [Chained, hend]
      exact ⟨fun h => h.2.1, fun hlt => ⟨⟨bytesAt_storeAt _ _ _, inVec_nil⟩, hlt, nofun⟩⟩
    | cons w' ws =>
      rw [Chained, ← @ih (count + 1) (storeAt (count * wlen) (w ++ [0]) vec) hws.2 hsize]
      set vec' := storeAll wlen (count + 1) ((w' :: ws).map (· ++ [0]))
        (storeAt (count * wlen) (w ++ [0]) vec) with hvec'
      have hword (h : InVec wlen (count + 1) ((w' :: ws).map (· ++ [0])) vec') :
          bytesAt vec' (count * wlen) (w ++ [0]).length = w ++ [0] ↔
            w.drop wlen = w' ∨ w.length < wlen := by
        have hnext := (inVec_cons.mp h).1
        rw [Nat.add_one_mul] at hnext
        refine word_iff hws.1 (hws.2 w' List.mem_cons_self) (fun len hlen hle => ?_) hnext
        rw [hvec', bytesAt_storeAll hlen hle]
      constructor
      · rintro ⟨⟨hhead, hvec⟩, -, hinside⟩
        exact ⟨((hword hvec).mp hhead).imp_right fun h => ⟨rfl, h⟩, hvec, hinside⟩
      · rintro ⟨hhead, hvec, hinside⟩
        have hcases : w.drop wlen = w' ∨ w.length < wlen := hhead.imp_right And.right
        refine ⟨⟨(hword hvec).mpr hcases, hvec⟩, ?_, hinside⟩
        exact (end_le_next count hcases).trans (inside_cons.mp hinside).1

/-- Of words that are right on process 0, all are within the string at the first place exactly if each
goes on with the next one. -/
lemma inside_iff_chained (hn : nprocs ≠ 1) (h : Chained 1 wlen (w :: ws))
    (hws : ∀ t ∈ w :: ws, t ≠ []) (hsize : count * wlen + (w.length + 1) = size) :
    Inside wlen count size ((w :: ws).map (· ++ [0])) ↔ Chained nprocs wlen (w :: ws) := by
  induction ws generalizing count w with
  | nil =>
    rw [Chained] at h ⊢
    refine iff_of_true (inside_cons.mpr ⟨?_, nofun⟩) h
    rw [List.length_append, hsize.symm]
    exact le_rfl
  | cons w' ws ih =>
    rw [List.forall_mem_cons] at hws
    rw [Chained] at h ⊢
    rw [List.map_cons, inside_cons, List.length_append, List.length_singleton, hsize,
      and_iff_right le_rfl]
    have hpos := List.length_pos_of_ne_nil (hws.2 w' List.mem_cons_self)
    have hnext : w.drop wlen = w' → (count + 1) * wlen + (w'.length + 1) = size := by
      rintro rfl
      rw [List.length_drop] at hpos ⊢
      rw [Nat.add_one_mul]
      omega
    constructor
    · intro hinside
      have hend := (inside_cons.mp hinside).1
      rw [List.length_append, List.length_singleton, Nat.add_one_mul] at hend
      have hdrop : w.drop wlen = w' := h.1.resolve_right fun hshort => by omega
      exact ⟨Or.inl hdrop, (ih h.2 hws.2 (hnext hdrop)).mp hinside⟩
    · rintro ⟨hdrop, hchained⟩
      have hdrop : w.drop wlen = w' := hdrop.resolve_right fun hone => hn hone.1
      exact (ih h.2 hws.2 (hnext hdrop)).mpr hchained

lemma Chained.one (h : Chained nprocs wlen ws) : Chained 1 wlen ws := by
  induction ws with
  | nil => trivial
  | cons w ws ih =>
    cases ws with
    | nil => exact h
    | cons w' ws => exact ⟨h.1.imp_right fun hshort => ⟨rfl, hshort.2⟩, ih h.2⟩

/-! ### What is found -/

variable {args : ReadArgs} {found : List (ℕ × List UInt8)} {y mem : ℕ → ℕ → UInt8} {len p : ℕ}

/-- What process 0 has found is `n` elements: characters, or words that are not empty. -/
structure Elements (args : ReadArgs) (found : List (ℕ × List UInt8)) : Prop where
  length_eq : found.length = args.n
  char : args.op_type = .c → ∀ e ∈ found, e.2.length = 1
  word : args.op_type = .w → ∀ e ∈ found, e.2 ≠ [] ∧ IsLine e.2

lemma elements_of_readLoop {behind : ℕ → UInt8} {s : Reader} (hline : IsLine s.line_in)
    (h : readLoop (args.op_type.elements args.n behind) args.n 0 s = .ok found) :
    Elements args found := by
  refine ⟨(readLoop_inv h).1, fun hc => ?_, fun hw => ?_⟩
  · refine readLoop_forall (P := fun t => t.length = 1) (fun line _ t ht => ?_) hline h
    rw [hc] at ht
    obtain ⟨k, -, rfl⟩ := List.mem_map.mp ht
    rfl
  · refine readLoop_forall (P := fun t => t ≠ [] ∧ IsLine t) (fun line hline t ht => ?_) hline h
    rw [hw] at ht
    exact (mem_strtok ht).imp_right fun hsub => hline.sublist hsub

lemma length_values : (args.values found).length = found.length := List.length_map _

lemma values_word (hw : args.op_type = .w) :
    args.values found = (found.map Prod.snd).map (· ++ [0]) := by
  rw [List.map_map]
  refine List.map_congr_left fun e _ => ?_
  rw [ReadArgs.stored, hw]
  rfl

lemma stride_word (hw : args.op_type = .w) : args.stride = args.wlen := by
  rw [ReadArgs.stride, hw]

lemma Elements.length_stored (h : Elements args found) (hw : args.op_type ≠ .w) :
    ∀ v ∈ args.values found, v.length = args.stride := by
  intro v hv
  obtain ⟨e, he, rfl⟩ := List.mem_map.mp hv
  rw [ReadArgs.stored, ReadArgs.stride]
  cases hop : args.op_type
  case w => exact absurd hop hw
  case c => exact h.char hop e he
  all_goals exact Vector.length_toList

lemma stride_pos (hw : args.op_type ≠ .w) : 0 < args.stride := by
  rw [ReadArgs.stride]
  cases hop : args.op_type
  case w => exact absurd hop hw
  all_goals norm_num

lemma Elements.ne_nil (h : Elements args found) : ∀ v ∈ args.values found, v ≠ [] := by
  intro v hv
  by_cases hw : args.op_type = .w
  · rw [values_word hw] at hv
    obtain ⟨t, -, rfl⟩ := List.mem_map.mp hv
    exact List.append_ne_nil_of_right_ne_nil _ (List.cons_ne_nil _ _)
  · rw [← List.length_pos_iff_ne_nil, h.length_stored hw v hv]
    exact stride_pos hw

/-! ### The call -/

lemma le_wrapInt_iff {x : ℕ} : x ≤ (wrapInt x).toNat ↔ x < 2 ^ 31 := by
  unfold wrapInt Int.bmod
  dsimp only
  split_ifs <;> omega

lemma wrapInt_of_lt {x : ℕ} (h : x < 2 ^ 31) : wrapInt x = x := by
  unfold wrapInt Int.bmod
  dsimp only
  split_ifs <;> omega

lemma Returned.mem_eq (h : Returned args nprocs found y mem) :
    ∃ len, (args.op_type = .w → IsStrlen (storeAll args.stride 0 (args.values found) (y 0)) len) ∧
      ∀ p < nprocs, mem p = received (args.nbytes len).toNat
        (storeAll args.stride 0 (args.values found) (y 0)) (y p) p := by
  obtain ⟨len, hlen, hmem⟩ := h
  refine ⟨len, hlen, fun p hp => ?_⟩
  rw [hmem.eq hp, Function.update_self]
  rcases eq_or_ne p 0 with rfl | hne
  · rw [received_zero, received_zero]
  · rw [Function.update_of_ne hne]

/-- There is a NUL behind the last word. -/
lemma exists_strlen (hws : ws ≠ []) :
    ∃ len, IsStrlen (storeAll wlen count (ws.map (· ++ [0])) vec) len := by
  have hnul : ∃ i, storeAll wlen count (ws.map (· ++ [0])) vec i = 0 := by
    induction ws generalizing count vec with
    | nil => exact absurd rfl hws
    | cons w ws ih =>
      rcases eq_or_ne ws [] with rfl | hne
      · have hread := bytesAt_storeAt (count * wlen) (w ++ [0]) vec
        rw [List.length_append, List.length_singleton, bytesAt_add] at hread
        exact ⟨_, List.singleton_inj.mp (List.append_inj hread (length_bytesAt _ _ _)).2⟩
      · exact ih hne
  exact ⟨Nat.find hnul, Nat.find_spec hnul, fun i hi => Nat.find_min hnul hi⟩

/-- What all processes hold in some run. -/
lemma Agree.inVec (h : Agree args nprocs found) (hfound : Elements args found) (hn : 0 < nprocs)
    (len : ℕ) (hlen : args.op_type = .w →
      IsStrlen (storeAll args.stride 0 (args.values found) fun _ => 0) len) :
    InVec args.stride 0 (args.values found)
        (storeAll args.stride 0 (args.values found) fun _ => 0) ∧
      (nprocs ≠ 1 → Inside args.stride 0 (args.nbytes len).toNat (args.values found)) := by
  set vec := storeAll args.stride 0 (args.values found) fun _ => 0 with hvec
  -- the second process holds another byte everywhere
  let y : ℕ → ℕ → UInt8 := Function.update (fun _ => fun i => vec i + 1) 0 fun _ => 0
  obtain ⟨mem, hmem⟩ :=
    exists_broadcasts hn (args.nbytes len).toNat (Function.update y 0 vec)
  have hright := h.2.2 y mem ⟨len, hlen, hmem⟩
  have hzero : InVec args.stride 0 (args.values found) vec := by
    have hvals := hright 0 hn
    rwa [hmem.eq hn, Function.update_self, received_zero] at hvals
  refine ⟨hzero, fun hone => ?_⟩
  have hlt : 1 < nprocs := by omega
  have hvals := hright 1 hlt
  rw [hmem.eq hlt, Function.update_self, Function.update_of_ne Nat.one_ne_zero] at hvals
  exact inside_of_inVec_received hzero hvals hfound.ne_nil

/-- What is right on process 0, and is broadcast entirely, is right on all processes. -/
lemma Agree.intro (hend : Inside args.stride 0 (args.n * args.stride) (args.values found))
    (hindex : args.op_type = .w → ∀ k < args.n, k * args.wlen < 2 ^ 31)
    (hvec : ∀ vec, InVec args.stride 0 (args.values found)
      (storeAll args.stride 0 (args.values found) vec))
    (hsize : nprocs ≠ 1 → ∀ vec len,
      (args.op_type = .w → IsStrlen (storeAll args.stride 0 (args.values found) vec) len) →
        Inside args.stride 0 (args.nbytes len).toNat (args.values found)) :
    Agree args nprocs found := by
  refine ⟨hend, hindex, fun y mem hreturned p hp => ?_⟩
  obtain ⟨len, hlen, hmem⟩ := hreturned.mem_eq
  rw [hmem p hp]
  refine inVec_received (hvec _) ?_
  rcases Nat.eq_zero_or_pos p with hzero | hpos
  · exact Or.inl hzero
  · exact Or.inr (hsize (by omega) _ len hlen)

/-! ### Numbers and characters -/

lemma Elements.inside_iff (h : Elements args found) (hw : args.op_type ≠ .w) :
    Inside args.stride 0 size (args.values found) ↔ args.n * args.stride ≤ size := by
  have hlen : (args.values found).length = args.n := length_values.trans h.length_eq
  constructor
  · intro hinside
    rcases Nat.eq_zero_or_pos args.n with hzero | hpos
    · rw [hzero, Nat.zero_mul]
      exact Nat.zero_le _
    · have hlast : args.n - 1 < (args.values found).length := by
        rw [hlen]
        exact Nat.sub_lt hpos Nat.one_pos
      have hle := hinside _ _ (List.getElem?_eq_getElem hlast)
      rwa [h.length_stored hw _ (List.getElem_mem hlast), Nat.zero_add, ← Nat.add_one_mul,
        Nat.sub_add_cancel hpos] at hle
  · intro hle k v hk
    obtain ⟨hlt, rfl⟩ := List.getElem?_eq_some_iff.mp hk
    rw [h.length_stored hw _ (List.getElem_mem hlt), Nat.zero_add, ← Nat.add_one_mul]
    exact (Nat.mul_le_mul_right _ (hlen ▸ hlt)).trans hle

lemma nbytes_of_ne (hw : args.op_type ≠ .w) (len : ℕ) :
    args.nbytes len = wrapInt (args.n * args.stride) := by
  rw [ReadArgs.nbytes]
  cases hop : args.op_type
  case w => exact absurd hop hw
  all_goals rfl

lemma agree_iff_of_ne (hn : 0 < nprocs) (hfound : Elements args found)
    (hw : args.op_type ≠ .w) :
    Agree args nprocs found ↔ nprocs = 1 ∨ args.n * args.stride < 2 ^ 31 := by
  constructor
  · intro h
    have hinside := (h.inVec hfound hn 0 fun hop => absurd hop hw).2
    rw [nbytes_of_ne hw, hfound.inside_iff hw, le_wrapInt_iff] at hinside
    exact or_iff_not_imp_left.mpr hinside
  · intro h
    apply Agree.intro
    · exact (hfound.inside_iff hw).mpr le_rfl
    · exact fun hop => absurd hop hw
    · exact fun vec => inVec_storeAll fun v hv => (hfound.length_stored hw v hv).le
    · intro hone vec len _
      rw [nbytes_of_ne hw, hfound.inside_iff hw, le_wrapInt_iff]
      exact h.resolve_left hone

/-! ### Words on all processes -/

lemma nbytes_word (hw : args.op_type = .w) (hlen : len < 8192) :
    (args.nbytes len).toNat = len + 1 := by
  have hint : wrapInt (len + 1) = (len + 1 : ℕ) := wrapInt_of_lt (by omega)
  rw [ReadArgs.nbytes, hw]
  dsimp only
  rw [hint, Int.toNat_natCast]

/-- The length is that of the first word. -/
lemma InVec.isStrlen (h : InVec wlen 0 ((w :: ws).map (· ++ [0])) vec) (hw : 0 ∉ w) :
    IsStrlen vec w.length := by
  have hfirst := (inVec_cons.mp h).1
  rw [List.length_append, List.length_singleton] at hfirst
  have hlen := isStrlen_of_bytesAt hfirst hw
  simpa only [Nat.zero_mul, Nat.zero_add] using hlen

/-- On several processes, words that are right on process 0 are broadcast entirely exactly if each goes
on with the next one. -/
lemma inside_word_iff (hfound : Elements args found) (hw : args.op_type = .w) (hn : nprocs ≠ 1)
    (hvec : InVec args.stride 0 (args.values found) vec) (hlen : IsStrlen vec len)
    (hone : Chained 1 args.wlen (found.map Prod.snd)) :
    Inside args.stride 0 (args.nbytes len).toNat (args.values found) ↔
      Chained nprocs args.wlen (found.map Prod.snd) := by
  have hwords : ∀ t ∈ found.map Prod.snd, t ≠ [] ∧ IsLine t := List.forall_mem_map.mpr (hfound.word hw)
  rw [values_word hw, stride_word hw] at *
  cases hws : found.map Prod.snd with
  | nil => exact iff_of_true nofun trivial
  | cons w ws =>
    rw [hws] at hvec hone hwords
    obtain ⟨hnul, hshort⟩ := (hwords w List.mem_cons_self).2
    obtain rfl := hlen.unique (hvec.isStrlen hnul)
    apply inside_iff_chained hn hone fun t ht => (hwords t ht).1
    rw [nbytes_word hw hshort, Nat.zero_mul, Nat.zero_add]

lemma agree_iff_word (hn : 0 < nprocs) (hfound : Elements args found) (hw : args.op_type = .w) :
    Agree args nprocs found ↔ Chained nprocs args.wlen (found.map Prod.snd) ∧
      (args.n - 1) * args.wlen < 2 ^ 31 := by
  have hwords : ∀ t ∈ found.map Prod.snd, 0 ∉ t :=
    List.forall_mem_map.mpr fun e he => (hfound.word hw e he).2.1
  have hright (vec : ℕ → UInt8) : InVec args.stride 0 (args.values found)
        (storeAll args.stride 0 (args.values found) vec) ∧
      Inside args.stride 0 (args.n * args.stride) (args.values found) ↔
        Chained 1 args.wlen (found.map Prod.snd) := by
    rw [values_word hw, stride_word hw]
    apply words_iff hwords
    rw [List.length_map, hfound.length_eq, Nat.zero_add]
  constructor
  · intro h
    refine ⟨?_, ?_⟩
    · rcases eq_or_ne found [] with rfl | hne
      · trivial
      have hnul : ∃ len, IsStrlen (storeAll args.stride 0 (args.values found) fun _ => 0) len := by
        rw [values_word hw]
        exact exists_strlen (mt List.map_eq_nil_iff.mp hne)
      obtain ⟨len, hlen⟩ := hnul
      obtain ⟨hvec, hinside⟩ := h.inVec hfound hn len fun _ => hlen
      have hone := (hright _).mp ⟨hvec, h.1⟩
      rcases eq_or_ne nprocs 1 with rfl | hmany
      · exact hone
      · exact (inside_word_iff hfound hw hmany hvec hlen hone).mp (hinside hmany)
    · rcases Nat.eq_zero_or_pos args.n with hzero | hpos
      · rw [hzero, Nat.zero_sub, Nat.zero_mul]
        norm_num
      · exact h.2.1 hw _ (Nat.sub_lt hpos Nat.one_pos)
  · rintro ⟨hchained, hindex⟩
    apply Agree.intro
    · exact ((hright fun _ => 0).mpr hchained.one).2
    · exact fun _ k hk => (Nat.mul_le_mul_right _ (Nat.le_sub_one_of_lt hk)).trans_lt hindex
    · exact fun vec => ((hright vec).mpr hchained.one).1
    · intro hmany vec len hlen
      exact (inside_word_iff hfound hw hmany ((hright vec).mpr hchained.one).1 (hlen hw)
        hchained.one).mpr hchained

/-- When process 0 has found the elements, all processes get them exactly if they are deliverable. -/
theorem agree_iff {behind : ℕ → UInt8} {s : Reader} (hn : 0 < nprocs) (hline : IsLine s.line_in)
    (h : readLoop (args.op_type.elements args.n behind) args.n 0 s = .ok found) :
    Agree args nprocs found ↔ Deliverable args nprocs found := by
  have hfound := elements_of_readLoop hline h
  rw [Deliverable]
  split_ifs with hw
  · exact agree_iff_word hn hfound hw
  · exact agree_iff_of_ne hn hfound hw

/-- The first `n` words of the line `ab cd`, with room for eight bytes each. -/
def ReadArgs.words (n : ℕ) : ReadArgs where
  op_type := .w
  n := n
  wlen := 8
  numbers := ⟨fun _ => Vector.replicate 8 0, fun _ => Vector.replicate 4 0,
    fun _ => Vector.replicate 4 0⟩

def Reader.words : Reader where
  line_in := []
  fd := ['a', 'b', ' ', 'c', 'd', '\n'].map Char.toUInt8

lemma readLoop_words (hn : n = 1 ∨ n = 2) :
    readLoop (OpType.w.elements n fun _ => 0) n 0 .words =
      .ok ([(0, [97, 98]), (0, [99, 100])].take n) := by
  have hpass : readPass (OpType.w.elements n fun _ => 0) .words =
      .ok ([[97, 98], [99, 100]], ⟨[97, 98], []⟩) := rfl
  rcases hn with rfl | rfl
  · rw [readLoop_of_ok Nat.one_ne_zero hpass, List.length_cons, Nat.sub_eq_zero_of_le (by simp),
      readLoop_zero]
    rfl
  · rw [readLoop_of_ok (Nat.succ_ne_zero 1) hpass, List.length_cons, Nat.sub_eq_zero_of_le (by simp),
      readLoop_zero]
    rfl

/-- One word gets to both of two processes. -/
theorem agree_iff_one_word : Agree (ReadArgs.words 1) 2 [(0, [97, 98])] :=
  (agree_iff (s := .words) (by norm_num) ⟨List.not_mem_nil, by decide⟩
    (readLoop_words (Or.inl rfl))).mpr ⟨show 2 < 8 by decide, by decide⟩

/-- The second one of two words does not. -/
theorem not_agree : readLoop (OpType.w.elements 2 fun _ => 0) 2 0 .words =
    .ok [(0, [97, 98]), (0, [99, 100])] ∧
      ¬ Agree (ReadArgs.words 2) 2 [(0, [97, 98]), (0, [99, 100])] := by
  have hloop := readLoop_words (Or.inr rfl)
  refine ⟨hloop, fun h => ?_⟩
  have hfound : Elements (ReadArgs.words 2) [(0, [97, 98]), (0, [99, 100])] :=
    elements_of_readLoop (s := .words) ⟨List.not_mem_nil, by decide⟩ hloop
  have hchained := ((agree_iff_word (by norm_num) hfound rfl).mp h).1
  rcases hchained.1 with hdrop | ⟨hone, -⟩
  · exact absurd hdrop (by decide)
  · exact absurd hone (by decide)

end NetPipe.MpLite
