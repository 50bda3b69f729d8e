import Mathlib.Tactic

/-!
# Sorting by exchanges

Each place in turn is compared with all places behind it, and larger elements are exchanged with the
one in it. The sort is not stable: where an element ends up among those with its key depends on the
larger elements in between.
-/

namespace NetPipe

variable {α β : Type*} [LinearOrder β] (key : α → β)

/-- A pass over the places behind one that holds `x`: what the place holds at the end, and what the
places behind it hold. -/
def pass : α → List α → α × List α
  | x, [] => (x, [])
  | x, y :: ys =>
    if key x < key y then ((pass y ys).1, x :: (pass y ys).2)
    else ((pass x ys).1, y :: (pass x ys).2)

lemma length_pass (x : α) (ys : List α) : (pass key x ys).2.length = ys.length := by
  induction ys generalizing x with
  | nil => rfl
  | cons y ys ih =>
    rw [pass]
    split_ifs <;> simp [ih]

/-- The sort, in decreasing order of the keys. -/
def exchangeSort : List α → List α
  | [] => []
  | x :: xs => (pass key x xs).1 :: exchangeSort (pass key x xs).2
termination_by l => l.length
decreasing_by
  rw [length_pass]
  exact Nat.lt_succ_self _

/-- Some elements are exchanged. -/
def exchanges : List α → Bool
  | [] => false
  | x :: xs => xs.any (key x < key ·) || exchanges (pass key x xs).2
termination_by l => l.length
decreasing_by
  rw [length_pass]
  exact Nat.lt_succ_self _

variable {e x y h : α} {l ys : List α}

/-! ### Passes -/

lemma pass_perm (x : α) (ys : List α) :
    ((pass key x ys).1 :: (pass key x ys).2).Perm (x :: ys) := by
  induction ys generalizing x with
  | nil => rfl
  | cons y ys ih =>
    rw [pass]
    split_ifs
    · exact (List.Perm.swap _ _ _).trans ((ih y).cons x)
    · exact (List.Perm.swap _ _ _).trans (((ih x).cons y).trans (List.Perm.swap _ _ _))

lemma le_pass (x : α) (ys : List α) : ∀ y ∈ x :: ys, key y ≤ key (pass key x ys).1 := by
  induction ys generalizing x with
  | nil => simp [pass]
  | cons y ys ih =>
    rw [pass, List.forall_mem_cons, List.forall_mem_cons]
    split_ifs with hlt
    · obtain ⟨hy, hys⟩ := List.forall_mem_cons.mp (ih y)
      exact ⟨hlt.le.trans hy, hy, hys⟩
    · obtain ⟨hx, hys⟩ := List.forall_mem_cons.mp (ih x)
      exact ⟨hx, (not_lt.mp hlt).trans hx, hys⟩

variable {key} in
lemma pass_eq_self (hle : ∀ y ∈ ys, key y ≤ key x) : pass key x ys = (x, ys) := by
  induction ys with
  | nil => rfl
  | cons y ys ih =>
    rw [List.forall_mem_cons] at hle
    rw [pass, if_neg (not_lt.mpr hle.1), ih hle.2]

lemma exchangeSort_perm (l : List α) : (exchangeSort key l).Perm l := by
  induction l using exchangeSort.induct key with
  | case1 => rw [exchangeSort]
  | case2 x xs ih =>
    rw [exchangeSort]
    exact (ih.cons _).trans (pass_perm key x xs)

variable {key} in
/-- Nothing is exchanged in a list that is sorted already, and only there. -/
lemma exchanges_eq_false_iff :
    exchanges key l = false ↔ l.Pairwise fun x y => key y ≤ key x := by
  induction l using exchangeSort.induct key with
  | case1 => simp [exchanges]
  | case2 x xs ih =>
    have hany : xs.any (key x < key ·) = false ↔ ∀ y ∈ xs, key y ≤ key x := by simp
    rw [exchanges, Bool.or_eq_false_iff, ih, List.pairwise_cons, hany]
    refine and_congr_right fun hle => ?_
    rw [pass_eq_self hle]

/-! ### Places -/

variable [DecidableEq α]

/-- What is counted on the way through a list to find the place of an element in the sorted list:
how many elements have its key, which of them it is, and how many elements have a larger key. -/
structure Rank where
  equal : ℕ
  rank : Option ℕ
  larger : ℕ

/-- An element with a larger key moves the first of those with the key in question behind the
others. -/
def Rank.step (key : α → β) (e : α) (r : Rank) (x : α) : Rank :=
  if key e < key x then
    ⟨r.equal, r.rank.map fun p => if p = 0 then r.equal - 1 else p - 1, r.larger + 1⟩
  else if key x < key e then r
  else ⟨r.equal + 1, if x = e then some r.equal else r.rank, r.larger⟩

/-- The place of an element in the sorted list. -/
def place (key : α → β) (e : α) (l : List α) : ℕ :=
  let r := l.foldl (Rank.step key e) ⟨0, none, 0⟩
  r.larger + r.rank.getD 0

variable {key} {r r' : Rank}

namespace Rank

lemma step_of_lt (hlt : key e < key x) : r.step key e x =
    ⟨r.equal, r.rank.map fun p => if p = 0 then r.equal - 1 else p - 1, r.larger + 1⟩ :=
  if_pos hlt

lemma step_of_gt (hgt : key x < key e) : r.step key e x = r := by
  rw [step, if_neg (not_lt.mpr hgt.le), if_pos hgt]

lemma step_self (r : Rank) (e : α) : r.step key e e = ⟨r.equal + 1, some r.equal, r.larger⟩ := by
  rw [step, if_neg (lt_irrefl _), if_neg (lt_irrefl _), if_pos rfl]

lemma step_of_eq (heq : key x = key e) (hne : x ≠ e) :
    r.step key e x = ⟨r.equal + 1, r.rank, r.larger⟩ := by
  rw [step, heq, if_neg (lt_irrefl _), if_neg (lt_irrefl _), if_neg hne]

end Rank

/-- What the counts over the elements that a pass has seen have to do with those over the elements
it has left behind, when it holds `h`. -/
inductive Carried (key : α → β) (e : α) : α → Rank → Rank → Prop
  | small {h : α} : key h < key e → Carried key e h ⟨0, none, 0⟩ ⟨0, none, 0⟩
  | self {k : ℕ} : Carried key e e ⟨k + 1, some 0, 0⟩ ⟨k, none, 0⟩
  | equal {h : α} {k : ℕ} {p : Option ℕ} : key h = key e → h ≠ e →
    Carried key e h ⟨k + 1, p.map (· + 1), 0⟩ ⟨k, p, 0⟩
  | large {h : α} {k n : ℕ} {p : Option ℕ} : key e < key h →
    Carried key e h ⟨k, p, n + 1⟩ ⟨k, p, n⟩

/-- Before a pass. -/
lemma Carried.start (key : α → β) (e x : α) :
    Carried key e x (Rank.step key e ⟨0, none, 0⟩ x) ⟨0, none, 0⟩ := by
  rw [Rank.step]
  split_ifs with hlt hgt heq
  · exact large hlt
  · exact small hgt
  · subst heq
    exact self
  · exact equal (p := none) (le_antisymm (not_lt.mp hlt) (not_lt.mp hgt)) heq

/-- One more element is seen. -/
lemma Carried.step (hc : Carried key e h r r') (hne : h = e → y ≠ e) :
    Carried key e (if key h < key y then y else h) (r.step key e y)
      (r'.step key e (if key h < key y then h else y)) := by
  cases hc with
  | small hlt =>
    split_ifs with hy
    · rw [Rank.step_of_gt hlt]
      exact Carried.start key e y
    · rw [Rank.step_of_gt ((not_lt.mp hy).trans_lt hlt)]
      exact small hlt
  | @self k =>
    split_ifs with hy
    · rw [Rank.step_of_lt hy, Rank.step_self]
      exact large (p := some k) hy
    · rcases (not_lt.mp hy).lt_or_eq with hgt | heq
      · rw [Rank.step_of_gt hgt, Rank.step_of_gt hgt]
        exact self
      · rw [Rank.step_of_eq heq (hne rfl), Rank.step_of_eq heq (hne rfl)]
        exact self
  | @equal h k p heq hhe =>
    split_ifs with hy
    · have hp : (p.map (· + 1)).map (fun p => if p = 0 then k + 1 - 1 else p - 1) = p := by
        rw [Option.map_map]
        exact Option.map_id'
      rw [Rank.step_of_lt (heq ▸ hy), Rank.step_of_eq heq hhe, hp]
      exact large (heq ▸ hy)
    · rw [heq] at hy
      rcases (not_lt.mp hy).lt_or_eq with hgt | heq'
      · rw [Rank.step_of_gt hgt, Rank.step_of_gt hgt]
        exact equal heq hhe
      · rcases eq_or_ne y e with rfl | hye
        · rw [Rank.step_self, Rank.step_self]
          exact equal (p := some k) heq hhe
        · rw [Rank.step_of_eq heq' hye, Rank.step_of_eq heq' hye]
          exact equal heq hhe
  | large hlt =>
    split_ifs with hy
    · rw [Rank.step_of_lt (hlt.trans hy), Rank.step_of_lt hlt]
      exact large (hlt.trans hy)
    · rcases lt_trichotomy (key e) (key y) with hey | heq | hye
      · rw [Rank.step_of_lt hey, Rank.step_of_lt hey]
        exact large hlt
      · rcases eq_or_ne y e with rfl | hne'
        · rw [Rank.step_self, Rank.step_self]
          exact large hlt
        · rw [Rank.step_of_eq heq.symm hne', Rank.step_of_eq heq.symm hne']
          exact large hlt
      · rw [Rank.step_of_gt hye, Rank.step_of_gt hye]
        exact large hlt

/-- A whole pass. -/
lemma Carried.pass (hc : Carried key e h r r') (hnodup : (h :: ys).Nodup) :
    Carried key e (pass key h ys).1 (ys.foldl (Rank.step key e) r)
      ((pass key h ys).2.foldl (Rank.step key e) r') := by
  induction ys generalizing h r r' with
  | nil => exact hc
  | cons y ys ih =>
    have hne : h = e → y ≠ e := by
      rintro rfl rfl
      simp at hnodup
    have hstep := hc.step hne
    have hy : (y :: ys).Nodup := hnodup.of_cons
    have hh : (h :: ys).Nodup := hnodup.sublist (by simp)
    rw [NetPipe.pass]
    split_ifs with hlt
    · rw [if_pos hlt, if_pos hlt] at hstep
      exact ih hstep hy
    · rw [if_neg hlt, if_neg hlt] at hstep
      exact ih hstep hh

lemma isSome_rank (key : α → β) (he : e ∈ l) (r : Rank) : (l.foldl (Rank.step key e) r).rank.isSome := by
  have hkeep : ∀ (l : List α) (r : Rank), r.rank.isSome →
      (l.foldl (Rank.step key e) r).rank.isSome := by
    intro l
    induction l with
    | nil => exact fun r hr => hr
    | cons x l ih =>
      intro r hr
      apply ih
      rw [Rank.step]
      split_ifs <;> simp [hr]
  induction l generalizing r with
  | nil => simp at he
  | cons x l ih =>
    rw [List.foldl_cons]
    rcases List.mem_cons.mp he with rfl | he
    · apply hkeep
      rw [Rank.step_self]
      rfl
    · exact ih he _

/-- What a pass does to the place of an element. -/
lemma place_pass (hnodup : (x :: ys).Nodup) (he : e ∈ x :: ys) : place key e (x :: ys) =
    if e = (pass key x ys).1 then 0 else place key e (pass key x ys).2 + 1 := by
  have hc := (Carried.start key e x).pass hnodup
  have hmax := le_pass key x ys e he
  have hperm := pass_perm key x ys
  rw [place, List.foldl_cons, place]
  generalize (pass key x ys).1 = m at hc hmax hperm ⊢
  generalize (pass key x ys).2 = rest at hc hperm ⊢
  split_ifs with hem
  · subst hem
    generalize ys.foldl (Rank.step key e) (Rank.step key e ⟨0, none, 0⟩ x) = r at hc ⊢
    generalize rest.foldl (Rank.step key e) ⟨0, none, 0⟩ = r' at hc
    cases hc with
    | small hlt => exact absurd hlt (lt_irrefl _)
    | self => rfl
    | equal _ hne => exact absurd rfl hne
    | large hlt => exact absurd hlt (lt_irrefl _)
  · have hrest : e ∈ rest := (List.mem_cons.mp (hperm.mem_iff.mpr he)).resolve_left hem
    have hsome := isSome_rank key hrest ⟨0, none, 0⟩
    generalize ys.foldl (Rank.step key e) (Rank.step key e ⟨0, none, 0⟩ x) = r at hc ⊢
    generalize rest.foldl (Rank.step key e) ⟨0, none, 0⟩ = r' at hc hsome ⊢
    cases hc with
    | small hlt => exact absurd hlt (not_lt.mpr hmax)
    | self => exact absurd rfl hem
    | @equal _ k p =>
      obtain ⟨p, rfl⟩ := Option.isSome_iff_exists.mp hsome
      simp
    | large => exact Nat.add_right_comm _ _ _

/-- Where the sort puts an element. -/
theorem idxOf_exchangeSort (hnodup : l.Nodup) (he : e ∈ l) :
    (exchangeSort key l).idxOf e = place key e l := by
  induction l using exchangeSort.induct key with
  | case1 => simp at he
  | case2 x xs ih =>
    have hperm := pass_perm key x xs
    rw [exchangeSort, place_pass hnodup he]
    split_ifs with hem
    · rw [hem]
      exact List.idxOf_cons_self
    · have hrest := (List.mem_cons.mp (hperm.mem_iff.mpr he)).resolve_left hem
      rw [List.idxOf_cons_ne _ (Ne.symm hem), ih (hperm.nodup_iff.mpr hnodup).of_cons hrest]

/-- An element stays where it is exactly if that is its place. -/
lemma getElem?_exchangeSort {i : ℕ} (hnodup : l.Nodup) (hi : l[i]? = some e) :
    (exchangeSort key l)[i]? = some e ↔ place key e l = i := by
  have he : e ∈ l := List.mem_of_getElem? hi
  have hsort := exchangeSort_perm key l
  rw [← idxOf_exchangeSort hnodup he]
  constructor
  · intro hget
    obtain ⟨hlt, rfl⟩ := List.getElem?_eq_some_iff.mp hget
    exact (hsort.nodup_iff.mpr hnodup).idxOf_getElem i hlt
  · rintro rfl
    exact List.getElem?_idxOf (hsort.mem_iff.mpr he)

end NetPipe
