import NetPipe.Library.Exchange
import NetPipe.MpLite.Message

/-!
# Messages of the collective operations

The collective operations are programs of `MP_ARecv`, `MP_Send` and `MP_Wait`. A posted receive
takes the first message of its source that has its tag and is not longer.
-/

namespace NetPipe.MpLite

open NetPipe.Exchange

/-- The tag and the number of bytes of a message. `round` is the step of the operation to which it
belongs, which the message does not contain. -/
structure Label where
  round : ℕ
  tag : ℕ
  nbytes : ℕ
  deriving DecidableEq, Repr

/-- The test of `check_header` and `recv_from_q`. -/
def Label.Accepts (l m : Label) : Prop := m.nbytes ≤ l.nbytes ∧ m.tag = l.tag

lemma Label.accepts_self (l : Label) : l.Accepts l := ⟨le_refl _, rfl⟩

/-! ### Virtual processes -/

/-- The place of each process in the array `vproc`. -/
structure Ranks (vproc : List ℕ) (rank : ℕ → ℕ) : Prop where
  nodup : vproc.Nodup
  place : ∀ a ∈ vproc, vproc[rank a]? = some a

/-- The place of a process is the number of those before it. -/
lemma getElem?_filter_range {p : ℕ → Bool} {a n : ℕ} (ha : a < n) (hp : p a = true) :
    ((List.range n).filter p)[((List.range a).filter p).length]? = some a := by
  obtain ⟨m, rfl⟩ : ∃ m, n = a + (m + 1) := ⟨n - a - 1, by omega⟩
  rw [List.range_add, List.filter_append, List.getElem?_append_right (le_refl _), Nat.sub_self,
    List.range_succ_eq_map, List.map_cons, Nat.add_zero, List.filter_cons_of_pos hp]
  rfl

namespace Ranks

variable {vproc : List ℕ} {rank : ℕ → ℕ} {a i : ℕ}

lemma lt (h : Ranks vproc rank) (ha : a ∈ vproc) : rank a < vproc.length :=
  (List.getElem?_eq_some_iff.mp (h.place a ha)).1

lemma getD_of_lt (hi : i < vproc.length) : vproc.getD i 0 = vproc[i] := by
  simp [hi]

lemma getD_mem (hi : i < vproc.length) : vproc.getD i 0 ∈ vproc := by
  rw [getD_of_lt hi]
  exact List.getElem_mem hi

/-- The array and the places are inverse to each other. -/
lemma getD_eq_iff (h : Ranks vproc rank) (hi : i < vproc.length) (ha : a ∈ vproc) :
    vproc.getD i 0 = a ↔ i = rank a := by
  rw [getD_of_lt hi]
  obtain ⟨hlt, heq⟩ := List.getElem?_eq_some_iff.mp (h.place a ha)
  constructor
  · intro hia
    exact (h.nodup.getElem_inj_iff).mp (hia.trans heq.symm)
  · rintro rfl
    exact heq

lemma rank_getD (h : Ranks vproc rank) (hi : i < vproc.length) : rank (vproc.getD i 0) = i :=
  ((h.getD_eq_iff hi (getD_mem hi)).mp rfl).symm

end Ranks

/-! ### Vectors -/

/-- Store bytes from offset `a` on. -/
def storeAt (a : ℕ) (bytes : List UInt8) (mem : ℕ → UInt8) : ℕ → UInt8 := fun x =>
  if a ≤ x then (bytes[x - a]?).getD (mem x) else mem x

lemma storeAt_of_lt {a x : ℕ} {bytes : List UInt8} {mem : ℕ → UInt8} (h : x < a) :
    storeAt a bytes mem x = mem x :=
  if_neg (Nat.not_le.mpr h)

lemma storeAt_of_le {a x : ℕ} {bytes : List UInt8} {mem : ℕ → UInt8} (h : a + bytes.length ≤ x) :
    storeAt a bytes mem x = mem x := by
  have hnone : bytes[x - a]? = none := List.getElem?_eq_none (by omega)
  rw [storeAt, hnone, Option.getD_none, ite_self]

/-- Bytes that were read elsewhere from the same offset. -/
lemma storeAt_bytesAt {a n x : ℕ} {mem mem' : ℕ → UInt8} :
    storeAt a (bytesAt mem' a n) mem x = if a ≤ x ∧ x < a + n then mem' x else mem x := by
  by_cases h : a ≤ x ∧ x < a + n
  · have hlt : x - a < n := by omega
    rw [if_pos h, storeAt, if_pos h.1]
    simp [bytesAt, hlt, h.1]
  · rw [if_neg h]
    rcases Nat.lt_or_ge x a with hx | hx
    · exact storeAt_of_lt hx
    · exact storeAt_of_le (by simp; omega)

/-- What was stored is read again. -/
lemma bytesAt_storeAt (a : ℕ) (bytes : List UInt8) (mem : ℕ → UInt8) :
    bytesAt (storeAt a bytes mem) a bytes.length = bytes := by
  refine List.ext_getElem (by simp) fun i _ hi => ?_
  simp [bytesAt, storeAt, hi]

/-- What a process does in a collective operation on a vector. -/
abbrev VecAct := Act ℕ Label (ℕ → UInt8) (List UInt8)

/-- `MP_ARecv` into the vector. -/
def vecARecv (offset nbytes src tag round : ℕ) : VecAct :=
  .post ⟨src, ⟨round, tag, nbytes⟩, storeAt offset⟩

/-- `MP_Send` from the vector. -/
def vecSend (offset nbytes dest tag round : ℕ) : VecAct :=
  .send dest ⟨round, tag, nbytes⟩ fun vec => bytesAt vec offset nbytes

end NetPipe.MpLite
