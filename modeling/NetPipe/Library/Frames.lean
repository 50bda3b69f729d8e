import Mathlib.Data.List.Basic
import Mathlib.Data.List.Infix

/-!
# Streams of frames

A stream is the concatenation of frames, and it is read in pieces. What has been read is all frames up
to some place and the first items of the next one.
-/

namespace NetPipe

namespace Frames

variable {M R R' : Type*} {enc : M → List R} {frames rest : List M} {m : M} {l l' : List R} {k n : ℕ}

/-- All frames before `rest` and the first `k` items of `rest` were read. -/
def ReadTo (enc : M → List R) (frames : List M) (l : List R) (k : ℕ) (rest : List M) : Prop :=
  ∃ done, frames = done ++ rest ∧ l = done.flatMap enc ++ (rest.flatMap enc).take k

namespace ReadTo

lemma nil (enc : M → List R) (frames : List M) : ReadTo enc frames [] 0 frames :=
  ⟨[], rfl, rfl⟩

lemma subset (h : ReadTo enc frames l k rest) : rest ⊆ frames := by
  obtain ⟨done, rfl, -⟩ := h
  exact List.subset_append_right done rest

/-- What was read is the beginning of the stream. -/
lemma isPrefix (h : ReadTo enc frames l k rest) : l <+: frames.flatMap enc := by
  obtain ⟨done, rfl, rfl⟩ := h
  rw [List.flatMap_append]
  exact (List.prefix_append_right_inj _).mpr (List.take_prefix _ _)

/-- The next items are read. -/
lemma append (h : ReadTo enc frames l k rest) (hl : l' <+: (rest.flatMap enc).drop k) :
    ReadTo enc frames (l ++ l') (k + l'.length) rest := by
  obtain ⟨done, rfl, rfl⟩ := h
  refine ⟨done, rfl, ?_⟩
  rw [List.append_assoc, List.take_add]
  congr 2
  exact List.prefix_iff_eq_take.mp hl

/-- A frame was read to its end. -/
lemma next (h : ReadTo enc frames l (enc m).length (m :: rest)) : ReadTo enc frames l 0 rest := by
  obtain ⟨done, rfl, rfl⟩ := h
  refine ⟨done ++ [m], by simp, ?_⟩
  simp [List.flatMap_append]

/-- The same for what a function makes of each item. -/
lemma map (f : R → R') (h : ReadTo enc frames l k rest) :
    ReadTo (fun m => (enc m).map f) frames (l.map f) k rest := by
  obtain ⟨done, rfl, rfl⟩ := h
  refine ⟨done, rfl, ?_⟩
  rw [List.map_append, List.map_take, List.map_flatMap, List.map_flatMap]

/-- What comes after the items read is the rest of the stream. -/
lemma unread (h : ReadTo enc frames l k rest)
    (hl : l ++ l' <+: frames.flatMap enc) : l' <+: (rest.flatMap enc).drop k := by
  obtain ⟨done, rfl, rfl⟩ := h
  rw [List.flatMap_append, List.append_assoc, List.prefix_append_right_inj] at hl
  nth_rewrite 2 [← List.take_append_drop k (rest.flatMap enc)] at hl
  exact (List.prefix_append_right_inj _).mp hl

end ReadTo

/-- The next items, up to the end of the first part of what is left. -/
lemma take_isPrefix_drop {a b : List R} (h : l <+: (a ++ b).drop k) (hn : n + k ≤ a.length) :
    l.take n <+: a.drop k := by
  rw [List.drop_append_of_le_length (by omega)] at h
  have htake := h.take n
  rw [List.take_append_of_le_length (by rw [List.length_drop]; omega)] at htake
  exact htake.trans (List.take_prefix n _)

/-- Numbering items from where they are. -/
lemma mapIdx_isPrefix_drop {a : List R} (f : ℕ → R → R') (h : l <+: a.drop k) :
    (l.mapIdx fun i => f (k + i)) <+: (a.mapIdx f).drop k := by
  obtain ⟨t, ht⟩ := h
  have hdrop : (a.mapIdx f).drop k = (a.drop k).mapIdx fun i => f (k + i) :=
    List.ext_getElem (by simp) fun i _ _ => by simp
  rw [hdrop, ← ht, List.mapIdx_append]
  exact List.prefix_append _ _

end Frames

end NetPipe
