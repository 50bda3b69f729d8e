import Mathlib
import NetPipe.MpLite.Broadcast
import NetPipe.MpLite.FormatScan

/-!
# Global formatted input

`MP_gfscanf`: process 0 scans the input piece by piece and packs the values into an array, the array
is broadcast, and every process unpacks the values. The input is given by the values in it, each as
the bytes that `fscanf` stores.
-/

namespace NetPipe.MpLite

open Outcome

/-- The number of values that `fscanf` stores: `%%` and suppressed conversions store none. -/
def assignments : List Char → ℕ
  | [] => 0
  | c :: fmt =>
    if c ≠ '%' then assignments fmt
    else match fmt with
      | [] => 0
      | c' :: fmt => if c' = '%' ∨ c' = '*' then assignments fmt else assignments (c' :: fmt) + 1

/-- `fscanf`: the values that are stored, and the input that is left. -/
def fscanf (fmt : List Char) (input : List (List UInt8)) : List (List UInt8) × List (List UInt8) :=
  (input.take (assignments fmt), input.drop (assignments fmt))

/-- The cases of the `switch`. -/
inductive Kind
  | int
  | float
  | char
  | double
  | string
deriving DecidableEq

/-- The `case` labels. -/
def caseOf (type_char : Char) : Option Kind :=
  if type_char ∈ ['d', 'i', 'u'] then some .int
  else if type_char ∈ ['f', 'e', 'g'] then some .float
  else if type_char = 'c' then some .char
  else if type_char = 'l' then some .double
  else if type_char = 's' then some .string
  else none

/-- The next multiple of `size`. -/
def alignTo (size xinc : ℕ) : ℕ :=
  let i := xinc % size
  if i ≠ 0 then xinc + (size - i) else xinc

/-- The size of `x[]`. -/
abbrev xSize : ℕ := 1000

/-! ### mp_vfscanf -/

/-- The array, the offset in it, and the input that is left. -/
structure Packing where
  x : ℕ → UInt8
  xinc : ℕ
  input : List (List UInt8)

/-- `fscanf(fd, lfmt, &x[xinc])`, and the increment after it. -/
def fscanfAt (lfmt : List Char) (xinc increment : ℕ) (s : Packing) : Except ScanFault Packing :=
  match fscanf lfmt s.input with
  | ([], input) => .ok ⟨s.x, xinc + increment, input⟩
  | (v :: _, input) =>
    if xinc + v.length ≤ xSize then .ok ⟨storeAt xinc v s.x, xinc + increment, input⟩
    else .error .overflow

/-- The `switch` of `mp_vfscanf`. -/
def packPiece (piece : Piece) (s : Packing) : Except ScanFault Packing :=
  match caseOf piece.type_char with
  | some .int => fscanfAt piece.lfmt (alignTo 4 s.xinc) 4 s
  | some .float => fscanfAt piece.lfmt (alignTo 4 s.xinc) 4 s
  | some .char => fscanfAt piece.lfmt s.xinc 1 s
  | some .double => fscanfAt piece.lfmt (alignTo 8 s.xinc) 8 s
  | some .string => fscanfAt piece.lfmt s.xinc 0 s
  | none => .error .errorx

/-- `mp_vfscanf` with the array `x`. -/
def vfscanf (fmt : List Char) (input : List (List UInt8)) (x : ℕ → UInt8) :
    Except ScanFault Packing :=
  scanLoop packPiece fmt ⟨x, 0, input⟩

/-! ### mp_vunpack -/

/-- The offset, and what has been stored through the arguments. -/
structure Unpacking where
  xinc : ℕ
  stored : List (List UInt8)

/-- A value of `n` bytes is copied. -/
def copyAt (x : ℕ → UInt8) (xinc n : ℕ) (s : Unpacking) : Except ScanFault Unpacking :=
  if xinc + n ≤ xSize then .ok ⟨xinc + n, s.stored ++ [bytesAt x xinc n]⟩ else .error .pastEnd

/-- `strcpy`, up to the next NUL. -/
def strcpyAt (x : ℕ → UInt8) (s : Unpacking) : Except ScanFault Unpacking :=
  match (List.range (xSize - s.xinc)).find? fun i => x (s.xinc + i) = 0 with
  | some len => .ok ⟨s.xinc + (len + 1), s.stored ++ [bytesAt x s.xinc (len + 1)]⟩
  | none => .error .pastEnd

/-- The `switch` of `mp_vunpack`. -/
def unpackPiece (x : ℕ → UInt8) (piece : Piece) (s : Unpacking) : Except ScanFault Unpacking :=
  match caseOf piece.type_char with
  | some .int => copyAt x (alignTo 4 s.xinc) 4 s
  | some .float => copyAt x (alignTo 4 s.xinc) 4 s
  | some .char => copyAt x s.xinc 1 s
  | some .double => copyAt x (alignTo 8 s.xinc) 8 s
  | some .string => strcpyAt x s
  | none => .error .errorx

/-- `mp_vunpack`. -/
def vunpack (x : ℕ → UInt8) (fmt : List Char) : Except ScanFault (List (List UInt8)) :=
  (scanLoop (unpackPiece x) fmt ⟨0, []⟩).map Unpacking.stored

/-! ### MP_gfscanf -/

/-- `MP_gfscanf` on process `p`: what is stored through the arguments. The array of process `q` holds
`y q` when it is called. -/
def gfscanf (fmt : List Char) (input : List (List UInt8)) (y : ℕ → ℕ → UInt8) (p : ℕ) :
    Except ScanFault (List (List UInt8)) := do
  let s ← vfscanf fmt input (y 0)
  vunpack (received s.xinc s.x (y p) p) fmt

/-! ### Formats -/

/-- The number that a width stands for. -/
def widthOf (width : List Char) : ℕ := width.foldl (fun n c => 10 * n + (c.toNat - '0'.toNat)) 0

/-- A supported conversion with the text before it. -/
structure Spec extends Conv where
  kind : Kind
  caseOf_eq : caseOf type_char = some kind
  ext_eq : type_char = 'l' → ext = ['f']
  width_pos : width = [] ∨ 0 < widthOf width

namespace Spec

/-- The greatest number of characters, if there is one. -/
def width? (spec : Spec) : Option ℕ := if spec.width = [] then none else some (widthOf spec.width)

/-- What `fscanf` stores for the conversion. -/
def Matches (spec : Spec) (v : List UInt8) : Prop :=
  match spec.kind with
  | .int | .float => v.length = 4
  | .double => v.length = 8
  | .char => v.length = spec.width?.getD 1
  | .string => ∃ w, v = w ++ [0] ∧ 0 ∉ w ∧ w ≠ [] ∧ ∀ width ∈ spec.width?, w.length ≤ width

/-- Where the value is packed. -/
def start (spec : Spec) (xinc : ℕ) : ℕ :=
  match spec.kind with
  | .int | .float => alignTo 4 xinc
  | .double => alignTo 8 xinc
  | .char | .string => xinc

/-- By how much the offset is increased. -/
def increment (spec : Spec) : ℕ :=
  match spec.kind with
  | .int | .float => 4
  | .double => 8
  | .char => 1
  | .string => 0

end Spec

/-- A format of supported conversions, with text before, between and behind them. -/
structure Format where
  specs : List Spec
  tail : List Char
  tail_text : Text tail

namespace Format

def chars (fmt : Format) : List Char := fmt.specs.flatMap (·.chars) ++ fmt.tail

/-- The input begins with values for the conversions of the format. -/
def Matches (fmt : Format) (input : List (List UInt8)) : Prop :=
  ∃ values rest, input = values ++ rest ∧ List.Forall₂ Spec.Matches fmt.specs values

end Format

/-- Every piece is shorter than 100 characters, the last one with the text behind it, in which there
is no `%`. -/
def ShortPieces (tail : List Char) : List Spec → Prop
  | [] => tail = []
  | [spec] => '%' ∉ tail ∧ (spec.chars ++ tail).length < 100
  | spec :: specs => spec.chars.length < 100 ∧ ShortPieces tail specs

/-- A value of a conversion fits into the array, a conversion to characters stores one, and a string
ends before the place of the next value, or it is the last value and there is one process only. -/
def RoomFor (nprocs xinc : ℕ) (spec : Spec) (specs : List Spec) : Prop :=
  match spec.kind with
  | .int | .float | .double => spec.start xinc + spec.increment ≤ xSize
  | .char => spec.width?.getD 1 = 1 ∧ xinc + 1 ≤ xSize
  | .string => ∃ width ∈ spec.width?, match specs with
    | [] => nprocs = 1 ∧ xinc + (width + 1) ≤ xSize
    | next :: _ => xinc + (width + 1) ≤ next.start xinc

/-- There is room for the values of all conversions from the offset `xinc` on. -/
def Room (nprocs xinc : ℕ) : List Spec → Prop
  | [] => True
  | spec :: specs =>
    RoomFor nprocs xinc spec specs ∧ Room nprocs (spec.start xinc + spec.increment) specs

variable {text width lfmt tail : List Char} {c : Char} {spec : Spec} {specs : List Spec}
  {v : List UInt8} {vals rest : List (List UInt8)} {x x' : ℕ → UInt8} {xinc u nprocs : ℕ}

/-! ### Pieces of the format -/

lemma assignments_char (hc : c ≠ '%') (fmt : List Char) :
    assignments (c :: fmt) = assignments fmt := by
  cases fmt <;> simp [assignments, hc]

lemma assignments_pair (hc : c = '%' ∨ c = '*') (fmt : List Char) :
    assignments ('%' :: c :: fmt) = assignments fmt := by
  rw [assignments, if_neg (by simp), if_pos hc]

lemma assignments_text (h : Text text) (fmt : List Char) :
    assignments (text ++ fmt) = assignments fmt := by
  induction h with
  | nil => rfl
  | char hc _ ih => rw [List.cons_append, assignments_char hc, ih]
  | pair hc _ ih => rw [List.cons_append, List.cons_append, assignments_pair hc, ih]

lemma assignments_append (h : '%' ∉ width) (fmt : List Char) :
    assignments (width ++ fmt) = assignments fmt := by
  induction width with
  | nil => rfl
  | cons c width ih =>
    rw [List.mem_cons, not_or] at h
    rw [List.cons_append, assignments_char (Ne.symm h.1), ih h.2]

lemma Spec.percent_notMem (spec : Spec) :
    '%' ∉ spec.width ++ spec.type_char :: spec.ext := by
  have hdigits : '%' ∉ digits := by decide
  have hwidth : '%' ∉ spec.width := fun h => hdigits (spec.width_digits _ h)
  have htype : '%' ≠ spec.type_char := by
    intro h
    have hcase := spec.caseOf_eq
    rw [← h] at hcase
    exact nomatch hcase
  have hext : '%' ∉ spec.ext := by
    have hlen := spec.ext_length
    split_ifs at hlen with hl
    · rw [spec.ext_eq hl]
      decide
    · rw [List.length_eq_zero_iff.mp hlen]
      exact List.not_mem_nil
  rw [List.mem_append, List.mem_cons]
  rintro (h | h | h)
  · exact hwidth h
  · exact htype h
  · exact hext h

/-- `fscanf` stores one value for a supported conversion. -/
lemma assignments_spec (spec : Spec) (fmt : List Char) :
    assignments (spec.chars ++ fmt) = assignments fmt + 1 := by
  have hhead := spec.head_chars (spec.ext ++ fmt)
  have hplain : assignments (spec.width ++ spec.type_char :: (spec.ext ++ fmt)) =
      assignments fmt := by
    simpa using assignments_append spec.percent_notMem fmt
  have hsplit : spec.chars ++ fmt =
      spec.text ++ '%' :: (spec.width ++ spec.type_char :: (spec.ext ++ fmt)) := by
    simp [Conv.chars]
  rw [hsplit, assignments_text spec.isText, ← hplain]
  obtain ⟨c, p1, hp1⟩ : ∃ c p1, spec.width ++ spec.type_char :: (spec.ext ++ fmt) = c :: p1 :=
    List.exists_cons_of_ne_nil (by simp)
  rw [hp1] at hhead ⊢
  rw [assignments, if_neg (by simp), if_neg (hhead c rfl)]

/-- What a piece for a conversion does to the array. -/
def packStep (s : Packing) (spec : Spec) : Except ScanFault Packing :=
  match s.input with
  | [] => .ok ⟨s.x, spec.start s.xinc + spec.increment, []⟩
  | v :: input =>
    if spec.start s.xinc + v.length ≤ xSize then
      .ok ⟨storeAt (spec.start s.xinc) v s.x, spec.start s.xinc + spec.increment, input⟩
    else .error .overflow

lemma packPiece_spec (spec : Spec) (h : '%' ∉ tail) (s : Packing) :
    packPiece ⟨spec.chars ++ tail, spec.type_char⟩ s = packStep s spec := by
  have hone : assignments (spec.chars ++ tail) = 1 := by
    rw [assignments_spec, ← List.append_nil tail, assignments_append h]
    rfl
  rw [packPiece, spec.caseOf_eq, packStep]
  obtain ⟨x, xinc, input⟩ := s
  cases input <;> cases hkind : spec.kind <;>
    simp [fscanfAt, fscanf, hone, Spec.start, Spec.increment, hkind]

/-- What a piece for a conversion stores through the next argument. -/
def unpackStep (x : ℕ → UInt8) (s : Unpacking) (spec : Spec) : Except ScanFault Unpacking :=
  match spec.kind with
  | .string => strcpyAt x s
  | _ => copyAt x (spec.start s.xinc) spec.increment s

lemma unpackPiece_spec (x : ℕ → UInt8) (spec : Spec) (lfmt : List Char) (s : Unpacking) :
    unpackPiece x ⟨lfmt, spec.type_char⟩ s = unpackStep x s spec := by
  rw [unpackPiece, spec.caseOf_eq, unpackStep]
  cases hkind : spec.kind <;> simp [Spec.start, Spec.increment, hkind]

lemma scanLoop_nil {σ : Type} (body : Piece → σ → Except ScanFault σ) (s : σ) :
    scanLoop body [] s = .ok s := by
  rw [scanLoop, if_pos rfl]

lemma percent_mem_specs (next : Spec) (specs : List Spec) (tail : List Char) :
    '%' ∈ (next :: specs).flatMap (·.chars) ++ tail := by
  simp [Conv.chars]

/-- The loop over a format whose pieces are short enough. -/
lemma scanLoop_specs {σ : Type} {body : Piece → σ → Except ScanFault σ}
    {step : σ → Spec → Except ScanFault σ}
    (hbody : ∀ (spec : Spec) (tail : List Char) (s : σ), '%' ∉ tail →
      body ⟨spec.chars ++ tail, spec.type_char⟩ s = step s spec)
    (h : ShortPieces tail specs) (s : σ) :
    scanLoop body (specs.flatMap (·.chars) ++ tail) s = specs.foldlM step s := by
  induction specs generalizing s with
  | nil =>
    rw [show tail = [] from h]
    exact scanLoop_nil body s
  | cons spec specs ih =>
    rw [List.flatMap_cons, List.append_assoc, scanLoop_conv, List.foldlM_cons]
    cases specs with
    | nil =>
      obtain ⟨hpercent, hlen⟩ := h
      rw [List.flatMap_nil, List.nil_append, finishOff, if_neg hpercent, if_pos hlen,
        hbody spec tail s hpercent]
      simp only [scanLoop_nil, List.foldlM_nil]
      rfl
    | cons next specs =>
      have hpercent := percent_mem_specs next specs tail
      rw [finishOff, if_pos hpercent, if_pos (by simpa using h.1),
        hbody spec [] s List.not_mem_nil]
      exact bind_congr fun s => ih h.2 s

/-- The loop gets through a format only if its pieces are short enough. -/
lemma shortPieces_of_ok {σ : Type} {body : Piece → σ → Except ScanFault σ} {s s' : σ}
    (htail : Text tail) (h : scanLoop body (specs.flatMap (·.chars) ++ tail) s = .ok s') :
    ShortPieces tail specs := by
  induction specs generalizing s with
  | nil =>
    by_contra hne
    rw [List.flatMap_nil, List.nil_append, scanLoop_text body htail hne] at h
    exact nomatch h
  | cons spec specs ih =>
    rw [List.flatMap_cons, List.append_assoc, scanLoop_conv] at h
    split_ifs at h with hlen
    obtain ⟨s₁, -, h⟩ := bind_eq_ok.mp h
    cases specs with
    | nil =>
      rw [List.flatMap_nil, List.nil_append] at hlen h
      by_cases hpercent : '%' ∈ tail
      · rw [finishOff, if_pos hpercent, scanLoop_text body htail (List.ne_nil_of_mem hpercent)] at h
        exact nomatch h
      · rw [finishOff, if_neg hpercent] at hlen
        exact ⟨hpercent, hlen⟩
    | cons next specs =>
      have hpercent := percent_mem_specs next specs tail
      rw [finishOff, if_pos hpercent] at hlen h
      exact ⟨by simpa using hlen, ih h⟩

/-! ### Offsets -/

lemma le_alignTo (size xinc : ℕ) : xinc ≤ alignTo size xinc := by
  rw [alignTo]
  split_ifs
  · exact Nat.le_add_right _ _
  · exact le_rfl

/-- Up to the next multiple, the next multiple is the same. -/
lemma alignTo_eq {size : ℕ} (hsize : size = 4 ∨ size = 8) (hle : xinc ≤ u)
    (hlt : u ≤ alignTo size xinc) : alignTo size u = alignTo size xinc := by
  rcases hsize with rfl | rfl
  all_goals
    simp only [alignTo] at hlt ⊢
    split_ifs at hlt ⊢ <;> omega

lemma Spec.le_start (spec : Spec) (xinc : ℕ) : xinc ≤ spec.start xinc := by
  rw [start]
  cases spec.kind
  case char | string => exact le_rfl
  all_goals exact le_alignTo _ _

/-- Where a value is packed does not change until its place. -/
lemma Spec.start_eq (hle : xinc ≤ u) (hlt : u ≤ spec.start xinc) : spec.start u = spec.start xinc := by
  rw [start] at hlt ⊢
  rw [start]
  cases hkind : spec.kind <;> rw [hkind] at hlt
  case char | string => exact le_antisymm hlt hle
  all_goals exact alignTo_eq (by simp) hle hlt

/-- The offset behind all values. -/
def endOffset (specs : List Spec) (xinc : ℕ) : ℕ :=
  specs.foldl (fun xinc spec => spec.start xinc + spec.increment) xinc

lemma le_endOffset (specs : List Spec) (xinc : ℕ) : xinc ≤ endOffset specs xinc := by
  induction specs generalizing xinc with
  | nil => exact le_rfl
  | cons spec specs ih =>
    exact (spec.le_start xinc).trans ((Nat.le_add_right _ _).trans (ih _))

/-! ### Packing -/

/-- The values are in the array. -/
def Holds (x : ℕ → UInt8) : ℕ → List Spec → List (List UInt8) → Prop
  | xinc, spec :: specs, v :: vals =>
    bytesAt x (spec.start xinc) v.length = v ∧ Holds x (spec.start xinc + spec.increment) specs vals
  | _, _, _ => True

/-- A value that has room begins in the array, or where the one before it ends. -/
lemma start_of_room (hroom : Room nprocs xinc (spec :: specs)) :
    spec.start xinc = xinc ∨ spec.start xinc ≤ xSize := by
  have hspec := hroom.1
  rw [RoomFor] at hspec
  cases hkind : spec.kind <;> rw [hkind] at hspec
  case char | string => exact Or.inl (by rw [Spec.start, hkind])
  all_goals exact Or.inr ((Nat.le_add_right _ _).trans hspec)

/-- The offset is increased by the length of a value that is no string. -/
lemma length_eq_increment (hroom : Room nprocs xinc (spec :: specs)) (hv : spec.Matches v)
    (hkind : spec.kind ≠ .string) : v.length = spec.increment := by
  have hspec := hroom.1
  rw [RoomFor] at hspec
  rw [Spec.Matches] at hv
  rw [Spec.increment]
  cases hcase : spec.kind <;> rw [hcase] at hspec hv
  case char => exact hv.trans hspec.1
  case string => exact absurd hcase hkind
  all_goals exact hv

/-- The end of a value that is no string is in the array. -/
lemma end_le (hroom : Room nprocs xinc (spec :: specs)) (hkind : spec.kind ≠ .string) :
    spec.start xinc + spec.increment ≤ xSize := by
  have hspec := hroom.1
  rw [RoomFor] at hspec
  cases hcase : spec.kind <;> rw [hcase] at hspec
  case char =>
    rw [Spec.start, Spec.increment, hcase]
    exact hspec.2
  case string => exact absurd hcase hkind
  all_goals exact hspec

/-- A string that has room ends before the place of the next value. -/
lemma length_of_string (hroom : RoomFor nprocs xinc spec specs) (hv : spec.Matches v)
    (hkind : spec.kind = .string) : (specs = [] → nprocs = 1 ∧ xinc + v.length ≤ xSize) ∧
      ∀ next ∈ specs.head?, xinc + v.length ≤ next.start xinc := by
  rw [RoomFor, hkind] at hroom
  rw [Spec.Matches, hkind] at hv
  obtain ⟨w, rfl, -, -, hwidth⟩ := hv
  obtain ⟨width, hmem, hplace⟩ := hroom
  have hlen : (w ++ [0]).length ≤ width + 1 := by
    rw [List.length_append, List.length_singleton]
    exact Nat.add_le_add_right (hwidth width hmem) 1
  have hle := Nat.add_le_add_left hlen xinc
  cases specs with
  | nil => exact ⟨fun _ => ⟨hplace.1, hle.trans hplace.2⟩, by simp⟩
  | cons next specs =>
    refine ⟨by simp, fun next' hnext => ?_⟩
    obtain rfl := Option.some_inj.mp hnext
    exact hle.trans hplace

lemma Spec.start_string (hkind : spec.kind = .string) (xinc : ℕ) : spec.start xinc = xinc := by
  rw [start, hkind]

lemma Spec.increment_string (hkind : spec.kind = .string) : spec.increment = 0 := by
  rw [increment, hkind]

/-- A value that has room ends before the place of the next one. -/
lemma length_of_room (hroom : Room nprocs xinc (spec :: specs)) (hv : spec.Matches v) :
    spec.start xinc + v.length ≤ xSize ∧
      ∀ next ∈ specs.head?,
        spec.start xinc + v.length ≤ next.start (spec.start xinc + spec.increment) := by
  by_cases hkind : spec.kind = .string
  · obtain ⟨hlast, hnext⟩ := length_of_string hroom.1 hv hkind
    rw [spec.start_string hkind, spec.increment_string hkind, Nat.add_zero]
    refine ⟨?_, hnext⟩
    cases specs with
    | nil => exact (hlast rfl).2
    | cons next specs =>
      have hplace := hnext next rfl
      have hrest := hroom.2
      rw [spec.start_string hkind, spec.increment_string hkind, Nat.add_zero] at hrest
      rcases start_of_room hrest with hsame | hle
      · rw [Spec.Matches, hkind] at hv
        obtain ⟨w, rfl, -⟩ := hv
        rw [hsame, List.length_append] at hplace
        exact absurd hplace (by simp)
      · exact hplace.trans hle
  · rw [length_eq_increment hroom hv hkind]
    exact ⟨end_le hroom hkind, fun next _ => next.le_start _⟩

/-- Values that have room are packed, behind what is in the array already. -/
lemma pack_ok (hroom : Room nprocs xinc specs) (hvals : List.Forall₂ Spec.Matches specs vals)
    (x : ℕ → UInt8) (rest : List (List UInt8)) :
    ∃ x', specs.foldlM packStep ⟨x, xinc, vals ++ rest⟩ = .ok ⟨x', endOffset specs xinc, rest⟩ ∧
      (∀ i, (∀ spec ∈ specs.head?, i < spec.start xinc) → x' i = x i) ∧ Holds x' xinc specs vals := by
  induction specs generalizing xinc vals x with
  | nil =>
    obtain rfl := List.forall₂_nil_left_iff.mp hvals
    exact ⟨x, rfl, fun _ _ => rfl, trivial⟩
  | cons spec specs ih =>
    obtain ⟨v, vals, hv, htail, rfl⟩ := List.forall₂_cons_left_iff.mp hvals
    obtain ⟨hfit, hnext⟩ := length_of_room hroom hv
    obtain ⟨x', hrun, hframe, hholds⟩ := ih hroom.2 htail (storeAt (spec.start xinc) v x)
    have hstep : packStep ⟨x, xinc, v :: (vals ++ rest)⟩ spec =
        .ok ⟨storeAt (spec.start xinc) v x, spec.start xinc + spec.increment, vals ++ rest⟩ :=
      if_pos hfit
    refine ⟨x', ?_, fun i hi => ?_, ?_, hholds⟩
    · rw [List.cons_append, List.foldlM_cons, hstep]
      exact hrun
    · have hi : i < spec.start xinc := hi spec rfl
      rw [hframe, storeAt_of_lt hi]
      intro next _
      exact hi.trans_le ((Nat.le_add_right _ _).trans (next.le_start _))
    · have hread : bytesAt x' (spec.start xinc) v.length =
          bytesAt (storeAt (spec.start xinc) v x) (spec.start xinc) v.length :=
        bytesAt_congr fun i hi => hframe _ fun next hnext' =>
          (Nat.add_lt_add_left hi _).trans_le (hnext next hnext')
      exact hread.trans (bytesAt_storeAt _ v x)

/-! ### Unpacking -/

/-- Of values that have room, other processes receive all bytes. -/
lemma Holds.received (hroom : Room nprocs xinc specs) (hn : nprocs ≠ 1)
    (hvals : List.Forall₂ Spec.Matches specs vals) (h : Holds x xinc specs vals)
    (hx : ∀ i < endOffset specs xinc, x' i = x i) : Holds x' xinc specs vals := by
  induction specs generalizing xinc vals with
  | nil => trivial
  | cons spec specs ih =>
    obtain ⟨v, vals, hv, htail, rfl⟩ := List.forall₂_cons_left_iff.mp hvals
    refine ⟨?_, ih hroom.2 htail h.2 hx⟩
    have hend : spec.start xinc + v.length ≤ endOffset (spec :: specs) xinc := by
      by_cases hkind : spec.kind = .string
      · cases specs with
        | nil => exact absurd ((length_of_string hroom.1 hv hkind).1 rfl).1 hn
        | cons next specs =>
          exact ((length_of_room hroom hv).2 next rfl).trans
            ((Nat.le_add_right _ _).trans (le_endOffset specs _))
      · rw [length_eq_increment hroom hv hkind]
        exact le_endOffset specs _
    exact (bytesAt_congr fun i hi => hx _ ((Nat.add_lt_add_left hi _).trans_le hend)).trans h.1

lemma unpackStep_of_ne (hkind : spec.kind ≠ .string) (s : Unpacking) :
    unpackStep x s spec = copyAt x (spec.start s.xinc) spec.increment s := by
  rw [unpackStep]
  cases hcase : spec.kind
  case string => exact absurd hcase hkind
  all_goals rfl

lemma getElem_of_bytesAt {n i : ℕ} (hread : bytesAt x u n = v) (hi : i < n) :
    v[i]? = some (x (u + i)) := by
  rw [← hread, bytesAt, List.getElem?_map, List.getElem?_range hi]
  rfl

lemma strcpyAt_ok {w : List UInt8} (hread : bytesAt x u (w ++ [0]).length = w ++ [0]) (hw : 0 ∉ w)
    (hfit : u + (w ++ [0]).length ≤ xSize) (out : List (List UInt8)) :
    strcpyAt x ⟨u, out⟩ = .ok ⟨u + (w ++ [0]).length, out ++ [w ++ [0]]⟩ := by
  have hlen : (w ++ [0]).length = w.length + 1 := by simp
  rw [hlen] at hread hfit
  have hfind : (List.range (xSize - u)).find? (fun i => x (u + i) = 0) = some w.length := by
    rw [List.find?_range_eq_some]
    have hlast := getElem_of_bytesAt hread (Nat.lt_succ_self w.length)
    refine ⟨?_, ?_, fun j hj => ?_⟩
    · simpa [eq_comm] using hlast
    · rw [List.mem_range]
      omega
    · have hbyte := getElem_of_bytesAt hread (Nat.lt_succ_of_lt hj)
      rw [List.getElem?_append_left hj] at hbyte
      have hmem := List.mem_of_getElem? hbyte
      simp only [Bool.not_eq_true', decide_eq_false_iff_not]
      rintro hzero
      rw [hzero] at hmem
      exact hw hmem
  rw [strcpyAt, hfind, hlen]
  dsimp only
  rw [hread]

/-- What is unpacked for a value that is in the array. -/
lemma unpackStep_ok (hroom : Room nprocs xinc (spec :: specs)) (hv : spec.Matches v)
    (hread : bytesAt x (spec.start xinc) v.length = v) (hle : xinc ≤ u) (hlt : u ≤ spec.start xinc)
    (out : List (List UInt8)) : ∃ u', unpackStep x ⟨u, out⟩ spec = .ok ⟨u', out ++ [v]⟩ ∧
      spec.start xinc + spec.increment ≤ u' ∧
      ∀ next ∈ specs.head?, u' ≤ next.start (spec.start xinc + spec.increment) := by
  have hfit := length_of_room hroom hv
  by_cases hkind : spec.kind = .string
  · have hstart := spec.start_string hkind xinc
    obtain rfl : u = xinc := le_antisymm (hstart ▸ hlt) hle
    rw [hstart, spec.increment_string hkind, Nat.add_zero] at hfit ⊢
    rw [hstart] at hread
    refine ⟨u + v.length, ?_, Nat.le_add_right _ _, hfit.2⟩
    rw [Spec.Matches, hkind] at hv
    obtain ⟨w, rfl, hw, -⟩ := hv
    rw [unpackStep, hkind]
    exact strcpyAt_ok hread hw hfit.1 out
  · have hlen := length_eq_increment hroom hv hkind
    refine ⟨spec.start xinc + spec.increment, ?_, le_rfl, fun next _ => next.le_start _⟩
    rw [unpackStep_of_ne hkind, copyAt, Spec.start_eq hle hlt, if_pos (end_le hroom hkind), ← hlen,
      hread]

/-- Values that have room and are in the array are unpacked. -/
lemma unpack_ok (hroom : Room nprocs xinc specs) (hvals : List.Forall₂ Spec.Matches specs vals)
    (h : Holds x xinc specs vals) (hle : xinc ≤ u) (hlt : ∀ spec ∈ specs.head?, u ≤ spec.start xinc)
    (out : List (List UInt8)) :
    ∃ u', specs.foldlM (unpackStep x) ⟨u, out⟩ = .ok ⟨u', out ++ vals⟩ := by
  induction specs generalizing xinc vals u out with
  | nil =>
    obtain rfl := List.forall₂_nil_left_iff.mp hvals
    exact ⟨u, by rw [List.append_nil]; rfl⟩
  | cons spec specs ih =>
    obtain ⟨v, vals, hv, htail, rfl⟩ := List.forall₂_cons_left_iff.mp hvals
    obtain ⟨u₁, hstep, hle₁, hlt₁⟩ := unpackStep_ok hroom hv h.1 hle (hlt spec rfl) out
    obtain ⟨u', hrun⟩ := ih hroom.2 htail h.2 hle₁ hlt₁ (out ++ [v])
    refine ⟨u', ?_⟩
    have happ : out ++ v :: vals = out ++ [v] ++ vals := by simp
    rw [List.foldlM_cons, hstep, happ]
    exact hrun

/-! ### Values without room -/

/-- A value of bytes 66 for a conversion. -/
def sampleOf (spec : Spec) : List UInt8 :=
  match spec.kind with
  | .int | .float => List.replicate 4 66
  | .double => List.replicate 8 66
  | .char => List.replicate (spec.width?.getD 1) 66
  | .string => [66, 0]

lemma Spec.width?_pos (spec : Spec) : ∀ width ∈ spec.width?, 0 < width := by
  intro width hwidth
  rw [width?] at hwidth
  split_ifs at hwidth with hnil
  · exact nomatch hwidth
  · obtain rfl := Option.some_inj.mp hwidth
    exact spec.width_pos.resolve_left hnil

lemma Spec.getD_width?_pos (spec : Spec) : 0 < spec.width?.getD 1 := by
  cases hwidth : spec.width? with
  | none => exact Nat.one_pos
  | some width => exact spec.width?_pos width hwidth

lemma matches_sampleOf (spec : Spec) : spec.Matches (sampleOf spec) := by
  rw [Spec.Matches, sampleOf]
  cases hkind : spec.kind
  case string => exact ⟨[66], rfl, by decide, by simp, spec.width?_pos⟩
  all_goals exact List.length_replicate

lemma head_sampleOf (spec : Spec) : (sampleOf spec)[0]? = some 66 := by
  rw [sampleOf]
  cases hkind : spec.kind
  case string => rfl
  case char => simp [spec.getD_width?_pos]
  all_goals rfl

lemma matches_samples (specs : List Spec) :
    List.Forall₂ Spec.Matches specs (specs.map sampleOf) := by
  induction specs with
  | nil => exact .nil
  | cons spec specs ih => exact .cons (matches_sampleOf spec) ih

lemma pack_cons {input : List (List UInt8)} {s : Packing} :
    (spec :: specs).foldlM packStep ⟨x, xinc, v :: input⟩ = .ok s ↔
      spec.start xinc + v.length ≤ xSize ∧
        specs.foldlM packStep
          ⟨storeAt (spec.start xinc) v x, spec.start xinc + spec.increment, input⟩ = .ok s := by
  rw [List.foldlM_cons, packStep]
  dsimp only
  split_ifs with hfit
  · exact ⟨fun h => ⟨hfit, h⟩, fun h => h.2⟩
  · exact iff_of_false (fun h => nomatch h) fun h => hfit h.1

/-- A byte 66 is overwritten by a byte 66 only, if nothing is packed before it. -/
lemma pack_keep {s : Packing} {a : ℕ} (ha : a ≤ xinc) (hx : x a = 66)
    (h : specs.foldlM packStep ⟨x, xinc, specs.map sampleOf ++ rest⟩ = .ok s) : s.x a = 66 := by
  induction specs generalizing x xinc with
  | nil =>
    obtain rfl := Except.ok.inj h
    exact hx
  | cons spec specs ih =>
    rw [List.map_cons, List.cons_append, pack_cons] at h
    have hstart := ha.trans (spec.le_start xinc)
    refine ih (hstart.trans (Nat.le_add_right _ _)) ?_ h.2
    rcases hstart.eq_or_lt with heq | hlt
    · have hhead := getElem_of_bytesAt (bytesAt_storeAt a (sampleOf spec) x)
        (List.getElem?_eq_some_iff.mp (head_sampleOf spec)).1
      rw [head_sampleOf, Nat.add_zero] at hhead
      rw [← heq]
      exact (Option.some_inj.mp hhead).symm
    · rwa [storeAt_of_lt hlt]

/-- The first byte that is packed. -/
lemma pack_first {s : Packing}
    (h : (spec :: specs).foldlM packStep ⟨x, xinc, (spec :: specs).map sampleOf ++ rest⟩ = .ok s) :
    s.x (spec.start xinc) = 66 := by
  rw [List.map_cons, List.cons_append, pack_cons] at h
  refine pack_keep (Nat.le_add_right _ _) ?_ h.2
  have hhead := getElem_of_bytesAt (bytesAt_storeAt (spec.start xinc) (sampleOf spec) x)
    (List.getElem?_eq_some_iff.mp (head_sampleOf spec)).1
  rw [head_sampleOf, Nat.add_zero] at hhead
  exact (Option.some_inj.mp hhead).symm

/-- What a conversion stores, and where the next one goes on. -/
lemma unpackStep_inv {s s₁ : Unpacking} (h : unpackStep x s spec = .ok s₁) :
    ∃ v, s₁.stored = s.stored ++ [v] ∧ v = bytesAt x (spec.start s.xinc) v.length ∧
      (spec.kind ≠ .string → v.length = spec.increment) ∧
      s₁.xinc = spec.start s.xinc + if spec.kind = .string then v.length else spec.increment := by
  by_cases hkind : spec.kind = .string
  · rw [unpackStep, hkind] at h
    dsimp only at h
    rw [strcpyAt] at h
    split at h
    case h_1 len _ =>
      obtain rfl := Except.ok.inj h
      refine ⟨_, rfl, ?_, fun hne => absurd hkind hne, ?_⟩
      · simp [spec.start_string hkind, bytesAt]
      · simp [spec.start_string hkind, hkind, bytesAt]
    case h_2 => cases h
  · rw [unpackStep_of_ne hkind, copyAt] at h
    split_ifs at h
    obtain rfl := Except.ok.inj h
    refine ⟨_, rfl, ?_, fun _ => ?_, ?_⟩
    · simp [bytesAt]
    · simp [bytesAt]
    · rw [if_neg hkind]

lemma stored_prefix {s s' : Unpacking} (h : specs.foldlM (unpackStep x) s = .ok s') :
    s.stored <+: s'.stored := by
  induction specs generalizing s with
  | nil =>
    obtain rfl := Except.ok.inj h
    exact List.prefix_rfl
  | cons spec specs ih =>
    rw [List.foldlM_cons] at h
    obtain ⟨s₁, hstep, hrun⟩ := bind_eq_ok.mp h
    obtain ⟨v, hstored, -⟩ := unpackStep_inv hstep
    exact (hstored ▸ List.prefix_append _ _).trans (ih hrun)

/-- If the values are unpacked, the first one is in the array. -/
lemma unpack_cons {out : List (List UInt8)} {s' : Unpacking}
    (h : (spec :: specs).foldlM (unpackStep x) ⟨u, out⟩ = .ok s')
    (hstored : s'.stored = out ++ v :: vals) :
    v = bytesAt x (spec.start u) v.length ∧ (spec.kind ≠ .string → v.length = spec.increment) ∧
      specs.foldlM (unpackStep x)
        ⟨spec.start u + if spec.kind = .string then v.length else spec.increment, out ++ [v]⟩ =
          .ok s' := by
  rw [List.foldlM_cons] at h
  obtain ⟨⟨u₁, out₁⟩, hstep, hrun⟩ := bind_eq_ok.mp h
  obtain ⟨v₁, hout, hread, hlen, hxinc⟩ := unpackStep_inv hstep
  obtain rfl : v₁ = v := by
    obtain ⟨more, hmore⟩ := stored_prefix hrun
    dsimp only at hmore hout
    rw [hstored, hout, List.append_assoc, List.append_cancel_left_eq] at hmore
    exact (List.cons.inj hmore).1
  dsimp only at hout hxinc hread
  rw [hout, hxinc] at hrun
  exact ⟨hread, hlen, hrun⟩

/-- The values are lost: they are not packed, or some process does not unpack them from an offset
`u`. -/
def Lost (nprocs xinc : ℕ) (specs : List Spec) (vals : List (List UInt8)) : Prop :=
  ∀ (x : ℕ → UInt8) (rest : List (List UInt8)) (s : Packing) (u : ℕ),
    specs.foldlM packStep ⟨x, xinc, vals ++ rest⟩ = .ok s → xinc ≤ u →
    (∀ spec ∈ specs.head?, u ≤ spec.start xinc) → ∃ p < nprocs, ∀ (out : List (List UInt8)) s',
      specs.foldlM (unpackStep (received s.xinc s.x (fun _ => 0) p)) ⟨u, out⟩ = .ok s' →
        s'.stored ≠ out ++ vals

/-- Values that are lost behind a conversion are lost. -/
lemma Lost.cons (hhead : RoomFor nprocs xinc spec specs)
    (h : Lost nprocs (spec.start xinc + spec.increment) specs vals) :
    Lost nprocs xinc (spec :: specs) (sampleOf spec :: vals) := by
  intro x rest s u hpack hle hlt
  obtain ⟨-, hrest⟩ := pack_cons.mp hpack
  have hstart : spec.start u = spec.start xinc := Spec.start_eq hle (hlt spec rfl)
  have hmore : spec.increment ≤ if spec.kind = .string then (sampleOf spec).length
      else spec.increment := by
    split_ifs with hkind
    · rw [spec.increment_string hkind]
      exact Nat.zero_le _
    · exact le_rfl
  have hnext : ∀ next ∈ specs.head?, spec.start xinc + (if spec.kind = .string then
      (sampleOf spec).length else spec.increment) ≤
        next.start (spec.start xinc + spec.increment) := by
    intro next hnext
    split_ifs with hkind
    · rw [spec.start_string hkind, spec.increment_string hkind]
      exact (length_of_string hhead (matches_sampleOf spec) hkind).2 next hnext
    · exact next.le_start _
  obtain ⟨p, hp, hlost⟩ := h _ rest s _ hrest (Nat.add_le_add_left hmore _) hnext
  refine ⟨p, hp, fun out s' hrun hstored => ?_⟩
  obtain ⟨-, -, hrun'⟩ := unpack_cons hrun hstored
  rw [hstart] at hrun'
  exact hlost _ s' hrun' (by simpa using hstored)

/-- A value that does not fit into the array is not packed. -/
lemma Lost.of_full (h : xSize < spec.start xinc + v.length) :
    Lost nprocs xinc (spec :: specs) (v :: vals) := by
  intro x rest s u hpack
  exact absurd (pack_cons.mp hpack).1 (Nat.not_le.mpr h)

/-- Only one of several characters is unpacked. -/
lemma Lost.of_char (hn : 0 < nprocs) (hkind : spec.kind = .char) (hv : v.length ≠ 1) :
    Lost nprocs xinc (spec :: specs) (v :: vals) := by
  intro x rest s u hpack _ _
  refine ⟨0, hn, fun out s' hrun hstored => ?_⟩
  obtain ⟨-, hlen, -⟩ := unpack_cons hrun hstored
  refine hv ((hlen (by simp [hkind])).trans ?_)
  rw [Spec.increment, hkind]

/-- A string at the end is not broadcast. -/
lemma Lost.of_last (hn : 1 < nprocs) (hkind : spec.kind = .string) :
    Lost nprocs xinc [spec] [[66, 0]] := by
  intro x rest s u hpack hle hlt
  obtain ⟨-, hrest⟩ := pack_cons.mp hpack
  obtain rfl := Except.ok.inj hrest
  refine ⟨1, hn, fun out s' hrun hstored => ?_⟩
  obtain ⟨hread, -, -⟩ := unpack_cons hrun hstored
  rw [Spec.start_eq hle (hlt spec rfl), spec.start_string hkind, spec.increment_string hkind] at hread
  have hbyte := getElem_of_bytesAt hread.symm (show 0 < [(66 : UInt8), 0].length by simp)
  simp [received] at hbyte

/-- A string that reaches up to the next value is overwritten. -/
lemma Lost.of_string {next : Spec} {len : ℕ} (hn : 0 < nprocs) (hkind : spec.kind = .string)
    (hlen : next.start xinc ≤ xinc + len) : Lost nprocs xinc (spec :: next :: specs)
      ((List.replicate len 65 ++ [0]) :: (next :: specs).map sampleOf) := by
  intro x rest s u hpack hle hlt
  obtain ⟨-, hrest⟩ := pack_cons.mp hpack
  have hfirst := pack_first hrest
  rw [spec.start_string hkind, spec.increment_string hkind, Nat.add_zero] at hfirst
  refine ⟨0, hn, fun out s' hrun hstored => ?_⟩
  obtain ⟨hread, -, -⟩ := unpack_cons hrun hstored
  rw [Spec.start_eq hle (hlt spec rfl), spec.start_string hkind] at hread
  obtain ⟨k, hk⟩ := Nat.exists_eq_add_of_le (next.le_start xinc)
  have hin : k < (List.replicate len (65 : UInt8) ++ [0]).length := by
    rw [List.length_append, List.length_replicate, List.length_singleton]
    omega
  have hbyte := getElem_of_bytesAt hread.symm hin
  have hmem := List.mem_of_getElem? hbyte
  rw [received, if_pos (Or.inl rfl), ← hk, hfirst, List.mem_append, List.mem_replicate] at hmem
  simp at hmem

/-- A string with as many characters as a bound, if the width allows as many. -/
lemma exists_matches_string (hkind : spec.kind = .string) {bound : ℕ}
    (h : ∀ width ∈ spec.width?, bound ≤ width) :
    ∃ len, bound ≤ len ∧ spec.Matches (List.replicate len 65 ++ [0]) := by
  refine ⟨max bound 1, Nat.le_max_left _ _, ?_⟩
  rw [Spec.Matches, hkind]
  refine ⟨_, rfl, ?_, ?_, fun width hwidth => ?_⟩
  · rw [List.mem_replicate]
    exact fun hzero => absurd hzero.2 (by decide)
  · rw [ne_eq, List.replicate_eq_nil_iff]
    exact (Nat.lt_of_lt_of_le Nat.one_pos (Nat.le_max_right bound 1)).ne'
  · rw [List.length_replicate]
    exact Nat.max_le.mpr ⟨h width hwidth, spec.width?_pos width hwidth⟩

/-- Without room for a conversion, some value of it is lost. -/
lemma exists_lost_head (hn : 0 < nprocs) (h : ¬ RoomFor nprocs xinc spec specs) :
    ∃ v, spec.Matches v ∧ Lost nprocs xinc (spec :: specs) (v :: specs.map sampleOf) := by
  have hsample := matches_sampleOf spec
  rw [RoomFor] at h
  cases hkind : spec.kind <;> rw [hkind] at h <;> dsimp only at h
  case int | float | double =>
    refine ⟨_, hsample, Lost.of_full ?_⟩
    have hlen : (sampleOf spec).length = spec.increment := by
      rw [Spec.Matches, hkind] at hsample
      rw [Spec.increment, hkind]
      exact hsample
    rw [hlen]
    exact Nat.not_le.mp h
  case char =>
    refine ⟨_, hsample, ?_⟩
    by_cases hone : spec.width?.getD 1 = 1
    · apply Lost.of_full
      rw [Spec.Matches, hkind] at hsample
      rw [hsample.trans hone, Spec.start, hkind]
      exact Nat.not_le.mp fun hle => h ⟨hone, hle⟩
    · apply Lost.of_char hn hkind
      rw [Spec.Matches, hkind] at hsample
      rwa [hsample]
  case string =>
    cases specs with
    | nil =>
      simp only [not_exists, not_and] at h
      rcases Nat.eq_or_lt_of_le hn with hone | hmany
      · have hbound : ∀ width ∈ spec.width?, xSize - xinc ≤ width := by
          intro width hwidth
          have := h width hwidth hone.symm
          omega
        obtain ⟨len, hlen, hv⟩ := exists_matches_string hkind hbound
        refine ⟨_, hv, Lost.of_full ?_⟩
        rw [spec.start_string hkind, List.length_append, List.length_replicate,
          List.length_singleton]
        omega
      · refine ⟨[66, 0], ?_, Lost.of_last hmany hkind⟩
        rwa [sampleOf, hkind] at hsample
    | cons next specs =>
      simp only [not_exists, not_and] at h
      have hbound : ∀ width ∈ spec.width?, next.start xinc - xinc ≤ width := by
        intro width hwidth
        have := h width hwidth
        omega
      obtain ⟨len, hlen, hv⟩ := exists_matches_string hkind hbound
      refine ⟨_, hv, Lost.of_string hn hkind ?_⟩
      omega

/-- Without room, some values are lost. -/
lemma exists_lost (hn : 0 < nprocs) (h : ¬ Room nprocs xinc specs) :
    ∃ vals, List.Forall₂ Spec.Matches specs vals ∧ Lost nprocs xinc specs vals := by
  induction specs generalizing xinc with
  | nil => exact absurd trivial h
  | cons spec specs ih =>
    by_cases hhead : RoomFor nprocs xinc spec specs
    · have hrest : ¬ Room nprocs (spec.start xinc + spec.increment) specs := fun hrest =>
        h ⟨hhead, hrest⟩
      obtain ⟨vals, hvals, hlost⟩ := ih hrest
      exact ⟨_, .cons (matches_sampleOf spec) hvals, hlost.cons hhead⟩
    · obtain ⟨v, hv, hlost⟩ := exists_lost_head hn hhead
      exact ⟨_, .cons hv (matches_samples specs), hlost⟩

/-! ### All processes -/

lemma assignments_specs (specs : List Spec) (htail : Text tail) :
    assignments (specs.flatMap (·.chars) ++ tail) = specs.length := by
  induction specs with
  | nil => simpa [assignments] using assignments_text htail []
  | cons spec specs ih =>
    rw [List.flatMap_cons, List.append_assoc, assignments_spec, ih, List.length_cons]

/-- What `fscanf` stores for the whole format. -/
lemma fscanf_eq (fmt : Format) (hvals : List.Forall₂ Spec.Matches fmt.specs vals)
    (rest : List (List UInt8)) : (fscanf fmt.chars (vals ++ rest)).1 = vals := by
  rw [fscanf, Format.chars, assignments_specs _ fmt.tail_text, hvals.length_eq]
  exact List.take_left

lemma vfscanf_eq (fmt : Format) (hshort : ShortPieces fmt.tail fmt.specs)
    (input : List (List UInt8)) (x : ℕ → UInt8) :
    vfscanf fmt.chars input x = fmt.specs.foldlM packStep ⟨x, 0, input⟩ :=
  scanLoop_specs (fun spec _ s htail => packPiece_spec spec htail s) hshort _

lemma vunpack_eq (fmt : Format) (hshort : ShortPieces fmt.tail fmt.specs) (x : ℕ → UInt8) :
    vunpack x fmt.chars = (fmt.specs.foldlM (unpackStep x) ⟨0, []⟩).map Unpacking.stored :=
  congrArg _ (scanLoop_specs (fun spec _ s _ => unpackPiece_spec x spec _ s) hshort _)

/-- The values that have room are in the array of every process. -/
lemma holds_received {p : ℕ} (hroom : Room nprocs 0 specs) (hp : p < nprocs)
    (hvals : List.Forall₂ Spec.Matches specs vals) (h : Holds x 0 specs vals) (y : ℕ → UInt8) :
    Holds (received (endOffset specs 0) x y p) 0 specs vals := by
  rcases Nat.eq_zero_or_pos p with rfl | hpos
  · rwa [received_zero]
  · exact h.received hroom (by omega) hvals fun i hi => if_pos (Or.inr hi)

/-- All processes store the values that `fscanf` stores, for every input that matches the format,
exactly if the pieces of the format are short enough and there is room for all values. -/
theorem gfscanf_iff (fmt : Format) (hn : 0 < nprocs) :
    (∀ input, fmt.Matches input → ∀ (y : ℕ → ℕ → UInt8), ∀ p < nprocs,
      gfscanf fmt.chars input y p = .ok (fscanf fmt.chars input).1) ↔
        ShortPieces fmt.tail fmt.specs ∧ Room nprocs 0 fmt.specs := by
  constructor
  · intro h
    have hshort : ShortPieces fmt.tail fmt.specs := by
      have hright := h _ ⟨_, [], rfl, matches_samples fmt.specs⟩ (fun _ _ => 0) 0 hn
      obtain ⟨s, hpack, -⟩ := bind_eq_ok.mp hright
      exact shortPieces_of_ok fmt.tail_text hpack
    refine ⟨hshort, ?_⟩
    by_contra hroom
    obtain ⟨vals, hvals, hlost⟩ := exists_lost hn hroom
    have hright := h _ ⟨vals, [], rfl, hvals⟩ fun _ _ => 0
    rw [fscanf_eq fmt hvals []] at hright
    obtain ⟨s, hpack, -⟩ := bind_eq_ok.mp (hright 0 hn)
    rw [vfscanf_eq fmt hshort] at hpack
    obtain ⟨p, hp, hlost⟩ := hlost _ [] s 0 hpack le_rfl fun _ _ => Nat.zero_le _
    obtain ⟨s₁, hpack₁, hunpack⟩ := bind_eq_ok.mp (hright p hp)
    rw [vfscanf_eq fmt hshort, hpack] at hpack₁
    obtain rfl := Except.ok.inj hpack₁
    rw [vunpack_eq fmt hshort] at hunpack
    obtain ⟨s', hrun, hstored⟩ := map_eq_ok.mp hunpack
    exact hlost [] s' hrun hstored
  · rintro ⟨hshort, hroom⟩ _ ⟨vals, rest, rfl, hvals⟩ y p hp
    obtain ⟨x', hpack, -, hholds⟩ := pack_ok hroom hvals (y 0) rest
    have hreceived := holds_received hroom hp hvals hholds (y p)
    obtain ⟨u', hunpack⟩ := unpack_ok hroom hvals hreceived le_rfl (fun _ _ => Nat.zero_le _) []
    rw [fscanf_eq fmt hvals, gfscanf, vfscanf_eq fmt hshort, hpack]
    simp only [bind, Except.bind]
    rw [vunpack_eq fmt hshort, hunpack]
    rfl

/-- A conversion as it stands in a format, without a width. -/
def Spec.plain (type_char : Char) (kind : Kind) (hcase : caseOf type_char = some kind)
    (hplain : type_char ∉ digits ∧ ¬ (type_char = '%' ∨ type_char = '*') ∧ type_char ≠ 'l') : Spec where
  text := []
  width := []
  type_char := type_char
  ext := []
  isText := .nil
  width_digits := nil_digits
  type_not_digit := hplain.1
  type_plain _ := hplain.2.1
  ext_length := (if_neg hplain.2.2).symm
  kind := kind
  caseOf_eq := hcase
  ext_eq h := absurd h hplain.2.2
  width_pos := Or.inl rfl

/-- The format `%s%d`. -/
def Format.wordInt : Format where
  specs := [Spec.plain 's' .string (by decide) (by decide), Spec.plain 'd' .int (by decide) (by decide)]
  tail := []
  tail_text := .nil

theorem gfscanf_iff_wordInt :
    (∀ input, Format.wordInt.Matches input → ∀ (y : ℕ → ℕ → UInt8), ∀ p < 2,
      gfscanf Format.wordInt.chars input y p = .ok (fscanf Format.wordInt.chars input).1) ↔
        ShortPieces Format.wordInt.tail Format.wordInt.specs ∧ Room 2 0 Format.wordInt.specs :=
  gfscanf_iff Format.wordInt (by norm_num)

/-- A word and an integer: the integer is packed over the word. -/
theorem not_gfscanf : gfscanf Format.wordInt.chars [[97, 98, 99, 0], [1, 0, 0, 0]] (fun _ _ => 0) 0 ≠
    .ok (fscanf Format.wordInt.chars [[97, 98, 99, 0], [1, 0, 0, 0]]).1 := by
  intro h
  have hshort : ShortPieces Format.wordInt.tail Format.wordInt.specs := by
    refine ⟨by decide, by decide, by decide⟩
  obtain ⟨s, hpack, hunpack⟩ := bind_eq_ok.mp h
  have hpacked : vfscanf Format.wordInt.chars [[97, 98, 99, 0], [1, 0, 0, 0]] (fun _ => 0) =
      .ok ⟨storeAt 0 [1, 0, 0, 0] (storeAt 0 [97, 98, 99, 0] fun _ => 0), 4, []⟩ :=
    vfscanf_eq _ hshort _ _
  obtain rfl := Except.ok.inj (hpack.symm.trans hpacked)
  rw [vunpack_eq _ hshort] at hunpack
  obtain ⟨s', hrun, hstored⟩ := map_eq_ok.mp hunpack
  obtain ⟨hread, -, -⟩ := unpack_cons hrun hstored
  revert hread
  decide

end NetPipe.MpLite
