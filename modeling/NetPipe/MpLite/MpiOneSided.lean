import NetPipe.MpLite.Memmove
import NetPipe.MpLite.OneSided

/-!
# The one-sided operations of MPI

`MPI_Put`, `MPI_Get` and `MPI_Accumulate`. They drop the datatype, and the operations of MP_Lite
take the unit of the window for its size.
-/

namespace NetPipe.MpLite

/-- The datatypes of `mpi.h`; `MPI_CHARACTER` is `MPI_CHAR`. -/
inductive Datatype where
  | char | unsignedChar | byte | short | unsignedShort | int | unsigned | long | unsignedLong
  | float | double | longDouble | longLongInt | packed
  | complex | doubleComplex | logical | real | doublePrecision | integer
  | twoInteger | twoComplex | twoDoubleComplex | twoReal | twoDoublePrecision
  | real4 | real8 | integer1 | integer2 | integer4
  deriving DecidableEq, Repr

/-- The operators of `mpi.h`. -/
inductive MpiOp where
  | max | min | sum | prod | land | band | lor | bor | lxor | bxor | minloc | maxloc | replace
  deriving DecidableEq, Repr

/-- `bytesper`, where a `long` has 8 bytes. It stops the program on a datatype that is not
supported. -/
def Datatype.bytesper : Datatype → Option ℕ
  | char | unsignedChar | byte | logical | integer1 => some 1
  | short | unsignedShort | integer2 => some 2
  | int | unsigned | float | real | real4 | integer4 => some 4
  | long | unsignedLong | double | complex | doublePrecision | integer | twoReal | real8 => some 8
  | doubleComplex | twoInteger | twoComplex | twoDoublePrecision => some 16
  | twoDoubleComplex => some 32
  | longDouble | longLongInt | packed => none

/-- The size of the elements in `do_accum_op`. -/
def accumSize (op : ℕ) : ℕ := if op % 3 = 1 then 4 else if op % 3 = 2 then 4 else 8

/-- The memories of the processes, by process and address. -/
abbrev Memories := ℕ → ℕ → UInt8

/-- A transfer that MPI allows: `count` elements of `size` bytes lie at the displacement in the
window of the target. -/
structure Transfer where
  myproc : ℕ
  node : ℕ → WinElt
  datatype : Datatype
  size : ℕ
  count : ℕ
  rank : ℕ
  disp : ℕ
  buf : ℕ
  size_eq : datatype.bytesper = some size
  unit_pos : 1 ≤ (node rank).disp_unit
  in_window : disp * (node rank).disp_unit + count * size ≤ (node rank).size
  isInt : IsInt (node rank).size

namespace Transfer

/-- The unit of the window. -/
def unit (t : Transfer) : ℕ := (t.node t.rank).disp_unit.toNat

/-- The address of the displacement. -/
def ptr (t : Transfer) : ℕ := (t.node t.rank).base + t.disp * t.unit

variable {t : Transfer}

lemma unit_eq (t : Transfer) : (t.node t.rank).disp_unit = t.unit := by
  have := t.unit_pos
  rw [unit]
  omega

lemma accumSize_pos (op : ℕ) : 0 < accumSize op := by
  rw [accumSize]
  split_ifs <;> simp

/-- Three `double`s in a window that counts in `double`s. -/
def doubles : Transfer where
  myproc := 0
  node _ := ⟨1000, 64, 8⟩
  datatype := .double
  size := 8
  count := 3
  rank := 1
  disp := 2
  buf := 500
  size_eq := rfl
  unit_pos := by decide
  in_window := by decide
  isInt := by decide

end Transfer

end NetPipe.MpLite
