import NetPipe.MpLite.Doubling

/-!
# `MP_Global`

The global sums, maxima and minima of `MP_Lite/mpcore.c`: in each step of the loop a process adds the
vector of the other half of its block to its own. The arithmetic of the elements is a parameter.
-/

namespace NetPipe.MpLite

open NetPipe.Exchange NetPipe.Blocks

/-- The addition and the comparison `<` of `double`, `int` or `float`. -/
structure Arith (α : Type*) where
  add : α → α → α
  lt : α → α → Bool

/-- The vectors `vec` and `work`. -/
structure GlobalMem (n : ℕ) (α : Type*) where
  vec : Fin n → α
  work : Fin n → α

section

variable {α : Type*} (arith : Arith α) (opType : ℤ) (n nprocs : ℕ) (mask : ℕ → ℤ)

/-- `bytes_per` of `MP_Global`. -/
def globalBytesPer (opType : ℤ) : ℕ :=
  if opType.tmod 3 = 1 then 4 else if opType.tmod 3 = 2 then 4 else 8

/-- The new element of `vec` for those of `vec` and `work`. An unknown `op_type` only prints an
error. -/
def globalOp (v w : α) : α :=
  match opType with
  | 0 | 1 | 2 => arith.add v w
  | 3 | 4 | 5 => if arith.lt v w then w else v
  | 6 | 7 | 8 => if arith.lt w v then w else v
  | _ => v

/-- What `MP_Global` does in a step: it receives into `work`, sends `vec` and combines them. -/
def globalStep : Doubling (GlobalMem n α) (Fin n → α) where
  recvLabel k _ := ⟨k, 10000 + (k + 1), n * globalBytesPer opType⟩
  store _ _ bytes mem := { mem with work := bytes }
  sendLabel k _ := ⟨k, 10000 + (k + 1), n * globalBytesPer opType⟩
  data _ _ mem := mem.vec
  works := [fun mem => { mem with vec := fun i => globalOp arith opType (mem.vec i) (mem.work i) }]

/-- `MP_Global(vec, n, op_type, mask)` in process `myproc`. -/
def mpGlobal (myproc : ℕ) : List (Act ℕ Label (GlobalMem n α) (Fin n → α)) :=
  (globalStep arith opType n).programs nprocs mask myproc

end

/-! ### The value of an element -/

section

variable {α : Type*} {op : α → α → α} {x : ℕ → α} {N k v : ℕ}

end

section

variable {α : Type*} {arith : Arith α} {opType : ℤ} {n nprocs : ℕ} {mask : ℕ → ℤ}

end

end NetPipe.MpLite
