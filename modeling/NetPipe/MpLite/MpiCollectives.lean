import NetPipe.MpLite.Gather
import NetPipe.MpLite.Global
import NetPipe.MpLite.MpiOneSided

/-!
# The collectives of MPI

`MPI_Allreduce`, `MPI_Reduce` and `MPI_Allgather` copy the elements of `sbuf` to `rbuf`, where `bytesper`
tells their size, and call `MP_Global` or `MP_Global_gather`, to which the size is given by a code.
-/

namespace NetPipe.MpLite

open NetPipe.Exchange NetPipe.Blocks

/-- Why a wrapper does not come to its collective: it stops the program, or an `int` overflows. -/
inductive WrapperStop where
  | exits
  | overflow
  deriving DecidableEq, Repr

/-- What a wrapper passes on: the code, and the offset in `rbuf` and number of the bytes that it copies
from `sbuf`. -/
structure Wrapper where
  opcode : ℕ
  offset : ℕ
  nbytes : ℕ
  deriving DecidableEq, Repr

/-- The code for `MP_Global`, if the operator and the datatype are supported. -/
def reduceOpcode (op : MpiOp) (datatype : Datatype) : Option ℕ := do
  let opcode ← match op with
    | .sum => some 0
    | .max => some 3
    | .min => some 6
    | _ => none
  match datatype with
  | .int | .integer => some (opcode + 1)
  | .float | .real | .real4 => some (opcode + 2)
  | .double | .real8 | .doublePrecision => some opcode
  | _ => none

/-- The code for `MP_Global_gather` and the factor of the offset. -/
def gatherOpcode (datatype : Datatype) : Option (ℕ × ℕ) :=
  match datatype with
  | .int | .integer => some (1, 4)
  | .float | .real | .real4 => some (2, 4)
  | .double | .real8 | .doublePrecision => some (0, 8)
  | .char | .unsignedChar | .byte => some (3, 1)
  | _ => none

/-- A result of `int` arithmetic. -/
def asInt (n : ℕ) : Except WrapperStop ℕ := if IsInt n then .ok n else .error .overflow

/-- The body of `MPI_Allreduce` and of `MPI_Reduce` before the call of `MP_Global`. -/
def reduceWrapper (op : MpiOp) (datatype : Datatype) (count : ℕ) : Except WrapperStop Wrapper :=
  match reduceOpcode op datatype, datatype.bytesper with
  | some opcode, some bytes => (asInt (count * bytes)).map fun nbytes => ⟨opcode, 0, nbytes⟩
  | _, _ => .error .exits

/-- `MPI_Allreduce` before the call of `MP_Global`. -/
def mpiAllreduce (count : ℕ) (datatype : Datatype) (op : MpiOp) : Except WrapperStop Wrapper :=
  reduceWrapper op datatype count

/-- `MPI_Reduce` before the call of `MP_Global`. The root is not used, but there must be a buffer. -/
def mpiReduce (rbuf_null : Bool) (count : ℕ) (datatype : Datatype) (op : MpiOp) :
    Except WrapperStop Wrapper :=
  if rbuf_null then .error .exits else reduceWrapper op datatype count

/-- `MPI_Allgather` before the call of `MP_Global_gather`. -/
def mpiAllgather (myproc sendcount : ℕ) (sendtype recvtype : Datatype) : Except WrapperStop Wrapper :=
  if sendtype ≠ recvtype then .error .exits
  else
    match gatherOpcode sendtype, sendtype.bytesper with
    | some (opcode, factor), some bytes => do
      let offset ← asInt (myproc * factor * sendcount)
      let nbytes ← asInt (sendcount * bytes)
      .ok ⟨opcode, offset, nbytes⟩
    | _, _ => .error .exits

/-! ### What they are for -/

/-- The elements at the start of a buffer, as their bytes. -/
def elements (size n : ℕ) (buf : ℕ → UInt8) : Fin n → Fin size → UInt8 := fun i b => buf (i * size + b)

/-- The buffer with other elements at its start. -/
def putElements {size n : ℕ} (vec : Fin n → Fin size → UInt8) (buf : ℕ → UInt8) : ℕ → UInt8 := fun x =>
  if h : x < n * size then
    vec ⟨x / size, Nat.div_lt_of_lt_mul (Nat.mul_comm n size ▸ h)⟩
      ⟨x % size, Nat.mod_lt _ (Nat.pos_of_lt_mul_left h)⟩
  else buf x

/-- All processes. -/
def MP_all_mask : ℕ → ℤ := fun _ => 1

/-- A call in all processes: what is in their buffers, and the arithmetic. -/
structure ReduceCall (size n : ℕ) where
  arith : Arith (Fin size → UInt8)
  sbuf : ℕ → ℕ → UInt8
  rbuf : ℕ → ℕ → UInt8
  work : ℕ → Fin n → Fin size → UInt8

namespace ReduceCall

variable {size n : ℕ} (c : ReduceCall size n)

/-- The receive buffer after the copy. -/
def copied (nbytes : ℕ) (a : ℕ) : ℕ → UInt8 := blit (c.sbuf a) (c.rbuf a) 0 0 nbytes

/-- The memory with which `MP_Global` starts. -/
def start (nbytes : ℕ) (a : ℕ) : GlobalMem n (Fin size → UInt8) :=
  ⟨elements size n (c.copied nbytes a), c.work a⟩

/-- The receive buffer when the vector is `vec`. -/
def result (nbytes : ℕ) (a : ℕ) (vec : Fin n → Fin size → UInt8) : ℕ → UInt8 :=
  putElements vec (c.copied nbytes a)

end ReduceCall

/-- A state of a run of `MP_Global`: the run can be completed, and when it is, the receive buffers contain
the reduction of the elements, and behind it what they contained before. -/
structure ReduceRun {size n : ℕ} (c : ReduceCall size n) (opcode nbytes nprocs : ℕ)
    (s : Net ℕ Label (GlobalMem n (Fin size → UInt8)) (Fin n → Fin size → UInt8)) : Prop where
  completes : ∃ s', Relation.ReflTransGen (Step Label.Accepts) s s' ∧ ∀ a, (s'.proc a).todo = []
  receives : Std.Commutative (globalOp c.arith opcode) → Std.Associative (globalOp c.arith opcode) →
    (∀ a, (s.proc a).todo = []) → ∀ a < nprocs, ∀ i,
      some (elements size n (c.result nbytes a (s.proc a).mem.vec) i) =
        combine (globalOp c.arith opcode)
          ((List.range nprocs).map fun b => elements size n (c.sbuf b) i)
  same : Std.Commutative (globalOp c.arith opcode) → (∀ a, (s.proc a).todo = []) →
    ∀ a < nprocs, ∀ b < nprocs, (s.proc a).mem.vec = (s.proc b).mem.vec
  keeps : (∀ a, (s.proc a).todo = []) → ∀ a < nprocs, ∀ x, n * size ≤ x →
    c.result nbytes a (s.proc a).mem.vec x = c.rbuf a x

/-- The wrapper copies the elements that `MP_Global` reduces, no more and no less, and all runs do what
they should. -/
structure ReduceExact (opcode nbytes n nprocs : ℕ) : Prop where
  size : nbytes = n * globalBytesPer opcode
  runs : ∀ (c : ReduceCall (globalBytesPer opcode) n) s,
    Relation.ReflTransGen (Step Label.Accepts)
      (init (mpGlobal c.arith opcode n nprocs MP_all_mask) (c.start nbytes)) s →
    ReduceRun c opcode nbytes nprocs s

/-- A state of a run of `MP_Global_gather`, of blocks of `block` bytes. -/
structure GatherRun (block nprocs : ℕ) (sbuf rbuf : ℕ → ℕ → UInt8)
    (s : Net ℕ Label (ℕ → UInt8) (List UInt8)) : Prop where
  completes : ∃ s', Relation.ReflTransGen (Step Label.Accepts) s s' ∧ ∀ a, (s'.proc a).todo = []
  receives : (∀ a, (s.proc a).todo = []) → ∀ a < nprocs, ∀ b < nprocs,
    bytesAt (s.proc a).mem (b * block) block = bytesAt (sbuf b) 0 block
  keeps : (∀ a, (s.proc a).todo = []) → ∀ a < nprocs, ∀ x, nprocs * block ≤ x →
    (s.proc a).mem x = rbuf a x

/-- The wrapper of each process copies its block to its place, and all runs do what they should. -/
structure GatherExact (opcode : ℕ) (offset : ℕ → ℕ) (nbytes n nprocs : ℕ) : Prop where
  size : nbytes = n * gatherBytesPer opcode
  place : ∀ a < nprocs, offset a = a * (n * gatherBytesPer opcode)
  runs : ∀ (sbuf rbuf : ℕ → ℕ → UInt8) s,
    Relation.ReflTransGen (Step Label.Accepts)
      (init (mpGlobalGather opcode n nprocs MP_all_mask)
        fun a => blit (sbuf a) (rbuf a) (offset a) 0 nbytes) s →
    GatherRun (n * gatherBytesPer opcode) nprocs sbuf rbuf s

/-- The functions, with their arguments that are the same in all processes. -/
inductive MpiCollective where
  | allreduce (op : MpiOp)
  | reduce (op : MpiOp)
  | allgather
  deriving DecidableEq, Repr

namespace MpiCollective

/-- The function accepts the datatype. -/
def Accepts (datatype : Datatype) : MpiCollective → Prop
  | allreduce op | reduce op => reduceOpcode op datatype ≠ none
  | allgather => gatherOpcode datatype ≠ none

/-- The call does what it should. -/
def Exact (datatype : Datatype) (count nprocs : ℕ) : MpiCollective → Prop
  | allreduce op => ∃ opcode nbytes,
    mpiAllreduce count datatype op = .ok ⟨opcode, 0, nbytes⟩ ∧ ReduceExact opcode nbytes count nprocs
  | reduce op => ∃ opcode nbytes,
    mpiReduce false count datatype op = .ok ⟨opcode, 0, nbytes⟩ ∧
      ReduceExact opcode nbytes count nprocs
  | allgather => ∃ opcode offset nbytes,
    (∀ a < nprocs, mpiAllgather a count datatype datatype = .ok ⟨opcode, offset a, nbytes⟩) ∧
      GatherExact opcode offset nbytes count nprocs

/-- The bytes that are copied, and the offset in the last process, are `int`s. -/
def Fits (bytes count nprocs : ℕ) : MpiCollective → Prop
  | allreduce _ | reduce _ => count * bytes < 2 ^ 31
  | allgather => count * bytes < 2 ^ 31 ∧ (nprocs - 1) * bytes * count < 2 ^ 31

end MpiCollective

variable {op : MpiOp} {datatype : Datatype} {bytes opcode nbytes count nprocs factor size n : ℕ}
  {offset : ℕ → ℕ}

/-! ### The two sizes -/

namespace MpiCollective

/-- Two processes add one `MPI_INTEGER` each: eight bytes are copied, and four belong to it. -/
theorem not_exact_integer : ¬ (allreduce .sum).Exact .integer 1 2 := by
  rintro ⟨opcode, nbytes, hwrapper, hexact⟩
  cases hwrapper
  exact absurd hexact.size (by decide)

end MpiCollective

end NetPipe.MpLite
