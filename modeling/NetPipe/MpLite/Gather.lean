import NetPipe.MpLite.Doubling

/-!
# `MP_Global_gather`

Each of the `nvprocs` processes starts with its block of a vector of `nvprocs` blocks. Before step `k`
of the loop a process has the blocks of its group of `2 ^ k` processes, of which the last one may be
incomplete.
-/

namespace NetPipe.MpLite

open NetPipe.Exchange NetPipe.Blocks

/-- `bytes_per` of `MP_Global_gather`. -/
def gatherBytesPer (opType : ℤ) : ℕ :=
  if opType = 0 then 8 else if opType = 1 then 4 else if opType = 2 then 4 else 1

/-- `snd_fct` for `i = myvproc` and `rcv_fct` for `i = source`: the number of blocks of the group. -/
def gatherFct (nvprocs np i : ℕ) : ℕ :=
  if i + (np - i % np) > nvprocs then nvprocs % np else np

/-- `offset` for `i = myvproc` or `i = source`. -/
def gatherOffset (bytesPer n np i : ℕ) : ℕ := (i - i % np) * bytesPer * n

/-- What `MP_Global_gather` does in a step: it sends the blocks of its group and receives those of
the other one. -/
def gatherStep (bytesPer n nvprocs : ℕ) : Doubling (ℕ → UInt8) (List UInt8) where
  recvLabel k source := ⟨k, 0, gatherFct nvprocs (2 ^ k) source * n * bytesPer⟩
  store k adj bytes vec := storeAt (gatherOffset bytesPer n (2 ^ k) adj) bytes vec
  sendLabel k v := ⟨k, 0, gatherFct nvprocs (2 ^ k) v * n * bytesPer⟩
  data k v vec :=
    bytesAt vec (gatherOffset bytesPer n (2 ^ k) v) (gatherFct nvprocs (2 ^ k) v * n * bytesPer)
  works := []

/-- `MP_Global_gather(vec, n, op_type, mask)` in process `myproc`. -/
def mpGlobalGather (opType : ℤ) (n nprocs : ℕ) (mask : ℕ → ℤ) (myproc : ℕ) : List VecAct :=
  (gatherStep (gatherBytesPer opType) n (globalVproc nprocs mask).length).programs nprocs mask myproc

/-! ### Groups -/

section

variable {bytesPer n N k i j x : ℕ}

end

/-! ### Runs -/

section

variable {bytesPer n nprocs : ℕ} {mask : ℕ → ℤ}

/-- The vector that is gathered: each block is that of its process. -/
def gathered (bytesPer n nprocs : ℕ) (mask : ℕ → ℤ) (start : ℕ → ℕ → UInt8) (x : ℕ) : UInt8 :=
  start ((globalVproc nprocs mask).getD (x / (n * bytesPer)) 0) x

end

end NetPipe.MpLite
