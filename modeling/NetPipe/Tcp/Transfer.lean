import NetPipe.Library.Transfers

/-!
# The transfer loops of NPtcp

`readFully` and `writeFully` of `tcp.c` call `read` and `write` until no byte is missing. A call that
would block counts as no bytes, and so does the end of the stream.
-/

namespace NetPipe.Tcp

open Transfers

/-- `errno` behind a call that has failed. -/
inductive Errno where
  | EWOULDBLOCK
  | other
  deriving DecidableEq, Repr

/-- A process with its socket: the bytes that come in, how many of them were read, and the bytes
written. -/
structure Proc where
  myproc : ℤ
  buflen : ℤ
  mem : ℤ → UInt8
  stream : ℕ → UInt8
  pos : ℕ
  written : List UInt8

/-- A failed `ERRCHECK`, with the numbers of its message. -/
structure Failure where
  text : String
  args : List ℤ
  deriving DecidableEq, Repr

namespace Proc

/-- The next `n` bytes of the stream are stored. -/
def receive (n : ℕ) (ptr : ℤ) (p : Proc) : Proc :=
  { p with
    pos := p.pos + n
    mem := fun a => if ptr ≤ a ∧ a < ptr + n then p.stream (p.pos + (a - ptr).toNat) else p.mem a }

/-- The bytes at an address. -/
def bytesAt (p : Proc) (ptr : ℤ) (n : ℕ) : List UInt8 :=
  (List.range n).map fun i : ℕ => p.mem (ptr + i)

/-- The `n` bytes at `ptr` are written. -/
def emit (n : ℕ) (ptr : ℤ) (p : Proc) : Proc := { p with written := p.written ++ p.bytesAt ptr n }

variable {p : Proc} {ptr : ℤ}

@[simp] lemma receive_zero (ptr : ℤ) (p : Proc) : p.receive 0 ptr = p := by
  have hnot : ∀ a, ¬ (ptr ≤ a ∧ a < ptr) := fun a => by omega
  simp [receive, hnot]

lemma receive_add (a b : ℕ) (ptr : ℤ) (p : Proc) :
    p.receive (a + b) ptr = (p.receive a ptr).receive b (ptr + a) := by
  simp only [receive, Nat.add_assoc]
  congr 1
  funext x
  by_cases h₁ : ptr + a ≤ x ∧ x < ptr + a + b
  · rw [if_pos (by push_cast; omega), if_pos h₁]
    congr 1
    omega
  · rw [if_neg h₁]
    by_cases h₂ : ptr ≤ x ∧ x < ptr + a
    · rw [if_pos (by push_cast; omega), if_pos h₂]
    · rw [if_neg (by push_cast; omega), if_neg h₂]

@[simp] lemma emit_zero (ptr : ℤ) (p : Proc) : p.emit 0 ptr = p := by simp [emit, bytesAt]

lemma emit_add (a b : ℕ) (ptr : ℤ) (p : Proc) :
    p.emit (a + b) ptr = (p.emit a ptr).emit b (ptr + a) := by
  simp [emit, bytesAt, List.range_add, Function.comp_def, add_assoc]

end Proc

/-- Receiving at a pointer that moves along. -/
def reader : Mover (Proc × ℤ) where
  move n s := (s.1.receive n s.2, s.2 + n)
  move_zero s := by simp
  move_add a b s := by simp [Proc.receive_add, add_assoc]

/-- Writing from a pointer that moves along. -/
def writer : Mover (Proc × ℤ) where
  move n s := (s.1.emit n s.2, s.2 + n)
  move_zero s := by simp
  move_add a b s := by simp [Proc.emit_add, add_assoc]

/-! ### The loops -/

/-- A system call: its result and `errno`. A call for `nbytes` bytes moves no more than these. -/
def sysCall (M : Mover (Proc × ℤ)) (a : Answer) (p : Proc) (ptr nbytes : ℤ) : Proc × ℤ × Errno :=
  match a with
  | .count k =>
    ((M.move (min k nbytes.toNat) (p, ptr)).1, ((min k nbytes.toNat : ℕ) : ℤ), Errno.other)
  | .again => (p, -1, Errno.EWOULDBLOCK)
  | .failed => (p, -1, Errno.other)

/-- `read(comm_sd, ptr, nbytes)`. At the end of the stream the answer is a count of 0. -/
def sysRead : Answer → Proc → ℤ → ℤ → Proc × ℤ × Errno := sysCall reader

/-- `write(comm_sd, ptr, nbytes)` -/
def sysWrite : Answer → Proc → ℤ → ℤ → Proc × ℤ × Errno := sysCall writer

/-- `if( bytes < 0 && errno == EWOULDBLOCK ) bytes = 0` -/
def noBlock (bytes : ℤ) (errno : Errno) : ℤ := if bytes < 0 ∧ errno = .EWOULDBLOCK then 0 else bytes

/-- The end of a loop: the process with the answers that are left, or a failed check. -/
abbrev Finish := Except Failure (Proc × (ℕ → Answer))

/-- The loop that `readFully` and `writeFully` both are. -/
def transferFully (call : Answer → Proc → ℤ → ℤ → Proc × ℤ × Errno) (text : String) :
    ℕ → (ℕ → Answer) → Proc → ℤ → ℤ → Option Finish
  | 0, _, _, _, _ => none
  | fuel + 1, ans, p, ptr, nbytes =>
    if nbytes > 0 then
      let (p', result, errno) := call (ans 0) p ptr nbytes
      let bytes := noBlock result errno
      if bytes < 0 then some (.error ⟨text, [p'.myproc, p'.buflen - nbytes, p'.buflen]⟩)
      else transferFully call text fuel (shift ans) p' (ptr + bytes) (nbytes - bytes)
    else some (.ok (p, ans))

/-- `readFully( ptr, nbytes)`, if `fuel` is enough. -/
def readFully : ℕ → (ℕ → Answer) → Proc → ℤ → ℤ → Option Finish :=
  transferFully sysRead "%d read %d of %d"

/-- `writeFully( ptr, nbytes)` -/
def writeFully : ℕ → (ℕ → Answer) → Proc → ℤ → ℤ → Option Finish :=
  transferFully sysWrite "%d write %d of %d"

/-! ### What the loops do -/

variable {M : Mover (Proc × ℤ)} {text : String} {fuel : ℕ} {ans : ℕ → Answer} {p p' : Proc}
  {ptr nbytes : ℤ} {r : Finish}

/-- What a loop returns. -/
def toFinish (text : String) : Result (Proc × ℤ) → Finish
  | .done ans s => .ok (s.1, ans)
  | .failed left s => .error ⟨text, [s.1.myproc, s.1.buflen - left, s.1.buflen]⟩

/-- A mover that moves the pointer along. -/
def Advances (M : Mover (Proc × ℤ)) : Prop := ∀ n p ptr, (M.move n (p, ptr)).2 = ptr + n

lemma advances_reader : Advances reader := fun _ _ _ => rfl

lemma advances_writer : Advances writer := fun _ _ _ => rfl

/-- The loop in the source is the general one. -/
lemma transferFully_eq (hM : Advances M) (fuel : ℕ) (ans : ℕ → Answer) (p : Proc)
    (ptr nbytes : ℤ) : transferFully (sysCall M) text fuel ans p ptr nbytes =
      (loop M fuel ans nbytes.toNat (p, ptr)).map (toFinish text) := by
  induction fuel generalizing ans p ptr nbytes with
  | zero => rfl
  | succ fuel ih =>
    by_cases hpos : nbytes > 0
    swap
    · have hzero : nbytes.toNat = 0 := by omega
      rw [transferFully, if_neg hpos, hzero, loop_zero]
      rfl
    have hn : nbytes.toNat ≠ 0 := by omega
    rw [transferFully, if_pos hpos]
    cases ha : ans 0 with
    | count k =>
      have hbytes : noBlock ((min k nbytes.toNat : ℕ) : ℤ) .other = (min k nbytes.toNat : ℕ) :=
        if_neg (by simp)
      have hleft : (nbytes - ((min k nbytes.toNat : ℕ) : ℤ)).toNat =
          nbytes.toNat - min k nbytes.toNat := by omega
      have hmove : M.move (min k nbytes.toNat) (p, ptr) =
          ((M.move (min k nbytes.toNat) (p, ptr)).1, ptr + (min k nbytes.toNat : ℕ)) :=
        Prod.ext rfl (hM _ _ _)
      simp only [sysCall, hbytes]
      rw [if_neg (by omega), ih, hleft, loop_count hn ha, ← hmove]
    | again =>
      have hbytes : noBlock (-1) .EWOULDBLOCK = 0 := rfl
      simp only [sysCall, hbytes, lt_irrefl, if_false, add_zero, sub_zero]
      rw [ih, loop_again hn ha]
    | failed =>
      have hbytes : noBlock (-1) .other = -1 := rfl
      have hleft : (nbytes.toNat : ℤ) = nbytes := by omega
      simp only [sysCall, hbytes]
      rw [if_pos (by norm_num), loop_failed hn ha, Option.map_some, toFinish, hleft]

/-- The transfer is exact, or the failure of a call is reported. -/
def Reports (M : Mover (Proc × ℤ)) (text : String) (ans : ℕ → Answer) (p : Proc) (ptr nbytes : ℤ) :
    Finish → Prop
  | .ok (p', _) => p' = (M.move nbytes.toNat (p, ptr)).1
  | .error e => e.text = text ∧ ∃ j, ans j = .failed

lemma reports_of_transferFully (hM : Advances M)
    (h : transferFully (sysCall M) text fuel ans p ptr nbytes = some r) :
    Reports M text ans p ptr nbytes r := by
  rw [transferFully_eq hM, Option.map_eq_some_iff] at h
  obtain ⟨res, hres, rfl⟩ := h
  have hexact := exact_of_loop hres
  cases res with
  | done ans' s => exact congrArg Prod.fst hexact
  | failed left s => exact ⟨rfl, hexact.2.2⟩

lemma exists_transferFully_iff (hM : Advances M) :
    (∃ fuel r, transferFully (sysCall M) text fuel ans p ptr nbytes = some r) ↔
      Enough ans nbytes.toNat := by
  rw [← exists_loop_iff (M := M) (s := (p, ptr))]
  simp only [transferFully_eq hM, Option.map_eq_some_iff]
  exact ⟨fun ⟨fuel, r, res, hres, _⟩ => ⟨fuel, res, hres⟩,
    fun ⟨fuel, res, hres⟩ => ⟨fuel, _, res, hres, rfl⟩⟩

/-- A loop reports how it went if and only if the answers are enough. -/
lemma exists_reports_iff (hM : Advances M) :
    (∃ fuel r, transferFully (sysCall M) text fuel ans p ptr nbytes = some r ∧
      Reports M text ans p ptr nbytes r) ↔ Enough ans nbytes.toNat := by
  rw [← exists_transferFully_iff hM]
  constructor
  · rintro ⟨fuel, r, h, -⟩
    exact ⟨fuel, r, h⟩
  · rintro ⟨fuel, r, h⟩
    exact ⟨fuel, r, h, reports_of_transferFully hM h⟩

/-- `readFully` returns with exactly the next `nbytes` bytes of the stream at `ptr` and nothing else
changed, or it reports an error. -/
def ReadsFully (ans : ℕ → Answer) (p : Proc) (ptr nbytes : ℤ) : Prop :=
  ∃ fuel r, readFully fuel ans p ptr nbytes = some r ∧
    match r with
    | .ok (p', _) => p' = p.receive nbytes.toNat ptr
    | .error e => e.text = "%d read %d of %d" ∧ ∃ j, ans j = .failed

/-- `writeFully` returns with exactly the `nbytes` bytes at `ptr` written and nothing else changed, or
it reports an error. -/
def WritesFully (ans : ℕ → Answer) (p : Proc) (ptr nbytes : ℤ) : Prop :=
  ∃ fuel r, writeFully fuel ans p ptr nbytes = some r ∧
    match r with
    | .ok (p', _) => p' = p.emit nbytes.toNat ptr
    | .error e => e.text = "%d write %d of %d" ∧ ∃ j, ans j = .failed

lemma readsFully_iff : ReadsFully ans p ptr nbytes ↔ Enough ans nbytes.toNat :=
  exists_reports_iff advances_reader

lemma writesFully_iff : WritesFully ans p ptr nbytes ↔ Enough ans nbytes.toNat :=
  exists_reports_iff advances_writer

/-- Whatever the socket answers, both loops transfer exactly the bytes or report the failure of a call,
if and only if a call fails or the counts add up to the bytes. -/
theorem transfersFully_iff (ans : ℕ → Answer) (p : Proc) (ptr nbytes : ℤ) :
    (ReadsFully ans p ptr nbytes ↔ Enough ans nbytes.toNat) ∧
      (WritesFully ans p ptr nbytes ↔ Enough ans nbytes.toNat) :=
  ⟨readsFully_iff, writesFully_iff⟩

/-- The peer sends 3 bytes and closes the connection. -/
def closedAfterThree : ℕ → Answer
  | 0 => .count 3
  | _ => .count 0

/-- `readFully` waits for the other 7 bytes of 10 for ever. -/
theorem not_readsFully : ¬ ReadsFully closedAfterThree
    ⟨0, 10, fun _ => 0, fun _ => 0, 0, []⟩ 0 10 := by
  rw [readsFully_iff]
  rintro (⟨j, hj⟩ | ⟨j, hj⟩)
  · cases j <;> cases hj
  · have hsum : ∀ j, ∑ i ∈ Finset.range j, (closedAfterThree i).amount ≤ 3 := by
      intro j
      cases j with
      | zero => simp
      | succ j =>
        rw [sum_shift]
        simp [closedAfterThree, shift, Answer.amount]
    have hten : (10 : ℤ).toNat = 10 := rfl
    have := hsum j
    omega

end NetPipe.Tcp
