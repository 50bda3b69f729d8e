import NetPipe.MpLite.Engine
import NetPipe.MpLite.MpiOneSided

/-!
# One-sided messages

What goes over the one-sided sockets: the headers with `dest_ptr`, the entry of a message that is
being received, and `do_accum_op`.
-/

namespace NetPipe.MpLite

/-! ### Headers -/

/-- The `n` bytes of a number, least significant first. -/
def leBytes (n x : ℕ) : List UInt8 := (List.range n).map fun i => UInt8.ofNat (x / 256 ^ i % 256)

/-- A number from its bytes. -/
def leNat (bytes : List UInt8) : ℕ := bytes.foldr (fun b x => b.toNat + 256 * x) 0

/-- `struct MP_msg_header`. The senders fill the `int`s with numbers that are not negative. -/
structure OsHeader where
  nbytes : ℕ
  src : ℕ
  tag : ℕ
  dest_ptr : ℕ
  deriving DecidableEq, Repr

/-- The bytes of a header, with the padding before the pointer. -/
def OsHeader.bytes (h : OsHeader) : List UInt8 :=
  leBytes 4 h.nbytes ++ leBytes 4 h.src ++ leBytes 4 h.tag ++ leBytes 4 0 ++ leBytes 8 h.dest_ptr

/-- A header from its bytes. -/
def parseOsHeader (bytes : List UInt8) : OsHeader :=
  ⟨leNat (bytes.take 4), leNat ((bytes.drop 4).take 4), leNat ((bytes.drop 8).take 4),
    leNat ((bytes.drop 16).take 8)⟩

/-- A header with its message. -/
structure OsFrame where
  header : OsHeader
  body : List UInt8
  deriving DecidableEq, Repr

/-- The bytes on the socket. -/
def OsFrame.bytes (f : OsFrame) : List UInt8 := f.header.bytes ++ f.body

/-! ### Entries -/

/-- The objects that a message is read into: the memory of the process with its windows and
buffers, the static variables of the handlers, and the local array of a call of
`recv_active_target_sync`. -/
inductive Storage where
  | memory
  | get_hdr
  | lock_hdr
  | idata
  | fdata
  | ddata
  | active_targ_hdr (call : ℕ)
  deriving DecidableEq, Repr

/-- The part of `struct MP_msg_entry` that a one-sided message uses while it is received. A pointer
is an object and an offset, for the memory the address. -/
structure OsEntry where
  nbytes : ℕ
  src : ℕ
  tag : ℕ
  dest_ptr : ℕ
  buf : Storage × ℕ
  ptr : Storage × ℕ
  phdr : ℕ
  nleft : ℕ
  nbl : ℕ
  nhdr : ℕ
  deriving DecidableEq, Repr

/-- `create_os_msg_entry` for a receive. -/
def createOsMsgEntry (dest_ptr : ℕ) (buf : Storage × ℕ) (nbytes src tag : ℕ) : OsEntry where
  nbytes := nbytes
  src := src
  tag := tag
  dest_ptr := dest_ptr
  buf := buf
  ptr := buf
  phdr := 0
  nleft := nbytes + hdrSize
  nbl := nbytes
  nhdr := hdrSize

/-- `update_msg_progress`, when `n` bytes were read. -/
def OsEntry.updateProgress (n : ℕ) (msg : OsEntry) : OsEntry :=
  let msg := { msg with nleft := msg.nleft - n }
  if msg.nhdr > 0 then { msg with nhdr := msg.nhdr - n, phdr := msg.phdr + n }
  else { msg with nbl := msg.nbl - n, ptr := (msg.ptr.1, msg.ptr.2 + n) }

/-! ### Memory -/

/-- Bytes are written from address `a` on. -/
def storeBytes (a : ℕ) (bytes : List UInt8) (m : ℕ → UInt8) : ℕ → UInt8 := fun x =>
  if a ≤ x ∧ x < a + bytes.length then bytes.getD (x - a) 0 else m x

/-! ### Accumulate -/

/-- The arithmetic of the machine on the bytes of a `float` and of a `double`. -/
structure FloatOps where
  addFloat : List UInt8 → List UInt8 → List UInt8
  gtFloat : List UInt8 → List UInt8 → Bool
  addDouble : List UInt8 → List UInt8 → List UInt8
  gtDouble : List UInt8 → List UInt8 → Bool

/-- An arithmetic for runs without floating-point numbers. -/
def FloatOps.none : FloatOps := ⟨fun a _ => a, fun _ _ => false, fun a _ => a, fun _ _ => false⟩

/-- The element that `do_accum_op` leaves, from the local and the new one. -/
def accumElement (fl : FloatOps) (op : ℕ) (loc new : List UInt8) : List UInt8 :=
  match op with
  | 0 => fl.addDouble loc new
  | 1 => le32 (int32 loc + int32 new)
  | 2 => fl.addFloat loc new
  | 3 => if fl.gtDouble new loc then new else loc
  | 4 => if int32 new > int32 loc then new else loc
  | 5 => if fl.gtFloat new loc then new else loc
  | 6 => if fl.gtDouble loc new then new else loc
  | 7 => if int32 new < int32 loc then new else loc
  | 8 => if fl.gtFloat loc new then new else loc
  | _ => new

/-- `do_accum_op` for the element at address `a`. -/
def accumAt (fl : FloatOps) (op a : ℕ) (new : List UInt8) (m : ℕ → UInt8) : ℕ → UInt8 :=
  storeBytes a (accumElement fl op (bytesAt m a (accumSize op)) new) m

/-- The loop of `do_accum_op` over `n` elements. -/
def accumLoop (fl : FloatOps) (op dest : ℕ) (new : List UInt8) (n : ℕ) (m : ℕ → UInt8) :
    ℕ → UInt8 :=
  (List.range n).foldl (fun m i => accumAt fl op (dest + i * accumSize op)
    ((new.drop (i * accumSize op)).take (accumSize op)) m) m

/-- `do_accum_op`. It stops the program if the elements do not fill the bytes, and on an operation
that it does not know. -/
def doAccumOp (fl : FloatOps) (dest : ℕ) (new : List UInt8) (op nbytes : ℕ) (m : ℕ → UInt8) :
    Option (ℕ → UInt8) :=
  if nbytes % accumSize op ≠ 0 then none
  else if op > 11 then none
  else some (accumLoop fl op dest new (nbytes / accumSize op) m)

end NetPipe.MpLite
