import NetPipe.Library.Posting
import NetPipe.MpLite.Collective

/-!
# `MP_SShift`

Every process passes a buffer to one process and gets one from another, in chunks of `nbmax` bytes.
Before a chunk is sent, its receiver sends a token, by which it says that the receive is posted.
-/

namespace NetPipe.MpLite

open NetPipe.Exchange (Posted)

/-- The bytes of a chunk. -/
def nbmax : ℕ := 1000000

/-- The bytes of the `int` 888. -/
def token : List UInt8 := [120, 3, 0, 0]

/-- The variable `token` and the two buffers of a process. -/
structure ShiftMem where
  token : List UInt8
  buf_out : ℕ → UInt8
  buf_in : ℕ → UInt8

/-- What a process does in `MP_SShift`. -/
abbrev ShiftAct := Posting.Act ℕ Label ShiftMem (List UInt8)

/-- A message of the shift. Each tag is a round of its own. -/
def shiftLabel (tag nbytes : ℕ) : Label := ⟨tag, tag, nbytes⟩

/-- The body of the loop. -/
def sshiftBody (dest src nsize ptr tag : ℕ) : List ShiftAct :=
  [.post ⟨src, shiftLabel (tag + 1) nsize, fun bytes mem =>
      { mem with buf_in := storeAt ptr bytes mem.buf_in }⟩,
    .post ⟨dest, shiftLabel tag 4, fun bytes mem => { mem with token := bytes }⟩,
    .send src (shiftLabel tag 4) fun mem => mem.token,
    .wait dest (shiftLabel tag 4),
    .send dest (shiftLabel (tag + 1) nsize) fun mem => bytesAt mem.buf_out ptr nsize,
    .wait src (shiftLabel (tag + 1) nsize)]

/-- A call in all processes, whose sources and destinations fit together. -/
structure Shift where
  nprocs : ℕ
  nprocs_pos : 1 ≤ nprocs
  nbytes : ℕ
  nbytes_lt : nbytes < 2 ^ 31
  dest : ℕ → ℕ
  src : ℕ → ℕ
  dest_lt : ∀ p < nprocs, dest p < nprocs
  src_lt : ∀ p < nprocs, src p < nprocs
  inverse : ∀ p < nprocs, ∀ q < nprocs, dest p = q ↔ src q = p
  buf_out : ℕ → ℕ → UInt8
  buf_in : ℕ → ℕ → UInt8

namespace Shift

/-- The memory of a process before the call. -/
def start (t : Shift) (p : ℕ) : ShiftMem := ⟨token, t.buf_out p, t.buf_in p⟩

end Shift

/-! ### The loop -/

section

variable {nbytes dest src k n : ℕ}

/-- The number of chunks. -/
def nchunks (nbytes : ℕ) : ℕ := (nbytes + (nbmax - 1)) / nbmax

/-- The size of chunk `k`. -/
def chunkSize (nbytes k : ℕ) : ℕ := min (nbytes - k * nbmax) nbmax

/-- What a process does for chunk `k`. -/
def sshiftChunk (nbytes dest src k : ℕ) : List ShiftAct :=
  sshiftBody dest src (chunkSize nbytes k) (k * nbmax) (11000 + 2 * k)

end

namespace Shift

/-! ### The messages -/

section

variable {t : Shift} {p q k n x : ℕ} {l m : Label}

/-- The label of the token for chunk `k`. -/
def tokenLabel (k : ℕ) : Label := shiftLabel (11000 + 2 * k) 4

/-- The label of chunk `k`. -/
def chunkLabel (nbytes k : ℕ) : Label := shiftLabel (11000 + 2 * k + 1) (chunkSize nbytes k)

lemma round_tokenLabel : (tokenLabel k).round = 11000 + 2 * k := rfl

lemma round_chunkLabel : (chunkLabel n k).round = 11000 + 2 * k + 1 := rfl

/-- The chunk to which a message belongs. -/
def chunkOf (l : Label) : ℕ := l.round / 2 - 5500

/-- A receive accepts the message only that has its label. -/
lemma accepts_iff (hl : l = tokenLabel k ∨ l = chunkLabel n k)
    (hm : m = tokenLabel q ∨ m = chunkLabel n q) : l.Accepts m ↔ l = m := by
  constructor
  · rintro ⟨_, htag⟩
    -- tokens have the even tags and chunks the odd ones
    rcases hl with rfl | rfl
    · rcases hm with rfl | rfl
      · have hround : (tokenLabel q).round = (tokenLabel k).round := htag
        rw [round_tokenLabel, round_tokenLabel] at hround
        rw [show q = k by omega]
      · have hround : (chunkLabel n q).round = (tokenLabel k).round := htag
        rw [round_chunkLabel, round_tokenLabel] at hround
        omega
    · rcases hm with rfl | rfl
      · have hround : (tokenLabel q).round = (chunkLabel n k).round := htag
        rw [round_tokenLabel, round_chunkLabel] at hround
        omega
      · have hround : (chunkLabel n q).round = (chunkLabel n k).round := htag
        rw [round_chunkLabel, round_chunkLabel] at hround
        rw [show q = k by omega]
  · rintro rfl
    exact l.accepts_self

/-- The data of a message. Tokens have the even tags. -/
def msg (t : Shift) (a _b : ℕ) (l : Label) : List UInt8 :=
  if l.round % 2 = 0 then token else bytesAt (t.buf_out a) (chunkOf l * nbmax) l.nbytes

/-- The memory of process `p` when the messages of the receives `R` have arrived. -/
structure Holds (t : Shift) (p : ℕ) (R : List (ℕ × Label)) (mem : ShiftMem) : Prop where
  token : mem.token = token
  buf_out : mem.buf_out = t.buf_out p
  buf_in : ∀ x, mem.buf_in x =
    if (t.src p, chunkLabel t.nbytes (x / nbmax)) ∈ R ∧ x < t.nbytes then t.buf_out (t.src p) x
    else t.buf_in p x

/-- What process `p` does for chunk `k`. -/
def body (t : Shift) (p k : ℕ) : List ShiftAct :=
  if p < t.nprocs then sshiftChunk t.nbytes (t.dest p) (t.src p) k else []

/-- The programs of all processes. -/
def script (t : Shift) (p : ℕ) : List ShiftAct := (List.range (nchunks t.nbytes)).flatMap (t.body p)

end

/-- Two processes that exchange the largest buffers. -/
def largest : Shift where
  nprocs := 2
  nprocs_pos := by decide
  nbytes := 2147483647
  nbytes_lt := by decide
  dest p := 1 - p
  src p := 1 - p
  dest_lt p hp := by omega
  src_lt p hp := by omega
  inverse p hp q hq := by omega
  buf_out _ _ := 0
  buf_in _ _ := 0

end Shift

end NetPipe.MpLite
