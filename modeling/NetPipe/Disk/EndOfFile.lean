import Mathlib
import NetPipe.Driver.Accepted
import NetPipe.Library.Outcome

/-!
# The end of the file

`SendData` of `disk.c` reads or writes the data file in one of ten ways. `fs` keeps what the last call
returned, and when it is zero the global `finished` is set. The loop of `main` does not look at this
variable: it has one of its own with the same name.
-/

namespace NetPipe.Disk

open NetPipe.Args

/-! ### The C library -/

/-- What a call that reads has returned, what it has left of the file, and whether the file has ended before
the data. -/
structure Got where
  fs : ℤ
  file : List UInt8
  ended : Bool

/-- `isspace` -/
def isspace (b : UInt8) : Bool := b = 32 ∨ (9 ≤ b.toNat ∧ b.toNat ≤ 13)

/-- `getc(fd)` -/
def getc : List UInt8 → Got
  | [] => ⟨-1, [], true⟩
  | b :: file => ⟨b.toNat, file, false⟩

/-- `fscanf( fd, "%s\n", cbuf)`. Where the word is stored is not looked at. -/
def scanString (file : List UInt8) : Got :=
  match file.dropWhile isspace with
  | [] => ⟨-1, [], true⟩
  | b :: word => ⟨1, ((b :: word).dropWhile (fun b => !isspace b)).dropWhile isspace, false⟩

/-- `%lf` of the library, on a file that does not begin with white space: whether it has found a number, and
how many bytes it has taken. -/
structure Lf where
  scan : List UInt8 → Bool × ℕ

/-- `fscanf(fd, "%lf\n", &dvar)` -/
def scanDouble (lf : Lf) (file : List UInt8) : Got :=
  match file.dropWhile isspace with
  | [] => ⟨-1, [], true⟩
  | b :: rest =>
    if (lf.scan (b :: rest)).1 then
      ⟨1, ((b :: rest).drop (lf.scan (b :: rest)).2).dropWhile isspace, false⟩
    else ⟨0, (b :: rest).drop (lf.scan (b :: rest)).2, false⟩

/-- `fread( ptr, size, nmemb, fd)`: the number of whole items. -/
def fread (size nmemb : ℕ) (file : List UInt8) : Got :=
  ⟨(min (size * nmemb) file.length / size : ℕ), file.drop (size * nmemb), file.length < size * nmemb⟩

/-! ### The code -/

/-- The variables of a run: `fs`, the global `finished`, what is left of the file, the bytes that the disk
still takes, `ferror( fd )`, and the failure messages. The flag `ended` says that a read has found the end
of the file. -/
structure State where
  fs : ℤ
  finished : Bool
  file : List UInt8
  room : ℕ
  error : Bool
  messages : List (String × List ℤ)
  ended : Bool

/-- The number of times around `for( n = 0; n < nbytes; n += step )`. -/
def rounds (step nbytes : ℤ) : ℕ := ((nbytes + step - 1) / step).toNat

/-- A loop that reads, with the result of the last read in `fs`. -/
def readLoop (read : List UInt8 → Got) : ℕ → State → State
  | 0, s => s
  | n + 1, s =>
    readLoop read n { s with
      fs := (read s.file).fs
      file := (read s.file).file
      ended := s.ended || (read s.file).ended }

/-- `fwrite( ptr, size, nmemb, fd)`, with its number of whole items in `fs`. -/
def fwrite (size nmemb : ℕ) (s : State) : State :=
  { s with
    fs := (min (size * nmemb) s.room / size : ℕ)
    room := s.room - min (size * nmemb) s.room
    error := s.error || s.room < size * nmemb }

/-- A loop that writes. -/
def writeLoop (size : ℕ) : ℕ → State → State
  | 0, s => s
  | n + 1, s => writeLoop size n (fwrite size 1 s)

/-- `if( ferror( fd ) || fs != nbytes )`, with the message and `clearerr( fd )`. -/
def checkCount (text : String) (myproc nbytes : ℤ) (s : State) : State :=
  if s.error ∨ s.fs ≠ nbytes then
    { s with error := false, messages := s.messages ++ [(text, [myproc, nbytes, s.fs])] }
  else s

/-- `if( fs == 0 ) finished = 1` -/
def setFinished (s : State) : State := if s.fs = 0 then { s with finished := true } else s

/-- The branches of `SendData` that read. A character does not go through `fs`. -/
def readData (lf : Lf) (d : DiskVars) (myproc nbytes : ℤ) (s : State) : Except Exit State :=
  match d.iotype with
  | .c => .ok { readLoop getc (rounds 1 nbytes) s with fs := s.fs }
  | .s => .ok (readLoop scanString (rounds d.nchar nbytes) s)
  | .d => .ok (readLoop (scanDouble lf) (rounds 8 nbytes) s)
  | .u => .ok (readLoop (fread 8 1) (rounds 8 nbytes) s)
  | .b =>
    .ok (checkCount "Proc %d failed a read of %d bytes fs=%d\n" myproc nbytes
      (readLoop (fread 1 nbytes.toNat) 1 s))
  | .zero => .error (.errcheck "SendData unknown iofunc %c or iotype %c\n" [114, 48])

/-- The branches that write. The results of `putc` and `fprintf` are not looked at. -/
def writeData (d : DiskVars) (myproc nbytes : ℤ) (s : State) : Except Exit State :=
  match d.iotype with
  | .c => .ok s
  | .s => .ok s
  | .d => .ok s
  | .u => .ok (writeLoop 8 (rounds 8 nbytes) s)
  | .b =>
    .ok (checkCount "Proc %d failed a write of %d bytes fs=%d\n" myproc nbytes
      (fwrite nbytes.toNat 1 s))
  | .zero => .error (.errcheck "SendData unknown iofunc %c or iotype %c\n" [119, 48])

/-- `SendData` -/
def sendData (lf : Lf) (d : DiskVars) (myproc nbytes : ℤ) (s : State) : Except Exit State :=
  if s.fs = 0 then .ok s
  else if d.cpflag ≠ 0 ∨ d.scpflag then
    -- copies of files do not touch the data file, and `--scp` is not finished
    if d.cpflag = 1 ∨ d.cpflag = 2 then .ok s else .error .done
  else (match d.iofunc with
    | .r => readData lf d myproc nbytes s
    | .w => writeData d myproc nbytes s).map setFinished

/-- A test: the number of its size in the run, the size, and the variables before and behind it. -/
structure Test where
  size : ℕ
  nbytes : ℤ
  pre : State
  post : State

/-- The tests of a run, until the process ends. -/
def tests (send : ℤ → State → Except Exit State) : List (ℕ × ℤ) → State → List Test
  | [], _ => []
  | (k, nbytes) :: calls, s =>
    match send nbytes s with
    | .error _ => []
    | .ok s' => ⟨k, nbytes, s, s'⟩ :: tests send calls s'

/-- The calls of `SendData`: `times k` of them for size `k` and those behind it. -/
def callsFrom (times : ℕ → ℕ) : ℕ → List ℤ → List (ℕ × ℤ)
  | _, [] => []
  | k, b :: sizes => List.replicate (times k) (k, b) ++ callsFrom times (k + 1) sizes

/-- A run on the data file: its options, the file or the room on the disk, and the sizes, for each of
which the trials and repeats make some calls. -/
structure Run where
  vars : DiskVars
  data : vars.cpflag = 0 ∧ vars.scpflag = false ∧ vars.iotype ≠ .zero
  nchar_pos : vars.iotype = .s → 1 ≤ vars.nchar
  myproc : ℤ
  lf : Lf
  file : List UInt8
  room : ℕ
  sizes : SizeArgs
  factors_of_2 : Bool
  late : ℤ → Bool
  times : ℕ → ℕ

/-! ### What it is for -/

/-- The words of a file, behind a letter of a word or not. -/
def wordCount : Bool → List UInt8 → ℕ
  | _, [] => 0
  | inWord, b :: file =>
    if isspace b then wordCount false file
    else (if inWord then 0 else 1) + wordCount true file

/-- Each of `n` scans for a number finds something that is not white space. -/
def Scans (lf : Lf) : ℕ → List UInt8 → Prop
  | 0, _ => True
  | n + 1, file => file.dropWhile isspace ≠ [] ∧ Scans lf n (scanDouble lf file).file

namespace Run

/-- The variables before the first test. -/
def init (r : Run) : State := ⟨1, false, r.file, r.room, false, [], false⟩

/-- The sizes that are tested. The condition `! finished` of the loop reads the local variable of `main`, which
`SendData` cannot set, so that they do not depend on the file. -/
def tested (r : Run) : List ℤ := (schedule r.sizes r.factors_of_2 r.late).flatMap Centre.buflens

/-- All tests of a run. -/
def steps (r : Run) : List Test :=
  tests (sendData r.lf r.vars r.myproc) (callsFrom r.times 0 r.tested) r.init

/-- The file holds what a test reads. -/
def Holds (r : Run) (nbytes : ℤ) (file : List UInt8) : Prop :=
  match r.vars.iotype with
  | .c => nbytes ≤ file.length
  | .s => rounds r.vars.nchar nbytes ≤ wordCount false file
  | .d => Scans r.lf (rounds 8 nbytes) file
  | .u => 8 * rounds 8 nbytes ≤ file.length
  | .b => nbytes ≤ file.length
  | .zero => True

/-- The test transfers its full byte count. -/
def Full (r : Run) (nbytes : ℤ) (s : State) : Prop :=
  match r.vars.iofunc, r.vars.iotype with
  | .r, _ => r.Holds nbytes s.file
  | .w, .u => 8 * rounds 8 nbytes ≤ s.room
  | .w, .b => nbytes ≤ s.room
  | .w, _ => True

/-- When the end of the file was found no further size is tested, and a test that transfers its full byte
count prints no failure message. -/
structure Proper (r : Run) : Prop where
  stops : r.vars.iofunc = .r → ∀ t ∈ r.steps, t.post.ended → ∀ t' ∈ r.steps, t'.size ≤ t.size
  quiet : ∀ t ∈ r.steps, r.Full t.nbytes t.pre → t.post.messages = t.pre.messages

/-- The file holds what is read before the last size, and binary data is written byte by byte. -/
structure Suits (r : Run) : Prop where
  reads : r.vars.iofunc = .r → ∀ t ∈ r.steps, (∃ t' ∈ r.steps, t.size < t'.size) →
    t.pre.fs = 0 ∨ r.Holds t.nbytes t.pre.file
  writes : r.vars.iofunc = .w → r.vars.iotype = .b → ∀ t ∈ r.steps,
    t.pre.fs = 0 ∨ (t.nbytes ≤ t.pre.room → t.nbytes = 1)

end Run

/-! ### The loops that read -/

variable {read : List UInt8 → Got} {lf : Lf} {d : DiskVars} {myproc nbytes : ℤ} {s s' : State}
  {n : ℕ} {file : List UInt8} {r : Run}

/-- One of `n` reads finds the end of the file. -/
def runsOut (read : List UInt8 → Got) : ℕ → List UInt8 → Bool
  | 0, _ => false
  | n + 1, file => (read file).ended || runsOut read n (read file).file

lemma readLoop_ended (read : List UInt8 → Got) (n : ℕ) (s : State) :
    (readLoop read n s).ended = (s.ended || runsOut read n s.file) := by
  induction n generalizing s with
  | zero => simp [readLoop, runsOut]
  | succ n ih => rw [readLoop, ih, runsOut, Bool.or_assoc]

/-- A loop that reads leaves the rest alone. -/
lemma readLoop_rest (read : List UInt8 → Got) (n : ℕ) (s : State) :
    (readLoop read n s).error = s.error ∧ (readLoop read n s).messages = s.messages := by
  induction n generalizing s with
  | zero => exact ⟨rfl, rfl⟩
  | succ n ih => exact ih _

lemma runsOut_getc (n : ℕ) (file : List UInt8) : runsOut getc n file = true ↔ file.length < n := by
  induction n generalizing file with
  | zero => simp [runsOut]
  | succ n ih =>
    cases file with
    | nil => simp [runsOut, getc]
    | cons b file => simp [runsOut, getc, ih]

lemma runsOut_fread (n : ℕ) (file : List UInt8) :
    runsOut (fread 8 1) n file = true ↔ file.length < 8 * n := by
  induction n generalizing file with
  | zero => simp [runsOut]
  | succ n ih =>
    rw [runsOut, Bool.or_eq_true, ih]
    simp only [fread, mul_one, decide_eq_true_eq, List.length_drop]
    omega

lemma wordCount_dropSpace (file : List UInt8) :
    wordCount false (file.dropWhile isspace) = wordCount false file := by
  induction file with
  | nil => rfl
  | cons b file ih =>
    cases hb : isspace b with
    | true => rw [List.dropWhile_cons_of_pos hb, ih, wordCount, if_pos hb]
    | false => rw [List.dropWhile_cons_of_neg (by simp [hb])]

lemma wordCount_dropWord (file : List UInt8) :
    wordCount false (file.dropWhile fun b => !isspace b) = wordCount true file := by
  induction file with
  | nil => rfl
  | cons b file ih =>
    cases hb : isspace b with
    | true => simp [wordCount, hb]
    | false => simp [wordCount, hb, ih]

lemma runsOut_scanString (n : ℕ) (file : List UInt8) :
    runsOut scanString n file = true ↔ wordCount false file < n := by
  induction n generalizing file with
  | zero => simp [runsOut]
  | succ n ih =>
    cases hfile : file.dropWhile isspace with
    | nil =>
      have hzero : wordCount false file = 0 := by
        rw [← wordCount_dropSpace, hfile]
        rfl
      have hgot : scanString file = ⟨-1, [], true⟩ := by rw [scanString, hfile]
      rw [runsOut, hgot, hzero]
      simp
    | cons b word =>
      have hb : isspace b = false := by
        have := List.head?_dropWhile_not isspace file
        rw [hfile] at this
        simpa using this
      have hgot : scanString file =
          ⟨1, ((b :: word).dropWhile fun b => !isspace b).dropWhile isspace, false⟩ := by
        rw [scanString, hfile]
      have hcount : wordCount false file =
          1 + wordCount false (((b :: word).dropWhile fun b => !isspace b).dropWhile isspace) := by
        rw [wordCount_dropSpace, wordCount_dropWord, ← wordCount_dropSpace, hfile, wordCount,
          wordCount]
        simp [hb]
      rw [runsOut, hgot, hcount, Bool.false_or, ih]
      dsimp only
      omega

lemma runsOut_scanDouble (lf : Lf) (n : ℕ) (file : List UInt8) :
    runsOut (scanDouble lf) n file = true ↔ ¬ Scans lf n file := by
  induction n generalizing file with
  | zero => simp [runsOut, Scans]
  | succ n ih =>
    have hended : (scanDouble lf file).ended = true ↔ file.dropWhile isspace = [] := by
      rw [scanDouble]
      cases file.dropWhile isspace with
      | nil => simp
      | cons b rest =>
        dsimp only
        split_ifs <;> simp
    rw [runsOut, Bool.or_eq_true, hended, ih, Scans, not_and_or, not_not]

/-! ### A call of SendData -/

lemma rounds_of_le {step m : ℤ} (hstep : 1 ≤ step) (hm : m ≤ 0) : rounds step m = 0 := by
  have hdiv : (m + step - 1) / step < 1 := by
    rw [Int.ediv_lt_iff_lt_mul (by omega)]
    omega
  rw [rounds]
  omega

lemma rounds_of_pos {step m : ℤ} (hstep : 1 ≤ step) (hm : 0 < m) :
    rounds step m = rounds step (m - step) + 1 := by
  have hthis : m + step - 1 = m - 1 + step * 1 := by ring
  have hrest : m - step + step - 1 = m - 1 := by ring
  have hnonneg : 0 ≤ (m - 1) / step := Int.ediv_nonneg (by omega) (by omega)
  rw [rounds, rounds, hthis, hrest, Int.add_mul_ediv_left _ _ (by omega)]
  omega

/-- The loop over the records goes around as often as it says. -/
lemma exists_recordLoop_eq {step : ℤ} (hstep : 1 ≤ step) (nbytes : ℤ) :
    ∃ fuel, recordLoop step nbytes fuel 0 = some (rounds step nbytes) := by
  have hgen : ∀ (fuel : ℕ) (n : ℤ), nbytes - n < fuel →
      recordLoop step nbytes (fuel + 1) n = some (rounds step (nbytes - n)) := by
    intro fuel
    induction fuel with
    | zero =>
      intro n hn
      have hle : nbytes - n ≤ 0 := by
        push_cast at hn
        omega
      rw [recordLoop, if_neg (by omega), rounds_of_le hstep hle]
    | succ fuel ih =>
      intro n hn
      push_cast at hn
      rw [recordLoop]
      split_ifs with hlt
      · rw [ih (n + step) (by omega), rounds_of_pos hstep (m := nbytes - n) (by omega),
          Option.map_some, sub_sub]
      · rw [rounds_of_le hstep (by omega)]
  refine ⟨nbytes.toNat + 2, ?_⟩
  rw [hgen (nbytes.toNat + 1) 0 (by push_cast; omega), sub_zero]

lemma rounds_one (nbytes : ℤ) : rounds 1 nbytes = nbytes.toNat := by simp [rounds]

lemma checkCount_ended (text : String) (myproc nbytes : ℤ) (s : State) :
    (checkCount text myproc nbytes s).ended = s.ended := by
  rw [checkCount]
  split_ifs <;> rfl

lemma setFinished_same (s : State) : (setFinished s).ended = s.ended ∧
    (setFinished s).messages = s.messages ∧ (setFinished s).error = s.error := by
  rw [setFinished]
  split_ifs <;> exact ⟨rfl, rfl, rfl⟩

/-- A test finds the end of the file if and only if the file does not hold what it reads. -/
lemma readData_ended (h : readData r.lf r.vars myproc nbytes s = .ok s') :
    s'.ended = true ↔ s.ended = true ∨ ¬ r.Holds nbytes s.file := by
  rw [readData] at h
  rw [Run.Holds]
  cases htype : r.vars.iotype <;> simp only [htype] at h ⊢ <;> cases h
  case c =>
    change (readLoop getc (rounds 1 nbytes) s).ended = true ↔ _
    rw [readLoop_ended, Bool.or_eq_true, runsOut_getc, rounds_one]
    exact or_congr_right (by omega)
  case s => rw [readLoop_ended, Bool.or_eq_true, runsOut_scanString, not_le]
  case d => rw [readLoop_ended, Bool.or_eq_true, runsOut_scanDouble]
  case u => rw [readLoop_ended, Bool.or_eq_true, runsOut_fread, not_le]
  case b =>
    rw [checkCount_ended, readLoop_ended, runsOut, runsOut, Bool.or_false, Bool.or_eq_true]
    simp only [fread, one_mul, decide_eq_true_eq]
    exact or_congr_right (by omega)

/-- A call does nothing, or it reads or writes. -/
lemma sendData_cases (h : sendData r.lf r.vars r.myproc nbytes s = .ok s') :
    s.fs = 0 ∧ s' = s ∨ s.fs ≠ 0 ∧ ∃ u, s' = setFinished u ∧
      (r.vars.iofunc = .r ∧ readData r.lf r.vars r.myproc nbytes s = .ok u ∨
        r.vars.iofunc = .w ∧ writeData r.vars r.myproc nbytes s = .ok u) := by
  have hcopy : ¬ (r.vars.cpflag ≠ 0 ∨ r.vars.scpflag) := by simp [r.data.1, r.data.2.1]
  rw [sendData, if_neg hcopy] at h
  rcases ite_cases h with ⟨hfs, h⟩ | ⟨hfs, h⟩
  · cases h
    exact .inl ⟨hfs, rfl⟩
  · obtain ⟨u, hu, rfl⟩ := Outcome.map_eq_ok.mp h
    refine .inr ⟨hfs, u, rfl, ?_⟩
    cases hfunc : r.vars.iofunc with
    | r =>
      rw [hfunc] at hu
      exact .inl ⟨rfl, hu⟩
    | w =>
      rw [hfunc] at hu
      exact .inr ⟨rfl, hu⟩

lemma sendData_ended (hfunc : r.vars.iofunc = .r)
    (h : sendData r.lf r.vars r.myproc nbytes s = .ok s') :
    s'.ended = true ↔ s.ended = true ∨ s.fs ≠ 0 ∧ ¬ r.Holds nbytes s.file := by
  rcases sendData_cases h with ⟨hfs, rfl⟩ | ⟨hfs, u, rfl, ⟨-, hread⟩ | ⟨hw, -⟩⟩
  · simp [hfs]
  · rw [(setFinished_same u).1, readData_ended hread]
    simp [hfs]
  · rw [hfunc] at hw
    cases hw

lemma checkCount_error (text : String) (myproc nbytes : ℤ) (s : State) :
    (checkCount text myproc nbytes s).error = false := by
  rw [checkCount]
  split_ifs with h
  · rfl
  · rw [not_or, Bool.not_eq_true] at h
    exact h.1

lemma checkCount_messages_iff (text : String) (myproc nbytes : ℤ) (s : State) :
    (checkCount text myproc nbytes s).messages = s.messages ↔ s.error = false ∧ s.fs = nbytes := by
  rw [checkCount]
  split_ifs with h
  · refine iff_of_false (by simp) ?_
    rintro ⟨herror, hfs⟩
    rw [herror] at h
    exact h.elim Bool.false_ne_true fun hne => hne hfs
  · rw [not_or, Bool.not_eq_true, not_not] at h
    exact iff_of_true rfl h

/-- Binary data leaves no error indicator behind. -/
lemma sendData_error (htype : r.vars.iotype = .b) (hs : s.error = false)
    (h : sendData r.lf r.vars r.myproc nbytes s = .ok s') : s'.error = false := by
  rcases sendData_cases h with ⟨-, rfl⟩ | ⟨-, u, rfl, ⟨-, hdata⟩ | ⟨-, hdata⟩⟩
  · exact hs
  · rw [readData, htype] at hdata
    cases hdata
    rw [(setFinished_same _).2.2, checkCount_error]
  · rw [writeData, htype] at hdata
    cases hdata
    rw [(setFinished_same _).2.2, checkCount_error]

lemma writeLoop_messages (size n : ℕ) (s : State) : (writeLoop size n s).messages = s.messages := by
  induction n generalizing s with
  | zero => rfl
  | succ n ih => exact ih _

/-- A full read of binary data is quiet, and a read of another type is always. -/
lemma readData_messages (herror : r.vars.iotype = .b → s.error = false) (hpos : 0 ≤ nbytes)
    (hfull : r.Holds nbytes s.file) (h : readData r.lf r.vars myproc nbytes s = .ok s') :
    s'.messages = s.messages := by
  rw [readData] at h
  rw [Run.Holds] at hfull
  cases htype : r.vars.iotype <;> simp only [htype] at h hfull <;> cases h
  case c => exact (readLoop_rest _ _ _).2
  case s => exact (readLoop_rest _ _ _).2
  case d => exact (readLoop_rest _ _ _).2
  case u => exact (readLoop_rest _ _ _).2
  case b =>
    have hrest := readLoop_rest (fread 1 nbytes.toNat) 1 s
    have hmin : min nbytes.toNat s.file.length = nbytes.toNat := by omega
    rw [← hrest.2, checkCount_messages_iff, hrest.1]
    refine ⟨herror htype, ?_⟩
    simp only [readLoop, fread, one_mul, Nat.div_one, hmin]
    omega

/-- Writes are quiet, but a full write of binary data is only if it is a single byte. -/
lemma writeData_messages (herror : r.vars.iotype = .b → s.error = false) (hpos : 1 ≤ nbytes)
    (hfull : r.vars.iotype = .b → nbytes ≤ s.room)
    (h : writeData r.vars myproc nbytes s = .ok s') :
    s'.messages = s.messages ↔ (r.vars.iotype = .b → nbytes = 1) := by
  rw [writeData] at h
  cases htype : r.vars.iotype <;> simp only [htype] at h <;> cases h
  case c => simp
  case s => simp
  case d => simp
  case u => simp [writeLoop_messages]
  case b =>
    have hroom : nbytes ≤ s.room := hfull htype
    have hmin : min nbytes.toNat s.room = nbytes.toNat := by omega
    have hfs : (fwrite nbytes.toNat 1 s).fs = 1 := by
      simp only [fwrite, mul_one, hmin]
      rw [Nat.div_self (by omega)]
      rfl
    have herr : (fwrite nbytes.toNat 1 s).error = false := by
      simp only [fwrite, mul_one, herror htype, Bool.false_or, decide_eq_false_iff_not]
      omega
    change (checkCount _ _ _ (fwrite nbytes.toNat 1 s)).messages =
      (fwrite nbytes.toNat 1 s).messages ↔ _
    rw [checkCount_messages_iff, hfs]
    simp [herr, eq_comm]

/-! ### The run -/

section Tests

variable {send : ℤ → State → Except Exit State} {calls : List (ℕ × ℤ)} {t : Test}

/-- The first test and the others. -/
lemma mem_tests_cons {c : ℕ × ℤ} : t ∈ tests send (c :: calls) s ↔ ∃ s', send c.2 s = .ok s' ∧
    (t = ⟨c.1, c.2, s, s'⟩ ∨ t ∈ tests send calls s') := by
  rw [tests]
  cases send c.2 s <;> simp

lemma mem_tests (h : t ∈ tests send calls s) :
    (t.size, t.nbytes) ∈ calls ∧ send t.nbytes t.pre = .ok t.post := by
  induction calls generalizing s with
  | nil => cases h
  | cons c calls ih =>
    obtain ⟨s', hsend, rfl | h⟩ := mem_tests_cons.mp h
    · exact ⟨List.mem_cons_self, hsend⟩
    · exact ⟨List.mem_cons_of_mem _ (ih h).1, (ih h).2⟩

/-- What every call keeps holds before every test. -/
lemma tests_induction {P : State → Prop} (hstep : ∀ nbytes s s', P s → send nbytes s = .ok s' → P s')
    (hs : P s) (h : t ∈ tests send calls s) : P t.pre := by
  induction calls generalizing s with
  | nil => cases h
  | cons c calls ih =>
    obtain ⟨s', hsend, rfl | h⟩ := mem_tests_cons.mp h
    · exact hs
    · exact ih (hstep _ _ _ hs hsend) h

/-- The end of the file was found in a test of this size or of one before. -/
lemma exists_first (hcalls : calls.Pairwise fun c c' => c.1 ≤ c'.1) (hs : s.ended = false)
    (h : t ∈ tests send calls s) (hended : t.post.ended = true) :
    ∃ t₀ ∈ tests send calls s, t₀.size ≤ t.size ∧ t₀.pre.ended = false ∧ t₀.post.ended = true := by
  induction calls generalizing s with
  | nil => cases h
  | cons c calls ih =>
    obtain ⟨hle, hcalls⟩ := List.pairwise_cons.mp hcalls
    obtain ⟨s', hsend, h⟩ := mem_tests_cons.mp h
    cases hs' : s'.ended with
    | true =>
      refine ⟨⟨c.1, c.2, s, s'⟩, mem_tests_cons.mpr ⟨s', hsend, .inl rfl⟩, ?_, hs, hs'⟩
      rcases h with rfl | h
      · exact le_rfl
      · exact hle _ (mem_tests h).1
    | false =>
      rcases h with rfl | h
      · rw [hs'] at hended
        cases hended
      · obtain ⟨t₀, hmem, hfirst⟩ := ih hcalls hs' h
        exact ⟨t₀, mem_tests_cons.mpr ⟨s', hsend, .inr hmem⟩, hfirst⟩

end Tests

lemma le_of_mem_callsFrom {times : ℕ → ℕ} {sizes : List ℤ} {k : ℕ} {c : ℕ × ℤ}
    (h : c ∈ callsFrom times k sizes) : k ≤ c.1 ∧ c.2 ∈ sizes := by
  induction sizes generalizing k with
  | nil => cases h
  | cons b sizes ih =>
    rcases List.mem_append.mp h with h | h
    · rw [List.eq_of_mem_replicate h]
      exact ⟨le_rfl, List.mem_cons_self⟩
    · obtain ⟨hk, hmem⟩ := ih h
      exact ⟨by omega, List.mem_cons_of_mem _ hmem⟩

lemma pairwise_callsFrom (times : ℕ → ℕ) (k : ℕ) (sizes : List ℤ) :
    (callsFrom times k sizes).Pairwise fun c c' => c.1 ≤ c'.1 := by
  induction sizes generalizing k with
  | nil => exact List.Pairwise.nil
  | cons b sizes ih =>
    rw [callsFrom, List.pairwise_append]
    refine ⟨?_, ih (k + 1), fun c hc c' hc' => ?_⟩
    · rw [List.pairwise_replicate]
      exact .inr le_rfl
    · rw [List.eq_of_mem_replicate hc]
      have := (le_of_mem_callsFrom hc').1
      dsimp only
      omega

namespace Run

variable {t : Test}

lemma step_of_mem (h : t ∈ r.steps) : sendData r.lf r.vars r.myproc t.nbytes t.pre = .ok t.post :=
  (mem_tests h).2

lemma one_le_nbytes (h : t ∈ r.steps) : 1 ≤ t.nbytes := by
  have hmem := (le_of_mem_callsFrom (mem_tests h).1).2
  obtain ⟨c, hc, hb⟩ := List.mem_flatMap.mp hmem
  exact one_le_of_mem_schedule hc hb

lemma error_of_mem (h : t ∈ r.steps) (htype : r.vars.iotype = .b) : t.pre.error = false :=
  tests_induction (P := fun s => s.error = false) (fun _ _ _ => sendData_error htype) rfl h

/-- No further size is tested if and only if the file holds what is read before the last size. -/
lemma stops_iff (hfunc : r.vars.iofunc = .r) :
    (∀ t ∈ r.steps, t.post.ended → ∀ t' ∈ r.steps, t'.size ≤ t.size) ↔
      ∀ t ∈ r.steps, (∃ t' ∈ r.steps, t.size < t'.size) →
        t.pre.fs = 0 ∨ r.Holds t.nbytes t.pre.file := by
  constructor
  · rintro hstops t ht ⟨t', ht', hlt⟩
    by_contra hout
    rw [not_or] at hout
    have hended := (sendData_ended hfunc (step_of_mem ht)).mpr (.inr hout)
    exact absurd (hstops t ht hended t' ht') (not_le.mpr hlt)
  · intro hholds t ht hended t' ht'
    by_contra hlt
    rw [not_le] at hlt
    obtain ⟨t₀, ht₀, hle, hpre, hpost⟩ :=
      exists_first (pairwise_callsFrom r.times 0 r.tested) rfl ht hended
    rcases (sendData_ended hfunc (step_of_mem ht₀)).mp hpost with hbefore | ⟨hfs, hout⟩
    · rw [hpre] at hbefore
      cases hbefore
    · rcases hholds t₀ ht₀ ⟨t', ht', hle.trans_lt hlt⟩ with hzero | hin
      · exact hfs hzero
      · exact hout hin

/-- The tests of a run that reads print nothing when they read all. -/
lemma quiet_of_reads (hfunc : r.vars.iofunc = .r) (ht : t ∈ r.steps)
    (hfull : r.Full t.nbytes t.pre) : t.post.messages = t.pre.messages := by
  rw [Full, hfunc] at hfull
  rcases sendData_cases (step_of_mem ht) with ⟨-, hpost⟩ | ⟨-, u, hpost, ⟨-, hread⟩ | ⟨hw, -⟩⟩
  · rw [hpost]
  · rw [hpost, (setFinished_same u).2.1]
    have hpos := one_le_nbytes ht
    exact readData_messages (error_of_mem ht) (by omega) hfull hread
  · rw [hfunc] at hw
    cases hw

/-- Those of a run that writes do if and only if no binary data is written but single bytes. -/
lemma quiet_iff_of_writes (hfunc : r.vars.iofunc = .w) (ht : t ∈ r.steps) :
    (r.Full t.nbytes t.pre → t.post.messages = t.pre.messages) ↔
      (r.vars.iotype = .b → t.pre.fs = 0 ∨ (t.nbytes ≤ t.pre.room → t.nbytes = 1)) := by
  have hpos := one_le_nbytes ht
  rcases sendData_cases (step_of_mem ht) with ⟨hfs, hpost⟩ | ⟨hfs, u, hpost, ⟨hread, -⟩ | ⟨-, hwrite⟩⟩
  · exact iff_of_true (fun _ => by rw [hpost]) fun _ => .inl hfs
  · rw [hfunc] at hread
    cases hread
  · rw [hpost, (setFinished_same u).2.1]
    by_cases htype : r.vars.iotype = .b
    · have hfull : r.Full t.nbytes t.pre ↔ t.nbytes ≤ t.pre.room := by rw [Full, hfunc, htype]
      rw [hfull]
      simp only [htype, hfs, false_or, true_imp_iff]
      refine imp_congr_right fun hroom => ?_
      rw [writeData_messages (error_of_mem ht) hpos (fun _ => hroom) hwrite]
      simp [htype]
    · refine iff_of_true (fun _ => ?_) fun h => absurd h htype
      rw [writeData_messages (fun h => absurd h htype) hpos (fun h => absurd h htype) hwrite]
      exact fun h => absurd h htype

/-- A run is proper if and only if its file holds what is read before the last size, and binary data is
written in sizes of one byte only. -/
theorem proper_iff_suits (r : Run) : r.Proper ↔ r.Suits := by
  cases hfunc : r.vars.iofunc with
  | r =>
    constructor
    · intro h
      refine ⟨fun hr => (stops_iff hr).mp (h.stops hr), fun hw => ?_⟩
      rw [hfunc] at hw
      cases hw
    · intro h
      exact ⟨fun hr => (stops_iff hr).mpr (h.reads hr), fun t ht => quiet_of_reads hfunc ht⟩
  | w =>
    constructor
    · intro h
      refine ⟨fun hr => ?_, fun hw htype t ht => ?_⟩
      · rw [hfunc] at hr
        cases hr
      · exact (quiet_iff_of_writes hw ht).mp (h.quiet t ht) htype
    · intro h
      refine ⟨fun hr => ?_, fun t ht => ?_⟩
      · rw [hfunc] at hr
        cases hr
      · exact (quiet_iff_of_writes hfunc ht).mpr fun htype => h.writes hfunc htype t ht

lemma emptyFile_start : (1 : ℤ) ≤ 1 := le_rfl

/-- `NPdisk --read --end 2` on an empty file. -/
def emptyFile : Run where
  vars := ⟨.r, .c, "npdisk.out", "", 0, false, 0, false, false, 0⟩
  data := ⟨rfl, rfl, by decide⟩
  nchar_pos := by decide
  myproc := 0
  lf := ⟨fun _ => (false, 0)⟩
  file := []
  room := 0
  sizes := ⟨1, 2, 0, emptyFile_start, by norm_num⟩
  factors_of_2 := false
  late _ := false
  times _ := 1

/-- The first size finds the end of the file, and the second is tested. -/
theorem not_proper_emptyFile : ¬ emptyFile.Proper := by
  have htested : emptyFile.tested = [1, 2] := by
    have hperts : ∀ inc, perts 0 inc = [0] := fun inc => perts_eq le_rfl inc
    rw [tested, emptyFile, schedule, mainLoop, if_neg (by simp [Loop.next, Loop.init, Loop.newInc]),
      mainLoop, if_pos (by simp [Loop.next, Loop.init, Loop.newInc, hperts])]
    simp [Loop.centre, Loop.next, Loop.init, Loop.newInc, hperts]
  have hsteps : emptyFile.steps =
      tests (sendData emptyFile.lf emptyFile.vars emptyFile.myproc) [(0, 1), (1, 2)] emptyFile.init := by
    rw [steps, htested]
    rfl
  intro h
  have hstops := h.stops rfl
  rw [hsteps] at hstops
  exact absurd (hstops _ (.head _) rfl _ (.tail _ (.head _))) (by decide)

end Run

end NetPipe.Disk
