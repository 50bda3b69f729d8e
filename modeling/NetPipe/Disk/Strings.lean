import NetPipe.Disk.EndOfFile

/-!
# Records of the data file

With `--string` the data file consists of records of `nchar` characters. `Module_ArgOpt` fills `cbuf`
with as many bytes as it has allocated, and `SendData` prints and scans it as a string.
-/

namespace NetPipe.Disk

open NetPipe.Args

/-- The memory of a process from `cbuf` on, of which the first `nchar` bytes are allocated, how many of
these bytes the calls have read or written, `fs`, the data file, the words that were stored in `cbuf`,
and whether a read has found the end of the file. -/
structure StringState where
  cbuf : List UInt8
  touched : ℕ
  fs : ℤ
  file : List UInt8
  words : List (List UInt8)
  ended : Bool

/-- `cbuf = malloc( nchar ); memset( cbuf, 111, nchar );`, with whatever is behind the allocation. -/
def allocString (nchar : ℕ) (heap : List UInt8) : List UInt8 :=
  List.replicate nchar 111 ++ heap.drop nchar

/-- What a string of C consists of. -/
def cstring (mem : List UInt8) : List UInt8 := mem.takeWhile (· ≠ 0)

/-- `fprintf( fd, "%s\n", cbuf)`, which runs out of the memory if there is no null byte in it. -/
def printString (s : StringState) : Option StringState :=
  if 0 ∈ s.cbuf then
    some { s with
      file := s.file ++ (cstring s.cbuf ++ [10])
      touched := max s.touched ((cstring s.cbuf).length + 1) }
  else none

/-- The word that `%s` finds. -/
def firstWord (file : List UInt8) : List UInt8 :=
  (file.dropWhile isspace).takeWhile fun b => !isspace b

/-- `fs = fscanf( fd, "%s\n", cbuf)`, which stores the word and a null byte. -/
def readString (s : StringState) : Option StringState :=
  if (scanString s.file).ended then
    some { s with fs := (scanString s.file).fs, file := (scanString s.file).file, ended := true }
  else if (firstWord s.file).length < s.cbuf.length then
    some { s with
      cbuf := firstWord s.file ++ 0 :: s.cbuf.drop ((firstWord s.file).length + 1)
      touched := max s.touched ((firstWord s.file).length + 1)
      fs := (scanString s.file).fs
      file := (scanString s.file).file
      words := s.words ++ [firstWord s.file] }
  else none

/-- A loop over the records of a test. -/
def repeatCall (call : StringState → Option StringState) : ℕ → StringState → Option StringState
  | 0, s => some s
  | n + 1, s => (call s).bind (repeatCall call n)

/-- `SendData` with strings. -/
def sendStrings (iofunc : IoFunc) (nchar : ℕ) (nbytes : ℤ) (s : StringState) :
    Option StringState :=
  if s.fs = 0 then some s
  else
    match iofunc with
    | .r => repeatCall readString (rounds nchar nbytes) s
    | .w => repeatCall printString (rounds nchar nbytes) s

/-- The tests of a run. -/
def runStrings (iofunc : IoFunc) (nchar : ℕ) : List ℤ → StringState → Option StringState
  | [], s => some s
  | nbytes :: sizes, s => (sendStrings iofunc nchar nbytes s).bind (runStrings iofunc nchar sizes)

/-- A run that writes and one that reads, both with `--string nchar` and the same sizes, and the memory
of the two processes where `malloc` finds the buffer. -/
structure StringRun where
  nchar : ℕ
  nchar_pos : 1 ≤ nchar
  sizes : List ℤ
  writerHeap : List UInt8
  writer_alloc : nchar ≤ writerHeap.length
  readerHeap : List UInt8
  reader_alloc : nchar ≤ readerHeap.length

namespace StringRun

/-- `NPdisk --write --string nchar` -/
def write (r : StringRun) : Option StringState :=
  runStrings .w r.nchar r.sizes ⟨allocString r.nchar r.writerHeap, 0, 1, [], [], false⟩

/-- `NPdisk --read --string nchar` -/
def read (r : StringRun) (file : List UInt8) : Option StringState :=
  runStrings .r r.nchar r.sizes ⟨allocString r.nchar r.readerHeap, 0, 1, file, [], false⟩

/-! ### What it is for -/

/-- The number of records of all tests. -/
def count (r : StringRun) : ℕ := (r.sizes.map (rounds r.nchar)).sum

/-- A record. -/
def record (r : StringRun) : List UInt8 := List.replicate r.nchar 111

/-- The file of the records, each followed by a newline. -/
def records (r : StringRun) : List UInt8 := (List.replicate r.count (r.record ++ [10])).flatten

/-- The records are written, and read back, within the bytes of `cbuf`. -/
structure Proper (r : StringRun) : Prop where
  writes : ∃ s, r.write = some s ∧ s.file = r.records ∧ s.touched ≤ r.nchar
  reads : ∃ s, r.read r.records = some s ∧ s.words = List.replicate r.count r.record ∧
    s.ended = false ∧ s.touched ≤ r.nchar

end StringRun

variable {call : StringState → Option StringState} {iofunc : IoFunc} {nchar n m : ℕ}
  {nbytes : ℤ} {sizes : List ℤ} {s s' : StringState} {heap word file mem : List UInt8}
  {r : StringRun}

/-! ### Runs as loops -/

lemma repeatCall_add (call : StringState → Option StringState) (n m : ℕ) (s : StringState) :
    repeatCall call (n + m) s = (repeatCall call n s).bind (repeatCall call m) := by
  induction n generalizing s with
  | zero => rw [Nat.zero_add, repeatCall, Option.bind_some]
  | succ n ih =>
    rw [Nat.succ_add, repeatCall, repeatCall, Option.bind_assoc]
    exact congrArg _ (funext ih)

/-- What each call of a loop keeps. -/
lemma repeatCall_induction {P : StringState → Prop}
    (hcall : ∀ s s', P s → call s = some s' → P s') (hs : P s)
    (hloop : repeatCall call n s = some s') : P s' := by
  induction n generalizing s with
  | zero =>
    cases hloop
    exact hs
  | succ n ih =>
    obtain ⟨s₁, hfirst, hrest⟩ := Option.bind_eq_some_iff.mp hloop
    exact ih (hcall s s₁ hs hfirst) hrest

/-- The call of `SendData` that belongs to a function. -/
def callOf : IoFunc → StringState → Option StringState
  | .r => readString
  | .w => printString

/-- `fs` is never 0. -/
lemma fs_ne_zero (hs : s.fs ≠ 0) (hcall : callOf iofunc s = some s') : s'.fs ≠ 0 := by
  cases iofunc with
  | r =>
    have hscan : (scanString s.file).fs ≠ 0 := by
      rw [scanString]
      cases s.file.dropWhile isspace <;> simp
    simp only [callOf, readString] at hcall
    split_ifs at hcall <;> cases hcall <;> exact hscan
  | w =>
    simp only [callOf, printString] at hcall
    split_ifs at hcall
    cases hcall
    exact hs

/-- The tests of a run are one loop over all records. -/
lemma runStrings_eq (hs : s.fs ≠ 0) : runStrings iofunc nchar sizes s =
    repeatCall (callOf iofunc) (sizes.map (rounds nchar)).sum s := by
  induction sizes generalizing s with
  | nil => rfl
  | cons nbytes sizes ih =>
    have hsend : sendStrings iofunc nchar nbytes s =
        repeatCall (callOf iofunc) (rounds nchar nbytes) s := by
      cases iofunc <;> exact if_neg hs
    rw [runStrings, hsend, List.map_cons, List.sum_cons, repeatCall_add]
    cases htest : repeatCall (callOf iofunc) (rounds nchar nbytes) s with
    | none => rfl
    | some s₁ =>
      have hs₁ := repeatCall_induction (P := fun s => s.fs ≠ 0) (fun _ _ => fs_ne_zero) hs htest
      exact ih hs₁

/-! ### Writing -/

/-- The buffer is filled up to its last byte, so that the string goes on behind it. -/
lemma cstring_allocString (nchar : ℕ) (heap : List UInt8) :
    cstring (allocString nchar heap) = List.replicate nchar 111 ++ cstring (heap.drop nchar) := by
  rw [cstring, allocString, List.takeWhile_append_of_pos, cstring]
  intro b hb
  rw [List.eq_of_mem_replicate hb]
  decide

/-- The file after a loop that prints. -/
lemma repeat_printString (hnul : 0 ∈ s.cbuf) (n : ℕ) : repeatCall printString n s = some { s with
    file := s.file ++ (List.replicate n (cstring s.cbuf ++ [10])).flatten
    touched := if n = 0 then s.touched else max s.touched ((cstring s.cbuf).length + 1) } := by
  induction n generalizing s with
  | zero => simp [repeatCall]
  | succ n ih =>
    rw [repeatCall, printString, if_pos hnul, Option.bind_some, ih (s := { s with
      file := s.file ++ (cstring s.cbuf ++ [10])
      touched := max s.touched ((cstring s.cbuf).length + 1) }) hnul]
    simp [List.replicate_succ]

lemma repeat_printString_none (hnul : 0 ∉ s.cbuf) (hn : n ≠ 0) :
    repeatCall printString n s = none := by
  obtain ⟨n, rfl⟩ := Nat.exists_eq_succ_of_ne_zero hn
  rw [repeatCall, printString, if_neg hnul, Option.bind_none]

/-! ### Reading -/

/-- A word of the file and the white space behind it. -/
lemma scan_word (hword : ∀ b ∈ word, isspace b = false) (hne : word ≠ []) (file : List UInt8) :
    firstWord (word ++ 10 :: file) = word ∧
      scanString (word ++ 10 :: file) = ⟨1, file.dropWhile isspace, false⟩ := by
  obtain ⟨b, rest, rfl⟩ := List.exists_cons_of_ne_nil hne
  have hdrop : (b :: rest ++ 10 :: file).dropWhile isspace = b :: rest ++ 10 :: file := by
    rw [List.cons_append, List.dropWhile_cons_of_neg (by simp [hword b])]
  have hall : ∀ c ∈ b :: rest, (!isspace c) = true := fun c hc => by rw [hword c hc, Bool.not_false]
  have hnewline : isspace 10 = true := by decide
  constructor
  · rw [firstWord, hdrop, List.takeWhile_append_of_pos hall, List.takeWhile_cons_of_neg, List.append_nil]
    rw [hnewline]
    decide
  · rw [scanString, hdrop, List.cons_append]
    dsimp only
    rw [← List.cons_append, List.dropWhile_append_of_pos hall, List.dropWhile_cons_of_neg,
      List.dropWhile_cons_of_pos hnewline]
    rw [hnewline]
    decide

/-- Records do not begin with white space. -/
lemma dropWhile_records (hword : ∀ b ∈ word, isspace b = false) (hne : word ≠ []) (n : ℕ) :
    ((List.replicate n (word ++ [10])).flatten).dropWhile isspace =
      (List.replicate n (word ++ [10])).flatten := by
  obtain ⟨b, rest, rfl⟩ := List.exists_cons_of_ne_nil hne
  cases n with
  | zero => rfl
  | succ n =>
    rw [List.replicate_succ, List.flatten_cons, List.cons_append, List.cons_append,
      List.dropWhile_cons_of_neg (by simp [hword b])]

/-- What a loop that scans does with records that fit into the memory. -/
lemma repeat_readString (hword : ∀ b ∈ word, isspace b = false) (hne : word ≠ [])
    (hroom : word.length < s.cbuf.length)
    (hfile : s.file = (List.replicate n (word ++ [10])).flatten) :
    ∃ s', repeatCall readString n s = some s' ∧ s'.words = s.words ++ List.replicate n word ∧
      s'.ended = s.ended ∧
      s'.touched = if n = 0 then s.touched else max s.touched (word.length + 1) := by
  induction n generalizing s with
  | zero => exact ⟨s, rfl, by simp, rfl, by simp⟩
  | succ n ih =>
    rw [List.replicate_succ, List.flatten_cons, List.append_assoc, List.singleton_append] at hfile
    obtain ⟨hfirst, hscan⟩ := scan_word hword hne (List.replicate n (word ++ [10])).flatten
    rw [dropWhile_records hword hne] at hscan
    have hread : readString s = some { s with
        cbuf := word ++ 0 :: s.cbuf.drop (word.length + 1)
        touched := max s.touched (word.length + 1)
        fs := 1
        file := (List.replicate n (word ++ [10])).flatten
        words := s.words ++ [word] } := by
      rw [readString, hfile, hfirst, hscan, if_neg (by simp), if_pos hroom]
    have hlength : word.length < (word ++ 0 :: s.cbuf.drop (word.length + 1)).length := by simp
    obtain ⟨s', hs', hwords, hended, htouched⟩ := ih (s := { s with
        cbuf := word ++ 0 :: s.cbuf.drop (word.length + 1)
        touched := max s.touched (word.length + 1)
        fs := 1
        file := (List.replicate n (word ++ [10])).flatten
        words := s.words ++ [word] }) hlength rfl
    refine ⟨s', by rw [repeatCall, hread, Option.bind_some, hs'], ?_, hended, ?_⟩
    · rw [hwords, List.replicate_succ, List.append_assoc, List.singleton_append]
    · rw [htouched]
      simp

namespace StringRun

lemma write_eq (r : StringRun) : r.write = repeatCall printString r.count
    ⟨allocString r.nchar r.writerHeap, 0, 1, [], [], false⟩ :=
  @runStrings_eq .w _ _ _ one_ne_zero

lemma read_eq (r : StringRun) (file : List UInt8) : r.read file = repeatCall readString r.count
    ⟨allocString r.nchar r.readerHeap, 0, 1, file, [], false⟩ :=
  @runStrings_eq .r _ _ _ one_ne_zero

lemma count_eq_zero_iff (r : StringRun) : r.count = 0 ↔ ∀ nbytes ∈ r.sizes, nbytes ≤ 0 := by
  have hpos : (1 : ℤ) ≤ r.nchar := by exact_mod_cast r.nchar_pos
  rw [count, List.sum_eq_zero_iff, List.forall_mem_map]
  refine forall₂_congr fun nbytes _ => ⟨fun hzero => ?_, rounds_of_le hpos⟩
  by_contra hlt
  rw [rounds_of_pos hpos (not_le.mp hlt)] at hzero
  exact Nat.succ_ne_zero _ hzero

/-- Whoever writes a record has read a byte behind the buffer. -/
lemma touched_of_write (hcount : r.count ≠ 0) (hs : r.write = some s) : r.nchar < s.touched := by
  rw [write_eq] at hs
  by_cases hnul : 0 ∈ allocString r.nchar r.writerHeap
  · rw [repeat_printString hnul] at hs
    cases hs
    rw [if_neg hcount, cstring_allocString, List.length_append, List.length_replicate]
    exact lt_max_of_lt_right (Nat.lt_succ_of_le (Nat.le_add_right _ _))
  · rw [repeat_printString_none hnul hcount] at hs
    cases hs

/-- The records in the file are as long as they should be exactly if the byte behind the buffer happens
to be 0. -/
theorem write_records_iff (hcount : r.count ≠ 0) :
    (∃ s, r.write = some s ∧ s.file = r.records) ↔ r.writerHeap[r.nchar]? = some 0 := by
  have hhead : r.writerHeap[r.nchar]? = (r.writerHeap.drop r.nchar).head? := by
    rw [List.head?_drop]
  rw [hhead, write_eq]
  by_cases hnul : 0 ∈ allocString r.nchar r.writerHeap
  · have hrest : 0 ∈ r.writerHeap.drop r.nchar := by
      refine (List.mem_append.mp hnul).resolve_left fun hmem => ?_
      exact absurd (List.eq_of_mem_replicate hmem) (by decide)
    obtain ⟨b, rest, hdrop⟩ := List.exists_cons_of_ne_nil (List.ne_nil_of_mem hrest)
    rw [repeat_printString hnul, hdrop, List.head?_cons, Option.some_inj]
    constructor
    · rintro ⟨s, hs, hfile⟩
      cases hs
      have hlength := congrArg List.length hfile
      simp only [records, List.nil_append, List.length_flatten, List.map_replicate,
        List.sum_replicate, List.length_append, List.length_singleton, cstring_allocString, hdrop,
        record, List.length_replicate, smul_eq_mul] at hlength
      have heq := Nat.eq_of_mul_eq_mul_left (Nat.pos_of_ne_zero hcount) hlength
      by_contra hb
      rw [cstring, List.takeWhile_cons_of_pos (by simpa using hb), List.length_cons] at heq
      omega
    · rintro rfl
      refine ⟨_, rfl, ?_⟩
      rw [List.nil_append, cstring_allocString, hdrop, cstring, List.takeWhile_cons_of_neg (by simp),
        List.append_nil]
      rfl
  · rw [repeat_printString_none hnul hcount]
    refine iff_of_false (by simp) fun hzero => hnul ?_
    exact List.mem_append_right _ (List.mem_of_head? hzero)

/-- The records are read back, but with a null byte behind the buffer. -/
theorem read_records (hroom : r.nchar < r.readerHeap.length) :
    ∃ s, r.read r.records = some s ∧ s.words = List.replicate r.count r.record ∧
      s.ended = false ∧ s.touched = if r.count = 0 then 0 else r.nchar + 1 := by
  have hword : ∀ b ∈ r.record, isspace b = false := by
    intro b hb
    rw [List.eq_of_mem_replicate hb]
    decide
  have hne : r.record ≠ [] := by simp [record, Nat.one_le_iff_ne_zero.mp r.nchar_pos]
  have hlength : r.record.length < (allocString r.nchar r.readerHeap).length := by
    simpa [record, allocString] using hroom
  obtain ⟨s, hs, hwords, hended, htouched⟩ := repeat_readString
    (s := ⟨allocString r.nchar r.readerHeap, 0, 1, r.records, [], false⟩) (n := r.count) hword hne
    hlength rfl
  refine ⟨s, by rw [read_eq, hs], hwords, hended, ?_⟩
  rw [htouched]
  simp [record]

/-- The records are written and read within the buffer if and only if there are none. -/
theorem proper_iff (r : StringRun) : r.Proper ↔ ∀ nbytes ∈ r.sizes, nbytes ≤ 0 := by
  rw [← count_eq_zero_iff]
  constructor
  · intro h
    by_contra hcount
    obtain ⟨s, hs, -, htouched⟩ := h.writes
    exact absurd (touched_of_write hcount hs) (not_lt.mpr htouched)
  · intro hcount
    refine ⟨⟨_, by rw [write_eq, hcount]; rfl, ?_, Nat.zero_le _⟩,
      ⟨_, by rw [read_eq, hcount]; rfl, ?_, rfl, Nat.zero_le _⟩⟩
    · simp [records, hcount]
    · simp [hcount]

/-- `--string 8` and one test of 8 bytes, with memory that contains zeros. -/
def oneRecord : StringRun where
  nchar := 8
  nchar_pos := by decide
  sizes := [8]
  writerHeap := List.replicate 16 0
  writer_alloc := by decide
  readerHeap := List.replicate 16 0
  reader_alloc := by decide

/-- The ninth byte of the buffer is read, to find the end of the string. -/
theorem not_proper_oneRecord : ¬ oneRecord.Proper := by
  rintro ⟨⟨s, hs, -, htouched⟩, -⟩
  have hnine : oneRecord.write.map StringState.touched = some 9 := by decide
  rw [hs, Option.map_some, Option.some_inj] at hnine
  rw [hnine] at htouched
  exact absurd htouched (by decide)

end StringRun

end NetPipe.Disk
