import Mathlib.Data.List.TakeWhile
import NetPipe.Library.Outcome

/-!
# Reading a config file

The loop of `MP_Read_Type` in which process 0 reads lines until `n` elements are found. The elements
are given by the tokens that they are converted from, each with the number of the pass that finds it.
What is printed is left out.
-/

namespace NetPipe.MpLite

open Outcome

/-- How process 0 can fail: by the exit at the end of the file, which stands under `if (0)`, or by the
newline that is chopped off in front of `line_in`. -/
inductive ReadFault
  | endOfFile
  | outOfBounds
deriving DecidableEq

/-- The types of elements. -/
inductive OpType
  | d
  | i
  | f
  | c
  | w
deriving DecidableEq

namespace OpType

/-- Numbers are read. -/
def Numeric (op_type : OpType) : Prop := op_type = d ∨ op_type = i ∨ op_type = f

end OpType

/-- The string in `line_in`, and what is left of the file. -/
structure Reader where
  line_in : List UInt8
  fd : List UInt8

/-- `fgets` for at most `size` characters: what is read, and what is left. -/
def fgets : ℕ → List UInt8 → List UInt8 × List UInt8
  | 0, fd => ([], fd)
  | _ + 1, [] => ([], [])
  | size + 1, c :: fd =>
    if c = '\n'.toUInt8 then ([c], fd) else (c :: (fgets size fd).1, (fgets size fd).2)

/-- The array is unchanged at the end of the file. -/
def Reader.nextLine (s : Reader) : Reader where
  line_in := match (fgets 8191 s.fd).1 with
    | [] => s.line_in
    | c :: line => (c :: line).takeWhile (· ≠ 0)
  fd := (fgets 8191 s.fd).2

def commentChars : List UInt8 := ['!', '@', '#', '%', '/'].map Char.toUInt8

/-- The line is a comment. `strchr` finds the NUL of an empty line as well. -/
def isComment : List UInt8 → Bool
  | [] => true
  | c :: _ => c ∈ commentChars

/-- What comes after the first `=`, if there is one. -/
def afterEq (line : List UInt8) : List UInt8 :=
  if '='.toUInt8 ∈ line then (line.dropWhile (· ≠ '='.toUInt8)).tail else line

/-- What is left to be tokenized. -/
def skipVar (line : List UInt8) : List UInt8 := (afterEq line).dropWhile (· = ' '.toUInt8)

/-- The tokens that `strtok` finds, when the characters `p` of one have been passed. -/
def strtok (p : List UInt8) : List UInt8 → List (List UInt8)
  | [] => if p = [] then [] else [p]
  | c :: line =>
    if c = ' '.toUInt8 then (if p = [] then strtok [] line else p :: strtok [] line)
    else strtok (p ++ [c]) line

/-- The string that is left when `strtok` has ended the first token. -/
def endFirst (line : List UInt8) : List UInt8 :=
  line.take (line.length - (skipVar line).length) ++ (skipVar line).takeWhile (· ≠ ' '.toUInt8)

/-- The elements in a line. All `n` characters are copied from the first line without a test for its
end, `behind` is what stands after its NUL. -/
def OpType.elements (op_type : OpType) (n : ℕ) (behind : ℕ → UInt8) (line : List UInt8) :
    List (List UInt8) :=
  match op_type with
  | .c => (List.range n).map fun k => [(line ++ [0]).getD k (behind k)]
  | _ => strtok [] line

/-- One pass of the loop: the elements in the line, and the state behind it. -/
def readPass (elements : List UInt8 → List (List UInt8)) (s : Reader) :
    Except ReadFault (List (List UInt8) × Reader) :=
  if s.nextLine.line_in = [] then .error .outOfBounds
  else
    let line := s.nextLine.line_in.dropLast
    if isComment line ∨ line.length ≤ 1 then .ok ([], ⟨line, s.nextLine.fd⟩)
    else .ok (elements (skipVar line), ⟨endFirst line, s.nextLine.fd⟩)

/-! ### Every pass takes something away -/

variable {line p t : List UInt8} {c : UInt8} {s s' : Reader} {found : List (List UInt8)}
  {elements : List UInt8 → List (List UInt8)}

lemma fgets_append (size : ℕ) (fd : List UInt8) : (fgets size fd).1 ++ (fgets size fd).2 = fd := by
  induction size generalizing fd with
  | zero => rfl
  | succ size ih =>
    cases fd with
    | nil => rfl
    | cons c fd =>
      rw [fgets]
      split_ifs
      · rfl
      · exact congrArg (c :: ·) (ih fd)

lemma fgets_length_le (size : ℕ) (fd : List UInt8) : (fgets size fd).1.length ≤ size := by
  induction size generalizing fd with
  | zero => exact le_rfl
  | succ size ih =>
    cases fd with
    | nil => exact Nat.zero_le _
    | cons c fd =>
      rw [fgets]
      split_ifs
      · exact Nat.succ_le_succ (Nat.zero_le _)
      · exact Nat.succ_le_succ (ih fd)

lemma skipVar_suffix (line : List UInt8) : skipVar line <:+ line := by
  have hafter : afterEq line <:+ line := by
    rw [afterEq]
    split_ifs
    · exact (List.tail_suffix _).trans (List.dropWhile_suffix _)
    · exact List.suffix_rfl
  exact (List.dropWhile_suffix _).trans hafter

lemma endFirst_prefix (line : List UInt8) : endFirst line <+: line := by
  obtain ⟨pre, hpre⟩ := skipVar_suffix line
  have hlen : line.length - (skipVar line).length = pre.length := by
    rw [← congrArg List.length hpre, List.length_append, Nat.add_sub_cancel]
  have htake : line.take pre.length = pre := by
    rw [← congrArg (List.take pre.length) hpre, List.take_left]
  rw [endFirst, hlen, htake]
  calc pre ++ (skipVar line).takeWhile (· ≠ ' '.toUInt8) <+: pre ++ skipVar line :=
        (List.prefix_append_right_inj pre).mpr (List.takeWhile_prefix _)
    _ = line := hpre

/-- The line of a pass that does not fail, and what is found in it. -/
lemma readPass_ok (h : readPass elements s = .ok (found, s')) : s.nextLine.line_in ≠ [] ∧
    s'.fd = s.nextLine.fd ∧ s'.line_in <+: s.nextLine.line_in.dropLast ∧
    found = if isComment s.nextLine.line_in.dropLast ∨ s.nextLine.line_in.dropLast.length ≤ 1 then []
      else elements (skipVar s.nextLine.line_in.dropLast) := by
  rw [readPass] at h
  dsimp only at h
  split_ifs at h with hnil hskip <;> cases Except.ok.inj h
  · exact ⟨hnil, rfl, List.prefix_rfl, by rw [if_pos hskip]⟩
  · exact ⟨hnil, rfl, endFirst_prefix _, by rw [if_neg hskip]⟩

lemma Reader.nextLine_of_eof (h : (fgets 8191 s.fd).1 = []) :
    s.nextLine = ⟨s.line_in, s.fd⟩ := by
  have hfd := fgets_append 8191 s.fd
  rw [h, List.nil_append] at hfd
  rw [Reader.nextLine, h, hfd]

/-- A line of the file is used up, or else a character of the string in `line_in`. -/
lemma readPass_lt (h : readPass elements s = .ok (found, s')) :
    Prod.Lex (· < ·) (· < ·) (s'.fd.length, s'.line_in.length) (s.fd.length, s.line_in.length) := by
  obtain ⟨hne, hfd, hprefix, -⟩ := readPass_ok h
  cases hgot : (fgets 8191 s.fd).1 with
  | nil =>
    rw [Reader.nextLine_of_eof hgot] at hne hfd hprefix
    rw [hfd]
    apply Prod.Lex.right
    calc s'.line_in.length ≤ s.line_in.dropLast.length := hprefix.length_le
      _ < s.line_in.length := by
        rw [List.length_dropLast]
        exact Nat.sub_lt (List.length_pos_of_ne_nil hne) Nat.one_pos
  | cons c line =>
    have happend := congrArg List.length (fgets_append 8191 s.fd)
    rw [hgot, List.length_append, List.length_cons] at happend
    apply Prod.Lex.left
    rw [hfd]
    show (fgets 8191 s.fd).2.length < s.fd.length
    omega

/-- The loop, when `r` elements are still to be found: the elements, each with the number of its
pass. -/
def readLoop (elements : List UInt8 → List (List UInt8)) (r i : ℕ) (s : Reader) :
    Except ReadFault (List (ℕ × List UInt8)) :=
  if r = 0 then .ok []
  else match _h : readPass elements s with
    | .error e => .error e
    | .ok (found, s') => (readLoop elements (r - found.length) (i + 1) s').map
        ((found.take r).map (i, ·) ++ ·)
termination_by (s.fd.length, s.line_in.length)
decreasing_by exact readPass_lt _h

/-! ### Text files -/

/-- What is to be found in a line: the words after the first `=`, if it is not a comment. -/
def tokensOf (line : List UInt8) : List (List UInt8) :=
  if isComment line then [] else strtok [] (afterEq line)

/-- A text file: lines with a newline, and what stands behind the last newline. -/
structure TextFile where
  lines : List (List UInt8)
  last : List UInt8
  text : ∀ line ∈ last :: lines, 0 ∉ line ∧ '\n'.toUInt8 ∉ line
  short : ∀ line ∈ lines, line.length + 1 < 8192
  last_short : last.length < 8192

namespace TextFile

def bytes (file : TextFile) : List UInt8 :=
  file.lines.flatMap (· ++ ['\n'.toUInt8]) ++ file.last

end TextFile

/-- The tokens of the lines, each with the number of its line. -/
def numbered (i : ℕ) : List (List UInt8) → List (ℕ × List UInt8)
  | [] => []
  | line :: lines => (tokensOf line).map (i, ·) ++ numbered (i + 1) lines

/-- The first `r` tokens, or the error if there are not as many. -/
def expected (r : ℕ) (tokens : List (ℕ × List UInt8)) : Except ReadFault (List (ℕ × List UInt8)) :=
  if r ≤ tokens.length then .ok (tokens.take r) else .error .endOfFile

/-- For every numeric type, and whatever is in the array before, process 0 finds the first `n` tokens
of the file, and stops with the error if there are not as many. -/
def TextFile.Reads (file : TextFile) (n : ℕ) : Prop :=
  ∀ op_type : OpType, op_type.Numeric → ∀ (behind : ℕ → UInt8) (line_in : List UInt8),
    readLoop (op_type.elements n behind) n 0 ⟨line_in, file.bytes⟩ =
      expected n (numbered 0 (file.lines ++ [file.last]))

/-- The file has `r` more tokens, and before the last of them no line is a single character that is a
token. A line without newline has to be longer than two characters, and its last token does not count
if it ends the line. -/
def Readable (last : List UInt8) : ℕ → List (List UInt8) → Prop
  | 0, _ => True
  | r + 1, [] => 2 < last.length ∧
    r + 1 ≤ (tokensOf last).length - if last.getLast? = some ' '.toUInt8 then 0 else 1
  | r + 1, line :: lines => (line.length = 1 → tokensOf line = []) ∧
    Readable last (r + 1 - (tokensOf line).length) lines

/-! ### Runs of the loop -/

lemma readLoop_zero (i : ℕ) (s : Reader) : readLoop elements 0 i s = .ok [] := by
  rw [readLoop, if_pos rfl]

variable {r i : ℕ} {res : List (ℕ × List UInt8)}

lemma readLoop_of_ok (hr : r ≠ 0) (h : readPass elements s = .ok (found, s')) :
    readLoop elements r i s =
      (readLoop elements (r - found.length) (i + 1) s').map ((found.take r).map (i, ·) ++ ·) := by
  rw [readLoop, if_neg hr]
  split
  case h_1 heq => exact nomatch h.symm.trans heq
  case h_2 heq =>
    cases Except.ok.inj (h.symm.trans heq)
    rfl

lemma readLoop_of_error {e : ReadFault} (hr : r ≠ 0) (h : readPass elements s = .error e) :
    readLoop elements r i s = .error e := by
  rw [readLoop, if_neg hr]
  split
  case h_1 heq =>
    cases Except.error.inj (h.symm.trans heq)
    rfl
  case h_2 heq => exact nomatch h.symm.trans heq

lemma readLoop_of_nil (hr : r ≠ 0) (h : readPass elements s = .ok ([], s')) :
    readLoop elements r i s = readLoop elements r (i + 1) s' := by
  rw [readLoop_of_ok hr h, List.take_nil, List.map_nil, map_nil_append]
  rfl

/-- A run that finds all elements has gone through the loop as long as some were missing. -/
lemma exists_of_readLoop_ok (hr : r ≠ 0) (h : readLoop elements r i s = .ok res) :
    ∃ found s' rest, readPass elements s = .ok (found, s') ∧
      readLoop elements (r - found.length) (i + 1) s' = .ok rest ∧
      res = (found.take r).map (i, ·) ++ rest := by
  cases hpass : readPass elements s with
  | error e => exact nomatch (readLoop_of_error hr hpass).symm.trans h
  | ok next =>
    obtain ⟨found, s'⟩ := next
    rw [readLoop_of_ok hr hpass] at h
    obtain ⟨rest, hrest, rfl⟩ := map_eq_ok.mp h
    exact ⟨found, s', rest, rfl, hrest, rfl⟩

/-- All elements are found, none of them in an earlier pass. -/
lemma readLoop_inv (h : readLoop elements r i s = .ok res) :
    res.length = r ∧ ∀ e ∈ res, i ≤ e.1 := by
  induction r, i, s using readLoop.induct elements generalizing res with
  | case1 i s =>
    rw [readLoop_zero] at h
    cases h
    exact ⟨rfl, nofun⟩
  | case2 r i s hr e hpass => exact nomatch (readLoop_of_error hr hpass).symm.trans h
  | case3 r i s hr found s' hpass ih =>
    obtain ⟨found₁, s₁, rest, hpass₁, hrest, rfl⟩ := exists_of_readLoop_ok hr h
    cases Except.ok.inj (hpass.symm.trans hpass₁)
    obtain ⟨hlen, hlater⟩ := ih hrest
    constructor
    · rw [List.length_append, List.length_map, List.length_take, hlen, Nat.min_def]
      split_ifs <;> omega
    · intro e he
      rcases List.mem_append.mp he with he | he
      · obtain ⟨p, -, rfl⟩ := List.mem_map.mp he
        exact le_rfl
      · exact (Nat.le_succ i).trans (hlater e he)

lemma readPass_ne_endOfFile : readPass elements s ≠ .error .endOfFile := by
  rw [readPass]
  dsimp only
  split_ifs <;> simp

/-- The exit at the end of the file is never taken. -/
lemma readLoop_ne_endOfFile : readLoop elements r i s ≠ .error .endOfFile := by
  induction r, i, s using readLoop.induct elements with
  | case1 i s => simp [readLoop_zero]
  | case2 r i s hr e hpass =>
    rw [readLoop_of_error hr hpass]
    exact fun h => readPass_ne_endOfFile (hpass.trans (congrArg _ (Except.error.inj h)))
  | case3 r i s hr found s' hpass ih =>
    rw [readLoop_of_ok hr hpass]
    exact fun h => ih (map_eq_error.mp h)

/-! ### Tokens -/

/-- Tokens are not empty, and they are parts of the line. -/
lemma mem_strtok (ht : t ∈ strtok p line) : t ≠ [] ∧ t.Sublist (p ++ line) := by
  induction line generalizing p with
  | nil =>
    rw [strtok] at ht
    split_ifs at ht with hp
    · exact absurd ht List.not_mem_nil
    · obtain rfl := List.mem_singleton.mp ht
      exact ⟨hp, List.sublist_append_left t []⟩
  | cons c line ih =>
    have hline : ([] ++ line).Sublist (p ++ c :: line) :=
      (List.sublist_cons_self c line).trans (List.sublist_append_right p _)
    rw [strtok] at ht
    split_ifs at ht with hc hp
    · exact (ih ht).imp_right (·.trans hline)
    · rcases List.mem_cons.mp ht with rfl | ht
      · exact ⟨hp, List.sublist_append_left t _⟩
      · exact (ih ht).imp_right (·.trans hline)
    · have hfound := ih ht
      rwa [List.append_assoc] at hfound

/-- A string that fits into the array. -/
def IsLine (line : List UInt8) : Prop := 0 ∉ line ∧ line.length < 8192

lemma IsLine.sublist (h : IsLine line) (ht : t.Sublist line) : IsLine t :=
  ⟨fun hmem => h.1 (ht.subset hmem), ht.length_le.trans_lt h.2⟩

lemma Reader.isLine_nextLine (h : IsLine s.line_in) : IsLine s.nextLine.line_in := by
  cases hgot : (fgets 8191 s.fd).1 with
  | nil => rwa [Reader.nextLine_of_eof hgot]
  | cons c line =>
    have hnext : s.nextLine.line_in = (c :: line).takeWhile (· ≠ 0) := by
      rw [Reader.nextLine, hgot]
    have hlen := fgets_length_le 8191 s.fd
    rw [hgot] at hlen
    rw [hnext]
    refine ⟨fun hmem => ?_, (List.takeWhile_sublist _).length_le.trans_lt (Nat.lt_succ_of_le hlen)⟩
    simpa using List.mem_takeWhile_imp hmem

/-- What holds of the elements of every line holds of all elements that are found. -/
lemma readLoop_forall {P : List UInt8 → Prop}
    (helements : ∀ line, IsLine line → ∀ t ∈ elements line, P t) (hline : IsLine s.line_in)
    (h : readLoop elements r i s = .ok res) : ∀ e ∈ res, P e.2 := by
  induction r, i, s using readLoop.induct elements generalizing res with
  | case1 i s =>
    rw [readLoop_zero] at h
    cases h
    exact nofun
  | case2 r i s hr e hpass => exact nomatch (readLoop_of_error hr hpass).symm.trans h
  | case3 r i s hr found s' hpass ih =>
    obtain ⟨found₁, s₁, rest, hpass₁, hrest, rfl⟩ := exists_of_readLoop_ok hr h
    cases Except.ok.inj (hpass.symm.trans hpass₁)
    obtain ⟨-, -, hprefix, hfound⟩ := readPass_ok hpass
    have hchopped := (Reader.isLine_nextLine hline).sublist (List.dropLast_sublist _)
    intro e he
    rcases List.mem_append.mp he with he | he
    · obtain ⟨t, ht, rfl⟩ := List.mem_map.mp he
      have ht := List.mem_of_mem_take ht
      rw [hfound] at ht
      split_ifs at ht
      · exact absurd ht List.not_mem_nil
      · exact helements _ (hchopped.sublist (skipVar_suffix _).sublist) t ht
    · exact ih (hchopped.sublist hprefix.sublist) hrest e he

/-! ### Lines of the file -/

lemma fgets_line {size : ℕ} {fd : List UInt8} (hnl : '\n'.toUInt8 ∉ line)
    (hlen : line.length + 1 ≤ size) :
    fgets size (line ++ '\n'.toUInt8 :: fd) = (line ++ ['\n'.toUInt8], fd) := by
  induction line generalizing size with
  | nil =>
    obtain ⟨size, rfl⟩ := Nat.exists_eq_succ_of_ne_zero (Nat.ne_of_gt hlen)
    rw [List.nil_append, fgets, if_pos rfl]
    rfl
  | cons c line ih =>
    obtain ⟨size, rfl⟩ := Nat.exists_eq_succ_of_ne_zero (Nat.ne_of_gt (Nat.zero_lt_of_lt hlen))
    rw [List.mem_cons, not_or] at hnl
    rw [List.cons_append, fgets, if_neg (Ne.symm hnl.1), ih hnl.2 (Nat.le_of_succ_le_succ hlen)]
    rfl

lemma fgets_last {size : ℕ} (hnl : '\n'.toUInt8 ∉ line) (hlen : line.length ≤ size) :
    fgets size line = (line, []) := by
  induction line generalizing size with
  | nil => cases size <;> rfl
  | cons c line ih =>
    obtain ⟨size, rfl⟩ := Nat.exists_eq_succ_of_ne_zero (Nat.ne_of_gt (Nat.zero_lt_of_lt hlen))
    rw [List.mem_cons, not_or] at hnl
    rw [fgets, if_neg (Ne.symm hnl.1), ih hnl.2 (Nat.le_of_succ_le_succ hlen)]

lemma takeWhile_of_notMem {s : List UInt8} (h : 0 ∉ s) : s.takeWhile (· ≠ 0) = s := by
  rw [List.takeWhile_eq_self_iff]
  intro c hc
  simpa using ne_of_mem_of_not_mem hc h

lemma Reader.nextLine_eq {s : Reader} {line fd : List UInt8} (hgot : fgets 8191 s.fd = (line, fd))
    (hline : line ≠ []) (hnul : 0 ∉ line) : s.nextLine = ⟨line, fd⟩ := by
  obtain ⟨c, line, rfl⟩ := List.exists_cons_of_ne_nil hline
  rw [Reader.nextLine, hgot]
  exact congrArg (Reader.mk · fd) (takeWhile_of_notMem hnul)

/-- What a pass finds in a line, from which the last character has been chopped off. -/
def foundIn (line : List UInt8) : List (List UInt8) := if line.length ≤ 1 then [] else tokensOf line

lemma strtok_dropWhile (line : List UInt8) :
    strtok [] (line.dropWhile (· = ' '.toUInt8)) = strtok [] line := by
  induction line with
  | nil => rfl
  | cons c line ih =>
    by_cases hc : c = ' '.toUInt8
    · rw [List.dropWhile_cons_of_pos (by simpa using hc), strtok, if_pos hc, if_pos rfl, ih]
    · rw [List.dropWhile_cons_of_neg (by simpa using hc)]

/-- A pass over a string that `fgets` has read. -/
lemma readPass_eq (hnext : s.nextLine = ⟨line ++ [c], t⟩) :
    ∃ line', readPass (strtok []) s = .ok (foundIn line, ⟨line', t⟩) := by
  rw [readPass, hnext, foundIn, tokensOf]
  dsimp only
  rw [if_neg (List.append_ne_nil_of_right_ne_nil _ (List.cons_ne_nil c [])), List.dropLast_concat]
  by_cases hlen : line.length ≤ 1
  · rw [if_pos (Or.inr hlen), if_pos hlen]
    exact ⟨_, rfl⟩
  · rw [if_neg hlen]
    by_cases hcomment : isComment line
    · rw [if_pos (Or.inl hcomment), if_pos hcomment]
      exact ⟨_, rfl⟩
    · rw [if_neg (not_or_intro hcomment hlen), if_neg hcomment, skipVar, strtok_dropWhile]
      exact ⟨_, rfl⟩

/-! ### The first tokens -/

variable {last : List UInt8} {lines : List (List UInt8)} {tokens : List (ℕ × List UInt8)}

lemma expected_append {k : ℕ} (head : List (ℕ × List UInt8)) (hk : head.length = k) :
    expected r (head ++ tokens) = (expected (r - k) tokens).map (head.take r ++ ·) := by
  rw [expected, expected, List.length_append, hk]
  by_cases h : r ≤ k + tokens.length
  · rw [if_pos h, if_pos (Nat.sub_le_iff_le_add'.mpr h), List.take_append, hk]
    rfl
  · rw [if_neg h, if_neg (mt Nat.sub_le_iff_le_add'.mp h)]
    rfl

/-- A line of one character is skipped, with the token in it. -/
lemma not_expected_of_skipped (hr : r ≠ 0) (h : tokensOf line ≠ []) :
    readLoop elements r (i + 1) s ≠ expected r (numbered i (line :: lines)) := by
  intro heq
  rw [expected] at heq
  split_ifs at heq with hle
  · obtain ⟨t, ts, ht⟩ := List.exists_cons_of_ne_nil h
    obtain ⟨-, hlater⟩ := readLoop_inv heq
    obtain ⟨r, rfl⟩ := Nat.exists_eq_succ_of_ne_zero hr
    have hfirst := hlater (i, t) (by simp [numbered, ht])
    exact Nat.not_succ_le_self i hfirst
  · exact readLoop_ne_endOfFile heq

/-- A line with a newline, while elements are missing. -/
lemma readLoop_line (i : ℕ) (line_in fd : List UInt8) (hr : r ≠ 0) (hnul : 0 ∉ line)
    (hnl : '\n'.toUInt8 ∉ line) (hlen : line.length + 1 < 8192) :
    ∃ line', readLoop (strtok []) r i ⟨line_in, line ++ '\n'.toUInt8 :: fd⟩ =
      (readLoop (strtok []) (r - (foundIn line).length) (i + 1) ⟨line', fd⟩).map
        (((foundIn line).take r).map (i, ·) ++ ·) := by
  have hnext : Reader.nextLine ⟨line_in, line ++ '\n'.toUInt8 :: fd⟩ =
      ⟨line ++ ['\n'.toUInt8], fd⟩ := by
    apply Reader.nextLine_eq (fgets_line hnl (Nat.le_of_lt_succ hlen))
    · exact List.append_ne_nil_of_right_ne_nil _ (List.cons_ne_nil _ _)
    · rw [List.mem_append, not_or]
      exact ⟨hnul, by decide⟩
  obtain ⟨line', hpass⟩ := readPass_eq hnext
  exact ⟨line', readLoop_of_ok hr hpass⟩

/-- The line without a newline loses its last character. -/
lemma readLoop_last (i : ℕ) (line_in : List UInt8) (hr : r ≠ 0) (hnul : 0 ∉ line ++ [c])
    (hnl : '\n'.toUInt8 ∉ line ++ [c]) (hlen : (line ++ [c]).length < 8192) :
    ∃ line', readLoop (strtok []) r i ⟨line_in, line ++ [c]⟩ =
      (readLoop (strtok []) (r - (foundIn line).length) (i + 1) ⟨line', []⟩).map
        (((foundIn line).take r).map (i, ·) ++ ·) := by
  have hnext : Reader.nextLine ⟨line_in, line ++ [c]⟩ = ⟨line ++ [c], []⟩ :=
    Reader.nextLine_eq (fgets_last hnl (Nat.le_of_lt_succ hlen))
      (List.append_ne_nil_of_right_ne_nil _ (List.cons_ne_nil _ _)) hnul
  obtain ⟨line', hpass⟩ := readPass_eq hnext
  exact ⟨line', readLoop_of_ok hr hpass⟩

/-! ### A line without its last character -/

lemma strtok_space (line : List UInt8) (p : List UInt8) :
    strtok p (line ++ [' '.toUInt8]) = strtok p line := by
  induction line generalizing p with
  | nil =>
    rw [List.nil_append, strtok, strtok, if_pos rfl]
    split_ifs
    · rfl
    · rfl
  | cons c line ih =>
    rw [List.cons_append, strtok, strtok]
    split_ifs
    · exact ih []
    · exact congrArg (p :: ·) (ih [])
    · exact ih (p ++ [c])

/-- A last character that is no space belongs to the last token. -/
lemma strtok_concat (hc : c ≠ ' '.toUInt8) (line : List UInt8) (p : List UInt8) :
    ∃ front t, strtok p (line ++ [c]) = front ++ [t ++ [c]] ∧
      (strtok p line = front ∨ strtok p line = front ++ [t]) := by
  induction line generalizing p with
  | nil =>
    refine ⟨[], p, ?_, ?_⟩
    · rw [List.nil_append, strtok, if_neg hc, strtok, if_neg (by simp)]
      rfl
    · rw [strtok]
      split_ifs
      · exact Or.inl rfl
      · exact Or.inr rfl
  | cons c' line ih =>
    rw [List.cons_append, strtok, strtok]
    split_ifs
    · exact ih []
    · obtain ⟨front, t, heq, hline⟩ := ih []
      rw [heq]
      exact ⟨p :: front, t, rfl, hline.imp (congrArg (p :: ·)) (congrArg (p :: ·))⟩
    · exact ih (p ++ [c'])

lemma isComment_concat (h : line ≠ []) : isComment (line ++ [c]) = isComment line := by
  obtain ⟨c', line, rfl⟩ := List.exists_cons_of_ne_nil h
  rfl

lemma afterEq_concat_of_mem (h : '='.toUInt8 ∈ line) :
    afterEq (line ++ [c]) = afterEq line ++ [c] := by
  have hne : line.dropWhile (· ≠ '='.toUInt8) ≠ [] := by
    rw [ne_eq, List.dropWhile_eq_nil_iff]
    exact fun hall => of_decide_eq_true (hall _ h) rfl
  rw [afterEq, afterEq, if_pos h, if_pos (List.mem_append_left _ h), List.dropWhile_append,
    if_neg (by simpa using hne), List.tail_append_of_ne_nil hne]

lemma afterEq_concat_of_ne (hc : c ≠ '='.toUInt8) : afterEq (line ++ [c]) = afterEq line ++ [c] := by
  by_cases h : '='.toUInt8 ∈ line
  · exact afterEq_concat_of_mem h
  · rw [afterEq, afterEq, if_neg h, if_neg]
    rw [List.mem_append, List.mem_singleton]
    exact not_or_intro h hc.symm

lemma afterEq_concat_eq (h : '='.toUInt8 ∉ line) : afterEq (line ++ ['='.toUInt8]) = [] := by
  have hall : ∀ c' ∈ line, decide (c' ≠ '='.toUInt8) = true := fun c' hc' =>
    decide_eq_true (ne_of_mem_of_not_mem hc' h)
  rw [afterEq, if_pos (List.mem_append_right _ (List.mem_singleton_self _)),
    List.dropWhile_append_of_pos hall]
  rfl

/-- Without the last character of the line, the first tokens are the same exactly if they do not reach
up to it. -/
lemma take_strtok_iff (line : List UInt8) : r ≤ (strtok [] (line ++ [c])).length ∧
    r ≤ (strtok [] line).length ∧ (strtok [] line).take r = (strtok [] (line ++ [c])).take r ↔
      r ≤ (strtok [] (line ++ [c])).length - if c = ' '.toUInt8 then 0 else 1 := by
  by_cases hc : c = ' '.toUInt8
  · rw [hc, strtok_space, if_pos rfl, Nat.sub_zero]
    exact ⟨fun h => h.1, fun h => ⟨h, h, rfl⟩⟩
  rw [if_neg hc]
  obtain ⟨front, t, htokens, hfound⟩ := strtok_concat hc line []
  rw [htokens, List.length_append, List.length_singleton, Nat.add_sub_cancel]
  constructor
  · rintro ⟨hle, hle', htake⟩
    rcases hfound with hfound | hfound
    · rwa [hfound] at hle'
    · by_contra hlt
      obtain rfl : r = front.length + 1 := Nat.le_antisymm hle (Nat.not_le.mp hlt)
      rw [hfound, List.take_of_length_le (by simp), List.take_of_length_le (by simp)] at htake
      simpa using List.append_cancel_left htake
  · intro hle
    refine ⟨Nat.le_succ_of_le hle, ?_, ?_⟩
    · rcases hfound with hfound | hfound <;> rw [hfound]
      · exact hle
      · rw [List.length_append]
        exact Nat.le_add_right_of_le hle
    · rw [List.take_append_of_le_length hle]
      rcases hfound with hfound | hfound <;> rw [hfound]
      exact List.take_append_of_le_length hle

/-- The first tokens are found in spite of the missing character exactly if they do not reach up to
it. -/
lemma take_foundIn_iff (hr : r ≠ 0) : r ≤ (tokensOf (line ++ [c])).length ∧
    r ≤ (foundIn line).length ∧ (foundIn line).take r = (tokensOf (line ++ [c])).take r ↔
      2 < (line ++ [c]).length ∧
        r ≤ (tokensOf (line ++ [c])).length - if c = ' '.toUInt8 then 0 else 1 := by
  rw [List.length_append, List.length_singleton, foundIn]
  by_cases hlen : line.length ≤ 1
  · rw [if_pos hlen]
    constructor
    · rintro ⟨-, hle, -⟩
      exact absurd (Nat.le_zero.mp hle) hr
    · rintro ⟨hlt, -⟩
      exact absurd hlen (Nat.not_le.mpr (Nat.lt_of_succ_lt_succ hlt))
  rw [if_neg hlen]
  have htwo : 2 < line.length + 1 := Nat.succ_lt_succ (Nat.not_le.mp hlen)
  have hne : line ≠ [] := by
    rintro rfl
    exact hlen zero_le_one
  rw [tokensOf, tokensOf, isComment_concat hne]
  by_cases hcomment : isComment line
  · rw [if_pos hcomment, if_pos hcomment]
    simp [hr]
  rw [if_neg hcomment, if_neg hcomment]
  by_cases heq : c = '='.toUInt8 ∧ '='.toUInt8 ∉ line
  · rw [heq.1, afterEq_concat_eq heq.2]
    simp [strtok, hr]
  have hafter : afterEq (line ++ [c]) = afterEq line ++ [c] := by
    rw [not_and_or, not_not] at heq
    exact heq.elim afterEq_concat_of_ne afterEq_concat_of_mem
  rw [hafter, take_strtok_iff, and_iff_right htwo]

/-! ### The file -/

/-- Elements of a later pass are not those of the line. -/
lemma readLoop_eq_ok_iff {early tokens : List (List UInt8)} :
    (readLoop elements (r - early.length) (i + 1) s).map ((early.take r).map (i, ·) ++ ·) =
        .ok ((tokens.map (i, ·)).take r) ↔
      r ≤ early.length ∧ early.take r = tokens.take r := by
  constructor
  · intro h
    obtain ⟨rest, hrest, heq⟩ := map_eq_ok.mp h
    obtain ⟨hlen, hlater⟩ := readLoop_inv hrest
    obtain rfl : rest = [] := by
      refine List.eq_nil_iff_forall_not_mem.mpr fun e he => ?_
      have hmem : e ∈ (tokens.map (i, ·)).take r := heq ▸ List.mem_append_right _ he
      obtain ⟨t, -, rfl⟩ := List.mem_map.mp (List.mem_of_mem_take hmem)
      exact Nat.not_succ_le_self i (hlater _ he)
    refine ⟨Nat.le_of_sub_eq_zero hlen.symm, ?_⟩
    rw [List.append_nil, ← List.map_take] at heq
    exact List.map_injective_iff.mpr (Prod.mk_right_injective i) heq
  · rintro ⟨hearly, heq⟩
    rw [Nat.sub_eq_zero_of_le hearly, readLoop_zero, heq, List.map_take]
    exact congrArg Except.ok (List.append_nil _)

/-- The last line, while elements are missing. -/
lemma readLoop_last_iff {line_in : List UInt8} (hr : r ≠ 0) (hnul : 0 ∉ last)
    (hnl : '\n'.toUInt8 ∉ last) (hlen : last.length < 8192) :
    readLoop (strtok []) r i ⟨line_in, last⟩ = expected r (numbered i [last]) ↔
      Readable last r [] := by
  obtain ⟨r, rfl⟩ := Nat.exists_eq_succ_of_ne_zero hr
  rw [Readable, expected, numbered, numbered, List.append_nil, List.length_map]
  rcases List.eq_nil_or_concat last with rfl | ⟨line, c, rfl⟩
  · rw [if_neg (show ¬ r + 1 ≤ (tokensOf []).length from Nat.not_succ_le_zero r)]
    exact ⟨fun h => absurd h readLoop_ne_endOfFile, fun h => absurd h.1 (Nat.not_lt_zero 2)⟩
  · rw [List.concat_eq_append] at hnul hnl hlen ⊢
    obtain ⟨line', hloop⟩ := readLoop_last i line_in hr hnul hnl hlen
    simp only [List.getLast?_concat, Option.some.injEq]
    rw [← take_foundIn_iff hr, hloop]
    by_cases hle : r + 1 ≤ (tokensOf (line ++ [c])).length
    · rw [if_pos hle, readLoop_eq_ok_iff, and_iff_right hle]
    · rw [if_neg hle, ← hloop]
      exact ⟨fun h => absurd h readLoop_ne_endOfFile, fun h => absurd h.1 hle⟩

lemma foundIn_eq (h : line.length = 1 → tokensOf line = []) : foundIn line = tokensOf line := by
  rw [foundIn]
  split_ifs with hlen
  · rcases Nat.le_one_iff_eq_zero_or_eq_one.mp hlen with hzero | hone
    · rw [List.length_eq_zero_iff.mp hzero]
      rfl
    · exact (h hone).symm
  · rfl

lemma foundIn_of_length (h : line.length = 1) : foundIn line = [] := if_pos h.le

lemma readLoop_zero_iff :
    readLoop elements 0 i s = expected 0 tokens ↔ Readable last 0 lines := by
  rw [readLoop_zero, Readable, expected, if_pos (Nat.zero_le _), List.take_zero]
  exact iff_of_true rfl trivial

/-- From any line on, the loop finds the next tokens exactly if the rest of the file is readable. -/
lemma readLoop_eq_expected_iff {line_in : List UInt8}
    (htext : ∀ line ∈ last :: lines, 0 ∉ line ∧ '\n'.toUInt8 ∉ line)
    (hshort : ∀ line ∈ lines, line.length + 1 < 8192) (hlast : last.length < 8192) :
    readLoop (strtok []) r i ⟨line_in, lines.flatMap (· ++ ['\n'.toUInt8]) ++ last⟩ =
      expected r (numbered i (lines ++ [last])) ↔ Readable last r lines := by
  induction lines generalizing r i line_in with
  | nil =>
    rcases Nat.eq_zero_or_pos r with rfl | hpos
    · exact readLoop_zero_iff
    · obtain ⟨hnul, hnl⟩ := htext last List.mem_cons_self
      exact readLoop_last_iff hpos.ne' hnul hnl hlast
  | cons line lines ih =>
    rcases Nat.eq_zero_or_pos r with rfl | hpos
    · exact readLoop_zero_iff
    obtain ⟨r, rfl⟩ := Nat.exists_eq_succ_of_ne_zero hpos.ne'
    obtain ⟨hnul, hnl⟩ := htext line (List.mem_cons_of_mem _ List.mem_cons_self)
    obtain ⟨line', hloop⟩ := readLoop_line i line_in
      (lines.flatMap (· ++ ['\n'.toUInt8]) ++ last) hpos.ne' hnul hnl (hshort line List.mem_cons_self)
    have hbytes : (line :: lines).flatMap (· ++ ['\n'.toUInt8]) ++ last =
        line ++ '\n'.toUInt8 :: (lines.flatMap (· ++ ['\n'.toUInt8]) ++ last) := by
      rw [List.flatMap_cons, List.append_assoc, List.append_assoc]
      rfl
    rw [hbytes, hloop, Readable]
    by_cases hskip : line.length = 1 → tokensOf line = []
    · rw [foundIn_eq hskip, and_iff_right hskip, List.cons_append, numbered,
        expected_append _ (List.length_map _), ← List.map_take, map_append_inj]
      exact ih (fun l hl => htext l (List.cons_subset_cons last (List.subset_cons_self line lines) hl))
        fun l hl => hshort l (List.mem_cons_of_mem line hl)
    · refine iff_of_false ?_ fun h => hskip h.1
      rw [Classical.not_imp] at hskip
      rw [foundIn_of_length hskip.1, List.take_nil, List.map_nil, map_nil_append]
      exact not_expected_of_skipped hpos.ne' hskip.2

/-- Process 0 finds the first `n` tokens of a file, or stops with the error, exactly if the file is
readable. -/
theorem reads_iff_readable (file : TextFile) (n : ℕ) :
    file.Reads n ↔ Readable file.last n file.lines := by
  have hloop : ∀ line_in, readLoop (strtok []) n 0 ⟨line_in, file.bytes⟩ =
      expected n (numbered 0 (file.lines ++ [file.last])) ↔ Readable file.last n file.lines :=
    fun _ => readLoop_eq_expected_iff file.text file.short file.last_short
  constructor
  · exact fun h => (hloop []).mp (h .d (Or.inl rfl) (fun _ => 0) [])
  · rintro h op_type (rfl | rfl | rfl) behind line_in
    all_goals exact (hloop line_in).mpr h

/-- The only line is the digit 7. -/
def TextFile.seven : TextFile where
  lines := [['7'.toUInt8]]
  last := []
  text := by decide
  short := by decide
  last_short := by decide

/-- One number is not read from a line of one character. -/
theorem not_reads : ¬ TextFile.seven.Reads 1 := by
  intro h
  have hfound := h .i (Or.inr (Or.inl rfl)) (fun _ => 0) []
  have hline : readPass (OpType.i.elements 1 fun _ => 0) ⟨[], TextFile.seven.bytes⟩ =
      .ok ([], ⟨['7'.toUInt8], []⟩) := rfl
  have hstale : readPass (OpType.i.elements 1 fun _ => 0) ⟨['7'.toUInt8], []⟩ =
      .ok ([], ⟨[], []⟩) := rfl
  have hempty : readLoop (OpType.i.elements 1 fun _ => 0) 1 2 ⟨[], []⟩ = .error .outOfBounds :=
    readLoop_of_error Nat.one_ne_zero rfl
  rw [readLoop_of_nil Nat.one_ne_zero hline, readLoop_of_nil Nat.one_ne_zero hstale, hempty] at hfound
  exact nomatch hfound

end NetPipe.MpLite
