import NetPipe.Library.Outcome

/-!
# Scanning a format

The loop that `mp_vfscanf` and `mp_vunpack` share: it cuts the format into pieces with one conversion
each. A format is the list of its characters, and the end of the list is the terminating NUL.
-/

namespace NetPipe.MpLite

open Outcome

/-- How the loop can fail: it reads behind the end of an array, it writes behind the end of one, or
the format is rejected by `errorx`. -/
inductive ScanFault
  | pastEnd
  | overflow
  | errorx

/-- What is in `lfmt`, and the type character. -/
structure Piece where
  lfmt : List Char
  type_char : Char

def digits : List Char := ['0', '1', '2', '3', '4', '5', '6', '7', '8', '9']

/-- Up to the next `%` that begins a conversion: what is copied, and what comes behind it. The search
does not stop at the NUL. -/
def toConversion : List Char → Except ScanFault (List Char × List Char)
  | [] => .error .pastEnd
  | c :: p1 =>
    if c ≠ '%' then (toConversion p1).map fun r => (c :: r.1, r.2)
    else match p1 with
      | [] => .ok (['%'], [])
      | c' :: p1 =>
        if c' = '%' ∨ c' = '*' then (toConversion p1).map fun r => ('%' :: c' :: r.1, r.2)
        else .ok (['%'], c' :: p1)

/-- The digits of the width. `strchr` finds the NUL among them as well. -/
def copyDigits : List Char → Except ScanFault (List Char × List Char)
  | [] => .error .pastEnd
  | c :: p1 =>
    if c ∈ digits then (copyDigits p1).map fun r => (c :: r.1, r.2) else .ok ([], c :: p1)

/-- `*p2++ = *p1++` where the next character is read after that. -/
def copyChar : List Char → Except ScanFault (Char × List Char)
  | [] => .error .pastEnd
  | c :: p1 => .ok (c, p1)

/-- The character after an `l`. -/
def copyExt (type_char : Char) (p1 : List Char) : Except ScanFault (List Char × List Char) :=
  if type_char = 'l' then (copyChar p1).map fun r => ([r.1], r.2) else .ok ([], p1)

/-- The rest of the format goes to the last piece. -/
def finishOff (p1 : List Char) : List Char × List Char := if '%' ∈ p1 then ([], p1) else (p1, [])

/-- One pass of the loop: the piece, and what is left of the format. -/
def scanPiece (fmt : List Char) : Except ScanFault (Piece × List Char) := do
  let (text, p1) ← toConversion fmt
  let (width, p1) ← copyDigits p1
  let (type_char, p1) ← copyChar p1
  let (ext, p1) ← copyExt type_char p1
  let (rest, p1) := finishOff p1
  let lfmt := text ++ width ++ type_char :: ext ++ rest
  if lfmt.length < 100 then .ok (⟨lfmt, type_char⟩, p1) else .error .overflow

/-! ### Pieces -/

/-- What may stand before a conversion: other characters, `%%`, and suppressed conversions. -/
inductive Text : List Char → Prop
  | nil : Text []
  | char {c : Char} {text : List Char} : c ≠ '%' → Text text → Text (c :: text)
  | pair {c : Char} {text : List Char} : c = '%' ∨ c = '*' → Text text → Text ('%' :: c :: text)

/-- A conversion with the text before it. -/
structure Conv where
  text : List Char
  width : List Char
  type_char : Char
  ext : List Char
  isText : Text text
  width_digits : ∀ c ∈ width, c ∈ digits
  type_not_digit : type_char ∉ digits
  type_plain : width = [] → ¬ (type_char = '%' ∨ type_char = '*')
  ext_length : ext.length = if type_char = 'l' then 1 else 0

/-- The conversion as it stands in the format. -/
def Conv.chars (conv : Conv) : List Char :=
  conv.text ++ '%' :: (conv.width ++ conv.type_char :: conv.ext)

variable {fmt text width p1 rest : List Char} {r : List Char × List Char} {c : Char} {conv : Conv}

lemma toConversion_char (hc : c ≠ '%') (p1 : List Char) :
    toConversion (c :: p1) = (toConversion p1).map fun r => (c :: r.1, r.2) := by
  cases p1 <;> simp [toConversion, hc]

lemma toConversion_pair (hc : c = '%' ∨ c = '*') (p1 : List Char) :
    toConversion ('%' :: c :: p1) = (toConversion p1).map fun r => ('%' :: c :: r.1, r.2) := by
  rw [toConversion, if_neg (by simp), if_pos hc]

lemma toConversion_percent (hp1 : ∀ c ∈ p1.head?, ¬ (c = '%' ∨ c = '*')) :
    toConversion ('%' :: p1) = .ok (['%'], p1) := by
  cases p1 with
  | nil => rw [toConversion, if_neg (by simp)]
  | cons c p1 => rw [toConversion, if_neg (by simp), if_neg (hp1 c rfl)]

lemma toConversion_eq (h : Text text) (hp1 : ∀ c ∈ p1.head?, ¬ (c = '%' ∨ c = '*')) :
    toConversion (text ++ '%' :: p1) = .ok (text ++ ['%'], p1) := by
  induction h with
  | nil => exact toConversion_percent hp1
  | char hc _ ih =>
    rw [List.cons_append, toConversion_char hc, ih]
    rfl
  | pair hc _ ih =>
    rw [List.cons_append, List.cons_append, toConversion_pair hc, ih]
    rfl

/-- A text without a conversion behind it is left at its end. -/
lemma toConversion_text (h : Text text) : toConversion text = .error .pastEnd := by
  induction h with
  | nil => rfl
  | char hc _ ih =>
    rw [toConversion_char hc, ih]
    rfl
  | pair hc _ ih =>
    rw [toConversion_pair hc, ih]
    rfl

lemma exists_of_toConversion (h : toConversion fmt = .ok r) : ∃ text, Text text ∧
    r.1 = text ++ ['%'] ∧ fmt = text ++ '%' :: r.2 ∧ ∀ c ∈ r.2.head?, ¬ (c = '%' ∨ c = '*') := by
  induction fmt using toConversion.induct generalizing r with
  | case1 => exact nomatch h
  | case2 c p1 hc ih =>
    rw [toConversion_char hc] at h
    obtain ⟨r, hr, rfl⟩ := map_eq_ok.mp h
    obtain ⟨text, htext, hcopied, hfmt, hhead⟩ := ih hr
    exact ⟨c :: text, .char hc htext, by simp [hcopied], by simp [← hfmt], hhead⟩
  | case3 c hc =>
    obtain rfl : c = '%' := not_not.mp hc
    rw [toConversion_percent (by simp)] at h
    obtain rfl := Except.ok.inj h
    exact ⟨[], .nil, rfl, rfl, by simp⟩
  | case4 c hc c' p1 hc' ih =>
    obtain rfl : c = '%' := not_not.mp hc
    rw [toConversion_pair hc'] at h
    obtain ⟨r, hr, rfl⟩ := map_eq_ok.mp h
    obtain ⟨text, htext, hcopied, hfmt, hhead⟩ := ih hr
    exact ⟨'%' :: c' :: text, .pair hc' htext, by simp [hcopied], by simp [← hfmt], hhead⟩
  | case5 c hc c' p1 hc' =>
    obtain rfl : c = '%' := not_not.mp hc
    have hhead : ∀ d ∈ (c' :: p1).head?, ¬ (d = '%' ∨ d = '*') := by simpa using hc'
    rw [toConversion_percent hhead] at h
    obtain rfl := Except.ok.inj h
    exact ⟨[], .nil, rfl, rfl, hhead⟩

lemma copyDigits_eq (hwidth : ∀ c ∈ width, c ∈ digits) (hc : c ∉ digits) (p1 : List Char) :
    copyDigits (width ++ c :: p1) = .ok (width, c :: p1) := by
  induction width with
  | nil => rw [List.nil_append, copyDigits, if_neg hc]
  | cons d width ih =>
    rw [List.forall_mem_cons] at hwidth
    rw [List.cons_append, copyDigits, if_pos hwidth.1, ih hwidth.2]
    rfl

lemma exists_of_copyDigits (h : copyDigits fmt = .ok r) : ∃ c p1, r.2 = c :: p1 ∧
    fmt = r.1 ++ c :: p1 ∧ (∀ d ∈ r.1, d ∈ digits) ∧ c ∉ digits := by
  induction fmt generalizing r with
  | nil => exact nomatch h
  | cons d fmt ih =>
    rw [copyDigits] at h
    split_ifs at h with hd
    · obtain ⟨r, hr, rfl⟩ := map_eq_ok.mp h
      obtain ⟨c, p1, hr2, hfmt, hwidth, hc⟩ := ih hr
      refine ⟨c, p1, hr2, by simp [← hfmt], ?_, hc⟩
      rw [List.forall_mem_cons]
      exact ⟨hd, hwidth⟩
    · obtain rfl := Except.ok.inj h
      exact ⟨d, fmt, rfl, rfl, by simp, hd⟩

lemma exists_of_copyExt (h : copyExt c fmt = .ok r) :
    fmt = r.1 ++ r.2 ∧ r.1.length = if c = 'l' then 1 else 0 := by
  rw [copyExt] at h
  split_ifs at h ⊢
  · obtain ⟨r, hr, rfl⟩ := map_eq_ok.mp h
    cases fmt with
    | nil => exact nomatch hr
    | cons d fmt =>
      obtain rfl := Except.ok.inj hr
      exact ⟨rfl, rfl⟩
  · obtain rfl := Except.ok.inj h
    exact ⟨rfl, rfl⟩

lemma Conv.head_chars (conv : Conv) (rest : List Char) :
    ∀ c ∈ (conv.width ++ conv.type_char :: rest).head?, ¬ (c = '%' ∨ c = '*') := by
  have hdigits : ∀ d ∈ digits, ¬ (d = '%' ∨ d = '*') := by simp [digits]
  cases hwidth : conv.width with
  | nil => simpa using conv.type_plain hwidth
  | cons d width =>
    have hd : d ∈ digits := conv.width_digits d (by simp [hwidth])
    simpa using hdigits d hd

/-- A pass over a conversion. -/
lemma scanPiece_conv (conv : Conv) (rest : List Char) : scanPiece (conv.chars ++ rest) =
    if (conv.chars ++ (finishOff rest).1).length < 100 then
      .ok (⟨conv.chars ++ (finishOff rest).1, conv.type_char⟩, (finishOff rest).2)
    else .error .overflow := by
  have hsplit : conv.chars ++ rest =
      conv.text ++ '%' :: (conv.width ++ conv.type_char :: (conv.ext ++ rest)) := by
    simp [Conv.chars]
  have hchars : ∀ rest, conv.text ++ ['%'] ++ conv.width ++ conv.type_char :: conv.ext ++ rest =
      conv.chars ++ rest := by
    simp [Conv.chars]
  have hext : copyExt conv.type_char (conv.ext ++ rest) = .ok (conv.ext, rest) := by
    have hlen := conv.ext_length
    rw [copyExt]
    split_ifs at hlen ⊢
    · obtain ⟨c, hc⟩ := List.length_eq_one_iff.mp hlen
      rw [hc]
      rfl
    · rw [List.length_eq_zero_iff.mp hlen]
      rfl
  rw [hsplit, scanPiece, toConversion_eq conv.isText (conv.head_chars _)]
  simp only [bind, Except.bind, copyDigits_eq conv.width_digits conv.type_not_digit, copyChar, hext]
  rw [hchars]

/-- A pass that comes to its end has found a conversion. -/
lemma exists_of_scanPiece {r : Piece × List Char} (h : scanPiece fmt = .ok r) :
    ∃ (conv : Conv) (rest : List Char), fmt = conv.chars ++ rest := by
  rw [scanPiece] at h
  obtain ⟨⟨copied, p1⟩, hconv, h⟩ := bind_eq_ok.mp h
  obtain ⟨⟨width, p2⟩, hwidth, h⟩ := bind_eq_ok.mp h
  obtain ⟨⟨type_char, p3⟩, htype, h⟩ := bind_eq_ok.mp h
  obtain ⟨⟨ext, p4⟩, hext, h⟩ := bind_eq_ok.mp h
  obtain ⟨text, htext, -, rfl, hhead⟩ := exists_of_toConversion hconv
  obtain ⟨c, p, rfl, rfl, hdigits, hc⟩ := exists_of_copyDigits hwidth
  obtain ⟨rfl, rfl⟩ := Prod.mk.inj (Except.ok.inj htype)
  obtain ⟨rfl, hlen⟩ := exists_of_copyExt hext
  have hplain : width = [] → ¬ (c = '%' ∨ c = '*') := by
    rintro rfl
    simpa using hhead
  exact ⟨⟨text, width, c, ext, htext, hdigits, hc, hplain, hlen⟩, p4, by simp [Conv.chars]⟩

lemma toConversion_error {e : ScanFault} (h : toConversion fmt = .error e) : e = .pastEnd := by
  induction fmt using toConversion.induct with
  | case1 => exact (Except.error.inj h).symm
  | case2 c p1 hc ih =>
    rw [toConversion_char hc] at h
    exact ih (map_eq_error.mp h)
  | case3 c hc =>
    obtain rfl : c = '%' := not_not.mp hc
    exact nomatch h
  | case4 c hc c' p1 hc' ih =>
    obtain rfl : c = '%' := not_not.mp hc
    rw [toConversion_pair hc'] at h
    exact ih (map_eq_error.mp h)
  | case5 c hc c' p1 hc' =>
    obtain rfl : c = '%' := not_not.mp hc
    rw [toConversion_percent (by simpa using hc')] at h
    exact nomatch h

lemma copyDigits_error {e : ScanFault} (h : copyDigits fmt = .error e) : e = .pastEnd := by
  induction fmt with
  | nil => exact (Except.error.inj h).symm
  | cons c fmt ih =>
    rw [copyDigits] at h
    split_ifs at h
    exact ih (map_eq_error.mp h)

lemma copyChar_error {e : ScanFault} (h : copyChar fmt = .error e) : e = .pastEnd := by
  cases fmt with
  | nil => exact (Except.error.inj h).symm
  | cons c fmt => exact nomatch h

lemma copyExt_error {e : ScanFault} (h : copyExt c fmt = .error e) : e = .pastEnd := by
  rw [copyExt] at h
  split_ifs at h
  exact copyChar_error (map_eq_error.mp h)

/-- A pass itself rejects nothing. -/
lemma scanPiece_ne_errorx (fmt : List Char) : scanPiece fmt ≠ .error .errorx := by
  intro h
  rw [scanPiece] at h
  rcases bind_eq_error.mp h with hconv | ⟨_, -, h⟩
  · exact nomatch toConversion_error hconv
  rcases bind_eq_error.mp h with hwidth | ⟨_, -, h⟩
  · exact nomatch copyDigits_error hwidth
  rcases bind_eq_error.mp h with htype | ⟨_, -, h⟩
  · exact nomatch copyChar_error htype
  rcases bind_eq_error.mp h with hext | ⟨_, -, h⟩
  · exact nomatch copyExt_error hext
  dsimp only at h
  split_ifs at h
  exact nomatch Except.error.inj h

/-! ### The loop -/

lemma length_scanPiece {r : Piece × List Char} (h : scanPiece fmt = .ok r) :
    r.2.length < fmt.length := by
  obtain ⟨conv, rest, rfl⟩ := exists_of_scanPiece h
  rw [scanPiece_conv] at h
  split_ifs at h
  obtain rfl := Except.ok.inj h
  rw [finishOff, Conv.chars]
  split_ifs <;> simp
  omega

/-- The loop, with what is done for a piece. -/
def scanLoop {σ : Type} (body : Piece → σ → Except ScanFault σ) (fmt : List Char) (s : σ) :
    Except ScanFault σ :=
  if fmt = [] then .ok s
  else
    match _h : scanPiece fmt with
    | .error fault => .error fault
    | .ok (piece, p1) => do
      let s ← body piece s
      scanLoop body p1 s
termination_by fmt.length
decreasing_by exact length_scanPiece _h

/-- The type characters that the `switch` knows. -/
def knownTypes : List Char := ['d', 'i', 'u', 'f', 'e', 'g', 'c', 'l', 's']

/-- The `switch` rejects the other ones. -/
def checkType (piece : Piece) (_ : Unit) : Except ScanFault Unit :=
  if piece.type_char ∈ knownTypes then .ok () else .error .errorx

/-- The loop neither reads behind the format nor writes behind the end of `lfmt`. -/
def ScanSafe (fmt : List Char) : Prop :=
  scanLoop checkType fmt () = .ok () ∨ scanLoop checkType fmt () = .error .errorx

/-- The format goes on with conversions, up to its end or to the first one that is not known. Each
has less than 100 characters with the text before it, the last one with the text behind it too, and
there is no `%` behind the last one. -/
inductive Scannable : List Char → Prop
  | nil : Scannable []
  | last {conv : Conv} {rest : List Char} : '%' ∉ rest → (conv.chars ++ rest).length < 100 →
    Scannable (conv.chars ++ rest)
  | next {conv : Conv} {rest : List Char} : '%' ∈ rest → conv.chars.length < 100 →
    (conv.type_char ∈ knownTypes → Scannable rest) → Scannable (conv.chars ++ rest)

lemma Conv.chars_append_ne (conv : Conv) (rest : List Char) : conv.chars ++ rest ≠ [] := by
  simp [chars]

lemma Conv.length_chars_pos (conv : Conv) : 0 < conv.chars.length := by
  simp [chars]

/-- The loop at a conversion. -/
lemma scanLoop_conv {σ : Type} (body : Piece → σ → Except ScanFault σ) (conv : Conv)
    (rest : List Char) (s : σ) : scanLoop body (conv.chars ++ rest) s =
      if (conv.chars ++ (finishOff rest).1).length < 100 then do
        let s ← body ⟨conv.chars ++ (finishOff rest).1, conv.type_char⟩ s
        scanLoop body (finishOff rest).2 s
      else .error .overflow := by
  rw [scanLoop, if_neg (conv.chars_append_ne rest)]
  split
  case h_1 fault hs =>
    rw [scanPiece_conv] at hs
    split_ifs at hs with hlen
    rw [if_neg hlen, Except.error.inj hs]
  case h_2 piece p1 hs =>
    rw [scanPiece_conv] at hs
    split_ifs at hs with hlen
    obtain ⟨rfl, rfl⟩ := Prod.mk.inj (Except.ok.inj hs)
    rw [if_pos hlen]

/-- What the loop does with a conversion whose type is not known, and with one whose type is. -/
lemma scanLoop_checkType (conv : Conv) (rest : List Char) :
    scanLoop checkType (conv.chars ++ rest) () =
      if (conv.chars ++ (finishOff rest).1).length < 100 then
        if conv.type_char ∈ knownTypes then scanLoop checkType (finishOff rest).2 ()
        else .error .errorx
      else .error .overflow := by
  rw [scanLoop_conv, checkType]
  split_ifs <;> rfl

lemma scanSafe_nil : ScanSafe [] := by
  left
  rw [scanLoop, if_pos rfl]

/-- A conversion is safe if it is short enough and what comes behind it is safe. -/
lemma scanSafe_conv (conv : Conv) (rest : List Char) : ScanSafe (conv.chars ++ rest) ↔
    (conv.chars ++ (finishOff rest).1).length < 100 ∧
      (conv.type_char ∈ knownTypes → ScanSafe (finishOff rest).2) := by
  rw [ScanSafe, scanLoop_checkType]
  split_ifs with hlen hknown
  · exact ⟨fun h => ⟨hlen, fun _ => h⟩, fun h => h.2 hknown⟩
  · exact iff_of_true (Or.inr rfl) ⟨hlen, fun h => absurd h hknown⟩
  · refine iff_of_false ?_ fun h => hlen h.1
    rintro (h | h)
    · exact nomatch h
    · exact nomatch Except.error.inj h

/-- A safe format begins with a conversion. -/
lemma exists_conv_of_scanSafe (h : ScanSafe fmt) (hne : fmt ≠ []) :
    ∃ (conv : Conv) (rest : List Char), fmt = conv.chars ++ rest := by
  cases hpiece : scanPiece fmt with
  | ok r => exact exists_of_scanPiece hpiece
  | error fault =>
    have hloop : scanLoop checkType fmt () = .error fault := by
      rw [scanLoop, if_neg hne]
      split
      case h_1 fault' hs => rw [Except.error.inj (hs.symm.trans hpiece)]
      case h_2 hs => exact nomatch hs.symm.trans hpiece
    rw [ScanSafe, hloop] at h
    rcases h with h | h
    · exact nomatch h
    · rw [Except.error.inj h] at hpiece
      exact absurd hpiece (scanPiece_ne_errorx fmt)

/-- No conversion is found in a text. -/
lemma scanLoop_text {σ : Type} (body : Piece → σ → Except ScanFault σ) (h : Text text)
    (hne : text ≠ []) (s : σ) : scanLoop body text s = .error .pastEnd := by
  have hpiece : scanPiece text = .error .pastEnd := by
    rw [scanPiece, toConversion_text h]
    rfl
  rw [scanLoop, if_neg hne]
  split
  case h_1 fault hs => rw [Except.error.inj (hs.symm.trans hpiece)]
  case h_2 hs => exact nomatch hs.symm.trans hpiece

lemma not_scanSafe_text (h : Text text) (hne : text ≠ []) : ¬ ScanSafe text := by
  rw [ScanSafe, scanLoop_text checkType h hne]
  rintro (h | h)
  · exact nomatch h
  · exact nomatch Except.error.inj h

/-- The loop stops in time exactly for such formats. -/
theorem scanSafe_iff : ScanSafe fmt ↔ Scannable fmt := by
  constructor
  · intro h
    induction hlen : fmt.length using Nat.strong_induction_on generalizing fmt with
    | _ n ih =>
      rcases eq_or_ne fmt [] with rfl | hne
      · exact .nil
      · obtain ⟨conv, rest, rfl⟩ := exists_conv_of_scanSafe h hne
        obtain ⟨hfit, hrest⟩ := (scanSafe_conv conv rest).mp h
        by_cases hpercent : '%' ∈ rest
        · rw [finishOff, if_pos hpercent] at hfit hrest
          refine .next hpercent (by simpa using hfit) fun hknown => ?_
          refine ih rest.length ?_ (hrest hknown) rfl
          rw [← hlen, List.length_append]
          exact Nat.lt_add_of_pos_left conv.length_chars_pos
        · rw [finishOff, if_neg hpercent] at hfit
          exact .last hpercent hfit
  · intro h
    induction h with
    | nil => exact scanSafe_nil
    | @last conv rest hpercent hfit =>
      rw [scanSafe_conv, finishOff, if_neg hpercent]
      exact ⟨hfit, fun _ => scanSafe_nil⟩
    | @next conv rest hpercent hfit _ ih =>
      rw [scanSafe_conv, finishOff, if_pos hpercent, List.append_nil]
      exact ⟨hfit, ih⟩

lemma nil_digits : ∀ c ∈ ([] : List Char), c ∈ digits := by simp

/-- `%d` as it stands in a format. -/
def Conv.int : Conv where
  text := []
  width := []
  type_char := 'd'
  ext := []
  isText := .nil
  width_digits := nil_digits
  type_not_digit := by decide
  type_plain := by decide
  ext_length := rfl

/-- The search for a conversion behind `%d%%` does not stop at the end of the format. -/
theorem not_scanSafe : ¬ ScanSafe ['%', 'd', '%', '%'] := by
  intro h
  have hrest := ((scanSafe_conv Conv.int ['%', '%']).mp h).2 (by decide)
  exact not_scanSafe_text (.pair (Or.inl rfl) .nil) (by decide) hrest

end NetPipe.MpLite
