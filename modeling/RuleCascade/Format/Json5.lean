import RuleCascade.Decimal.Nearest
import RuleCascade.Format.Bracketed
import RuleCascade.Text.Code
import RuleCascade.Text.Digits
import RuleCascade.Text.Letter

/-! # JSON5 text

    JSON with comments, commas before closing brackets, texts in single quotes,
    words as keys and more ways to write numbers.

    Where any value is allowed, a number without point and exponent is an
    integer of 64 bits with sign; where a count is asked for, every number is
    read as a double and cut to a whole number of 64 bits without sign.
-/

namespace RuleCascade.Json5

open Bracketed Text

/-! ## Section 1: White space and comments -/

/-- The characters that end a line. -/
def isLineEnd (c : Char) : Bool :=
  c = '\n' || c = '\r' || c = '\u2028' || c = '\u2029'

/-- White space: line ends, the space separators of Unicode, tabs, form feeds and byte order
marks. -/
def isSpace (c : Char) : Bool :=
  let n := c.toNat
  isLineEnd c || n == 0x9 || n == 0xB || n == 0xC || n == 0x20 || n == 0xA0 || n == 0xFEFF ||
    n == 0x1680 || (0x2000 ≤ n && n ≤ 0x200A) || n == 0x202F || n == 0x205F || n == 0x3000

/-- The text after a block comment whose start has been read. -/
def afterComment? : List Char → Option (List Char)
  | [] => none
  | '*' :: '/' :: rest => some rest
  | _ :: rest => afterComment? rest

theorem length_of_afterComment? {cs left : List Char} (h : afterComment? cs = some left) :
    left.length < cs.length := by
  fun_induction afterComment? cs with
  | case1 => cases h
  | case2 => cases h; simp only [List.length_cons]; omega
  | case3 c rest _ ih =>
    have := ih h
    rw [List.length_cons]
    omega

/-- Drop white space and comments in front; an open comment has no end. -/
def skipBlank? (cs : List Char) : Option (List Char) :=
  match cs with
  | [] => some []
  | '/' :: '*' :: rest =>
    match _h : afterComment? rest with
    | none => none
    | some left => skipBlank? left
  | '/' :: '/' :: rest => skipBlank? (rest.dropWhile fun c => !isLineEnd c)
  | c :: rest => if isSpace c then skipBlank? rest else some (c :: rest)
termination_by cs.length
decreasing_by
  · have := length_of_afterComment? _h
    simp only [List.length_cons]
    omega
  · have := (List.dropWhile_sublist (fun c => !isLineEnd c) (l := rest)).length_le
    simp only [List.length_cons]
    omega
  · simp

/-- Dropping white space leaves no longer text. -/
theorem length_of_skipBlank? {cs left : List Char} (h : skipBlank? cs = some left) :
    left.length ≤ cs.length := by
  fun_induction skipBlank? cs with
  | case1 => cases h; simp
  | case2 => cases h
  | case3 rest after hafter ih =>
    have := ih h
    have := length_of_afterComment? hafter
    simp only [List.length_cons]
    omega
  | case4 rest ih =>
    have := ih h
    have := (List.dropWhile_sublist (fun c => !isLineEnd c) (l := rest)).length_le
    simp only [List.length_cons]
    omega
  | case5 c rest _ _ _ ih =>
    have := ih h
    rw [List.length_cons]
    omega
  | case6 => cases h; simp

/-! ## Section 2: Numbers -/

/-- The largest count. -/
def maxCount : UInt64 := 0xffffffffffffffff

/-- The whole part of a magnitude, at most the largest count; nothing below zero. -/
def countOf (negative : Bool) (bits : UInt64) : UInt64 :=
  if negative then 0
  else
    let whole := Decimal.wholePart bits
    if whole < UInt64.size then UInt64.ofNat whole else maxCount

/-- A double with a sign. -/
def signed (negative : Bool) (bits : UInt64) : Number :=
  .float (if negative then Decimal.negate bits else bits)

/-- A number in hexadecimal digits: 32 bits, and without a sign. -/
def hexScalar (signed : Bool) (digits : List Char) : Scalar :=
  match hexNumber? digits with
  | none => .unreadable
  | some n => if signed || Decimal.twoTo 32 ≤ n then .unreadable else .ofNumber (.int n)

/-- A number in decimal digits without point and exponent. -/
def integerScalar (negative : Bool) (digits : List Char) : Scalar :=
  let magnitude := decimalNumber digits
  let value : Int := if negative then -magnitude else magnitude
  match Decimal.ofDecimal magnitude 0 with
  | none => .unreadable
  | some bits =>
    { count := some (countOf negative bits)
      value := if Decimal.within 63 63 value then some (.number (.int value)) else none }

/-- A number with a point or an exponent. -/
def floatScalar (negative : Bool) (whole fraction : List Char) (exponent : Int) : Scalar :=
  match Decimal.ofDecimal (decimalNumber (whole ++ fraction)) (exponent - fraction.length) with
  | none => .unreadable
  | some bits =>
    { count := some (countOf negative bits), value := some (.number (signed negative bits)) }

/-- Infinity and the undefined number stand for null among values. -/
def notFinite (count : UInt64) : Scalar :=
  { count := some count, value := some .null }

/-- The exponent in front, if there is one, and the rest. -/
def exponentText (cs : List Char) : Option Int × List Char :=
  match cs with
  | [] => (none, [])
  | e :: rest =>
    if e = 'e' || e = 'E' then
      let (negative, unsigned) := splitSign rest
      let (digits, left) := splitDigits unsigned
      if digits.isEmpty then (none, e :: rest)
      else (some (signedInt negative (decimalNumber digits)), left)
    else (none, e :: rest)

/-- The integer digits in front: a lone zero, or digits that do not start with zero. -/
def wholeText : List Char → List Char × List Char
  | '0' :: rest => (['0'], rest)
  | cs => splitDigits cs

/-- The digits after a point, if one comes next, and the rest. -/
def fractionText : List Char → Option (List Char) × List Char
  | '.' :: rest => (some (splitDigits rest).1, (splitDigits rest).2)
  | cs => (none, cs)

/-- A decimal number in front, and the rest. Digits may be missing on one side of the point. -/
def decimalScalar? (negative : Bool) (cs : List Char) : Option (Scalar × List Char) :=
  let (whole, afterWhole) := wholeText cs
  let (fraction, afterFraction) := fractionText afterWhole
  let (exponent, left) := exponentText afterFraction
  if whole.isEmpty && (fraction.getD []).isEmpty then none
  else
    match fraction, exponent with
    | none, none => some (integerScalar negative whole, left)
    | _, _ => some (floatScalar negative whole (fraction.getD []) (exponent.getD 0), left)

/-- A number after its sign, if it has one, and the rest. -/
def unsignedScalar? (sign : Option Char) (cs : List Char) : Option (Scalar × List Char) :=
  let negative := sign = some '-'
  match cs with
  | '0' :: x :: d :: rest =>
    if (x = 'x' || x = 'X') && (hexValue? d).isSome then
      let digits := (d :: rest).takeWhile fun c => (hexValue? c).isSome
      let left := rest.dropWhile fun c => (hexValue? c).isSome
      some (hexScalar sign.isSome digits, left)
    else decimalScalar? negative cs
  | 'I' :: 'n' :: 'f' :: 'i' :: 'n' :: 'i' :: 't' :: 'y' :: rest =>
    some (if sign = some '+' then .unreadable else notFinite (if negative then 0 else maxCount),
      rest)
  | 'N' :: 'a' :: 'N' :: rest =>
    some (if sign = some '+' then .unreadable else notFinite 0, rest)
  | cs => decimalScalar? negative cs

theorem length_exponentText (cs : List Char) : (exponentText cs).2.length ≤ cs.length := by
  unfold exponentText
  split
  · simp
  · rename_i e rest
    have hsign := length_splitSign rest
    have hdigits := length_splitDigits (splitSign rest).2
    split
    · dsimp only
      split
      · simp
      · simp only [List.length_cons]
        omega
    · simp

theorem length_wholeText (cs : List Char) :
    (wholeText cs).1.length + (wholeText cs).2.length = cs.length := by
  unfold wholeText
  split
  · simp only [List.length_cons, List.length_nil]
    omega
  · exact length_splitDigits cs

theorem length_fractionText (cs : List Char) :
    ((fractionText cs).1.getD []).length + (fractionText cs).2.length ≤ cs.length := by
  unfold fractionText
  split
  · rename_i rest
    have := length_splitDigits rest
    simp only [Option.getD_some, List.length_cons]
    omega
  · simp

/-- Reading a decimal number leaves a shorter rest. -/
theorem length_of_decimalScalar? {negative : Bool} {cs left : List Char} {s : Scalar}
    (h : decimalScalar? negative cs = some (s, left)) : left.length < cs.length := by
  have hwhole := length_wholeText cs
  have hfraction := length_fractionText (wholeText cs).2
  have hexponent := length_exponentText (fractionText (wholeText cs).2).2
  simp only [decimalScalar?, Option.ite_none_left_eq_some, Bool.and_eq_true,
    List.isEmpty_iff] at h
  obtain ⟨hdigits, h⟩ := h
  have hleft : (exponentText (fractionText (wholeText cs).2).2).2 = left := by
    split at h <;> cases h <;> rfl
  rw [← hleft]
  by_cases hempty : (wholeText cs).1 = []
  · have := List.length_pos_iff.2 fun hnone => hdigits ⟨hempty, hnone⟩
    omega
  · have := List.length_pos_iff.2 hempty
    omega

/-- Reading a number leaves a shorter rest. -/
theorem length_of_unsignedScalar? {sign : Option Char} {cs left : List Char} {s : Scalar}
    (h : unsignedScalar? sign cs = some (s, left)) : left.length < cs.length := by
  unfold unsignedScalar? at h
  dsimp only at h
  split at h
  · rename_i x d rest
    split at h
    · cases h
      have := (List.dropWhile_sublist (fun c => (hexValue? c).isSome) (l := rest)).length_le
      simp only [List.length_cons]
      omega
    · exact length_of_decimalScalar? h
  · cases h
    simp only [List.length_cons]
    omega
  · cases h
    simp only [List.length_cons]
    omega
  · exact length_of_decimalScalar? h

/-! ## Section 3: Texts and words -/

/-- The character of a one-letter escape; digits have no meaning but zero. -/
def escaped? (c : Char) : Option Char :=
  if c = 'b' then some '\x08'
  else if c = 'f' then some '\x0c'
  else if c = 'n' then some '\n'
  else if c = 'r' then some '\r'
  else if c = 't' then some '\t'
  else if c = 'v' then some '\x0b'
  else if c = '0' then some '\x00'
  else if c.isDigit || c = 'x' || c = 'u' then none
  else some c

/-- The pieces up to the closing quote, and the rest after it. -/
def textPieces? (quote : Char) : List Char → Option (List Piece × List Char)
  | [] => none
  | '\\' :: 'u' :: a :: b :: c :: d :: rest =>
    match hexNumber? [a, b, c, d], textPieces? quote rest with
    | some n, some (pieces, left) => some (.code n :: pieces, left)
    | _, _ => none
  | '\\' :: 'x' :: a :: b :: rest =>
    match hexNumber? [a, b], textPieces? quote rest with
    | some n, some (pieces, left) => some (.char (Char.ofNat n) :: pieces, left)
    | _, _ => none
  | '\\' :: '\r' :: '\n' :: rest => textPieces? quote rest
  | '\\' :: e :: rest =>
    if isLineEnd e then textPieces? quote rest
    else
      match escaped? e, textPieces? quote rest with
      | some c, some (pieces, left) => some (.char c :: pieces, left)
      | _, _ => none
  | c :: rest =>
    if c = quote then some ([], rest)
    else if c = '\\' || isLineEnd c then none
    else (textPieces? quote rest).map fun found => (.char c :: found.1, found.2)

/-- Reading a text leaves a shorter rest. -/
theorem length_of_textPieces? {quote : Char} {cs left : List Char} {pieces : List Piece}
    (h : textPieces? quote cs = some (pieces, left)) : left.length < cs.length := by
  fun_induction textPieces? quote cs generalizing pieces left <;>
    simp only [List.length_cons, List.length_nil, Option.map_eq_some_iff] at h ⊢ <;> grind

/-- True for characters that may start a word. -/
def startsWord (c : Char) : Bool :=
  c = '$' || c = '_' || Text.isLetter c

/-- True for characters that may stand in a word. -/
def continuesWord (c : Char) : Bool :=
  startsWord c || Text.isMark c || c = '\u200c' || c = '\u200d'

/-- The pieces of a word and the rest; `first` holds at its start. -/
def wordPieces? (first : Bool) : List Char → Option (List Piece × List Char)
  | '\\' :: 'u' :: a :: b :: c :: d :: rest =>
    match hexNumber? [a, b, c, d], wordPieces? false rest with
    | some n, some (pieces, left) => some (.code n :: pieces, left)
    | _, _ => none
  | c :: rest =>
    if startsWord c || (!first && continuesWord c) then
      (wordPieces? false rest).map fun found => (.char c :: found.1, found.2)
    else if first then none
    else some ([], c :: rest)
  | [] => if first then none else some ([], [])

/-- A word is not empty, and reading on leaves no longer text. -/
theorem length_of_wordPieces? {first : Bool} {cs left : List Char} {pieces : List Piece}
    (h : wordPieces? first cs = some (pieces, left)) :
    left.length + (if first then 1 else 0) ≤ cs.length := by
  fun_induction wordPieces? first cs generalizing pieces left <;>
    simp only [List.length_cons, List.length_nil, Option.map_eq_some_iff] at h ⊢ <;> grind

/-- True when no piece is written as an escape. -/
def isPlain (pieces : List Piece) : Bool :=
  pieces.all fun
    | .char _ => true
    | .code _ => false

/-! ## Section 4: Lexemes -/

/-- The code of a pair: its number with the bit for the first of the later planes set. Numbers
that have the bit already are not moved on, so two pairs may spell one character. -/
def pairCode (number : Nat) : Nat :=
  number ||| 0x10000

/-- The text of pieces. -/
def textOf? (pieces : List Piece) : Option String :=
  (joinPieces pairCode pieces).map String.ofList

/-- The word in front, and the rest. -/
def wordLexeme? (cs : List Char) : Option (Lexeme × List Char) :=
  (wordPieces? true cs).map fun found => (.word (textOf? found.1) (isPlain found.1), found.2)

/-- The text in front, whose opening quote has been read, and the rest. -/
def textLexeme? (quote : Char) (cs : List Char) : Option (Lexeme × List Char) :=
  (textPieces? quote cs).map fun found => (.text (textOf? found.1), found.2)

/-- The number in front, after its sign if it has one, and the rest. -/
def numberLexeme? (sign : Option Char) (cs : List Char) : Option (Lexeme × List Char) :=
  (unsignedScalar? sign cs).map fun found => (.scalar found.1, found.2)

/-- The lexeme in front, and the rest. White space and comments have been dropped. -/
def lexeme? : List Char → Option (Lexeme × List Char)
  | [] => none
  | c :: rest =>
    match Lexeme.ofMark? c with
    | some mark => some (mark, rest)
    | none =>
      if c = '"' || c = '\'' then textLexeme? c rest
      else if c = '+' || c = '-' then numberLexeme? (some c) rest
      else if c.isDigit || c = '.' then numberLexeme? none (c :: rest)
      else wordLexeme? (c :: rest)

theorem length_of_wordLexeme? {cs left : List Char} {lexeme : Lexeme}
    (h : wordLexeme? cs = some (lexeme, left)) : left.length < cs.length := by
  obtain ⟨found, hfound, hpair⟩ := Option.map_eq_some_iff.1 h
  have hlength := length_of_wordPieces? hfound
  simp only [Prod.mk.injEq] at hpair
  simp only [← hpair.2, if_true] at hlength ⊢
  omega

theorem length_of_textLexeme? {quote : Char} {cs left : List Char} {lexeme : Lexeme}
    (h : textLexeme? quote cs = some (lexeme, left)) : left.length < cs.length := by
  obtain ⟨found, hfound, hpair⟩ := Option.map_eq_some_iff.1 h
  simp only [Prod.mk.injEq] at hpair
  rw [← hpair.2]
  exact length_of_textPieces? hfound

theorem length_of_numberLexeme? {sign : Option Char} {cs left : List Char} {lexeme : Lexeme}
    (h : numberLexeme? sign cs = some (lexeme, left)) : left.length < cs.length := by
  obtain ⟨found, hfound, hpair⟩ := Option.map_eq_some_iff.1 h
  simp only [Prod.mk.injEq] at hpair
  rw [← hpair.2]
  exact length_of_unsignedScalar? hfound

/-- Reading a lexeme leaves a shorter rest. -/
theorem length_of_lexeme? {cs left : List Char} {lexeme : Lexeme}
    (h : lexeme? cs = some (lexeme, left)) : left.length < cs.length := by
  unfold lexeme? at h
  split at h
  · cases h
  · rename_i c rest
    split at h
    · cases h
      simp
    · split at h
      · exact Nat.lt_succ_of_lt (length_of_textLexeme? h)
      · split at h
        · exact Nat.lt_succ_of_lt (length_of_numberLexeme? h)
        · split at h
          · exact length_of_numberLexeme? h
          · exact length_of_wordLexeme? h

/-- Cut a text into lexemes. -/
def lexemes? (cs : List Char) : Option (List Lexeme) :=
  match _hblank : skipBlank? cs with
  | none => none
  | some [] => some []
  | some (c :: rest) =>
    match _hlexeme : lexeme? (c :: rest) with
    | none => none
    | some (lexeme, left) => (lexemes? left).map (lexeme :: ·)
termination_by cs.length
decreasing_by
  exact Nat.lt_of_lt_of_le (length_of_lexeme? _hlexeme) (length_of_skipBlank? _hblank)

/-- The words that are values. -/
def constant? (word : String) : Option Scalar :=
  if word = "null" then some .null
  else if word = "true" then some (.ofBool true)
  else if word = "false" then some (.ofBool false)
  else if word = "Infinity" then some (notFinite maxCount)
  else if word = "NaN" then some (notFinite 0)
  else none

/-- A comma may stand before a closing bracket, and the nesting has no limit. -/
def rules : Rules :=
  { trailingComma := true, constant?, maxDepth := none }

/-- The tree that a JSON5 text spells. -/
def read? (text : String) : Option Datum :=
  (lexemes? text.toList).bind (build? rules)

/-- A list that stands for a record may be longer than the record, and fields that are
ignored are read all the same. -/
def dialect : Datum.Dialect :=
  { listForm := .longer, skipsIgnored := false }

end RuleCascade.Json5
