import RuleCascade.Decimal.Nearest
import RuleCascade.Format.Bracketed
import RuleCascade.Text.Code
import RuleCascade.Text.Digits

/-! # JSON text

    Strict JSON: no comments, no comma before a closing bracket, no leading
    zeros, no raw control characters. Integers that fit 64 bits stay integers,
    with `-0` as the exception; every other number is a double. A number too
    large for a double and a nesting deeper than 127 cannot be read.
-/

namespace RuleCascade.Json

open Bracketed Text

/-! ## Section 1: Numbers -/

/-- The written parts of a number. -/
structure NumberText where
  negative : Bool
  whole : List Char
  fraction : Option (List Char)
  exponent : Option Int

/-- Append digits to a significand as long as it fits 64 bits. Returns it with the digits
that were left over. -/
def absorb (significand : Nat) : List Char → Nat × List Char
  | [] => (significand, [])
  | c :: digits =>
    let next := significand * 10 + (c.toNat - 48)
    if next < UInt64.size then absorb next digits else (significand, c :: digits)

/-- A double with a sign. -/
def signed (negative : Bool) (bits : UInt64) : Number :=
  .float (if negative then Decimal.negate bits else bits)

/-- The number that the parts spell, unless it is too large. -/
def NumberText.number? (t : NumberText) : Option Number :=
  let (whole, extra) := absorb 0 t.whole
  match t.fraction, t.exponent, extra with
  | none, none, [] =>
    if t.negative then
      if whole = 0 || Decimal.twoTo 63 < whole then
        (Decimal.nearest whole 1).map (signed true)
      else some (.int (-whole))
    else some (.int whole)
  | fraction, exponent, extra =>
    let digits := fraction.getD []
    let (significand, dropped) := absorb whole digits
    let shift : Int := extra.length - (digits.length - dropped.length) + exponent.getD 0
    (Decimal.ofScaled significand shift).map (signed t.negative)

/-- True for the digits before the point: at least one, and no zero before others. -/
def isWhole : List Char → Bool
  | [] => false
  | '0' :: rest => rest.isEmpty
  | _ => true

/-- The digits after a point, if one comes next, and the rest. -/
def fractionText? : List Char → Option (Option (List Char) × List Char)
  | '.' :: rest =>
    let (digits, left) := splitDigits rest
    if digits.isEmpty then none else some (some digits, left)
  | cs => some (none, cs)

/-- The exponent, if the letter `e` comes next, and the rest. -/
def exponentText? : List Char → Option (Option Int × List Char)
  | [] => some (none, [])
  | c :: rest =>
    if c = 'e' || c = 'E' then
      let (negative, unsigned) := splitSign rest
      let (digits, left) := splitDigits unsigned
      if digits.isEmpty then none
      else some (some (signedInt negative (decimalNumber digits)), left)
    else some (none, c :: rest)

/-- The parts of the number in front, and the rest. -/
def numberText? (cs : List Char) : Option (NumberText × List Char) :=
  let (negative, unsigned) := splitMinus cs
  let (whole, afterWhole) := splitDigits unsigned
  if isWhole whole then
    (fractionText? afterWhole).bind fun (fraction, afterFraction) =>
      (exponentText? afterFraction).map fun (exponent, left) =>
        (⟨negative, whole, fraction, exponent⟩, left)
  else none

theorem length_of_fractionText? {cs left : List Char} {fraction : Option (List Char)}
    (h : fractionText? cs = some (fraction, left)) : left.length ≤ cs.length := by
  unfold fractionText? at h
  split at h
  · rename_i rest
    have := length_splitDigits rest
    simp only [Option.ite_none_left_eq_some, Option.some.injEq, Prod.mk.injEq] at h
    rw [← h.2.2, List.length_cons]
    omega
  · simp only [Option.some.injEq, Prod.mk.injEq] at h
    exact Nat.le_of_eq (congrArg List.length h.2.symm)

theorem length_of_exponentText? {cs left : List Char} {exponent : Option Int}
    (h : exponentText? cs = some (exponent, left)) : left.length ≤ cs.length := by
  unfold exponentText? at h
  split at h
  · simp only [Option.some.injEq, Prod.mk.injEq] at h
    simp [← h.2]
  · rename_i c rest
    have hsign := length_splitSign rest
    have hdigits := length_splitDigits (splitSign rest).2
    split at h
    · simp only [Option.ite_none_left_eq_some, Option.some.injEq, Prod.mk.injEq] at h
      rw [← h.2.2, List.length_cons]
      omega
    · simp only [Option.some.injEq, Prod.mk.injEq] at h
      exact Nat.le_of_eq (congrArg List.length h.2.symm)

/-- Reading a number leaves a shorter rest. -/
theorem length_of_numberText? {cs left : List Char} {t : NumberText}
    (h : numberText? cs = some (t, left)) : left.length < cs.length := by
  have hsign := length_splitMinus cs
  have hdigits := length_splitDigits (splitMinus cs).2
  simp only [numberText?, Option.ite_none_right_eq_some] at h
  obtain ⟨hwhole, h⟩ := h
  obtain ⟨⟨fraction, afterFraction⟩, hfraction, h⟩ := Option.bind_eq_some_iff.1 h
  obtain ⟨⟨exponent, rest⟩, hexponent, h⟩ := Option.map_eq_some_iff.1 h
  simp only [Prod.mk.injEq] at h
  have hf : afterFraction.length ≤ _ := length_of_fractionText? hfraction
  have he : rest.length ≤ afterFraction.length := length_of_exponentText? hexponent
  have hpos : 0 < (splitDigits (splitMinus cs).2).1.length := by
    cases hw : (splitDigits (splitMinus cs).2).1 with
    | nil => simp [hw, isWhole] at hwhole
    | cons => simp
  rw [← h.2]
  omega

/-! ## Section 2: Texts -/

/-- The pieces up to the closing quote, and the rest after it. -/
def textPieces? : List Char → Option (List Piece × List Char)
  | [] => none
  | '"' :: rest => some ([], rest)
  | '\\' :: 'u' :: a :: b :: c :: d :: rest =>
    match hexNumber? [a, b, c, d], textPieces? rest with
    | some n, some (pieces, rest) => some (.code n :: pieces, rest)
    | _, _ => none
  | '\\' :: e :: rest =>
    match escaped? e, textPieces? rest with
    | some c, some (pieces, rest) => some (.char c :: pieces, rest)
    | _, _ => none
  | c :: rest =>
    if c.toNat < 0x20 then none
    else (textPieces? rest).map fun found => (.char c :: found.1, found.2)
where
  /-- The character that a one-letter escape stands for. -/
  escaped? : Char → Option Char
    | '"' => some '"'
    | '\\' => some '\\'
    | '/' => some '/'
    | 'b' => some '\x08'
    | 'f' => some '\x0c'
    | 'n' => some '\n'
    | 'r' => some '\r'
    | 't' => some '\t'
    | _ => none

/-- Reading a text leaves a shorter rest. -/
theorem length_of_textPieces? {cs left : List Char} {pieces : List Piece}
    (h : textPieces? cs = some (pieces, left)) : left.length < cs.length := by
  fun_induction textPieces? cs generalizing pieces left <;>
    simp only [List.length_cons, List.length_nil, Option.map_eq_some_iff] at h ⊢ <;> grind

/-! ## Section 3: Lexemes -/

/-- White space between lexemes. -/
def isSpace (c : Char) : Bool :=
  c = ' ' || c = '\t' || c = '\n' || c = '\r'

/-- The characters of pairs start right after the first 65536 ones. -/
def pairCode (number : Nat) : Nat :=
  number + 0x10000

/-- The text in front, whose opening quote has been read, and the rest. -/
def textLexeme? (cs : List Char) : Option (Lexeme × List Char) :=
  (textPieces? cs).map fun found =>
    (.text ((joinPieces pairCode found.1).map String.ofList), found.2)

/-- The number in front, and the rest. -/
def numberLexeme? (cs : List Char) : Option (Lexeme × List Char) :=
  (numberText? cs).map fun found =>
    (.scalar (found.1.number?.elim .unreadable .ofNumber), found.2)

/-- The word or number in front, and the rest. -/
def wordLexeme? : List Char → Option (Lexeme × List Char)
  | 't' :: 'r' :: 'u' :: 'e' :: rest => some (.scalar (.ofBool true), rest)
  | 'f' :: 'a' :: 'l' :: 's' :: 'e' :: rest => some (.scalar (.ofBool false), rest)
  | 'n' :: 'u' :: 'l' :: 'l' :: rest => some (.scalar .null, rest)
  | cs => numberLexeme? cs

/-- The lexeme in front, and the rest. White space has been dropped. -/
def lexeme? : List Char → Option (Lexeme × List Char)
  | [] => none
  | c :: rest =>
    match Lexeme.ofMark? c with
    | some mark => some (mark, rest)
    | none => if c = '"' then textLexeme? rest else wordLexeme? (c :: rest)

theorem length_of_textLexeme? {cs left : List Char} {lexeme : Lexeme}
    (h : textLexeme? cs = some (lexeme, left)) : left.length < cs.length := by
  obtain ⟨found, hfound, hpair⟩ := Option.map_eq_some_iff.1 h
  simp only [Prod.mk.injEq] at hpair
  rw [← hpair.2]
  exact length_of_textPieces? hfound

theorem length_of_wordLexeme? {cs left : List Char} {lexeme : Lexeme}
    (h : wordLexeme? cs = some (lexeme, left)) : left.length < cs.length := by
  unfold wordLexeme? at h
  split at h
  case h_4 =>
    obtain ⟨found, hfound, hpair⟩ := Option.map_eq_some_iff.1 h
    simp only [Prod.mk.injEq] at hpair
    rw [← hpair.2]
    exact length_of_numberText? hfound
  all_goals
    cases h
    simp only [List.length_cons]
    omega

/-- Reading a lexeme leaves a shorter rest. -/
theorem length_of_lexeme? {cs left : List Char} {lexeme : Lexeme}
    (h : lexeme? cs = some (lexeme, left)) : left.length < cs.length := by
  unfold lexeme? at h
  split at h
  · cases h
  · split at h
    · cases h
      simp
    · split at h
      · exact Nat.lt_succ_of_lt (length_of_textLexeme? h)
      · exact length_of_wordLexeme? h

/-- Cut a text into lexemes. -/
def lexemes? (cs : List Char) : Option (List Lexeme) :=
  match _hspace : cs.dropWhile isSpace with
  | [] => some []
  | c :: rest =>
    match _hlexeme : lexeme? (c :: rest) with
    | none => none
    | some (lexeme, left) => (lexemes? left).map (lexeme :: ·)
termination_by cs.length
decreasing_by
  have hshorter := length_of_lexeme? _hlexeme
  have hdropped := (List.dropWhile_sublist isSpace (l := cs)).length_le
  rw [_hspace] at hdropped
  omega

/-- No comma before a closing bracket, and at most 127 levels. -/
def rules : Rules :=
  { trailingComma := false, constant? := fun _ => none, maxDepth := some 127 }

/-- The tree that a JSON text spells. -/
def read? (text : String) : Option Datum :=
  (lexemes? text.toList).bind (build? rules)

/-- The value that a JSON text spells. -/
def value? (text : String) : Option Value :=
  (read? text).bind Datum.toValue?

end RuleCascade.Json
