import RuleCascade.Decimal.Nearest
import RuleCascade.Document.Datum
import RuleCascade.Format.Yaml.Scalar
import RuleCascade.Format.Yaml.Tag
import RuleCascade.Text.Code
import RuleCascade.Text.Digits

/-! # What YAML scalars mean

    A plain scalar means what it looks like: nothing, a truth value, a number
    or a text. Where a text is asked for, every scalar is its own text; where a
    truth value or a count is asked for, the scalar must be plain and look like
    one. A tag can fix the meaning.
-/

namespace RuleCascade.Yaml

/-! ## Section 1: Words -/

/-- The words for nothing. -/
def isNullWord (text : String) : Bool :=
  text = "~" || text = "null" || text = "Null" || text = "NULL"

/-- The words for truth values. -/
def boolWord? (text : String) : Option Bool :=
  if text = "true" || text = "True" || text = "TRUE" then some true
  else if text = "false" || text = "False" || text = "FALSE" then some false
  else none

/-- The words for infinities and for the undefined number. -/
def isNotFinite (text : String) : Bool :=
  text ∈ [".inf", ".Inf", ".INF", "+.inf", "+.Inf", "+.INF", "-.inf", "-.Inf", "-.INF",
    ".nan", ".NaN", ".NAN"]

/-! ## Section 2: Numbers -/

/-- The value of digits in a base. -/
def digits? (base : Nat) (cs : List Char) : Option Nat :=
  if cs.isEmpty then none
  else
    cs.foldlM (fun value c =>
      (Text.hexValue? c).bind fun d => if d < base then some (value * base + d) else none) 0

/-- Digits after a mark of their base. -/
def based? : List Char → Option Nat
  | '0' :: 'x' :: rest => digits? 16 rest
  | '0' :: 'o' :: rest => digits? 8 rest
  | '0' :: 'b' :: rest => digits? 2 rest
  | _ => none

/-- True for digits that start with a superfluous zero. They are a text. -/
def hasLeadingZero : List Char → Bool
  | '0' :: d :: rest => (d :: rest).all Char.isDigit
  | _ => false

/-- The magnitude that digits spell, in some base. -/
def magnitude? (cs : List Char) : Option Nat :=
  match based? cs with
  | some n => some n
  | none => if hasLeadingZero cs then none else digits? 10 cs

/-- The integer that a word spells. -/
def integer? (cs : List Char) : Option Int :=
  let (negative, digits) := Text.splitSign cs
  (magnitude? digits).map (Text.signedInt negative)

/-- The count that a word spells: an integer of 64 bits without a minus sign. -/
def countWord? : List Char → Option UInt64
  | '-' :: _ => none
  | cs => (integer? cs).bind fun i => (Number.int i).toUInt64?

/-- The exponent that the rest of a number spells. -/
def exponentWord? : List Char → Option Int
  | [] => some 0
  | e :: rest =>
    if e = 'e' || e = 'E' then
      let (negative, digits) := Text.splitSign rest
      if digits.isEmpty || !digits.all Char.isDigit then none
      else some (Text.signedInt negative (Text.decimalNumber digits))
    else none

/-- The double that a word spells, unless it is too large. -/
def float? (cs : List Char) : Option UInt64 :=
  let (negative, cs) := Text.splitSign cs
  let whole := cs.takeWhile Char.isDigit
  let (fraction, rest) := match cs.dropWhile Char.isDigit with
    | '.' :: rest => (rest.takeWhile Char.isDigit, rest.dropWhile Char.isDigit)
    | rest => ([], rest)
  if whole.isEmpty && fraction.isEmpty then none
  else
    (exponentWord? rest).bind fun exponent =>
      (Decimal.ofDecimal (Text.decimalNumber (whole ++ fraction))
        (exponent - fraction.length)).map fun bits =>
          if negative then Decimal.negate bits else bits

/-! ## Section 3: Scalars -/

/-- The value of an integer: within 64 bits it is one, within 128 bits it is none, and beyond
that a double is tried. -/
def integerValue (i : Int) : Option (Option Value) :=
  if Decimal.within 63 64 i then some (some (.number (.int i)))
  else if Decimal.within 127 128 i then some none
  else none

/-- The value of a word as a double, or as a text. -/
def floatOrText (text : String) : Value :=
  if isNotFinite text then .null
  else if hasLeadingZero (Text.splitSign text.toList).2 then .string text
  else
    match float? text.toList with
    | some bits => .number (.float bits)
    | none => .string text

/-- The value of a plain scalar without a tag. -/
def plainValue? (text : String) : Option Value :=
  if text.isEmpty || isNullWord text then some .null
  else
    match boolWord? text with
    | some b => some (.bool b)
    | none =>
      match (integer? text.toList).bind integerValue with
      | some value => value
      | none => some (floatOrText text)

/-- The value of a scalar without a tag: only a plain one is more than a text. -/
def untaggedValue? (text : String) (plain : Bool) : Option Value :=
  if plain then plainValue? text else some (.string text)

/-- The value of a scalar with a tag. -/
def taggedValue? (text : String) (plain : Bool) : Tag → Option Value
  | .null => if isNullWord text then some .null else none
  | .bool => (boolWord? text).map .bool
  | .int => ((integer? text.toList).bind integerValue).join
  | .float =>
    if isNotFinite text then some .null
    else (float? text.toList).map fun bits => .number (.float bits)
  | .own => none
  | .illegible => untaggedValue? text plain
  | .other => some (.string text)

/-- How an optional field takes a plain scalar: it is absent when the scalar is a word for
nothing. Without a tag also the empty text is one; with the tag for nothing, nothing else may
stand there. -/
def plainPresence (text : String) : Option Tag → Presence
  | none => if text.isEmpty || isNullWord text then .absent else .present
  | some .null => if isNullWord text then .absent else .refused
  | some _ => .present

/-- Everything that a scalar reads as. -/
def meaning (text : String) (style : Style) (tag : Option Tag) : Scalar :=
  let plain : Bool := style = .plain
  let asWord := fun named => plain || (style = .literal && tag = some named)
  { presence := if plain then plainPresence text tag else .present
    hollow := plain && text.isEmpty
    text := some text
    flag := if asWord .bool then boolWord? text else none
    count := if asWord .int then countWord? text.toList else none
    value := match tag with
      | some tag => taggedValue? text plain tag
      | none => untaggedValue? text plain }

end RuleCascade.Yaml
