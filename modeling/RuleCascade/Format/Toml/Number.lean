import RuleCascade.Decimal.Nearest
import RuleCascade.Document.Datum
import RuleCascade.Text.Code
import RuleCascade.Text.Digits

/-! # Words of TOML

    A word is a truth value or a number. The form of a number is checked where
    it stands; whether it fits a type only matters where it is read. Integers
    of 64 bits are values, and integers of 128 bits may stand in fields that
    are ignored.
-/

namespace RuleCascade.Toml

open Text (hexValue? splitSign signedInt decimalNumber)

/-! ## Section 1: Underscores -/

/-- A number without its underscores. Each stands between two digits; `joined` holds right of
a digit. -/
def withoutUnderscores? (isDigit : Char → Bool) (joined : Bool) :
    List Char → Option (List Char)
  | [] => some []
  | c :: rest =>
    if c = '_' then
      if joined && rest.head?.any isDigit then withoutUnderscores? isDigit false rest else none
    else (withoutUnderscores? isDigit (isDigit c) rest).map (c :: ·)

/-- The digits in front and the underscores among them, and the rest. -/
def splitJoined (cs : List Char) : List Char × List Char :=
  let isPart := fun (c : Char) => c.isDigit || c = '_'
  (cs.takeWhile isPart, cs.dropWhile isPart)

/-- True when there is a digit. -/
def hasDigit (cs : List Char) : Bool :=
  cs.any Char.isDigit

/-! ## Section 2: Integers -/

/-- An integer as a scalar. -/
def integerScalar (i : Int) : Scalar :=
  if Decimal.within 63 64 i then .ofNumber (.int i)
  else { passable := Decimal.within 127 128 i }

/-- An integer in another base, after the mark of the base. Digits may be missing. -/
def based? (base : Nat) (cs : List Char) : Option Scalar :=
  let isDigit := fun c => (hexValue? c).any (· < base)
  if cs.all fun c => isDigit c || c = '_' then
    (withoutUnderscores? isDigit false cs).map fun digits =>
      if digits.isEmpty then .unreadable
      else integerScalar (digits.foldl (fun n c => n * base + (hexValue? c).getD 0) 0 : Nat)
  else none

/-- A decimal integer with underscores. Letters may stand among its digits as far as its form
goes, but then it is no number. -/
def decimalInteger? (negative : Bool) (cs : List Char) : Option Scalar :=
  (withoutUnderscores? (fun c => (hexValue? c).isSome) false cs).map fun digits =>
    if digits.all Char.isDigit then integerScalar (signedInt negative (decimalNumber digits))
    else .unreadable

/-! ## Section 3: Doubles -/

/-- The double that a sign, a whole part, a fraction and an exponent spell. -/
def floatScalar (negative : Bool) (whole fraction : List Char) (exponent : Int) : Scalar :=
  match Decimal.ofDecimal (decimalNumber (whole ++ fraction)) (exponent - fraction.length) with
  | none => .unreadable
  | some bits =>
    { value := some (.number (.float (if negative then Decimal.negate bits else bits))) }

/-- True when a number has more than one digit and the first character is a zero. -/
def hasLeadingZero (cs : List Char) : Bool :=
  cs.head? = some '0' && 1 < (cs.filter Char.isDigit).length

/-- The digits after the point, if one comes next, and the rest. A point needs digits. -/
def fraction? (cs : List Char) : Option (List Char × List Char) :=
  match cs with
  | '.' :: rest => if hasDigit (splitJoined rest).1 then some (splitJoined rest) else none
  | _ => some ([], cs)

/-- The exponent, if one comes next, which must be all that is left. -/
def exponent? (cs : List Char) : Option Int :=
  match cs with
  | [] => some 0
  | e :: rest =>
    let (negative, digits) := splitSign rest
    if (e = 'e' || e = 'E') && hasDigit digits && digits.all Char.isDigit then
      some (signedInt negative (decimalNumber digits))
    else none

/-- A decimal number with a point or an exponent. -/
def decimalFloat? (negative : Bool) (cs : List Char) : Option Scalar := do
  let whole := (splitJoined cs).1
  if !hasDigit whole || hasLeadingZero whole then none
  else
    let plain ← withoutUnderscores? Char.isDigit false cs
    let (fraction, left) ← fraction? (plain.dropWhile Char.isDigit)
    let exponent ← exponent? left
    return floatScalar negative (plain.takeWhile Char.isDigit) fraction exponent

/-! ## Section 4: Words -/

/-- True when a number has a point or an exponent. -/
def isFloat (cs : List Char) : Bool :=
  cs.any fun c => c = '.' || c = 'e' || c = 'E'

/-- A decimal number after its sign, if it has one. -/
def decimal? (negative : Bool) (cs : List Char) : Option Scalar :=
  let rest := cs.dropWhile Char.isDigit
  if cs.isEmpty then none
  else if rest.isEmpty then
    if hasLeadingZero cs then none else decimalInteger? negative cs
  else if isFloat rest then decimalFloat? negative cs
  else if rest.head? = some '_' && cs.head? ≠ some '0' then decimalInteger? negative cs
  else none

/-- Infinity and the undefined number stand for null. -/
def notFinite : Scalar :=
  { value := some .null }

/-- What a word reads as, if its form is right. -/
def word? (cs : List Char) : Option Scalar :=
  match cs with
  | ['t', 'r', 'u', 'e'] => some (.ofBool true)
  | ['f', 'a', 'l', 's', 'e'] => some (.ofBool false)
  | '0' :: 'x' :: rest => based? 16 rest
  | '0' :: 'o' :: rest => based? 8 rest
  | '0' :: 'b' :: rest => based? 2 rest
  | _ =>
    let (negative, digits) := splitSign cs
    if digits = ['i', 'n', 'f'] || digits = ['n', 'a', 'n'] then some notFinite
    else decimal? negative digits

end RuleCascade.Toml
