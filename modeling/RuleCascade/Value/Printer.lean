import RuleCascade.Value
import RuleCascade.Decimal.Shortest

/-! # Compact text of values

    Values are written without blanks, object fields in their order. Strings
    escape the quote, the backslash and the control characters below U+0020.
    A float shows the shortest digits that read back; it is positional, with a
    fraction, for decimal exponents from -5 to 15 and scientific otherwise.
-/

namespace RuleCascade

/-! ## Section 1: Floats -/

/-- The choices that turn digits into the text of a float. -/
structure FloatFormat where
  /-- The smallest decimal exponent that is written positionally. -/
  minPositional : Int
  /-- The largest decimal exponent that is written positionally. -/
  maxPositional : Int

/-- Exponents -5 to 15 are positional. -/
def Value.floatFormat : FloatFormat := ⟨-5, 15⟩

namespace FloatFormat

/-- `count` zeros. -/
def zeros (count : Nat) : String :=
  String.ofList (List.replicate count '0')

/-- Digits with the leading one at exponent `lead`, as a positional decimal with a fraction. -/
def positional (digits : List Char) (lead : Int) : String :=
  if lead < 0 then
    "0." ++ zeros (-lead - 1).toNat ++ String.ofList digits
  else
    let whole := lead.toNat + 1
    if digits.length ≤ whole then
      String.ofList digits ++ zeros (whole - digits.length) ++ ".0"
    else
      String.ofList (digits.take whole) ++ "." ++ String.ofList (digits.drop whole)

/-- One digit before the point, no point without a fraction, and a signed exponent. -/
def scientific (digits : List Char) (lead : Int) : String :=
  let mantissa := match digits with
    | [] => "0"
    | [d] => d.toString
    | d :: rest => d.toString ++ "." ++ String.ofList rest
  mantissa ++ (if lead < 0 then "e-" else "e+") ++ toString lead.natAbs

/-- The text of the double with the given bits. -/
def render (format : FloatFormat) (bits : UInt64) : String :=
  let sign := if Decimal.isNegative bits then "-" else ""
  let d := Decimal.shortest bits
  if d.digits = 0 then sign ++ "0.0"
  else
    let digits := Nat.toDigits 10 d.digits
    let lead := d.exponent + digits.length - 1
    if format.minPositional ≤ lead ∧ lead ≤ format.maxPositional then
      sign ++ positional digits lead
    else
      sign ++ scientific digits lead

end FloatFormat

/-! ## Section 2: Strings -/

namespace Value

/-- One hexadecimal digit, in lower case. -/
def hexDigit (n : Nat) : Char :=
  Nat.digitChar (n % 16)

/-- A character as it stands between quotes. -/
def escape (c : Char) : List Char :=
  if c = '"' then ['\\', '"']
  else if c = '\\' then ['\\', '\\']
  else if c = '\n' then ['\\', 'n']
  else if c = '\r' then ['\\', 'r']
  else if c = '\t' then ['\\', 't']
  else if c.toNat = 8 then ['\\', 'b']
  else if c.toNat = 12 then ['\\', 'f']
  else if c.toNat < 0x20 then
    ['\\', 'u', '0', '0', hexDigit (c.toNat / 16), hexDigit c.toNat]
  else [c]

/-- A string between quotes. -/
def quote (s : String) : String :=
  "\"" ++ String.ofList (s.toList.flatMap escape) ++ "\""

/-! ## Section 3: Trees -/

/-- The text of a number. -/
def renderNumber : Number → String
  | .int i => toString i
  | .float bits => floatFormat.render bits

mutual

/-- The compact text of a value. -/
def render : Value → String
  | .null => "null"
  | .bool true => "true"
  | .bool false => "false"
  | .number n => renderNumber n
  | .string s => quote s
  | .array items => "[" ++ ",".intercalate (renderItems items) ++ "]"
  | .object fields => "\x7b" ++ ",".intercalate (renderFields fields) ++ "\x7d"

/-- The texts of the items. -/
def renderItems : List Value → List String
  | [] => []
  | v :: items => v.render :: renderItems items

/-- The texts of the fields, each a quoted key, a colon and a value. -/
def renderFields : Fields → List String
  | [] => []
  | (key, v) :: fields => (quote key ++ ":" ++ v.render) :: renderFields fields

end

end Value

end RuleCascade
