/-! # Characters written by their codes

    Document formats let a character be written as the hexadecimal digits of
    its code. A code that belongs to no character, such as half of a surrogate
    pair, is refused.
-/

namespace RuleCascade.Text

/-- The value of a hexadecimal digit. -/
def hexValue? (c : Char) : Option Nat :=
  if '0' ≤ c ∧ c ≤ '9' then some (c.toNat - 48)
  else if 'a' ≤ c ∧ c ≤ 'f' then some (c.toNat - 87)
  else if 'A' ≤ c ∧ c ≤ 'F' then some (c.toNat - 55)
  else none

/-- The value of hexadecimal digits, most significant first. -/
def hexNumber? (digits : List Char) : Option Nat :=
  digits.foldlM (fun value c => (hexValue? c).map (value * 16 + ·)) 0

/-- The character of a code, if there is one. -/
def character? (code : Nat) : Option Char :=
  if h : code.isValidChar then some (Char.ofNatAux code h) else none

/-- The number of digits that follow the letter of an escape. -/
def codeLength? (c : Char) : Option Nat :=
  if c = 'x' then some 2
  else if c = 'u' then some 4
  else if c = 'U' then some 8
  else none

/-- The character that the digits in front spell, all of which must be there. -/
def coded? (length : Nat) (cs : List Char) : Option Char :=
  if cs.length < length then none
  else (hexNumber? (cs.take length)).bind character?

end RuleCascade.Text
