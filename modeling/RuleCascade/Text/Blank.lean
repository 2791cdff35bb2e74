/-! # Blank and control characters

    Two character properties of the Unicode standard, written as ranges: white
    space (property `White_Space`) and control characters (category `Cc`).
-/

namespace RuleCascade.Text

/-- White space: the 25 characters that have the property `White_Space`. -/
def isBlank (c : Char) : Bool :=
  let n := c.toNat
  (0x9 ≤ n && n ≤ 0xD) || n == 0x20 || n == 0x85 || n == 0xA0 || n == 0x1680 ||
    (0x2000 ≤ n && n ≤ 0x200A) || n == 0x2028 || n == 0x2029 || n == 0x202F ||
    n == 0x205F || n == 0x3000

/-- Control characters: the 65 characters of category `Cc`. -/
def isControl (c : Char) : Bool :=
  let n := c.toNat
  n ≤ 0x1F || (0x7F ≤ n && n ≤ 0x9F)

/-- True for a text without a visible character. -/
def isBlankText (text : String) : Bool :=
  text.toList.all isBlank

/-- ASCII letters in lower case; every other character is kept. -/
def lowerAscii (text : List Char) : List Char :=
  text.map Char.toLower

end RuleCascade.Text
