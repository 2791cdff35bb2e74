import RuleCascade.Format.Yaml.Cursor
import RuleCascade.Text.Code

/-! # Tags of YAML

    A tag names the type of a node by a URI. A URI may write any octet as a
    percent sign and two hexadecimal digits, so a tag is a sequence of octets
    that need not be a text. A tag ends at the first zero octet.

    Most tags are written as a handle and the rest of the URI. Five types of
    scalars are standard; tags that start with an exclamation mark name types
    of the document's own.
-/

namespace RuleCascade.Yaml

open Text (hexNumber?)

/-! ## Section 1: Octets of a URI -/

/-- The octets of an ASCII text. -/
def octetsOf (text : String) : List UInt8 :=
  text.toList.map fun c => c.toNat.toUInt8

/-- The number of octets that follow the first one of a character. -/
def tailCount? (first : UInt8) : Option Nat :=
  if first < 0x80 then some 0
  else if 0xC0 ≤ first && first < 0xE0 then some 1
  else if 0xE0 ≤ first && first < 0xF0 then some 2
  else if 0xF0 ≤ first && first < 0xF8 then some 3
  else none

/-- The number of octets that a character still owes after one more octet. -/
def owedAfter? (owed : Nat) (octet : UInt8) : Option Nat :=
  match owed with
  | 0 => tailCount? octet
  | owed + 1 => if 0x80 ≤ octet && octet < 0xC0 then some owed else none

/-- The octets that a URI spells; `owed` of them must be written as escapes that continue a
character. -/
def uriOctets? (owed : Nat) : List Char → Option (List UInt8)
  | [] => if owed = 0 then some [] else none
  | '%' :: high :: low :: rest =>
    (hexNumber? [high, low]).bind fun n =>
      (owedAfter? owed n.toUInt8).bind fun owed =>
        (uriOctets? owed rest).map (n.toUInt8 :: ·)
  | c :: rest =>
    if owed = 0 && c ≠ '%' then (uriOctets? 0 rest).map (c.toNat.toUInt8 :: ·) else none

/-- The octets before the first zero. -/
def beforeZero (octets : List UInt8) : List UInt8 :=
  octets.takeWhile (· ≠ 0)

/-! ## Section 2: Handles and URIs in a text -/

/-- The characters of anchor names and tag handles. -/
def isNameChar (c : Char) : Bool :=
  c.isAlphanum || c = '_' || c = '-'

/-- The characters of URIs. A URI that stands alone may also hold commas and square brackets. -/
def isUriChar (alone : Bool) (c : Char) : Bool :=
  isNameChar c || ";/?:@&=+$.%!~*'()".toList.contains c || (alone && ",[]".toList.contains c)

/-- A URI that is not empty, and the place after it. -/
def uri? (alone : Bool) (c : Cursor) : Option (List UInt8 × Cursor) :=
  let text := c.rest.takeWhile (isUriChar alone)
  if text.isEmpty then none
  else (uriOctets? 0 text).map fun octets => (beforeZero octets, c.skip text.length)

/-- The handle in front: an exclamation mark, or a name between two; and the place after it. -/
def handle? (c : Cursor) : Option (String × Cursor) :=
  match c.rest with
  | '!' :: rest =>
    let name := rest.takeWhile isNameChar
    match rest.drop name.length with
    | '!' :: _ => some (String.ofList ('!' :: name ++ ['!']), c.skip (name.length + 2))
    | _ => if name.isEmpty then some ("!", c.skip 1) else none
  | _ => none

/-- A tag as it is written. -/
inductive TagText where
  /-- The whole URI. -/
  | whole (octets : List UInt8)
  /-- The rest of a URI whose start the handle stands for. -/
  | under (handle : String) (octets : List UInt8)
deriving DecidableEq, Repr

/-- A tag and the place after it; its exclamation mark has been read. One that stands alone is
the whole tag. -/
def tag? (inFlow : Bool) (c : Cursor) : Option (TagText × Cursor) :=
  let found : Option (TagText × Cursor) :=
    match c.rest with
    | '<' :: _ =>
      (uri? true (c.skip 1)).bind fun (octets, next) =>
        if next.rest.head? = some '>' then some (.whole octets, next.skip 1) else none
    | rest =>
      let name := rest.takeWhile isNameChar
      if (rest.drop name.length).head? = some '!' then
        (uri? false (c.skip (name.length + 1))).map fun (octets, next) =>
          (.under (String.ofList ('!' :: name ++ ['!'])) octets, next)
      else if rest.head?.any (isUriChar false) then
        (uri? false c).map fun (octets, next) =>
          (if octets.isEmpty then .whole (octetsOf "!") else .under "!" octets, next)
      else some (.whole (octetsOf "!"), c)
  found.bind fun (tag, next) =>
    if atBlank next.rest || (inFlow && next.rest.head? = some ',') then some (tag, next) else none

/-! ## Section 3: What a tag says -/

/-- What the tag of a node says about it. -/
inductive Tag where
  | null
  | bool
  | int
  | float
  /-- A type of the document's own. -/
  | own
  /-- It names a type of the document's own, but is no text: it says nothing. -/
  | illegible
  /-- Any other type. -/
  | other
deriving DecidableEq, Repr

/-- What the standard tags start with. -/
def standardTag (name : String) : List UInt8 :=
  octetsOf ("tag:yaml.org,2002:" ++ name)

/-- What a tag says, by its octets. -/
def Tag.ofOctets (octets : List UInt8) : Tag :=
  if octets = standardTag "null" then .null
  else if octets = standardTag "bool" then .bool
  else if octets = standardTag "int" then .int
  else if octets = standardTag "float" then .float
  else if octets.head? ≠ (octetsOf "!").head? then .other
  else if (ByteArray.mk octets.toArray).validateUTF8 then .own
  else .illegible

/-- What the handles stand for, the newest first. -/
abbrev Handles := List (String × List UInt8)

/-- The handles that every document has. -/
def Handles.standard : Handles :=
  [("!", octetsOf "!"), ("!!", standardTag "")]

/-- What a written tag says, if its handle is known. -/
def TagText.resolve? (handles : Handles) : TagText → Option Tag
  | .whole octets => some (Tag.ofOctets octets)
  | .under handle octets =>
    (handles.find? (·.1 = handle)).map fun entry => Tag.ofOctets (entry.2 ++ octets)

end RuleCascade.Yaml
