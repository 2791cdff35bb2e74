import RuleCascade.Document.Datum

/-! # Trees in brackets

    The shape shared by the two bracketed document formats: lists in square
    brackets, records in braces, commas between their entries. A format cuts
    its text into lexemes; `build?` folds the lexemes into a tree, with a stack
    of the lists and records that are still open.

    Nothing here recurses over the depth of the text: an open bracket pushes a
    frame and its closing bracket pops it.
-/

namespace RuleCascade.Bracketed

/-! ## Section 1: Lexemes -/

/-- The smallest meaningful pieces of a bracketed text. -/
inductive Lexeme where
  | openList
  | closeList
  | openRecord
  | closeRecord
  | comma
  | colon
  /-- A quoted text; nothing when its escapes name no characters. -/
  | text (s : Option String)
  /-- A word without quotes, and whether it is written without escapes; nothing when its escapes
  name no characters. -/
  | word (s : Option String) (plain : Bool)
  | scalar (s : Scalar)

/-- The lexeme that a single character is. -/
def Lexeme.ofMark? (c : Char) : Option Lexeme :=
  if c = '[' then some .openList
  else if c = ']' then some .closeList
  else if c = '\x7b' then some .openRecord
  else if c = '\x7d' then some .closeRecord
  else if c = ',' then some .comma
  else if c = ':' then some .colon
  else none

/-- What a format allows. -/
structure Rules where
  /-- A comma may stand before a closing bracket. -/
  trailingComma : Bool
  /-- The reading of a word in the place of a value. -/
  constant? : String → Option Scalar
  /-- Lists and records nested deeper than this cannot be read. -/
  maxDepth : Option Nat

/-! ## Section 2: Building the tree -/

/-- A list or record that is still open; its entries stand last first. -/
inductive Frame where
  | list (items : List Datum)
  | record (fields : List (Option String × Datum)) (key : Option String)

/-- What may come next. -/
inductive Expect where
  | value
  | valueOrClose
  | key
  | keyOrClose
  | colon
  | commaOrClose
  | nothing
deriving DecidableEq

/-- The open frames, innermost first, what may come next, and the finished tree. -/
structure Builder where
  stack : List Frame
  expect : Expect
  result : Option Datum

/-- Before the first lexeme. -/
def Builder.start : Builder := ⟨[], .value, none⟩

namespace Builder

/-- Put a finished datum into the innermost open frame. -/
def place (b : Builder) (d : Datum) : Builder :=
  match b.stack with
  | [] => { b with expect := .nothing, result := some d }
  | .list items :: rest => { b with stack := .list (d :: items) :: rest, expect := .commaOrClose }
  | .record fields key :: rest =>
    { b with stack := .record ((key, d) :: fields) none :: rest, expect := .commaOrClose }

/-- True when a value may come next. -/
def wantsValue (b : Builder) : Bool :=
  b.expect = .value || b.expect = .valueOrClose

/-- True when a key may come next. -/
def wantsKey (b : Builder) : Bool :=
  b.expect = .key || b.expect = .keyOrClose

/-- Open a frame in the place of a value. -/
def push (b : Builder) (frame : Frame) (expect : Expect) : Option Builder :=
  if b.wantsValue then some { b with stack := frame :: b.stack, expect } else none

/-- Keep a key for the value that follows it. -/
def takeKey (b : Builder) (key : Option String) : Option Builder :=
  match b.stack with
  | .record fields _ :: rest =>
    some { b with stack := .record fields key :: rest, expect := .colon }
  | _ => none

/-- The finished datum of a frame at the given depth. -/
def finish (rules : Rules) (depth : Nat) (d : Datum) : Datum :=
  match rules.maxDepth with
  | none => d
  | some limit => if limit < depth then .unreadable else d

/-- Take one lexeme. -/
def step (rules : Rules) (b : Builder) : Lexeme → Option Builder
  | .openList => b.push (.list []) .valueOrClose
  | .openRecord => b.push (.record [] none) .keyOrClose
  | .closeList =>
    match b.stack with
    | .list items :: rest =>
      if b.expect = .valueOrClose || b.expect = .commaOrClose then
        some ({ b with stack := rest }.place
          (finish rules b.stack.length (.list items.reverse)))
      else none
    | _ => none
  | .closeRecord =>
    match b.stack with
    | .record fields _ :: rest =>
      if b.expect = .keyOrClose || b.expect = .commaOrClose then
        some ({ b with stack := rest }.place
          (finish rules b.stack.length (.record fields.reverse)))
      else none
    | _ => none
  | .comma =>
    if b.expect = .commaOrClose then
      match b.stack with
      | .list _ :: _ =>
        some { b with expect := if rules.trailingComma then .valueOrClose else .value }
      | .record _ _ :: _ =>
        some { b with expect := if rules.trailingComma then .keyOrClose else .key }
      | [] => none
    else none
  | .colon => if b.expect = .colon then some { b with expect := .value } else none
  | .text s =>
    if b.wantsKey then b.takeKey s
    else if b.wantsValue then
      some (b.place (.scalar (s.elim .unreadable .ofText)))
    else none
  | .word s plain =>
    if b.wantsKey then b.takeKey s
    else if b.wantsValue && plain then
      (s.bind rules.constant?).map fun constant => b.place (.scalar constant)
    else none
  | .scalar s => if b.wantsValue then some (b.place (.scalar s)) else none

end Builder

/-- The one tree that the lexemes spell. -/
def build? (rules : Rules) (lexemes : List Lexeme) : Option Datum :=
  (lexemes.foldlM (Builder.step rules) Builder.start).bind fun b =>
    if b.expect = .nothing then b.result else none

/-! ## Section 3: Escaped characters -/

/-- A piece of a quoted text: a character, or a code that may be half of a pair. -/
inductive Piece where
  | char (c : Char)
  | code (n : Nat)

/-- True for the codes that start a pair. -/
def isLead (n : Nat) : Bool := 0xD800 ≤ n && n ≤ 0xDBFF

/-- True for the codes that end a pair. -/
def isTrail (n : Nat) : Bool := 0xDC00 ≤ n && n ≤ 0xDFFF

/-- The number that a pair of codes spells, ten bits each. -/
def pairNumber (lead trail : Nat) : Nat :=
  (lead - 0xD800) * 0x400 + (trail - 0xDC00)

/-- The characters of the pieces: pairs of codes are joined, halves refused. `join` gives the
code of a pair by the number that it spells. -/
def joinPieces (join : Nat → Nat) : List Piece → Option (List Char)
  | [] => some []
  | .char c :: rest => (joinPieces join rest).map (c :: ·)
  | .code n :: rest =>
    if isTrail n then none
    else if isLead n then
      match rest with
      | .code m :: rest' =>
        if isTrail m then
          (joinPieces join rest').map (Char.ofNat (join (pairNumber n m)) :: ·)
        else none
      | _ => none
    else (joinPieces join rest).map (Char.ofNat n :: ·)

end RuleCascade.Bracketed
