import RuleCascade.Format.Yaml.Directive
import RuleCascade.Format.Yaml.Scalar

/-! # Tokens of YAML

    The layout of a text is turned into tokens: the start and the end of every
    block collection become tokens of their own, found by comparing columns.

    Whether a scalar is a key shows only at the colon after it. Each place
    where a key may have started is remembered, and the tokens that announce a
    key are put in front of it once the colon is seen. Such a key must end on
    its line and within 1024 octets.
-/

namespace RuleCascade.Yaml

/-! ## Section 1: Tokens -/

/-- The pieces of a YAML text. -/
inductive Token where
  | documentStart
  | documentEnd
  | directive (d : Directive)
  | blockSequenceStart
  | blockMappingStart
  | blockEnd
  | flowSequenceStart
  | flowSequenceEnd
  | flowMappingStart
  | flowMappingEnd
  | blockEntry
  | flowEntry
  | key
  | value
  | anchor (name : String)
  | reference (name : String)
  | tag (t : TagText)
  | scalar (text : String) (style : Style)
deriving DecidableEq, Repr

/-- A place where a key may have started. -/
structure KeyMark where
  possible : Bool := false
  /-- The text is wrong if no colon follows. -/
  required : Bool := false
  /-- The number of tokens before it. -/
  number : Nat := 0
  index : Nat := 0
  line : Nat := 0
  column : Nat := 0

/-- The state of cutting a text into tokens. -/
structure Layout where
  cursor : Cursor
  /-- The number of open brackets. -/
  flow : Nat := 0
  /-- The column of the innermost block collection. -/
  indent : Int := -1
  /-- The columns of the outer ones. -/
  outer : List Int := []
  /-- A key may start here. -/
  keyAllowed : Bool := true
  /-- The place where a key may have started, and those outside the open brackets. -/
  mark : KeyMark := {}
  outerMarks : List KeyMark := []
  tokens : Array Token := #[]

namespace Layout

/-! ## Section 2: Columns and keys -/

/-- Append a token. -/
def push (l : Layout) (t : Token) : Layout :=
  { l with tokens := l.tokens.push t }

/-- Put a token at a place among those so far. -/
def insertAt (l : Layout) (number : Nat) (t : Token) : Layout :=
  { l with tokens := l.tokens.insertIdxIfInBounds number t }

/-- Step over characters of the line. -/
def skip (l : Layout) (count : Nat) : Layout :=
  { l with cursor := l.cursor.skip count }

/-- Forget the place where a key may have started, unless the key has to come. -/
def dropMark (l : Layout) : Option Layout :=
  if l.mark.possible && l.mark.required then none
  else some { l with mark := { l.mark with possible := false } }

/-- Remember that a key may start here. -/
def saveMark (l : Layout) : Option Layout :=
  if l.keyAllowed then
    l.dropMark.map fun l =>
      { l with mark :=
        { possible := true
          required := l.flow = 0 && l.indent = l.cursor.column
          number := l.tokens.size
          index := l.cursor.index
          line := l.cursor.line
          column := l.cursor.column } }
  else some l

/-- True when the key would be too long or has left its line. -/
def isStale (l : Layout) (m : KeyMark) : Bool :=
  m.possible && (m.line < l.cursor.line || m.index + 1024 < l.cursor.index)

/-- Forget the places whose key can no longer end in time. -/
def dropStale (l : Layout) : Option Layout :=
  let marks := l.mark :: l.outerMarks
  if marks.any fun m => l.isStale m && m.required then none
  else
    let refresh := fun m => if l.isStale m then { m with possible := false } else m
    some { l with mark := refresh l.mark, outerMarks := l.outerMarks.map refresh }

/-- Close the block collections right of a column. -/
def unroll (l : Layout) (column : Int) : Layout :=
  if l.flow ≠ 0 then l else go l.outer l
where
  /-- Close one collection after another. -/
  go : List Int → Layout → Layout
    | [], l => if column < l.indent then { l.push .blockEnd with indent := -1, outer := [] } else l
    | next :: outer, l =>
      if column < l.indent then go outer { l.push .blockEnd with indent := next, outer }
      else l

/-- Open a block collection at a column if it lies right of the innermost one. The token that
announces it goes to the given place. -/
def roll (l : Layout) (column : Nat) (number : Nat) (t : Token) : Layout :=
  if l.flow ≠ 0 then l
  else if l.indent < column then
    { l.insertAt number t with indent := column, outer := l.indent :: l.outer }
  else l

/-! ## Section 3: White space -/

/-- Step over blanks, comments and line ends, and over a byte order mark at the start of a line,
which takes up a column. After a line end outside brackets a key may start. -/
def skipBlank (l : Layout) : Layout :=
  let c := l.cursor
  let c := if c.column = 0 && c.rest.head? = some '\ufeff' then c.skip 1 else c
  let c := c.skipWhile fun d => d = ' ' || (d = '\t' && (l.flow ≠ 0 || !l.keyAllowed))
  let c := if c.rest.head? = some '#' then c.skipWhile fun d => !isBreak d else c
  if c.rest.head?.any isBreak then
    let next := c.skipLine
    if next.size < l.cursor.size then
      skipBlank { l with cursor := next, keyAllowed := l.keyAllowed || l.flow = 0 }
    else { l with cursor := c }
  else { l with cursor := c }
termination_by l.cursor.size
decreasing_by assumption

/-! ## Section 4: One token at a time -/

/-- The name of an anchor or alias and the place after it. -/
def name? (c : Cursor) : Option (String × Cursor) :=
  let name := c.rest.takeWhile isNameChar
  let next := c.skip name.length
  if name.isEmpty then none
  else if atBlank next.rest ||
      (next.rest.head?.any fun d => "?:,]\x7d%@`".toList.contains d) then
    some (String.ofList name, next)
  else none

/-- A token that stands for itself. -/
def single (l : Layout) (t : Token) : Layout :=
  (l.push t).skip 1

/-- The start of a document or its end. -/
def marker? (l : Layout) (t : Token) : Option Layout :=
  (l.unroll (-1)).dropMark.map fun l => { (l.push t).skip 3 with keyAllowed := false }

/-- An opening bracket. -/
def openFlow? (l : Layout) (t : Token) : Option Layout :=
  l.saveMark.map fun l =>
    { l.single t with
      flow := l.flow + 1, mark := {}, outerMarks := l.mark :: l.outerMarks, keyAllowed := true }

/-- A closing bracket. -/
def closeFlow? (l : Layout) (t : Token) : Option Layout :=
  l.dropMark.map fun l =>
    let l := match l.flow, l.outerMarks with
      | flow + 1, mark :: outer => { l with flow, mark, outerMarks := outer }
      | _, _ => l
    { l.single t with keyAllowed := false }

/-- A comma between brackets. -/
def flowEntry? (l : Layout) : Option Layout :=
  l.dropMark.map fun l => { l.single .flowEntry with keyAllowed := true }

/-- A dash in front of an item. -/
def blockEntry? (l : Layout) : Option Layout :=
  if l.flow = 0 && !l.keyAllowed then none
  else
    (l.roll l.cursor.column l.tokens.size .blockSequenceStart).dropMark.map fun l =>
      { l.single .blockEntry with keyAllowed := true }

/-- A question mark in front of a key. -/
def key? (l : Layout) : Option Layout :=
  if l.flow = 0 && !l.keyAllowed then none
  else
    (l.roll l.cursor.column l.tokens.size .blockMappingStart).dropMark.map fun l =>
      { l.single .key with keyAllowed := l.flow = 0 }

/-- A colon after a key. -/
def value? (l : Layout) : Option Layout :=
  if l.mark.possible then
    let m := l.mark
    let l := (l.insertAt m.number .key).roll m.column m.number .blockMappingStart
    some { l.single .value with mark := { m with possible := false }, keyAllowed := false }
  else if l.flow = 0 && !l.keyAllowed then none
  else
    let l := l.roll l.cursor.column l.tokens.size .blockMappingStart
    some { l.single .value with keyAllowed := l.flow = 0 }

/-- A token that may be the start of a key, read by `read` after its first character. -/
def keyToken? (l : Layout) (read : Cursor → Option (Token × Cursor)) : Option Layout :=
  l.saveMark.bind fun l =>
    (read (l.cursor.skip 1)).map fun (t, next) =>
      { l.push t with cursor := next, keyAllowed := false }

/-- A block scalar. -/
def blockScalar? (l : Layout) (keepLines : Bool) : Option Layout :=
  l.dropMark.bind fun l =>
    (block? keepLines l.indent (l.cursor.skip 1)).map fun (text, next) =>
      { l.push (.scalar (String.ofList text) (if keepLines then .literal else .folded)) with
        cursor := next, keyAllowed := true }

/-- A plain scalar. A line end inside it or after it allows a key again. -/
def plainScalar? (l : Layout) : Option Layout :=
  l.saveMark.bind fun l =>
    (plainFrom (l.flow ≠ 0) (l.indent + 1) [] {} l.cursor).map fun (text, next, passed) =>
      { l.push (.scalar (String.ofList text) .plain) with cursor := next, keyAllowed := passed }

/-- True when a plain scalar may start with this character. -/
def startsPlain (inFlow : Bool) (c : Char) (rest : List Char) : Bool :=
  if c = '-' then !(rest.head?.any isBlank)
  else if c = '?' || c = ':' then !inFlow && !atBlank rest
  else !(isBlank c || isBreak c || ",[]\x7b\x7d#&*!|>'\"%@`".toList.contains c)

/-- Take the token in front, whatever it is. White space has been dropped. -/
def token? (l : Layout) (c : Char) (rest : List Char) : Option Layout :=
  let inFlow : Bool := l.flow ≠ 0
  if l.cursor.column = 0 && c = '%' then
    (l.unroll (-1)).dropMark.bind fun l =>
      (Directive.read? (l.cursor.skip 1)).map fun (d, next) =>
        { l.push (.directive d) with cursor := next, keyAllowed := false }
  else if l.cursor.atMarker then
    l.marker? (if c = '-' then .documentStart else .documentEnd)
  else if c = '[' then l.openFlow? .flowSequenceStart
  else if c = '\x7b' then l.openFlow? .flowMappingStart
  else if c = ']' then l.closeFlow? .flowSequenceEnd
  else if c = '\x7d' then l.closeFlow? .flowMappingEnd
  else if c = ',' then l.flowEntry?
  else if c = '-' && atBlank rest then l.blockEntry?
  else if c = '?' && (inFlow || atBlank rest) then l.key?
  else if c = ':' && (inFlow || atBlank rest) then l.value?
  else if c = '*' then
    l.keyToken? fun cursor => (name? cursor).map fun (name, next) => (.reference name, next)
  else if c = '&' then
    l.keyToken? fun cursor => (name? cursor).map fun (name, next) => (.anchor name, next)
  else if c = '!' then
    l.keyToken? fun cursor => (tag? inFlow cursor).map fun (tag, next) => (.tag tag, next)
  else if c = '|' && !inFlow then l.blockScalar? true
  else if c = '>' && !inFlow then l.blockScalar? false
  else if c = '\'' then
    l.keyToken? fun cursor =>
      (singleFrom [] cursor).map fun (text, next) => (.scalar (String.ofList text) .quoted, next)
  else if c = '"' then
    l.keyToken? fun cursor =>
      (doubleFrom [] cursor).map fun (text, next) => (.scalar (String.ofList text) .quoted, next)
  else if startsPlain inFlow c rest then l.plainScalar?
  else none

/-- The end of the text. -/
def finish? (l : Layout) : Option (List Token) :=
  (l.unroll (-1)).dropMark.map fun l => l.tokens.toList

/-- Take tokens until the text ends. -/
def run? (l : Layout) : Option (List Token) :=
  match l.skipBlank.dropStale with
  | none => none
  | some ready =>
    let ready := ready.unroll ready.cursor.column
    match ready.cursor.rest with
    | [] => ready.finish?
    | c :: rest =>
      match ready.token? c rest with
      | none => none
      | some next => if next.cursor.size < l.cursor.size then run? next else none
termination_by l.cursor.size

end Layout

/-- The tokens of a text. -/
def tokens? (text : String) : Option (List Token) :=
  let cs := text.toList
  if cs.all isPrintable then Layout.run? { cursor := { rest := cs } } else none

end RuleCascade.Yaml
