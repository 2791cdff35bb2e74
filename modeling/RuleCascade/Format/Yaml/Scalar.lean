import RuleCascade.Format.Yaml.Cursor
import RuleCascade.Text.Code

/-! # Scalar texts of YAML

    A scalar is written plain, in single or double quotes, or as a block. Lines
    of plain and quoted scalars are folded; a block keeps its lines or folds
    them, and says what happens to the line ends at its end.
-/

namespace RuleCascade.Yaml

open Text (codeLength? coded?)

/-- How a scalar was written. -/
inductive Style where
  | plain
  | quoted
  | literal
  | folded
deriving DecidableEq, Repr

/-! ## Section 1: Plain scalars -/

/-- The characters that end a plain scalar between brackets. -/
def isFlowMark (c : Char) : Bool :=
  c = ',' || c = '[' || c = ']' || c = '\x7b' || c = '\x7d'

/-- The length of the word in front; nothing when a colon stands where it must not. -/
def plainWord? (inFlow : Bool) : List Char → Option Nat
  | [] => some 0
  | c :: rest =>
    if isBlank c || isBreak c then some 0
    else if c = ':' && atBlank rest then some 0
    else if inFlow && c = ':' && (rest.head?.any fun d => isFlowMark d || d = '?') then none
    else if inFlow && isFlowMark c then some 0
    else (plainWord? inFlow rest).map (· + 1)

/-- Read the words of a plain scalar after the text so far. Returns the text, the place after
it, and whether a line end was passed. -/
def plainFrom (inFlow : Bool) (indent : Int) (text : List Char) (gap : Gap) (c : Cursor) :
    Option (List Char × Cursor × Bool) :=
  let passed := !gap.breaks.isEmpty
  if c.atMarker || c.rest.head? = some '#' then some (text, c, passed)
  else
    match plainWord? inFlow c.rest with
    | none => none
    | some length =>
      let text :=
        if length = 0 then text else text ++ gap.fold ++ c.rest.take length
      let after := c.skip length
      let leading : Gap := if length = 0 then gap else {}
      if !(after.rest.head?.any fun d => isBlank d || isBreak d) then
        some (text, after, !leading.breaks.isEmpty)
      else
        let (gap, next) := readGap indent leading after
        if gap.tabBefore then none
        else if !inFlow && (next.column : Int) < indent then
          some (text, next, !gap.breaks.isEmpty)
        else if next.size < c.size then plainFrom inFlow indent text gap next
        else none
termination_by c.size

/-! ## Section 2: Quoted scalars -/

/-- The text in single quotes; the opening quote has been read. -/
def singleFrom (text : List Char) (c : Cursor) : Option (List Char × Cursor) :=
  if c.atMarker then none
  else
    match c.rest with
    | [] => none
    | '\'' :: '\'' :: _ =>
      if (c.skip 2).size < c.size then singleFrom (text ++ ['\'']) (c.skip 2) else none
    | '\'' :: _ => some (text, c.skip 1)
    | d :: _ =>
      if isBlank d || isBreak d then
        let (gap, next) := readGap 0 {} c
        if next.size < c.size then singleFrom (text ++ gap.fold) next else none
      else if (c.skip 1).size < c.size then singleFrom (text ++ [d]) (c.skip 1)
      else none
termination_by c.size

/-- The character of an escape that is one letter long. -/
def escaped? (c : Char) : Option Char :=
  if c = '0' then some '\x00'
  else if c = 'a' then some '\x07'
  else if c = 'b' then some '\x08'
  else if c = 't' || c = '\t' then some '\t'
  else if c = 'n' then some '\n'
  else if c = 'v' then some '\x0b'
  else if c = 'f' then some '\x0c'
  else if c = 'r' then some '\r'
  else if c = 'e' then some '\x1b'
  else if c = 'N' then some '\u0085'
  else if c = '_' then some '\u00a0'
  else if c = 'L' then some '\u2028'
  else if c = 'P' then some '\u2029'
  else if c = ' ' || c = '"' || c = '/' || c = '\\' then some c
  else none

/-- The character of the escape in front and its length; the backslash has been read. -/
def escape? : List Char → Option (Char × Nat)
  | [] => none
  | e :: rest =>
    match codeLength? e with
    | some length => (coded? length rest).map fun c => (c, length + 1)
    | none => (escaped? e).map fun c => (c, 1)

/-- The text in double quotes; the opening quote has been read. -/
def doubleFrom (text : List Char) (c : Cursor) : Option (List Char × Cursor) :=
  if c.atMarker then none
  else
    match c.rest with
    | [] => none
    | '"' :: _ => some (text, c.skip 1)
    | '\\' :: rest =>
      if (rest.head?.any isBreak) then
        let (gap, next) := readGap 0 { breaks := [[]] } (c.skip 1).skipLine
        if next.size < c.size then doubleFrom (text ++ gap.fold) next else none
      else
        match escape? rest with
        | none => none
        | some (e, length) =>
          let next := c.skip (length + 1)
          if next.size < c.size then doubleFrom (text ++ [e]) next else none
    | d :: _ =>
      if isBlank d || isBreak d then
        let (gap, next) := readGap 0 {} c
        if next.size < c.size then doubleFrom (text ++ gap.fold) next else none
      else if (c.skip 1).size < c.size then doubleFrom (text ++ [d]) (c.skip 1)
      else none
termination_by c.size

/-! ## Section 3: Block scalars -/

/-- What happens to the line ends at the end of a block. -/
inductive Chomping where
  | strip
  | clip
  | keep
deriving DecidableEq

/-- The chomping mark in front, if there is one. -/
def chomping? : List Char → Option Chomping
  | '-' :: _ => some .strip
  | '+' :: _ => some .keep
  | _ => none

/-- The indentation digit in front, if there is one. -/
def indentDigit? : List Char → Option Nat
  | c :: _ => if c.isDigit then some (c.toNat - 48) else none
  | [] => none

/-- The marks after the sign of a block: chomping and indentation in either order. -/
def blockHeader (c : Cursor) : Chomping × Option Nat × Cursor :=
  match chomping? c.rest with
  | some chomping =>
    let c := c.skip 1
    match indentDigit? c.rest with
    | some digit => (chomping, some digit, c.skip 1)
    | none => (chomping, none, c)
  | none =>
    match indentDigit? c.rest with
    | some digit =>
      let c := c.skip 1
      match chomping? c.rest with
      | some chomping => (chomping, some digit, c.skip 1)
      | none => (.clip, some digit, c)
    | none => (.clip, none, c)

/-- Read indentation and empty lines. `indent` is the indentation of the block, if known.
Returns the line ends, the largest column that was reached, and the place after them; nothing
when a tab stands in the indentation. -/
def blockBreaks? (indent : Option Nat) (breaks : List Char) (widest : Nat) (c : Cursor) :
    Option (List Char × Nat × Cursor) :=
  let spaces := (c.rest.takeWhile (· = ' ')).length
  let c' := c.skip (match indent with
    | some n => min spaces (n - c.column)
    | none => spaces)
  let widest := max widest c'.column
  match c'.rest with
  | [] => some (breaks, widest, c')
  | d :: _ =>
    if d = '\t' && (indent.all fun n => c'.column < n) then none
    else if isBreak d then
      let next := c'.skipLine
      if next.size < c.size then
        blockBreaks? indent (breaks ++ breakText c'.rest) widest next
      else none
    else some (breaks, widest, c')
termination_by c.size

/-- Read the lines of a block after the text so far. `lead` is the line end of the line
before, `breaks` are those of the empty lines after it, and `blankLine` says that the line
before started with a blank. -/
def blockLines? (keepLines : Bool) (indent : Nat) (text lead breaks : List Char)
    (blankLine : Bool) (c : Cursor) : Option (List Char × List Char × List Char × Cursor) :=
  if c.column = indent && !c.rest.isEmpty then
    let blankHere := c.rest.head?.any isBlank
    let joint :=
      if !keepLines && lead = ['\n'] && !blankLine && !blankHere then
        if breaks.isEmpty then [' '] else breaks
      else lead ++ breaks
    let line := c.rest.takeWhile fun d => !isBreak d
    let ending := c.skip line.length
    let lead := breakText ending.rest
    match blockBreaks? (some indent) [] 0 ending.skipLine with
    | none => none
    | some (breaks, _, next) =>
      if next.size < c.size then
        blockLines? keepLines indent (text ++ joint ++ line) lead breaks blankHere next
      else none
  else some (text, lead, breaks, c)
termination_by c.size

/-- A block scalar; its sign has been read. `parent` is the indentation around it. -/
def block? (keepLines : Bool) (parent : Int) (c : Cursor) : Option (List Char × Cursor) :=
  let (chomping, digit, c) := blockHeader c
  if digit = some 0 then none
  else
    let c := c.skipWhile isBlank
    let c := if c.rest.head? = some '#' then c.skipWhile fun d => !isBreak d else c
    if !atBreak c.rest then none
    else
      let declared := digit.map fun n => (max parent 0).toNat + n
      match blockBreaks? declared [] 0 c.skipLine with
      | none => none
      | some (breaks, widest, c) =>
        let indent := declared.getD (max widest (max (parent + 1).toNat 1))
        match blockLines? keepLines indent [] [] breaks false c with
        | none => none
        | some (text, lead, breaks, c) =>
          let text := match chomping with
            | .strip => text
            | .clip => text ++ lead
            | .keep => text ++ lead ++ breaks
          some (text, c)

end RuleCascade.Yaml
