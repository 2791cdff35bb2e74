/-! # Places in a YAML text

    Layout decides the structure of a YAML text, so reading keeps the line and
    the column beside the characters that are left.
-/

namespace RuleCascade.Yaml

/-- The characters that end a line. -/
def isBreak (c : Char) : Bool :=
  c = '\n' || c = '\r' || c = '\u0085' || c = '\u2028' || c = '\u2029'

/-- Spaces and tabs. -/
def isBlank (c : Char) : Bool :=
  c = ' ' || c = '\t'

/-- True when the text is at its end, a blank or a line end. -/
def atBlank : List Char → Bool
  | [] => true
  | c :: _ => isBlank c || isBreak c

/-- True when the text is at its end or a line end. -/
def atBreak : List Char → Bool
  | [] => true
  | c :: _ => isBreak c

/-- The characters that may stand in a YAML text. -/
def isPrintable (c : Char) : Bool :=
  let n := c.toNat
  n == 0x9 || n == 0xA || n == 0xD || (0x20 ≤ n && n ≤ 0x7E) || n == 0x85 ||
    (0xA0 ≤ n && n ≤ 0xD7FF) || (0xE000 ≤ n && n ≤ 0xFFFD) || 0x10000 ≤ n

/-- The number of octets that characters take in UTF-8. -/
def octetCount (cs : List Char) : Nat :=
  cs.foldl (fun count c => count + c.utf8Size) 0

/-- The characters that are left, and where the first of them stands. -/
structure Cursor where
  rest : List Char
  /-- The number of octets before it. -/
  index : Nat := 0
  line : Nat := 0
  column : Nat := 0

namespace Cursor

/-- Step over characters of one line. -/
def skip (c : Cursor) (count : Nat) : Cursor :=
  { c with
    rest := c.rest.drop count
    index := c.index + octetCount (c.rest.take count)
    column := c.column + count }

/-- Step over one line end. -/
def skipLine (c : Cursor) : Cursor :=
  match c.rest with
  | '\r' :: '\n' :: rest => ⟨rest, c.index + 2, c.line + 1, 0⟩
  | d :: rest => ⟨rest, c.index + d.utf8Size, c.line + 1, 0⟩
  | [] => c

/-- Step over the characters of one line in front that satisfy `p`. -/
def skipWhile (c : Cursor) (p : Char → Bool) : Cursor :=
  c.skip (c.rest.takeWhile p).length

/-- The number of characters that are left. -/
def size (c : Cursor) : Nat := c.rest.length

/-- True at the start of a line that holds a document marker. -/
def atMarker (c : Cursor) : Bool :=
  c.column = 0 &&
    match c.rest with
    | '-' :: '-' :: '-' :: after => atBlank after
    | '.' :: '.' :: '.' :: after => atBlank after
    | _ => false

end Cursor

/-- The text that stands for the line end in front. -/
def breakText : List Char → List Char
  | '\u2028' :: _ => ['\u2028']
  | '\u2029' :: _ => ['\u2029']
  | [] => []
  | _ => ['\n']

/-! ## Gaps

    Between two words of a scalar lies a gap of blanks and line ends. -/

/-- The blanks before the first line end of a gap, and its line ends. -/
structure Gap where
  blanks : List Char := []
  breaks : List (List Char) := []
  /-- A tab stands left of this column after a line end. -/
  tabBefore : Bool := false

/-- The text that a gap leaves: one line end turns into a space, further ones are kept. -/
def Gap.fold (g : Gap) : List Char :=
  match g.breaks with
  | [] => g.blanks
  | first :: others =>
    if first = ['\n'] then
      if others.isEmpty then [' '] else others.flatten
    else first ++ others.flatten

/-- Read a gap; `indent` is the column that tabs must not stand before. -/
def readGap (indent : Int) (g : Gap) (c : Cursor) : Gap × Cursor :=
  match _h : c.rest with
  | [] => (g, c)
  | d :: _ =>
    if isBlank d then
      if g.breaks.isEmpty then readGap indent { g with blanks := g.blanks ++ [d] } (c.skip 1)
      else
        readGap indent
          { g with tabBefore := g.tabBefore || (d = '\t' && (c.column : Int) < indent) } (c.skip 1)
    else if isBreak d then
      let next := c.skipLine
      if next.size < c.size then
        readGap indent { g with blanks := [], breaks := g.breaks ++ [breakText c.rest] } next
      else (g, c)
    else (g, c)
termination_by c.size
decreasing_by
  all_goals first
    | (simp [Cursor.size, Cursor.skip, _h]; done)
    | assumption

end RuleCascade.Yaml
