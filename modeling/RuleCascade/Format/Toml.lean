import RuleCascade.Format.Toml.Number
import RuleCascade.Format.Toml.Table

/-! # TOML text

    A text is a sequence of lines: headers, fields and comments. Headers say
    which table the fields after them belong to. Values are texts in four kinds
    of quotes, numbers, truth values, arrays and tables in braces; the last two
    may span lines. Dates are not read.
-/

namespace RuleCascade.Toml

open Text (codeLength? coded?)

/-! ## Section 1: White space and comments -/

/-- Spaces and tabs. -/
def isBlank (c : Char) : Bool :=
  c = ' ' || c = '\t'

/-- Control characters other than the tab. No text or comment may hold them. -/
def isForbidden (c : Char) : Bool :=
  (c.toNat < 0x20 && c ≠ '\t') || c.toNat = 0x7F

/-- Drop spaces and tabs. -/
def skipBlank (cs : List Char) : List Char :=
  cs.dropWhile isBlank

/-- The text after the line end in front, if there is one. -/
def lineEnd? : List Char → Option (List Char)
  | '\n' :: rest => some rest
  | '\r' :: '\n' :: rest => some rest
  | _ => none

/-- Drop a comment up to its line end; it may not hold control characters. -/
def skipComment? : List Char → Option (List Char)
  | [] => some []
  | c :: rest =>
    if (lineEnd? (c :: rest)).isSome then some (c :: rest)
    else if isForbidden c then none
    else skipComment? rest

/-- Drop blanks, comments and line ends. -/
def skipLines? (cs : List Char) : Option (List Char) :=
  match cs with
  | [] => some []
  | c :: rest =>
    if isBlank c then skipLines? rest
    else if c = '#' then
      match skipComment? rest with
      | none => none
      | some left => if left.length < rest.length + 1 then skipLines? left else none
    else
      match lineEnd? (c :: rest) with
      | none => some (c :: rest)
      | some left => if left.length < rest.length + 1 then skipLines? left else none
termination_by cs.length

/-- The text after the rest of a line that holds nothing more. -/
def restOfLine? (cs : List Char) : Option (List Char) :=
  let cs := skipBlank cs
  let cs := match cs with
    | '#' :: rest => skipComment? rest
    | _ => some cs
  cs.bind fun cs => if cs.isEmpty then some [] else lineEnd? cs

/-! ## Section 2: Texts -/

/-- The character of an escape that is one letter long. -/
def escaped? (c : Char) : Option Char :=
  if c = 'b' then some '\x08'
  else if c = 't' then some '\t'
  else if c = 'n' then some '\n'
  else if c = 'f' then some '\x0c'
  else if c = 'r' then some '\r'
  else if c = 'e' then some '\x1b'
  else if c = '"' || c = '\\' then some c
  else none

/-- The character of the escape in front and the text after it; the backslash has been
read. -/
def escape? : List Char → Option (Char × List Char)
  | [] => none
  | e :: rest =>
    match codeLength? e with
    | some length => (coded? length rest).map fun c => (c, rest.drop length)
    | none => (escaped? e).map fun c => (c, rest)

/-- The text in double quotes on one line; the opening quote has been read. -/
def basicText? (text : List Char) (cs : List Char) : Option (List Char × List Char) :=
  match cs with
  | [] => none
  | '"' :: rest => some (text, rest)
  | '\\' :: rest =>
    match escape? rest with
    | none => none
    | some (c, left) =>
      if left.length < rest.length + 1 then basicText? (text ++ [c]) left else none
  | c :: rest => if isForbidden c then none else basicText? (text ++ [c]) rest
termination_by cs.length

/-- The text in single quotes on one line; the opening quote has been read. -/
def literalText? : List Char → Option (List Char × List Char)
  | [] => none
  | '\'' :: rest => some ([], rest)
  | c :: rest =>
    if isForbidden c then none
    else (literalText? rest).map fun found => (c :: found.1, found.2)

/-- The end of a text in triple quotes: three quotes, and up to two before them that belong to
the text. -/
def tripleEnd? (quote : Char) (cs : List Char) : Option (List Char × List Char) :=
  let count := (cs.takeWhile (· = quote)).length
  if count < 3 then none
  else
    let inside := min (count - 3) 2
    some (List.replicate inside quote, cs.drop (inside + 3))

/-- Drop blanks and line ends after a backslash that ends its line. -/
def skipFold (cs : List Char) : List Char :=
  match cs with
  | [] => []
  | c :: rest =>
    if isBlank c then skipFold rest
    else
      match lineEnd? (c :: rest) with
      | none => c :: rest
      | some left => if left.length < rest.length + 1 then skipFold left else c :: rest
termination_by cs.length

/-- The text in triple quotes; line ends in it stay as they are. Escapes have a meaning if
`escapes` holds. -/
def tripleText? (escapes : Bool) (quote : Char) (text : List Char) (cs : List Char) :
    Option (List Char × List Char) :=
  match tripleEnd? quote cs with
  | some (inside, rest) => some (text ++ inside, rest)
  | none =>
    match cs with
    | [] => none
    | c :: rest =>
      if escapes && c = '\\' then
        if (lineEnd? (skipBlank rest)).isSome then
          if (skipFold rest).length < rest.length + 1 then
            tripleText? escapes quote text (skipFold rest)
          else none
        else
          match escape? rest with
          | none => none
          | some (e, left) =>
            if left.length < rest.length + 1 then tripleText? escapes quote (text ++ [e]) left
            else none
      else
        match lineEnd? (c :: rest) with
        | some left =>
          if left.length < rest.length + 1 then
            tripleText? escapes quote (text ++ if c = '\r' then ['\r', '\n'] else ['\n']) left
          else none
        | none =>
          if isForbidden c then none else tripleText? escapes quote (text ++ [c]) rest
termination_by cs.length

/-- A text in triple quotes, which have been read; a line end right after them is dropped. -/
def openTriple? (escapes : Bool) (quote : Char) (cs : List Char) :
    Option (List Char × List Char) :=
  tripleText? escapes quote [] ((lineEnd? cs).getD cs)

/-! ## Section 3: Keys -/

/-- The characters of keys without quotes. -/
def isKeyChar (c : Char) : Bool :=
  c.isAlphanum || c = '_' || c = '-'

/-- One key and the text after it. -/
def simpleKey? (cs : List Char) : Option (String × List Char) :=
  match cs with
  | '"' :: rest => (basicText? [] rest).map fun found => (String.ofList found.1, found.2)
  | '\'' :: rest => (literalText? rest).map fun found => (String.ofList found.1, found.2)
  | _ =>
    let key := cs.takeWhile isKeyChar
    if key.isEmpty then none else some (String.ofList key, cs.drop key.length)

/-- How many keys a dotted key may have. -/
def maxKeys : Nat := 80

/-- Keys joined by dots: those before the last one, the last one, and the text after it. -/
def dottedKey? (path : List String) (cs : List Char) :
    Option (List String × String × List Char) :=
  match simpleKey? (skipBlank cs) with
  | none => none
  | some (key, left) =>
    match skipBlank left with
    | '.' :: rest =>
      if path.length + 1 = maxKeys then none
      else if rest.length < cs.length then dottedKey? (path ++ [key]) rest
      else none
    | rest => some (path, key, rest)
termination_by cs.length

/-! ## Section 4: Values -/

/-- The characters of words: all but white space, quotes and marks. -/
def isWordChar (c : Char) : Bool :=
  !(" \t\r\n#=,[]\x7b\x7d'\"".toList.contains c)

/-- A text as a datum. -/
def textDatum (found : List Char × List Char) : Datum × List Char :=
  (.scalar (.ofText (String.ofList found.1)), found.2)

mutual

/-- A value and the text after it. `depth` more levels of arrays and tables may be opened. -/
def value? (fuel depth : Nat) (cs : List Char) : Option (Datum × List Char) :=
  match fuel with
  | 0 => none
  | fuel + 1 =>
    match cs with
    | '"' :: '"' :: '"' :: rest => (openTriple? true '"' rest).map textDatum
    | '"' :: rest => (basicText? [] rest).map textDatum
    | '\'' :: '\'' :: '\'' :: rest => (openTriple? false '\'' rest).map textDatum
    | '\'' :: rest => (literalText? rest).map textDatum
    | '[' :: rest =>
      if depth = 0 then none else items? fuel (depth - 1) [] rest
    | '\x7b' :: rest =>
      if depth = 0 then none
      else
        (fields? fuel (depth - 1) .opened rest).map fun found =>
          (found.1.toDatum, found.2)
    | _ =>
      let word := cs.takeWhile isWordChar
      (word? word).map fun s => (.scalar s, cs.drop word.length)

/-- The rest of an array whose items so far stand last first. -/
def items? (fuel depth : Nat) (done : List Datum) (cs : List Char) :
    Option (Datum × List Char) :=
  match fuel with
  | 0 => none
  | fuel + 1 =>
    match skipLines? cs with
    | none => none
    | some (']' :: rest) => some (.list done.reverse, rest)
    | some cs =>
      match value? fuel depth cs with
      | none => none
      | some (d, rest) =>
        match skipLines? rest with
        | some (',' :: rest) => items? fuel depth (d :: done) rest
        | some (']' :: rest) => some (.list (d :: done).reverse, rest)
        | _ => none

/-- The rest of a table in braces. -/
def fields? (fuel depth : Nat) (t : Table) (cs : List Char) : Option (Table × List Char) :=
  match fuel with
  | 0 => none
  | fuel + 1 =>
    match skipLines? cs with
    | none => none
    | some ('\x7d' :: rest) => some (t, rest)
    | some cs =>
      match field? fuel depth t cs with
      | none => none
      | some (t, rest) =>
        match skipLines? rest with
        | some (',' :: rest) => fields? fuel depth t rest
        | some ('\x7d' :: rest) => some (t, rest)
        | _ => none

/-- A field that is added to a table, and the text after it. Lines may end around the equals
sign. -/
def field? (fuel depth : Nat) (t : Table) (cs : List Char) : Option (Table × List Char) :=
  match fuel with
  | 0 => none
  | fuel + 1 =>
    match dottedKey? [] cs with
    | none => none
    | some (path, key, rest) =>
      match skipLines? rest with
      | some ('=' :: rest) =>
        match skipLines? rest with
        | none => none
        | some start =>
          match value? fuel depth start with
          | none => none
          | some (d, rest) => (t.define? path key d).map fun t => (t, rest)
      | _ => none

end

/-! ## Section 5: Lines -/

/-- How deep arrays and tables in braces may be nested. -/
def maxDepth : Nat := 80

/-- The header in front: whether it is a double one, its path, its last key, and the text
after it. -/
def header? : List Char → Option (Bool × List String × String × List Char)
  | '[' :: '[' :: rest =>
    match dottedKey? [] rest with
    | some (path, key, ']' :: ']' :: left) => some (true, path, key, left)
    | _ => none
  | '[' :: rest =>
    match dottedKey? [] rest with
    | some (path, key, ']' :: left) => some (false, path, key, left)
    | _ => none
  | _ => none

/-- Read the lines of a text. `place` is the path of the table that fields belong to. -/
def lines? (root : Table) (place : List String) (cs : List Char) : Option Table :=
  match skipLines? cs with
  | none => none
  | some [] => some root
  | some ('[' :: rest) => do
    let (double, path, key, left) ← header? ('[' :: rest)
    let root ← if double then root.appendTable? path key else root.openTable? path key
    let left ← restOfLine? left
    if left.length < cs.length then lines? root (path ++ [key]) left else none
  | some start => do
    let (path, key, rest) ← dottedKey? [] start
    match rest with
    | '=' :: rest =>
      let (d, rest) ← value? (2 * cs.length + 8) maxDepth (skipBlank rest)
      let root ← root.change? false (Table.define? path key d) place
      let left ← restOfLine? rest
      if left.length < cs.length then lines? root place left else none
    | _ => none
termination_by cs.length

/-- The tree that a TOML text spells. -/
def read? (text : String) : Option Datum :=
  let cs := text.toList
  let cs := if cs.head? = some '\ufeff' then cs.tail else cs
  (lines? .opened [] cs).map Table.toDatum

/-- A list that stands for a record may be longer than the record has fields, and fields that
are ignored are read all the same. -/
def dialect : Datum.Dialect :=
  { listForm := .longer, skipsIgnored := false }

end RuleCascade.Toml
