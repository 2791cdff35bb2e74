import RuleCascade.Format.Yaml.Tag

/-! # Directives of YAML

    A line that starts with a percent sign speaks about the document below it:
    the version it is written in, or what a handle of tags stands for. A
    comment may follow. A document has at most one version, which must be 1.1
    or 1.2, and says at most once what a handle stands for.
-/

namespace RuleCascade.Yaml

/-- What a directive says. -/
inductive Directive where
  | version (major minor : Nat)
  | handle (name : String) (octets : List UInt8)
deriving DecidableEq, Repr

namespace Directive

/-! ## Section 1: Reading -/

/-- A number of at most nine digits, and the place after it. -/
def number? (c : Cursor) : Option (Nat × Cursor) :=
  let digits := c.rest.takeWhile Char.isDigit
  if digits.isEmpty || 9 < digits.length then none
  else some (digits.foldl (fun n d => n * 10 + (d.toNat - 48)) 0, c.skip digits.length)

/-- A version: two numbers with a dot between them. -/
def version? (c : Cursor) : Option (Directive × Cursor) :=
  (number? c).bind fun (major, c) =>
    if c.rest.head? = some '.' then
      (number? (c.skip 1)).map fun (minor, c) => (.version major minor, c)
    else none

/-- A handle and the start of the URIs that it stands for. -/
def handleMeaning? (c : Cursor) : Option (Directive × Cursor) :=
  (handle? c).bind fun (name, c) =>
    if c.rest.head?.any isBlank then
      (uri? true (c.skipWhile isBlank)).bind fun (octets, c) =>
        if atBlank c.rest then some (.handle name octets, c) else none
    else none

/-- The place after a line of which only blanks and a comment are left. -/
def endLine? (c : Cursor) : Option Cursor :=
  let c := c.skipWhile isBlank
  let c := if c.rest.head? = some '#' then c.skipWhile fun d => !isBreak d else c
  if atBreak c.rest then some c.skipLine else none

/-- A directive and the place after its line; the percent sign has been read. -/
def read? (c : Cursor) : Option (Directive × Cursor) :=
  let name := String.ofList (c.rest.takeWhile isNameChar)
  let c := c.skipWhile isNameChar
  if !atBlank c.rest then none
  else
    let c := c.skipWhile isBlank
    let found := if name = "YAML" then version? c
      else if name = "TAG" then handleMeaning? c
      else none
    found.bind fun (directive, c) => (endLine? c).map fun c => (directive, c)

/-! ## Section 2: Meaning -/

/-- What the directives of a document have said. -/
structure Preamble where
  versioned : Bool := false
  handles : Handles := []

/-- Take one more directive. -/
def Preamble.add? (p : Preamble) : Directive → Option Preamble
  | .version major minor =>
    if p.versioned || major ≠ 1 || (minor ≠ 1 && minor ≠ 2) then none
    else some { p with versioned := true }
  | .handle name octets =>
    if p.handles.any (·.1 = name) then none
    else some { p with handles := (name, octets) :: p.handles }

/-- The handles that the directives of a document give. -/
def handles? (directives : List Directive) : Option Handles :=
  (directives.foldlM Preamble.add? ({} : Preamble)).map fun p => p.handles ++ Handles.standard

end Directive

end RuleCascade.Yaml
