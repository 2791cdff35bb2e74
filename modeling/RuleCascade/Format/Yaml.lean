import RuleCascade.Format.Yaml.Node
import RuleCascade.Format.Yaml.Token

/-! # YAML text

    The tokens of a text are read as one node. Collections are written in
    blocks or in brackets; anchors name nodes for references. A text holds at
    most one document, and an empty text is an empty scalar.

    The steps along references are limited to a hundred for each event of the
    document, which is a scalar, a reference, or the start or the end of a
    collection.
-/

namespace RuleCascade.Yaml

/-! ## Section 1: The state of reading -/

/-- The tokens that are left, and the anchored nodes. -/
structure Reader where
  tokens : List Token
  /-- The node number of each anchor. -/
  numbers : OrderedMap String Nat := .empty
  /-- How many anchored nodes have started. -/
  started : Nat := 0
  /-- The finished nodes by number. -/
  anchors : Anchors := .empty
  /-- The events so far. -/
  events : Nat := 0
  /-- What the handles of tags stand for. -/
  handles : Handles := Handles.standard

namespace Reader

/-- The token in front. -/
def peek (r : Reader) : Option Token := r.tokens.head?

/-- Step over the token in front. -/
def skip (r : Reader) : Reader := { r with tokens := r.tokens.tail }

/-- True when the token in front is one of these. -/
def sees (r : Reader) (tokens : List Token) : Bool :=
  r.peek.any fun t => tokens.contains t

/-- Start a node with an anchor. Its number is the number of different anchors so far, also
when the anchor is one of them. Returns the number and how many anchored nodes started before. -/
def startAnchor (r : Reader) : Option String → Option (Nat × Nat) × Reader
  | none => (none, r)
  | some name =>
    let number := r.numbers.size
    (some (number, r.started),
      { r with numbers := r.numbers.insert name number, started := r.started + 1 })

/-- Count events. -/
def count (r : Reader) (events : Nat) : Reader :=
  { r with events := r.events + events }

/-- Finish a node that may have an anchor. -/
def finish (r : Reader) (place : Option (Nat × Nat)) (n : Node) : Reader :=
  match place with
  | none => r
  | some (number, start) => { r with anchors := r.anchors.place number ⟨start, n⟩ }

/-- Read a reference to an anchor that has come before. -/
def reference? (r : Reader) (name : String) : Option (Node × Reader) :=
  (r.numbers.find? name).map fun number => (.reference number, r.skip.count 1)

/-- The empty scalar that stands where a node is left out. -/
def leaveOut (r : Reader) : Node × Reader :=
  (.empty, r.count 1)

end Reader

/-- The properties in front of a node. -/
structure Properties where
  anchor : Option String := none
  tag : Option Tag := none

/-- True when the tag names a type of the document's own. -/
def Properties.own (p : Properties) : Bool :=
  p.tag = some .own

/-- Read an anchor and a tag in either order. -/
def properties? (p : Properties) (r : Reader) : List Token → Option (Properties × Reader)
  | .anchor name :: rest =>
    if p.anchor.isSome then some (p, { r with tokens := .anchor name :: rest })
    else properties? { p with anchor := some name } r rest
  | .tag tag :: rest =>
    if p.tag.isSome then some (p, { r with tokens := .tag tag :: rest })
    else
      match tag.resolve? r.handles with
      | none => none
      | some tag => properties? { p with tag := some tag } r rest
  | tokens => some (p, { r with tokens })

/-! ## Section 2: Nodes -/

mutual

/-- Read a node. Outside brackets block collections are allowed, and after a key also a list
whose dashes stand below the key. -/
def node? (fuel : Nat) (inBlock dashes : Bool) (r : Reader) : Option (Node × Reader) :=
  match fuel with
  | 0 => none
  | fuel + 1 =>
    match r.tokens with
    | .reference name :: _ => r.reference? name
    | _ =>
      match properties? {} r r.tokens with
      | none => none
      | some (p, r) =>
        let (place, r) := r.startAnchor p.anchor
        let finish := fun (found : Node × Reader) =>
          (found.1, found.2.finish place found.1)
        let list := fun (found : List Node × Reader) =>
          finish (.list p.own found.1, found.2.count 2)
        let record := fun (found : List (Node × Node) × Reader) =>
          finish (.record p.own found.1, found.2.count 2)
        match r.peek with
        | some (.scalar text style) =>
          some (finish (.scalar (meaning text style p.tag), r.skip.count 1))
        | some .flowSequenceStart => (flowItems? fuel true [] r.skip).map list
        | some .flowMappingStart => (flowFields? fuel true [] r.skip).map record
        | some .blockEntry =>
          if dashes then (dashItems? fuel [] r).map list
          else (emptyTagged? p r).map finish
        | some .blockSequenceStart =>
          if inBlock then (blockItems? fuel [] r.skip).map list
          else (emptyTagged? p r).map finish
        | some .blockMappingStart =>
          if inBlock then (blockFields? fuel [] r.skip).map record
          else (emptyTagged? p r).map finish
        | _ => (emptyTagged? p r).map finish

/-- A node unless one of these tokens comes first, in whose place an empty one stands. -/
def nodeUnless? (fuel : Nat) (inBlock dashes : Bool) (ends : List Token) (r : Reader) :
    Option (Node × Reader) :=
  match fuel with
  | 0 => none
  | fuel + 1 =>
    if r.sees ends then some r.leaveOut else node? fuel inBlock dashes r

/-- The items of a block list; they stand last first in `done`. -/
def blockItems? (fuel : Nat) (done : List Node) (r : Reader) :
    Option (List Node × Reader) :=
  match fuel with
  | 0 => none
  | fuel + 1 =>
    match r.peek with
    | some .blockEntry =>
      match nodeUnless? fuel true false [.blockEntry, .blockEnd] r.skip with
      | none => none
      | some (d, r) => blockItems? fuel (d :: done) r
    | some .blockEnd => some (done.reverse, r.skip)
    | _ => none

/-- The items of a list whose dashes stand below the key. -/
def dashItems? (fuel : Nat) (done : List Node) (r : Reader) :
    Option (List Node × Reader) :=
  match fuel with
  | 0 => none
  | fuel + 1 =>
    match r.peek with
    | some .blockEntry =>
      match nodeUnless? fuel true false [.blockEntry, .key, .value, .blockEnd] r.skip with
      | none => none
      | some (d, r) => dashItems? fuel (d :: done) r
    | _ => some (done.reverse, r)

/-- The fields of a block record; they stand last first in `done`. -/
def blockFields? (fuel : Nat) (done : List (Node × Node)) (r : Reader) :
    Option (List (Node × Node) × Reader) :=
  match fuel with
  | 0 => none
  | fuel + 1 =>
    let ends : List Token := [.key, .value, .blockEnd]
    match r.peek with
    | some .blockEnd => some (done.reverse, r.skip)
    | some .key =>
      match nodeUnless? fuel true true ends r.skip with
      | none => none
      | some (key, r) =>
        match blockValue? fuel ends r with
        | none => none
        | some (value, r) => blockFields? fuel ((key, value) :: done) r
    | _ => none

/-- The value of a block field, empty when there is no colon. -/
def blockValue? (fuel : Nat) (ends : List Token) (r : Reader) : Option (Node × Reader) :=
  match fuel with
  | 0 => none
  | fuel + 1 =>
    if r.sees [.value] then nodeUnless? fuel true true ends r.skip
    else some r.leaveOut

/-- The items of a list in brackets; a key among them starts a record of one field. -/
def flowItems? (fuel : Nat) (first : Bool) (done : List Node) (r : Reader) :
    Option (List Node × Reader) :=
  match fuel with
  | 0 => none
  | fuel + 1 =>
    if r.sees [.flowSequenceEnd] then some (done.reverse, r.skip)
    else if !first && !r.sees [.flowEntry] then none
    else
      let r := if first then r else r.skip
      if r.sees [.flowSequenceEnd] then some (done.reverse, r.skip)
      else if r.sees [.key] then
        match flowPair? fuel r.skip with
        | none => none
        | some (d, r) => flowItems? fuel false (d :: done) r
      else
        match node? fuel false false r with
        | none => none
        | some (d, r) => flowItems? fuel false (d :: done) r

/-- A record of one field in a list in brackets; the announcement of its key has been read. -/
def flowPair? (fuel : Nat) (r : Reader) : Option (Node × Reader) :=
  match fuel with
  | 0 => none
  | fuel + 1 =>
    let ends : List Token := [.flowEntry, .flowSequenceEnd]
    let key := if r.sees (.value :: ends) then some r.skip.leaveOut
      else node? fuel false false r
    match key with
    | none => none
    | some (key, r) =>
      match flowValue? fuel ends r with
      | none => none
      | some (value, r) => some (.record false [(key, value)], r.count 2)

/-- The fields of a record in brackets. -/
def flowFields? (fuel : Nat) (first : Bool) (done : List (Node × Node)) (r : Reader) :
    Option (List (Node × Node) × Reader) :=
  match fuel with
  | 0 => none
  | fuel + 1 =>
    let ends : List Token := [.flowEntry, .flowMappingEnd]
    if r.sees [.flowMappingEnd] then some (done.reverse, r.skip)
    else if !first && !r.sees [.flowEntry] then none
    else
      let r := if first then r else r.skip
      if r.sees [.flowMappingEnd] then some (done.reverse, r.skip)
      else if r.sees [.key] then
        match nodeUnless? fuel false false (.value :: ends) r.skip with
        | none => none
        | some (key, r) =>
          match flowValue? fuel ends r with
          | none => none
          | some (value, r) => flowFields? fuel false ((key, value) :: done) r
      else
        match node? fuel false false r with
        | none => none
        | some (key, r) => flowFields? fuel false ((key, .empty) :: done) (r.count 1)

/-- The value of a field in brackets, empty when there is no colon. -/
def flowValue? (fuel : Nat) (ends : List Token) (r : Reader) : Option (Node × Reader) :=
  match fuel with
  | 0 => none
  | fuel + 1 =>
    if r.sees [.value] then nodeUnless? fuel false false ends r.skip
    else some r.leaveOut

/-- The empty scalar after properties; without them a node is missing. -/
def emptyTagged? (p : Properties) (r : Reader) : Option (Node × Reader) :=
  if p.anchor.isNone && p.tag.isNone then none
  else some (.scalar (meaning "" .plain p.tag), r.count 1)

end

/-! ## Section 3: Documents -/

/-- Split off the directives in front. -/
def splitDirectives : List Token → List Directive × List Token
  | .directive d :: rest => (d :: (splitDirectives rest).1, (splitDirectives rest).2)
  | tokens => ([], tokens)

/-- The content of the one document, and the tokens after it. Directives must be followed by a
start mark. -/
def content? (r : Reader) : Option (Node × Reader) :=
  let fuel := 4 * r.tokens.length + 8
  let (directives, tokens) := splitDirectives r.tokens
  match Directive.handles? directives with
  | none => none
  | some handles =>
    let r := { r with handles }
    match tokens with
    | .documentStart :: rest =>
      let r := { r with tokens := rest }
      if rest.isEmpty || r.sees [.documentStart, .documentEnd] then some r.leaveOut
      else node? fuel true false r
    | [] => if directives.isEmpty then some r.leaveOut else none
    | _ => if directives.isEmpty then node? fuel true false r else none

/-- How deep lists and records may be nested. -/
def maxDepth : Nat := 128

/-- The tree that a YAML text spells, as far as the scope reaches. After its document only end
marks may follow. -/
def read? (scope : Datum.Scope) (text : String) : Option Datum := do
  let tokens ← tokens? text
  let (n, r) ← content? { tokens }
  if r.tokens.all (· = .documentEnd) then
    let (d, _) ← n.toDatum r.anchors maxDepth scope (100 * r.events)
    return d
  else none

/-- A list never stands for a record with fixed fields. -/
def dialect : Datum.Dialect :=
  { listForm := .refused }

end RuleCascade.Yaml
