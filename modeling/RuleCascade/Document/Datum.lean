import RuleCascade.Value

/-! # Document text before its fields are read

    The four document formats agree on lists and records and differ in what a
    scalar may stand for: one lets a number be a text, another lets a word be
    an absent field. A reader of a format therefore hands over each scalar as
    the table of everything it can be read as (`Scalar`), inside a tree of
    lists and records (`Datum`). Reading the fields of a document out of such
    a tree is then the same for every format.

    Records still hold repeated keys here: a repeated field of a declaration is
    refused, a repeated key of a map is overwritten.
-/

namespace RuleCascade

/-! ## Section 1: The tree -/

/-- How an optional field takes a scalar. -/
inductive Presence where
  /-- The field is left out. -/
  | absent
  /-- The field is there, if the scalar reads as what it asks for. -/
  | present
  /-- The field cannot hold it. -/
  | refused
deriving DecidableEq, Repr

/-- What a scalar reads as in each place a document can have it. -/
structure Scalar where
  presence : Presence := .present
  /-- It stands for the empty list and for the empty record. -/
  hollow : Bool := false
  /-- Its reading where a text is asked for. -/
  text : Option String := none
  /-- Its reading where a truth value is asked for. -/
  flag : Option Bool := none
  /-- Its reading where a count is asked for. -/
  count : Option UInt64 := none
  /-- Its reading where any value is allowed. -/
  value : Option Value := none
  /-- An ignored field may hold it although it is no value. -/
  passable : Bool := false
deriving Inhabited

namespace Scalar

/-- A scalar that no place accepts. -/
def unreadable : Scalar := {}

/-- The absence of a value. -/
def null : Scalar := { presence := .absent, value := some .null }

/-- A truth value. -/
def ofBool (b : Bool) : Scalar := { flag := some b, value := some (.bool b) }

/-- A text. -/
def ofText (s : String) : Scalar := { text := some s, value := some (.string s) }

/-- A number. Counts are the integers that fit 64 bits without a sign. -/
def ofNumber (n : Number) : Scalar :=
  { count := n.toUInt64?, value := some (.number n) }

end Scalar

/-- A document's text as a tree. A key is missing when it is not a scalar that reads as text. -/
inductive Datum where
  | scalar (s : Scalar)
  | list (items : List Datum)
  | record (fields : List (Option String × Datum))
  /-- A list or a record that names a type of its own: it is no value, but can be what a
  document declares in its place. -/
  | typed (d : Datum)
deriving Inhabited

namespace Datum

/-- A datum that no place accepts. -/
def unreadable : Datum := .scalar .unreadable

/-- The datum without a type of its own. -/
def content : Datum → Datum
  | .typed d => d
  | d => d

/-! ## Section 2: Values as data -/

mutual

/-- A value as a datum. -/
def ofValue : Value → Datum
  | .null => .scalar .null
  | .bool b => .scalar (.ofBool b)
  | .number n => .scalar (.ofNumber n)
  | .string s => .scalar (.ofText s)
  | .array items => .list (ofItems items)
  | .object fields => .record (ofFields fields)

/-- The items of an array as data. -/
def ofItems : List Value → List Datum
  | [] => []
  | v :: items => ofValue v :: ofItems items

/-- The fields of an object as data. -/
def ofFields : Fields → List (Option String × Datum)
  | [] => []
  | (key, v) :: fields => (some key, ofValue v) :: ofFields fields

end

/-! ## Section 3: Reading a datum -/

mutual

/-- Any value: a repeated key keeps its first place and its last value. -/
def toValue? : Datum → Option Value
  | .scalar s => s.value
  | .list items => (toItems? items).map .array
  | .record fields => (toFields? [] fields).map .object
  | .typed _ => none

/-- The items as values. -/
def toItems? : List Datum → Option (List Value)
  | [] => some []
  | d :: items =>
    match d.toValue?, toItems? items with
    | some v, some rest => some (v :: rest)
    | _, _ => none

/-- The fields as values, set one after another on the fields already read. -/
def toFields? (done : Fields) : List (Option String × Datum) → Option Fields
  | [] => some done
  | (key, d) :: fields =>
    match key, d.toValue? with
    | some k, some v => toFields? (Entries.insert k v done) fields
    | _, _ => none

end

/-- A text. -/
def text? : Datum → Option String
  | .scalar s => s.text
  | _ => none

/-- A truth value. -/
def flag? : Datum → Option Bool
  | .scalar s => s.flag
  | _ => none

/-- A count. -/
def count? : Datum → Option UInt64
  | .scalar s => s.count
  | _ => none

/-- A list whose items are all read by `read`. -/
def list? {α : Type} (read : Datum → Option α) (d : Datum) : Option (List α) :=
  match d.content with
  | .list items => items.mapM read
  | .scalar s => if s.hollow then some [] else none
  | _ => none

/-- One entry of a map. -/
def pair? {α : Type} (read : Datum → Option α) (field : Option String × Datum) :
    Option (String × α) :=
  match field.1, read field.2 with
  | some key, some value => some (key, value)
  | _, _ => none

/-- A map whose values are all read by `read`. -/
def map? {α : Type} (read : Datum → Option α) (d : Datum) : Option (OrderedMap String α) :=
  match d.content with
  | .record fields => (fields.mapM (pair? read)).map OrderedMap.ofList
  | .scalar s => if s.hollow then some .empty else none
  | _ => none

/-- Nothing for an absent value, and otherwise what `read` gives. -/
def optional? {α : Type} (read : Datum → Option α) : Datum → Option (Option α)
  | .scalar s =>
    match s.presence with
    | .absent => some none
    | .present => (read (.scalar s)).map some
    | .refused => none
  | d => (read d).map some

mutual

/-- True when an ignored field may hold the datum. -/
def isPassable : Datum → Bool
  | .scalar s => s.passable || s.value.isSome
  | .list items => arePassable items
  | .record fields => fieldsPassable fields
  | .typed _ => false

/-- The same of every item. -/
def arePassable : List Datum → Bool
  | [] => true
  | d :: items => d.isPassable && arePassable items

/-- The same of every field; its key must read as a text. -/
def fieldsPassable : List (Option String × Datum) → Bool
  | [] => true
  | (key, d) :: fields => key.isSome && d.isPassable && fieldsPassable fields

end

/-! ## Section 4: Records with fixed fields -/

/-- Whether the list of its values may stand for a record with fixed fields. -/
inductive ListForm where
  | refused
  /-- It has no more items than the record has fields. -/
  | exact
  /-- Items beyond the fields are not looked at. -/
  | longer
deriving DecidableEq, Repr

/-- How a format treats records with fixed fields. -/
structure Dialect where
  listForm : ListForm := .exact
  /-- The value of a field that is ignored is not looked at. -/
  skipsIgnored : Bool := true

/-- The fields a record may have. -/
structure Shape where
  /-- The names, in the order of the list form. -/
  names : List String
  /-- How many items the list form needs. -/
  required : Nat
  /-- A field of another name is refused. -/
  closed : Bool

/-- The fields of a record by name: known ones once each, others refused or passed over. -/
def knownFields? (dialect : Dialect) (shape : Shape) (seen : List String) :
    List (Option String × Datum) → Option (List (String × Datum))
  | [] => some []
  | (none, _) :: _ => none
  | (some key, d) :: fields =>
    if key ∈ shape.names then
      if key ∈ seen then none
      else (knownFields? dialect shape (key :: seen) fields).map ((key, d) :: ·)
    else if shape.closed then none
    else if dialect.skipsIgnored || d.isPassable then
      knownFields? dialect shape seen fields
    else none

/-- The fields of a record that is written as the list of its values. -/
def listFields? (dialect : Dialect) (shape : Shape) (items : List Datum) :
    Option (List (String × Datum)) :=
  if items.length < shape.required then none
  else
    match dialect.listForm with
    | .refused => none
    | .exact =>
      if shape.names.length < items.length then none else some (shape.names.zip items)
    | .longer => some (shape.names.zip items)

/-- The fields of a record, which may also be written as the list of its values. -/
def fields? (dialect : Dialect) (shape : Shape) (d : Datum) : Option (List (String × Datum)) :=
  match d.content with
  | .record fields => knownFields? dialect shape [] fields
  | .list items => listFields? dialect shape items
  | .scalar s => if s.hollow then some [] else none
  | .typed _ => none

/-- Which fields of a tree are read. -/
inductive Scope where
  /-- All that there are. -/
  | whole
  /-- Those of a record that have a scope. -/
  | record (field? : String → Option Scope)
deriving Inhabited

/-- The scope of a field, if it is read. -/
def Scope.field? : Scope → String → Option Scope
  | .whole, _ => some .whole
  | .record field?, name => field? name

/-- An optional field. -/
def optionalField? {α : Type} (fields : List (String × Datum)) (name : String)
    (read : Datum → Option α) : Option (Option α) :=
  match Entries.find? name fields with
  | none => some none
  | some d => d.optional? read

/-- A field that has a default when it is missing. -/
def field? {α : Type} (fields : List (String × Datum)) (name : String)
    (read : Datum → Option α) (default : α) : Option α :=
  match Entries.find? name fields with
  | none => some default
  | some d => read d

end Datum

end RuleCascade
