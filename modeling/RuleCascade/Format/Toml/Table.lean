import RuleCascade.Document.Datum

/-! # Tables of TOML

    A TOML text builds its tables piece by piece: a header opens a table, a
    dotted key reaches into one, a double header appends to a list of tables.
    Each table remembers how it came to be, because that decides who may still
    add to it. Arrays and tables in braces are closed once they are written.

    Finished tables are sorted by key.
-/

namespace RuleCascade.Toml

/-! ## Section 1: Tables under construction -/

mutual

/-- What stands under a key. -/
inductive Item where
  /-- A closed value. -/
  | value (d : Datum)
  | table (t : Table)
  /-- A list of tables, the last one first. -/
  | tables (last : Table) (before : List Table)

/-- A table that may still grow. -/
inductive Table where
  | mk (implicit dotted : Bool) (fields : List (String × Item))

end

instance : Inhabited Item := ⟨.value .unreadable⟩

namespace Table

/-- It was only passed on the way to another table. -/
def implicit : Table → Bool
  | .mk implicit _ _ => implicit

/-- It came to be by a dotted key. -/
def dotted : Table → Bool
  | .mk _ dotted _ => dotted

/-- The fields in the order of the text. -/
def fields : Table → List (String × Item)
  | .mk _ _ fields => fields

/-- An empty table that a header opens. -/
def opened : Table := .mk false false []

/-- An empty table that is passed on the way. -/
def passed (dotted : Bool) : Table := .mk true dotted []

/-- What stands under a key. -/
def find? (t : Table) (key : String) : Option Item :=
  Entries.find? key t.fields

/-- Put an item under a key. -/
def set (t : Table) (key : String) (item : Item) : Table :=
  .mk t.implicit t.dotted (Entries.insert key item t.fields)

/-- Change the table that a path of keys leads to, and create those on the way. A dotted path
does not pass through tables that a header has opened. -/
def change? (dotted : Bool) (f : Table → Option Table) : List String → Table → Option Table
  | [], t => f t
  | key :: path, t =>
    match t.find? key with
    | none =>
      (change? dotted f path (passed dotted)).map fun next => t.set key (.table next)
    | some (.value _) => none
    | some (.tables last before) =>
      (change? dotted f path last).map fun next => t.set key (.tables next before)
    | some (.table next) =>
      if dotted && !next.implicit then none
      else (change? dotted f path next).map fun next => t.set key (.table next)

/-- Give a key its value; it must be new, and a dotted path may only add to tables that came
to be by dotted keys. -/
def define? (path : List String) (key : String) (d : Datum) (t : Table) : Option Table :=
  t.change? true
    (fun t =>
      if t.dotted = path.isEmpty then none
      else if (t.find? key).isSome then none
      else some (t.set key (.value d)))
    path

/-- Open a table by its header: it must be new, or only passed on the way so far. -/
def openTable? (path : List String) (key : String) (root : Table) : Option Table :=
  root.change? false
    (fun t =>
      match t.find? key with
      | none => some (t.set key (.table .opened))
      | some (.table next) =>
        if next.implicit && !next.dotted then
          some (t.set key (.table (.mk false false next.fields)))
        else none
      | _ => none)
    path

/-- Append an empty table to the list of a double header. -/
def appendTable? (path : List String) (key : String) (root : Table) : Option Table :=
  root.change? false
    (fun t =>
      match t.find? key with
      | none => some (t.set key (.tables .opened []))
      | some (.tables last before) => some (t.set key (.tables .opened (last :: before)))
      | _ => none)
    path

end Table

/-! ## Section 2: Finished tables -/

/-- Insert a field before the first one with a greater key. -/
def insertSorted (field : String × Datum) : List (String × Datum) → List (String × Datum)
  | [] => [field]
  | other :: rest =>
    if field.1 < other.1 then field :: other :: rest else other :: insertSorted field rest

/-- A record with its fields sorted by key. -/
def sortedRecord (fields : List (String × Datum)) : Datum :=
  .record ((fields.foldr insertSorted []).map fun field => (some field.1, field.2))

mutual

/-- A finished item. -/
def Item.toDatum : Item → Datum
  | .value d => d
  | .table t => t.toDatum
  | .tables last before => .list (tablesToData before ++ [last.toDatum])

/-- A finished table. -/
def Table.toDatum : Table → Datum
  | .mk _ _ fields => sortedRecord (fieldsToData fields)

/-- The fields of a finished table. -/
def fieldsToData : List (String × Item) → List (String × Datum)
  | [] => []
  | (key, item) :: fields => (key, item.toDatum) :: fieldsToData fields

/-- Finished tables in the order of the text; they are given last first. -/
def tablesToData : List Table → List Datum
  | [] => []
  | t :: before => tablesToData before ++ [t.toDatum]

end

end RuleCascade.Toml
