import RuleCascade.Value

/-! # Shared options

    Shared options grow as fragments are layered. Objects merge field by field,
    arrays take up what they do not hold yet, and any other pair of values
    leaves the later one. Whatever is taken up is first rid of repetitions, at
    every depth; the first of equal items keeps its place.
-/

namespace RuleCascade.SharedOptions

mutual

/-- A value in which no array holds two equal items. -/
def distinct : Value → Value
  | .array items => .array (append [] items)
  | .object fields => .object (distinctFields fields)
  | v => v

/-- The items so far, and after them the distinct form of each item that is not there yet. -/
def append (done : List Value) : List Value → List Value
  | [] => done
  | v :: items =>
    let w := distinct v
    append (if w.isIn done then done else done ++ [w]) items

/-- The fields with the distinct forms of their values. -/
def distinctFields : Fields → Fields
  | [] => []
  | (key, v) :: fields => (key, distinct v) :: distinctFields fields

end

mutual

/-- A value with a later one layered on it. -/
def mergeValue : Value → Value → Value
  | .object fields, .object later => .object (merge fields later)
  | .array items, .array later => .array (append items later)
  | _, later => distinct later

/-- Fields with later ones layered on them, one after another. -/
def merge (fields : Fields) : Fields → Fields
  | [] => fields
  | (key, v) :: later =>
    let value := match Entries.find? key fields with
      | some present => mergeValue present v
      | none => distinct v
    merge (Entries.insert key value fields) later

end

end RuleCascade.SharedOptions
