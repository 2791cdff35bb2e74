import RuleCascade.OrderedMap

/-! # Configuration values

    Rule options and shared options are opaque trees: scalars, arrays and
    objects whose fields keep their order. Integers and floats stay apart; a
    float is its 64-bit pattern, so values can be compared and printed exactly.

    `Value.same` is the equality that merging uses: integers never equal
    floats, the two zeros agree, and the order of object fields does not count.
-/

namespace RuleCascade

/-! ## Section 1: Numbers -/

/-- An integer, or the bit pattern of a finite double. -/
inductive Number where
  | int (value : Int)
  | float (bits : UInt64)
deriving DecidableEq, Repr

namespace Number

/-- True for the bit patterns of `0.0` and `-0.0`. -/
def isZeroBits (bits : UInt64) : Bool :=
  bits &&& 0x7fffffffffffffff == 0

/-- Equal as numbers of one kind: the zeros agree, an integer never equals a float. -/
def same : Number → Number → Bool
  | .int i, .int j => i == j
  | .float a, .float b => a == b || (isZeroBits a && isZeroBits b)
  | _, _ => false

/-- The number as an unsigned 64-bit integer, if it is written as one. -/
def toUInt64? : Number → Option UInt64
  | .int (.ofNat n) => if n < UInt64.size then some (UInt64.ofNat n) else none
  | _ => none

@[simp] theorem same_refl (n : Number) : n.same n = true := by
  cases n <;> simp [same]

end Number

/-! ## Section 2: Trees -/

/-- A scalar, an array, or an object with its fields in order. -/
inductive Value where
  | null
  | bool (b : Bool)
  | number (n : Number)
  | string (s : String)
  | array (items : List Value)
  | object (fields : List (String × Value))
deriving Repr, Inhabited

/-- The fields of an object. -/
abbrev Fields := List (String × Value)

namespace Value

mutual

/-- Equality of values: see the module's introduction. -/
def same : Value → Value → Bool
  | .null, .null => true
  | .bool a, .bool b => a == b
  | .number m, .number n => m.same n
  | .string s, .string t => s == t
  | .array items, .array others => sameItems items others
  | .object fields, .object others =>
    fields.length == others.length && sameFields fields others
  | _, _ => false

/-- Equal lengths and equal items at every place. -/
def sameItems : List Value → List Value → Bool
  | [], [] => true
  | v :: items, w :: others => v.same w && sameItems items others
  | _, _ => false

/-- Every field of the first object has an equal value in the second. -/
def sameFields : Fields → Fields → Bool
  | [], _ => true
  | (key, v) :: fields, others =>
    (match Entries.find? key others with
      | some w => v.same w
      | none => false) && sameFields fields others

end

/-- True when the list holds a value equal to `v`. -/
def isIn (v : Value) (items : List Value) : Bool :=
  items.any fun item => item.same v

mutual

/-- No object at any depth repeats a key. -/
def WellFormed : Value → Prop
  | .array items => ItemsWellFormed items
  | .object fields => (Entries.keys fields).Nodup ∧ FieldsWellFormed fields
  | _ => True

/-- Every item is well formed. -/
def ItemsWellFormed : List Value → Prop
  | [] => True
  | v :: items => v.WellFormed ∧ ItemsWellFormed items

/-- Every field's value is well formed. -/
def FieldsWellFormed : Fields → Prop
  | [] => True
  | (_, v) :: fields => v.WellFormed ∧ FieldsWellFormed fields

end

/-- The unsigned 64-bit integer a value holds, if it is a number written as one. -/
def toUInt64? : Value → Option UInt64
  | .number n => n.toUInt64?
  | _ => none

/-- The kind of a value, with its article, as error messages name it. -/
def kind : Value → String
  | .null => "null"
  | .bool _ => "a boolean"
  | .number _ => "a number"
  | .string _ => "a string"
  | .array _ => "an array"
  | .object _ => "an object"

end Value

end RuleCascade
