import RuleCascade.Text.Blank
import RuleCascade.Value

/-! # Rule severities

    A rule is off, a warning or an error, in this order. It is declared by
    name, in any letter case, or by the numbers 0, 1 and 2.
-/

namespace RuleCascade

/-- How a rule takes part in a run. -/
inductive Severity where
  | off
  | warn
  | error
deriving DecidableEq, Repr, Inhabited

namespace Severity

/-- The name in lower case. -/
def name : Severity → String
  | .off => "off"
  | .warn => "warn"
  | .error => "error"

/-- The place in the order, which is also the numeric form. -/
def rank : Severity → Nat
  | .off => 0
  | .warn => 1
  | .error => 2

/-- The severity of a name in lower case. -/
def ofName? (name : String) : Option Severity :=
  if name = "off" then some .off
  else if name = "warn" then some .warn
  else if name = "error" then some .error
  else none

/-- The severity of a rank. -/
def ofRank? : Nat → Option Severity
  | 0 => some .off
  | 1 => some .warn
  | 2 => some .error
  | _ => none

/-- The severity that a declared value names, if it does. Floats name none. -/
def ofValue? : Value → Option Severity
  | .string s => ofName? (String.ofList (Text.lowerAscii s.toList))
  | .number n => n.toUInt64?.bind fun rank => ofRank? rank.toNat
  | _ => none

/-- Read a written severity: its exact name, or an object whose only field has that name and
holds null. -/
def ofWritten? : Value → Option Severity
  | .string s => ofName? s
  | .object [(key, .null)] => ofName? key
  | _ => none

/-- True unless the rule is off. -/
def isEnabled (s : Severity) : Bool :=
  s ≠ .off

/-- The greater of two severities. -/
def max (s t : Severity) : Severity :=
  if s.rank < t.rank then t else s

@[simp] theorem ofName?_name (s : Severity) : ofName? s.name = some s := by
  cases s <;> rfl

@[simp] theorem ofRank?_rank (s : Severity) : ofRank? s.rank = some s := by
  cases s <;> rfl

end Severity

end RuleCascade
