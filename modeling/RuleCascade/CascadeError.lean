/-! # Errors of loading and expansion

    Every error belongs to loading a configuration. Resolving a path never
    fails: a path nothing applies to has an empty configuration.
-/

namespace RuleCascade

/-- Why a configuration cannot be loaded. -/
inductive CascadeError where
  /-- A declared fragment is not valid. -/
  | invalidFragment (position field message : String)
  /-- A reference names no rule set. -/
  | unknownRuleSet (name requestedBy : String)
  /-- References lead back to where they started. -/
  | cyclicExtends (cycle : List String)
  /-- A file pattern does not compile. -/
  | malformedPattern (pattern position message : String)
  /-- A document cannot be found, read or used as a whole. -/
  | config (message : String)
  /-- The file system refused a path. -/
  | io (path source : String)
deriving DecidableEq, Repr

namespace CascadeError

/-- The coarse classes of errors. -/
inductive Kind where
  | fragment
  | reference
  | pattern
  | config
  | io
deriving DecidableEq, Repr

/-- The class of an error. -/
def kind : CascadeError → Kind
  | .invalidFragment .. => .fragment
  | .unknownRuleSet .. => .reference
  | .cyclicExtends .. => .reference
  | .malformedPattern .. => .pattern
  | .config .. => .config
  | .io .. => .io

/-- The names of a cycle with arrows between them. -/
def renderCycle (cycle : List String) : String :=
  " → ".intercalate cycle

/-- The wording of an error. -/
def message : CascadeError → String
  | .invalidFragment position field message =>
    "Invalid fragment at " ++ position ++ ", field '" ++ field ++ "': " ++ message
  | .unknownRuleSet name requestedBy =>
    "Unknown rule set '" ++ name ++ "' referenced by " ++ requestedBy
  | .cyclicExtends cycle => "Cyclic extends: " ++ renderCycle cycle
  | .malformedPattern pattern position message =>
    "Malformed pattern '" ++ pattern ++ "' at " ++ position ++ ": " ++ message
  | .config message => "Configuration error: " ++ message
  | .io path source => "IO error for path '" ++ path ++ "': " ++ source

/-- The value of a success; a failure is set aside. -/
def value? {α : Type} : Except CascadeError α → Option α
  | .ok value => some value
  | .error _ => none

theorem value?_eq_some_iff {α : Type} {result : Except CascadeError α} {value : α} :
    value? result = some value ↔ result = .ok value := by
  cases result <;> simp [value?]

end CascadeError

/-- A computation that succeeds does so step by step. -/
theorem exists_ok_of_bind_eq_ok {ε α β : Type} {x : Except ε α} {f : α → Except ε β} {b : β}
    (h : (x >>= f) = .ok b) : ∃ a, x = .ok a ∧ f a = .ok b := by
  cases x with
  | error e => cases h
  | ok a => exact ⟨a, rfl, h⟩

/-- After a step that succeeds, the rest is to be done. -/
theorem bind_of_eq_ok {ε α β : Type} {x : Except ε α} {a : α} (h : x = .ok a)
    (f : α → Except ε β) : (x >>= f) = f a := by
  rw [h]
  rfl

end RuleCascade
