import RuleCascade.Rule.Severity
import RuleCascade.Value.Printer

/-! # Rule settings

    A setting is a severity with options that only the rule itself
    understands. It is declared as a severity, as an array of a severity and
    its options, or as an object with the fields `severity` and `options`.
    Written out, it is always the object, without options when there are none.
-/

namespace RuleCascade

/-- A severity and the rule's own options. -/
structure RuleSetting where
  severity : Severity
  options : List Value := []
deriving Repr, Inhabited

/-- Why a value is not a rule setting. -/
inductive RuleSettingError where
  | invalidSeverity (value : Value)
  | emptyArray
  | unknownField (name : String)
  | missingSeverity
  | optionsNotArray
  /-- Neither a severity, an array nor an object. -/
  | wrongKind (value : Value)
deriving Repr

/-- The wording of the error. -/
def RuleSettingError.message : RuleSettingError → String
  | .invalidSeverity value =>
    "invalid severity " ++ value.render ++ "; expected one of off, warn, error, 0, 1, 2"
  | .emptyArray => "rule array must start with a severity"
  | .unknownField name => "unknown rule field '" ++ name ++ "'"
  | .missingSeverity => "rule object is missing 'severity'"
  | .optionsNotArray => "'options' must be an array"
  | .wrongKind value =>
    "expected a severity, an array or an object, found " ++ value.kind

namespace RuleSetting

/-- A rule that is off. -/
def off : RuleSetting := { severity := .off }

/-- Read a severity or say which value is none. -/
def severityOf (value : Value) : Except RuleSettingError Severity :=
  match Severity.ofValue? value with
  | some severity => .ok severity
  | none => .error (.invalidSeverity value)

/-- The options that an object's field declares; missing and null stand for none. -/
def optionsOf : Option Value → Except RuleSettingError (List Value)
  | none => .ok []
  | some .null => .ok []
  | some (.array items) => .ok items
  | some _ => .error .optionsNotArray

/-- Read the object form. -/
def ofFields (fields : Fields) : Except RuleSettingError RuleSetting := do
  match (Entries.keys fields).find? fun key => key ≠ "severity" && key ≠ "options" with
  | some unknown => .error (.unknownField unknown)
  | none =>
    match Entries.find? "severity" fields with
    | none => .error .missingSeverity
    | some declared =>
      let severity ← severityOf declared
      let options ← optionsOf (Entries.find? "options" fields)
      return ⟨severity, options⟩

/-- Read a declared setting. -/
def ofValue : Value → Except RuleSettingError RuleSetting
  | .array [] => .error .emptyArray
  | .array (first :: options) => do
    let severity ← severityOf first
    return ⟨severity, options⟩
  | .object fields => ofFields fields
  | .string s => do return ⟨← severityOf (.string s), []⟩
  | .number n => do return ⟨← severityOf (.number n), []⟩
  | value => .error (.wrongKind value)

/-- A setting as a value; empty options are left out. -/
def toValue (s : RuleSetting) : Value :=
  .object <| ("severity", .string s.severity.name) ::
    if s.options.isEmpty then [] else [("options", .array s.options)]

/-- Equal severities and equal options. -/
def same (s t : RuleSetting) : Bool :=
  s.severity = t.severity && Value.sameItems s.options t.options

end RuleSetting

end RuleCascade
