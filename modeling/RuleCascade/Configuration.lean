import RuleCascade.Fragment
import RuleCascade.SharedOptions

/-! # Effective configurations

    The configuration of a file is the result of layering fragments in order.
    The last fragment that sets a rule decides its whole setting, severity and
    options together; shared options are merged. Rules stand in the order in
    which they were first set.
-/

namespace RuleCascade

/-- The effective configuration of a file. -/
structure Configuration where
  rules : OrderedMap RuleKey RuleSetting := .empty
  sharedOptions : Fields := []
  /-- The file is covered by an ignore pattern of the document. -/
  ignored : Bool := false
deriving Inhabited

namespace Configuration

/-- The empty configuration of an ignored file. -/
def ofIgnored : Configuration := { ignored := true }

/-- True when no rule and no shared option is set. -/
def isEmpty (c : Configuration) : Bool :=
  c.rules.isEmpty && c.sharedOptions.isEmpty

/-- The setting of a rule. -/
def setting? (c : Configuration) (key : RuleKey) : Option RuleSetting :=
  c.rules.find? key

/-- The severity of a rule. -/
def severity? (c : Configuration) (key : RuleKey) : Option Severity :=
  (c.setting? key).map (·.severity)

/-- True for rules that are set to anything but off. -/
def isEnabled (c : Configuration) (key : RuleKey) : Bool :=
  (c.severity? key).any (·.isEnabled)

/-- The rules that are to be run. -/
def enabledRules (c : Configuration) : List (RuleKey × RuleSetting) :=
  c.rules.entries.filter fun entry => entry.2.severity.isEnabled

/-- The number of rules of a severity. -/
def count (c : Configuration) (severity : Severity) : Nat :=
  c.rules.entries.countP fun entry => entry.2.severity = severity

/-! ## Section 1: Layering -/

/-- Layer one fragment on a configuration. -/
def apply (c : Configuration) (f : Fragment) : Configuration :=
  { c with
    rules := c.rules.insertAll f.rules.entries
    sharedOptions := SharedOptions.merge c.sharedOptions f.sharedOptions }

/-- Layer fragments in order. -/
def applyAll (c : Configuration) (fragments : List Fragment) : Configuration :=
  fragments.foldl apply c

/-- The configuration that fragments give on their own. -/
def merge (fragments : List Fragment) : Configuration :=
  applyAll {} fragments

@[simp] theorem applyAll_nil (c : Configuration) : c.applyAll [] = c := rfl

@[simp] theorem applyAll_cons (c : Configuration) (f : Fragment) (rest : List Fragment) :
    c.applyAll (f :: rest) = (c.apply f).applyAll rest := rfl

theorem applyAll_append (c : Configuration) (fragments others : List Fragment) :
    c.applyAll (fragments ++ others) = (c.applyAll fragments).applyAll others :=
  List.foldl_append

/-! ## Section 2: Views -/

/-- A configuration as a value; the mark of an ignored file is left out elsewhere. -/
def toValue (c : Configuration) : Value :=
  .object <|
    [("rules", .object (c.rules.entries.map fun entry => (entry.1.text, entry.2.toValue))),
     ("sharedOptions", .object c.sharedOptions)] ++
    if c.ignored then [("ignored", .bool true)] else []

/-- Equal rules and equal shared options, in whatever order. -/
def same (c d : Configuration) : Bool :=
  c.rules.size = d.rules.size &&
    (c.rules.entries.all fun entry =>
      (d.rules.find? entry.1).any fun setting => entry.2.same setting) &&
    (Value.object c.sharedOptions).same (.object d.sharedOptions) &&
    c.ignored = d.ignored

end Configuration

end RuleCascade
