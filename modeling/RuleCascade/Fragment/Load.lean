import RuleCascade.CascadeError
import RuleCascade.Document
import RuleCascade.Fragment

/-! # Validation of declared fragments

    A declaration is checked field by field, in a fixed order, and the first
    violation is reported with the declaration's position. A sequence of
    declarations loads as a whole or not at all.
-/

namespace RuleCascade

/-! ## Section 1: What can be wrong -/

/-- What is wrong with a declared fragment. -/
inductive FragmentFault where
  | declaresNothing
  | blankName
  /-- A list of patterns is there but empty. -/
  | emptyList (field : String)
  | malformedPattern (pattern : String) (error : PatternError)
  | badLanguage (tag : String)
  | blankReference (index : Nat)
  | badRuleKey (key : String) (error : RuleKeyError)
  | badRuleSetting (key : String) (error : RuleSettingError)
  | sharedOptionsNotObject
deriving Repr

/-- The error of a fault in the declaration at a position. -/
def FragmentFault.at (position : String) : FragmentFault → CascadeError
  | .declaresNothing =>
    .invalidFragment position "<fragment>" "fragment declares nothing"
  | .blankName => .invalidFragment position "name" "name is empty"
  | .emptyList field =>
    .invalidFragment position field ("'" ++ field ++ "' must not be empty; omit it instead")
  | .malformedPattern pattern error =>
    .malformedPattern pattern position error.message
  | .badLanguage tag =>
    .invalidFragment position "language" ("invalid language tag '" ++ tag ++ "'")
  | .blankReference index =>
    .invalidFragment position ("extends[" ++ toString index ++ "]") "rule set name is empty"
  | .badRuleKey key error => .invalidFragment position ("rules." ++ key) error.message
  | .badRuleSetting key error => .invalidFragment position ("rules." ++ key) error.message
  | .sharedOptionsNotObject =>
    .invalidFragment position "sharedOptions" "sharedOptions must be an object"

/-! ## Section 2: The fields -/

namespace Fragment

/-- An optional name, which must show. -/
def checkName : Option String → Except FragmentFault Unit
  | none => .ok ()
  | some name => if Text.isBlankText name then .error .blankName else .ok ()

/-- A list of patterns: absent, or with at least one entry. -/
def patternList (field : String) : Option (List String) → Except FragmentFault (List String)
  | none => .ok []
  | some [] => .error (.emptyList field)
  | some patterns => .ok patterns

/-- Compile the two lists of patterns. -/
def loadFilter (including excluding : List String) : Except FragmentFault FileFilter :=
  match FileFilter.compile including excluding with
  | .ok filter => .ok filter
  | .error (pattern, error) => .error (.malformedPattern pattern error)

/-- An optional language tag: some characters, none of them blank. -/
def checkLanguage : Option String → Except FragmentFault Unit
  | none => .ok ()
  | some tag =>
    if tag.isEmpty || tag.toList.any Text.isBlank then .error (.badLanguage tag) else .ok ()

/-- References, none of which may be blank. -/
def checkBases (bases : List String) : Except FragmentFault Unit :=
  match bases.findIdx? Text.isBlankText with
  | some index => .error (.blankReference index)
  | none => .ok ()

/-- One declared rule; its key is looked at before its setting. -/
def loadRule (key : String) (value : Value) : Except FragmentFault (RuleKey × RuleSetting) :=
  match RuleKey.parse key with
  | .error e => .error (.badRuleKey key e)
  | .ok ruleKey =>
    match RuleSetting.ofValue value with
    | .error e => .error (.badRuleSetting key e)
    | .ok setting => .ok (ruleKey, setting)

/-- The declared rules, in their order. -/
def loadRules (rules : Option (OrderedMap String Value)) :
    Except FragmentFault (OrderedMap RuleKey RuleSetting) :=
  match rules with
  | none => .ok .empty
  | some declared => do
    let loaded ← declared.entries.mapM fun entry => loadRule entry.1 entry.2
    return .ofList loaded

/-- Shared options: absent, or the fields of an object. -/
def loadSharedOptions : Option Value → Except FragmentFault Fields
  | none => .ok []
  | some (.object fields) => .ok fields
  | some _ => .error .sharedOptionsNotObject

/-! ## Section 3: Whole declarations -/

/-- Validate a declaration, or find its first fault. -/
def validate (d : FragmentDeclaration) (origin : String) : Except FragmentFault Fragment := do
  if d.isEmpty then .error .declaresNothing
  else
    checkName d.name
    let including ← patternList "files" d.files
    let excluding ← patternList "ignores" d.ignores
    let filter ← loadFilter including excluding
    checkLanguage d.language
    let bases := d.bases.getD []
    checkBases bases
    let rules ← loadRules d.rules
    let sharedOptions ← loadSharedOptions d.sharedOptions
    return { origin, name := d.name, filter, language := d.language, bases, rules, sharedOptions }

/-- Load one declaration. -/
def load (d : FragmentDeclaration) (origin : String) : Except CascadeError Fragment :=
  match validate d origin with
  | .ok fragment => .ok fragment
  | .error fault => .error (fault.at origin)

/-- Load declarations from a given index on; `position` names the place of each. -/
def loadFrom (position : Nat → String) (index : Nat) :
    List FragmentDeclaration → Except CascadeError (List Fragment)
  | [] => .ok []
  | d :: rest => do
    let fragment ← load d (position index)
    let others ← loadFrom position (index + 1) rest
    return fragment :: others

/-- Load the top-level declarations of a document. -/
def loadAll (declarations : List FragmentDeclaration) : Except CascadeError (List Fragment) :=
  loadFrom (fun i => "fragments[" ++ toString i ++ "]") 0 declarations

end Fragment

/-- Compile the ignore patterns of a document. -/
def loadIgnores (patterns : List String) : Except CascadeError FileFilter :=
  match FileFilter.compile [] patterns with
  | .ok filter => .ok filter
  | .error (pattern, error) => .error (.malformedPattern pattern "ignores" error.message)

end RuleCascade
