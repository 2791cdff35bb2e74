import RuleCascade.FileFilter
import RuleCascade.Rule.Key
import RuleCascade.Rule.Setting

/-! # Fragments

    A fragment is one validated unit of configuration: rules and shared options
    for the files that its filter and its language tag admit, built on the
    rule sets that it names.
-/

namespace RuleCascade

/-- True when a fragment with this tag takes a file of this language: an untagged fragment
takes every file, a tagged one only files of its language. -/
def isCompatible (tag language : Option String) : Bool :=
  match tag with
  | none => true
  | some tag => language = some tag

/-- One validated unit of configuration. -/
structure Fragment where
  /-- Where it was declared, such as `fragments[2]`. -/
  origin : String
  name : Option String := none
  filter : FileFilter := {}
  language : Option String := none
  /-- References to the rule sets it is built on. -/
  bases : List String := []
  rules : OrderedMap RuleKey RuleSetting := .empty
  sharedOptions : Fields := []
deriving Inhabited

namespace Fragment

/-- The origin and, in quotes, the name. -/
def label (f : Fragment) : String :=
  match f.name with
  | some name => f.origin ++ " \"" ++ name ++ "\""
  | none => f.origin

/-- True when the fragment applies to a path with the given language. -/
def appliesTo (f : Fragment) (path : String) (language : Option String) : Bool :=
  isCompatible f.language language && f.filter.appliesTo path

/-- True when the fragment restricts the files it applies to. -/
def hasConstraints (f : Fragment) : Bool :=
  !f.filter.isUniversal || f.language.isSome

end Fragment

end RuleCascade
