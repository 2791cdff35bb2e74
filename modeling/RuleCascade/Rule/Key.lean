import RuleCascade.Text.Blank
import RuleCascade.Text.Split

/-! # Rule keys

    A rule is identified by segments joined with colons or slashes:
    `no-var`, `scope:rule`, `@scope/plugin/rule`. Everything before the last
    separator is the namespace.
-/

namespace RuleCascade

/-- The identifier of a rule. -/
structure RuleKey where
  text : String
deriving DecidableEq, Repr, Inhabited

/-- Why a text is not a rule key. -/
inductive RuleKeyError where
  | empty
  /-- White space or a control character. -/
  | badCharacter
  | emptySegment
deriving DecidableEq, Repr

/-- The wording of the error. -/
def RuleKeyError.message : RuleKeyError → String
  | .empty => "rule key is empty"
  | .badCharacter => "rule key contains whitespace or control characters"
  | .emptySegment => "rule key has an empty namespace segment"

namespace RuleKey

/-- True for the characters that separate segments. -/
def isSeparator (c : Char) : Bool :=
  c = ':' || c = '/'

/-- The segments between separators; a text without separators is one segment. -/
def segments : List Char → List (List Char)
  | [] => [[]]
  | c :: rest =>
    if isSeparator c then [] :: segments rest
    else
      match segments rest with
      | [] => [[c]]
      | segment :: others => (c :: segment) :: others

/-- True for a segment that names nothing: an empty one, or a lone scope mark. -/
def isHollow (segment : List Char) : Bool :=
  segment.isEmpty || segment = ['@']

/-- Check the characters of a key. -/
def check (cs : List Char) : Except RuleKeyError Unit :=
  if cs.isEmpty then .error .empty
  else if cs.any fun c => Text.isBlank c || Text.isControl c then .error .badCharacter
  else if (segments cs).any isHollow then .error .emptySegment
  else .ok ()

/-- Accept a text as a key. -/
def parse (text : String) : Except RuleKeyError RuleKey :=
  match check text.toList with
  | .ok () => .ok ⟨text⟩
  | .error e => .error e

/-- Everything before the last separator. -/
def namespace? (key : RuleKey) : Option String :=
  (Text.splitLast? isSeparator key.text.toList).map fun parts => String.ofList parts.1

end RuleKey

end RuleCascade
