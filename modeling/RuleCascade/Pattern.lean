import RuleCascade.Pattern.Balance
import RuleCascade.Pattern.Braces

/-! # File patterns

    A pattern is compiled once: it is checked for balance, its braces are
    expanded, every alternative is anchored and compiled to a glob. A path
    matches when any alternative does.

    Anchoring decides where a pattern may match. A pattern that starts with a
    slash or `./` is rooted; any other may match at every depth. A pattern that
    ends with a slash stands for everything below that directory.
-/

namespace RuleCascade

/-- A compiled file pattern. -/
structure Pattern where
  /-- The pattern as declared. -/
  source : String
  alternatives : List (List Glob.Token)
deriving DecidableEq, Repr, Inhabited

namespace Pattern

/-! ## Section 1: Anchoring -/

/-- A pattern without its root mark, and whether it had one. -/
def splitRoot : List Char → Bool × List Char
  | '.' :: '/' :: body => (true, body)
  | '/' :: body => (true, body)
  | body => (false, body)

/-- A body that ends with a slash, without it. -/
def directory? (body : List Char) : Option (List Char) :=
  if body.getLast? = some '/' then some body.dropLast else none

/-- A directory stands for everything below it. -/
def expandDirectory (body : List Char) : List Char :=
  match directory? body with
  | some directory => directory ++ ['/', '*', '*']
  | none => body

/-- True when the body already starts at any depth. -/
def floats : List Char → Bool
  | ['*', '*'] => true
  | '*' :: '*' :: '/' :: _ => true
  | _ => false

/-- The glob of a pattern without braces. -/
def anchor (cs : List Char) : Except PatternError (List Char) :=
  let (rooted, body) := splitRoot cs
  let body := expandDirectory body
  if body.isEmpty then .error .empty
  else if rooted || floats body then .ok body
  else .ok ('*' :: '*' :: '/' :: body)

/-! ## Section 2: Compiling -/

/-- Compile one alternative of a pattern. -/
def compileAlternative (cs : List Char) : Except PatternError (List Glob.Token) := do
  let anchored ← anchor cs
  match Glob.compile anchored with
  | .ok tokens => .ok tokens
  | .error fault => .error (.invalid fault (String.ofList anchored))

/-- Compile a pattern. -/
def compile (source : String) : Except PatternError Pattern := do
  let cs := source.toList
  if cs.isEmpty then .error .empty
  else
    checkBalance cs
    let alternatives ← (expandBraces cs).mapM compileAlternative
    return ⟨source, alternatives⟩

/-! ## Section 3: Matching -/

/-- A path without any `./` in front. -/
def normalizePath : List Char → List Char
  | '.' :: '/' :: rest => normalizePath rest
  | path => path

@[simp] theorem normalizePath_idem (path : List Char) :
    normalizePath (normalizePath path) = normalizePath path := by
  fun_induction normalizePath path with
  | case1 rest ih => exact ih
  | case2 path h =>
    unfold normalizePath
    split
    · rename_i rest
      exact absurd rfl (h rest)
    · rfl

/-- True when an alternative matches the normalized path. -/
def isMatch (p : Pattern) (path : String) : Bool :=
  p.alternatives.any fun tokens => Glob.isMatch tokens (normalizePath path.toList)

end Pattern

/-- A path without any `./` in front. -/
def normalizePath (path : String) : String :=
  String.ofList (Pattern.normalizePath path.toList)

@[simp] theorem normalizePath_normalizePath (path : String) :
    normalizePath (normalizePath path) = normalizePath path := by
  simp [normalizePath]

end RuleCascade
