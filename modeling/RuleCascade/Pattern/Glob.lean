/-! # Globs

    A glob without braces is compiled to a list of tokens and matched against a
    whole path. `*` and `?` and classes stay inside one path segment; `**`,
    which has to be a whole segment, spans any number of segments.

    Matching backtracks. A try that merely fails is `retry`; a try that runs
    out of path before a token that needs a character is `impossible`, and
    since giving characters to an earlier star only shortens the rest, that
    verdict ends the whole search.
-/

namespace RuleCascade.Glob

/-! ## Section 1: Tokens -/

/-- A member of a character class. -/
inductive Member where
  | single (c : Char)
  | range (first last : Char)
deriving DecidableEq, Repr

/-- A piece of a compiled glob. -/
inductive Token where
  | char (c : Char)
  | anyChar
  | anyWithin (members : List Member)
  | anyExcept (members : List Member)
  /-- Any run of characters inside one segment. -/
  | anySequence
  /-- Any number of whole segments. -/
  | anyRecursive
deriving DecidableEq, Repr

/-- Why a glob does not compile. -/
inductive Fault where
  /-- Three or more stars in a row. -/
  | longStar
  /-- Two stars that are not a whole path segment. -/
  | partialRecursive
  /-- A class without its closing bracket. -/
  | openClass
deriving DecidableEq, Repr

/-- The wording of a fault. -/
def Fault.message : Fault → String
  | .longStar => "wildcards are either regular `*` or recursive `**`"
  | .partialRecursive => "recursive wildcards must form a single path component"
  | .openClass => "invalid range pattern"

/-! ## Section 2: Compiling -/

/-- The body of a class and the text after its closing bracket. The first character is a
member whatever it is. -/
def classBody? : List Char → Option (List Char × List Char)
  | [] => none
  | c :: rest =>
    match rest.dropWhile (· ≠ ']') with
    | [] => none
    | _ :: after => some (c :: rest.takeWhile (· ≠ ']'), after)

theorem length_of_classBody? {cs body after : List Char} (h : classBody? cs = some (body, after)) :
    after.length < cs.length := by
  cases cs with
  | nil => simp [classBody?] at h
  | cons c rest =>
    simp only [classBody?] at h
    split at h
    · simp at h
    · rename_i heq
      simp only [Option.some.injEq, Prod.mk.injEq] at h
      have := (List.dropWhile_sublist (fun x => decide (x ≠ ']')) (l := rest)).length_le
      rw [heq, List.length_cons] at this
      rw [← h.2, List.length_cons]
      omega

/-- The members that a class body spells: `x-y` is a range, any other character is itself. -/
def members : List Char → List Member
  | a :: '-' :: b :: rest => .range a b :: members rest
  | c :: rest => .single c :: members rest
  | [] => []

/-- Add a `**` to the tokens so far, last first. One directly after another is dropped when
at least two tokens are there. -/
def addRecursive : List Token → List Token
  | .anyRecursive :: before :: rest => .anyRecursive :: before :: rest
  | done => .anyRecursive :: done

/-- Compile the rest of a glob after the tokens `done`, which stand last first. `atStart`
says that a path segment starts here. -/
def compileFrom (done : List Token) (atStart : Bool) (cs : List Char) :
    Except Fault (List Token) :=
  match cs with
  | [] => .ok done.reverse
  | '?' :: rest => compileFrom (.anyChar :: done) false rest
  | '*' :: '*' :: '*' :: _ => .error .longStar
  | ['*', '*'] => if atStart then .ok (addRecursive done).reverse else .error .partialRecursive
  | '*' :: '*' :: '/' :: rest =>
    if atStart then compileFrom (addRecursive done) true rest else .error .partialRecursive
  | '*' :: '*' :: _ :: _ => .error .partialRecursive
  | '*' :: rest => compileFrom (.anySequence :: done) false rest
  | '[' :: '!' :: rest =>
    match _h : classBody? rest with
    | none => .error .openClass
    | some (body, after) => compileFrom (.anyExcept (members body) :: done) false after
  | '[' :: rest =>
    match _h : classBody? rest with
    | none => .error .openClass
    | some (body, after) => compileFrom (.anyWithin (members body) :: done) false after
  | c :: rest => compileFrom (.char c :: done) (c = '/') rest
termination_by cs.length
decreasing_by
  all_goals simp
  · omega
  · have := length_of_classBody? _h
    omega
  · have := length_of_classBody? _h
    omega

/-- Compile a glob. -/
def compile (cs : List Char) : Except Fault (List Token) :=
  compileFrom [] true cs

/-! ## Section 3: Matching -/

/-- True when the character is the member or lies in its range. -/
def Member.holds (c : Char) : Member → Bool
  | .single d => c == d
  | .range first last => first ≤ c && c ≤ last

/-- True when a token that stands for one character can stand for this one. A separator is
only ever matched by itself. -/
def Token.accepts (c : Char) : Token → Bool
  | .char d => c == d
  | .anyChar => c != '/'
  | .anyWithin members => c != '/' && members.any (Member.holds c)
  | .anyExcept members => c != '/' && !members.any (Member.holds c)
  | .anySequence => false
  | .anyRecursive => false

/-- The outcome of a try. -/
inductive Outcome where
  | matched
  /-- This try failed; an earlier star may take more. -/
  | retry
  /-- The path is too short, and so is every shorter rest of it. -/
  | impossible
deriving DecidableEq, Repr

/-- Let a star take more and more of the current segment until the rest matches. -/
def seekWithin (next : List Char → Outcome) : List Char → Outcome
  | [] => next []
  | c :: path =>
    match next (c :: path) with
    | .retry => if c = '/' then .retry else seekWithin next path
    | outcome => outcome

/-- Let a double star take more and more segments until the rest matches. The rest is tried
here when `atStart` holds, then after every separator and at the end of the path. -/
def seekBelow (next : List Char → Outcome) : Bool → List Char → Outcome
  | _, [] => next []
  | false, c :: path => seekBelow next (c = '/') path
  | true, c :: path =>
    match next (c :: path) with
    | .retry => seekBelow next (c = '/') path
    | outcome => outcome

/-- Match the tokens against the path. -/
def matchFrom : List Token → List Char → Outcome
  | [], [] => .matched
  | [], _ :: _ => .retry
  | .anySequence :: tokens, path => seekWithin (matchFrom tokens) path
  | .anyRecursive :: tokens, path => seekBelow (matchFrom tokens) true path
  | _ :: _, [] => .impossible
  | token :: tokens, c :: path => if token.accepts c then matchFrom tokens path else .retry

/-- True when the tokens match the whole path. -/
def isMatch (tokens : List Token) (path : List Char) : Bool :=
  matchFrom tokens path = .matched

end RuleCascade.Glob
