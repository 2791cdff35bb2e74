import RuleCascade.Pattern

/-! # File filters

    A filter holds the patterns that include files and the patterns that
    exclude them. Without including patterns every file is included; an
    excluding pattern always wins.
-/

namespace RuleCascade

/-- Including and excluding patterns, in declared order. -/
structure FileFilter where
  included : List Pattern := []
  excluded : List Pattern := []
deriving DecidableEq, Repr, Inhabited

namespace FileFilter

/-- Compile patterns in order; a failure comes with the pattern it is about. -/
def compileAll (sources : List String) : Except (String × PatternError) (List Pattern) :=
  sources.mapM fun source =>
    match Pattern.compile source with
    | .ok pattern => .ok pattern
    | .error e => .error (source, e)

/-- Compile a filter, the including patterns first. -/
def compile (including excluding : List String) : Except (String × PatternError) FileFilter := do
  let included ← compileAll including
  let excluded ← compileAll excluding
  return ⟨included, excluded⟩

/-- The first excluding pattern that matches the path. -/
def excludedBy? (f : FileFilter) (path : String) : Option Pattern :=
  f.excluded.find? fun p => p.isMatch path

/-- True when an excluding pattern matches the path. -/
def excludes (f : FileFilter) (path : String) : Bool :=
  (f.excludedBy? path).isSome

/-- True when the path is included and not excluded. -/
def appliesTo (f : FileFilter) (path : String) : Bool :=
  (f.included.isEmpty || f.included.any fun p => p.isMatch path) && !f.excludes path

/-- True when no pattern restricts the filter. -/
def isUniversal (f : FileFilter) : Bool :=
  f.included.isEmpty && f.excluded.isEmpty

end FileFilter

end RuleCascade
