import RuleCascade.Configuration
import RuleCascade.Expansion
import RuleCascade.Language

/-! # Snapshots

    A snapshot is a loaded document: its references are expanded into one flat
    cascade. Resolving a path keeps the entries that apply to it and layers
    their fragments. Paths that an ignore pattern of the document matches never
    reach the cascade.

    A snapshot does not change. What it has resolved before is kept beside it
    (`RuleCascade.Cache`).
-/

namespace RuleCascade

/-- A loaded and expanded document. -/
structure Snapshot where
  cascade : List Entry
  ignores : FileFilter
  languages : LanguageMap
  /-- The most paths whose configurations are kept; nothing is kept at all without one. -/
  cacheCapacity : Option Nat

/-- Why a path has the configuration it has. -/
structure Explanation where
  path : String
  language : Option String
  /-- The ignore pattern that covers the path. -/
  ignoredBy : Option String
  /-- The provenance of every entry that applies, in order. -/
  applied : List String
deriving DecidableEq, Repr

/-- An explanation as a value. -/
def Explanation.toValue (e : Explanation) : Value :=
  .object <|
    [("path", .string e.path), ("language", e.language.elim .null .string)] ++
    Fields.optional "ignoredBy" .string e.ignoredBy ++
    [("applied", .ofTexts e.applied)]

namespace Snapshot

/-! ## Section 1: Loading -/

/-- The capacity that the options ask for: none when caching is off or has no room. -/
def capacityOf (options : EngineOptions) : Option Nat :=
  if options.cache && 0 < options.cacheCapacity then some options.cacheCapacity.toNat else none

/-- Expand loaded fragments. -/
def ofFragments (fragments : List Fragment) (registry : Registry) (ignores : FileFilter)
    (options : EngineOptions) : Except CascadeError Snapshot := do
  let cascade ← Expansion.expandAll registry options.maxCascadeEntries.toNat fragments
  return {
    cascade, ignores
    languages := .withOverrides options.languages
    cacheCapacity := capacityOf options }

/-- Load a document: ignore patterns, then rule sets and aliases, then fragments, and then
the expansion. -/
def ofDocument (d : Document) : Except CascadeError Snapshot := do
  let ignores ← loadIgnores d.ignores
  let registry ← Registry.ofDeclarations d.ruleSets d.aliases
  let fragments ← Fragment.loadAll d.fragments
  ofFragments fragments registry ignores d.options

/-! ## Section 2: Questions about a path -/

/-- The first ignore pattern that covers the path. -/
def ignoredBy? (s : Snapshot) (path : String) : Option String :=
  (s.ignores.excludedBy? path).map (·.source)

/-- The entries that apply to a path of the given language. -/
def applicable (s : Snapshot) (path : String) (language : Option String) : List Entry :=
  s.cascade.filter fun entry => entry.appliesTo path language

/-- The configuration of a normalized path. -/
def compute (s : Snapshot) (path : String) : Configuration :=
  if (s.ignoredBy? path).isSome then .ofIgnored
  else
    .merge ((s.applicable path (s.languages.languageOf path)).map (·.fragment))

/-- True when an ignore pattern covers the path. -/
def isIgnored (s : Snapshot) (path : String) : Bool :=
  (s.ignoredBy? (normalizePath path)).isSome

/-- The language of a path. -/
def languageOf (s : Snapshot) (path : String) : Option String :=
  s.languages.languageOf (normalizePath path)

/-- Which entries apply to a path, or which pattern ignores it. -/
def explain (s : Snapshot) (path : String) : Explanation :=
  let path := normalizePath path
  let language := s.languages.languageOf path
  match s.ignoredBy? path with
  | some pattern => { path, language, ignoredBy := some pattern, applied := [] }
  | none =>
    { path, language, ignoredBy := none
      applied := (s.applicable path language).map Entry.provenance }

end Snapshot

end RuleCascade
