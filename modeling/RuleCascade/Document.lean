import RuleCascade.Document.Datum

/-! # Declared configuration

    A document declares the ordered fragments of the cascade, the rule sets
    that fragments can be built on, aliases for their names, patterns of
    ignored files, and the engine's options.

    Where the format allows it, a record may also be the list of its field
    values. Writing leaves out absent fields, and reads back to the same document.
-/

namespace RuleCascade

/-! ## Section 1: The declarations -/

/-- One declared fragment. Every field may be absent. -/
structure FragmentDeclaration where
  name : Option String := none
  files : Option (List String) := none
  ignores : Option (List String) := none
  language : Option String := none
  /-- The rule sets the fragment is built on. -/
  bases : Option (List String) := none
  rules : Option (OrderedMap String Value) := none
  sharedOptions : Option Value := none
deriving Inhabited

/-- True when nothing is declared. -/
def FragmentDeclaration.isEmpty (d : FragmentDeclaration) : Bool :=
  d.name.isNone && d.files.isNone && d.ignores.isNone && d.language.isNone &&
    d.bases.isNone && d.rules.isNone && d.sharedOptions.isNone

/-- Declared rule sets by name. -/
abbrev RuleSetDeclarations := OrderedMap String (List FragmentDeclaration)

/-- The options of the engine. -/
structure EngineOptions where
  /-- Language tags by file extension, over the default table. -/
  languages : OrderedMap String String := .empty
  cache : Bool := true
  cacheCapacity : UInt64 := 65536
  maxCascadeEntries : UInt64 := 100000
deriving Inhabited

/-- A whole configuration document. -/
structure Document where
  schema : Option String := none
  fragments : List FragmentDeclaration := []
  ruleSets : RuleSetDeclarations := .empty
  ignores : List String := []
  aliases : OrderedMap String String := .empty
  options : EngineOptions := {}
deriving Inhabited

/-! ## Section 2: Reading -/

namespace FragmentDeclaration

/-- All seven fields, each at most once, or a list of exactly seven values. -/
def shape : Datum.Shape :=
  { names := ["name", "files", "ignores", "language", "extends", "rules", "sharedOptions"]
    required := 7
    closed := true }

/-- Read one declared fragment. -/
def read? (dialect : Datum.Dialect) (d : Datum) : Option FragmentDeclaration := do
  let fields ← d.fields? dialect shape
  let name ← Datum.optionalField? fields "name" Datum.text?
  let files ← Datum.optionalField? fields "files" (Datum.list? Datum.text?)
  let ignores ← Datum.optionalField? fields "ignores" (Datum.list? Datum.text?)
  let language ← Datum.optionalField? fields "language" Datum.text?
  let bases ← Datum.optionalField? fields "extends" (Datum.list? Datum.text?)
  let rules ← Datum.optionalField? fields "rules" (Datum.map? Datum.toValue?)
  let sharedOptions ← Datum.optionalField? fields "sharedOptions" Datum.toValue?
  return { name, files, ignores, language, bases, rules, sharedOptions }

end FragmentDeclaration

namespace EngineOptions

/-- Four fields that all have defaults; fields of other names are ignored. -/
def shape : Datum.Shape :=
  { names := ["languages", "cache", "cacheCapacity", "maxCascadeEntries"]
    required := 0
    closed := false }

/-- Read the options. -/
def read? (dialect : Datum.Dialect) (d : Datum) : Option EngineOptions := do
  let fields ← d.fields? dialect shape
  let standard : EngineOptions := {}
  let languages ← Datum.field? fields "languages" (Datum.map? Datum.text?) standard.languages
  let cache ← Datum.field? fields "cache" Datum.flag? standard.cache
  let cacheCapacity ←
    Datum.field? fields "cacheCapacity" Datum.count? standard.cacheCapacity
  let maxCascadeEntries ←
    Datum.field? fields "maxCascadeEntries" Datum.count? standard.maxCascadeEntries
  return { languages, cache, cacheCapacity, maxCascadeEntries }

end EngineOptions

/-- Read a map from names to lists of declared fragments. -/
def RuleSetDeclarations.read? (dialect : Datum.Dialect) : Datum → Option RuleSetDeclarations :=
  Datum.map? (Datum.list? (FragmentDeclaration.read? dialect))

namespace Document

/-- Six fields; only the first one is needed in the list form. -/
def shape : Datum.Shape :=
  { names := ["$schema", "fragments", "ruleSets", "ignores", "aliases", "options"]
    required := 1
    closed := true }

/-- All fields are read but the ones that the options ignore. -/
def scope : Datum.Scope :=
  .record fun name =>
    if name = "options" then
      some (.record fun option =>
        if option ∈ EngineOptions.shape.names then some .whole else none)
    else some .whole

/-- Read a document. -/
def read? (dialect : Datum.Dialect) (d : Datum) : Option Document := do
  let fields ← d.fields? dialect shape
  let schema ← Datum.optionalField? fields "$schema" Datum.text?
  let fragments ←
    Datum.field? fields "fragments" (Datum.list? (FragmentDeclaration.read? dialect)) []
  let ruleSets ← Datum.field? fields "ruleSets" (RuleSetDeclarations.read? dialect) .empty
  let ignores ← Datum.field? fields "ignores" (Datum.list? Datum.text?) []
  let aliases ← Datum.field? fields "aliases" (Datum.map? Datum.text?) .empty
  let options ← Datum.field? fields "options" (EngineOptions.read? dialect) {}
  return { schema, fragments, ruleSets, ignores, aliases, options }

/-- Read a document that is given as a value. -/
def ofValue? (v : Value) : Option Document :=
  read? {} (Datum.ofValue v)

end Document

/-! ## Section 3: Writing -/

/-- A list of texts as a value. -/
def Value.ofTexts (texts : List String) : Value :=
  .array (texts.map .string)

/-- A count as a value. -/
def Value.ofCount (n : UInt64) : Value :=
  .number (.int n.toNat)

/-- A field that is left out when it is absent. -/
def Fields.optional {α : Type} (name : String) (write : α → Value) : Option α → Fields
  | none => []
  | some a => [(name, write a)]

namespace FragmentDeclaration

/-- A declared fragment as a value; absent fields are left out. -/
def toValue (d : FragmentDeclaration) : Value :=
  .object <|
    Fields.optional "name" .string d.name ++
    Fields.optional "files" Value.ofTexts d.files ++
    Fields.optional "ignores" Value.ofTexts d.ignores ++
    Fields.optional "language" .string d.language ++
    Fields.optional "extends" Value.ofTexts d.bases ++
    Fields.optional "rules" (fun rules => .object rules.entries) d.rules ++
    Fields.optional "sharedOptions" id d.sharedOptions

end FragmentDeclaration

/-- A map of texts as a value. -/
def Value.ofTextMap (m : OrderedMap String String) : Value :=
  .object (m.entries.map fun entry => (entry.1, .string entry.2))

/-- The options as a value. -/
def EngineOptions.toValue (o : EngineOptions) : Value :=
  .object
    [("languages", .ofTextMap o.languages), ("cache", .bool o.cache),
     ("cacheCapacity", .ofCount o.cacheCapacity),
     ("maxCascadeEntries", .ofCount o.maxCascadeEntries)]

/-- Declared fragments as a value. -/
def Value.ofDeclarations (fragments : List FragmentDeclaration) : Value :=
  .array (fragments.map FragmentDeclaration.toValue)

/-- Declared rule sets as a value. -/
def RuleSetDeclarations.toValue (sets : RuleSetDeclarations) : Value :=
  .object (sets.entries.map fun entry => (entry.1, .ofDeclarations entry.2))

/-- A document as a value; an absent schema and an empty list of ignores are left out. -/
def Document.toValue (d : Document) : Value :=
  .object <|
    Fields.optional "$schema" .string d.schema ++
    [("fragments", .ofDeclarations d.fragments), ("ruleSets", d.ruleSets.toValue)] ++
    Fields.optional "ignores" Value.ofTexts (if d.ignores.isEmpty then none else some d.ignores) ++
    [("aliases", .ofTextMap d.aliases), ("options", d.options.toValue)]

end RuleCascade
