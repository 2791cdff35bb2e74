import RuleCascade.Document

/-! # The schema of documents

    Editors ask which fields a document may have and what they are for. The
    document itself and the records inside it are described one section each;
    the document is the section without a name.
-/

namespace RuleCascade

/-- One field of a record. -/
structure FieldDescription where
  name : String
  description : Option String
deriving DecidableEq, Repr

/-- What may stand in a record. -/
structure RecordSchema where
  title : Option String
  /-- Fields that are not listed are refused. -/
  closed : Bool
  fields : List FieldDescription
deriving DecidableEq, Repr

/-- A described field. -/
def FieldDescription.of (name description : String) : FieldDescription :=
  ⟨name, some description⟩

namespace RecordSchema

/-- The fields by name. -/
def sortedFields (s : RecordSchema) : List FieldDescription :=
  s.fields.mergeSort fun a b => decide (a.name ≤ b.name)

end RecordSchema

/-- The schema of a declared fragment. -/
def FragmentDeclaration.schema : RecordSchema where
  title := none
  closed := FragmentDeclaration.shape.closed
  fields :=
    [.of "name" "Human-readable label used in diagnostics",
     .of "files" "Glob patterns of files this fragment applies to (omit for all files)",
     .of "ignores" "Glob patterns of files exempted from this fragment",
     .of "language" "Language tag restricting the file kinds this fragment applies to",
     .of "extends" "Names of rule sets to splice in before this fragment's rules",
     .of "rules" ("Rule settings: \"off\"|\"warn\"|\"error\", 0|1|2, [severity, ...options] " ++
       "or \x7bseverity, options\x7d"),
     .of "sharedOptions" "Shared context such as recognized globals; merged additively"]

/-- The schema of the options. -/
def EngineOptions.schema : RecordSchema where
  title := none
  closed := EngineOptions.shape.closed
  fields :=
    [.of "languages" "File extension to language tag overrides (empty tag removes)",
     .of "cache" "Cache resolved configurations per file path",
     .of "cacheCapacity" "Maximum number of cached paths before the cache is cleared",
     .of "maxCascadeEntries" "Maximum number of fragments the expanded cascade may hold"]

/-- The schema of a whole document. -/
def Document.schemaRecord : RecordSchema where
  title := some "Cascade configuration"
  closed := Document.shape.closed
  fields :=
    [.of "$schema" "JSON Schema reference, ignored by the engine",
     .of "fragments" "Ordered configuration fragments; later fragments win",
     .of "ruleSets" "Named rule sets available to `extends`",
     .of "ignores" ("Glob patterns of files the engine ignores; " ++
       "they resolve to an empty configuration"),
     .of "aliases" "Alias name to rule set (or alias) name",
     ⟨"options", none⟩]

namespace RecordSchema

/-- The schema of a section by its name. -/
def ofSection? (section? : Option String) : Option RecordSchema :=
  match section? with
  | none => some Document.schemaRecord
  | some name =>
    if name = "FragmentDeclaration" then some FragmentDeclaration.schema
    else if name = "EngineOptions" then some EngineOptions.schema
    else none

end RecordSchema

end RuleCascade
