import RuleCascade.Document
import RuleCascade.Format.Json
import RuleCascade.Format.Json5
import RuleCascade.Format.Toml
import RuleCascade.Format.Yaml
import RuleCascade.Text.Split

/-! # Document formats

    A document is written in one of four formats. The extension of a file name
    tells which; case counts.
-/

namespace RuleCascade

/-- The formats of documents. -/
inductive Format where
  | json
  | json5
  | yaml
  | toml
deriving DecidableEq, Repr

namespace Format

/-! ## Section 1: File names -/

/-- The segments of a path between slashes. -/
def segments (path : String) : List String :=
  path.splitOn "/"

/-- The last segment that names something; nothing when the path ends in its parent. -/
def fileName? (path : String) : Option String :=
  match ((segments path).filter fun segment => segment ≠ "" && segment ≠ ".").getLast? with
  | some name => if name = ".." then none else some name
  | none => none

/-- The text after the last dot of the file name, unless that dot is its first character. -/
def extension? (path : String) : Option String :=
  (fileName? path).bind fun name =>
    match Text.splitLast? (· = '.') name.toList with
    | none => none
    | some (stem, extension) =>
      if stem.isEmpty then none else some (String.ofList extension)

/-- The format of an extension. -/
def ofExtension? (extension : String) : Option Format :=
  if extension = "json" then some .json
  else if extension = "jsonc" || extension = "json5" then some .json5
  else if extension = "yaml" || extension = "yml" then some .yaml
  else if extension = "toml" then some .toml
  else none

/-- The format of a file. -/
def ofPath? (path : String) : Option Format :=
  (extension? path).bind ofExtension?

/-! ## Section 2: Texts -/

/-- The tree that a text spells, as far as a document reads it. -/
def read? : Format → String → Option Datum
  | .json => Json.read?
  | .json5 => Json5.read?
  | .yaml => Yaml.read? Document.scope
  | .toml => Toml.read?

/-- How records with fixed fields are treated. -/
def dialect : Format → Datum.Dialect
  | .json => {}
  | .json5 => Json5.dialect
  | .yaml => Yaml.dialect
  | .toml => Toml.dialect

/-- The document that a text spells. -/
def parse? (format : Format) (text : String) : Option Document :=
  (format.read? text).bind (Document.read? format.dialect)

end Format

end RuleCascade
