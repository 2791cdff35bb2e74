import RuleCascade.OrderedMap
import RuleCascade.Text.Blank
import RuleCascade.Text.Split

/-! # Languages of files

    The language of a file is read off its extension. A table gives the
    standard languages; a document may change or remove entries. Extensions
    are compared in lower case, and an override may be written with leading
    dots.
-/

namespace RuleCascade

/-- Language tags by extension, in lower case and without a dot. -/
structure LanguageMap where
  byExtension : OrderedMap String String
deriving DecidableEq

namespace LanguageMap

/-- The standard table. -/
def standardEntries : List (String × String) :=
  [("js", "script"), ("mjs", "script"), ("cjs", "script"), ("jsx", "script"),
   ("ts", "script"), ("mts", "script"), ("cts", "script"), ("tsx", "script"),
   ("json", "json"), ("jsonc", "jsonc"), ("json5", "json5"),
   ("md", "markdown"), ("markdown", "markdown"), ("css", "css")]

/-- The standard table as a map. -/
def standard : LanguageMap := ⟨.ofList standardEntries⟩

/-- The extension that an override's key names. -/
def overrideKey (key : String) : String :=
  String.ofList (Text.lowerAscii (key.toList.dropWhile (· = '.')))

/-- Apply one override; an empty tag removes the extension. -/
def override (m : LanguageMap) (entry : String × String) : LanguageMap :=
  if entry.2.isEmpty then ⟨m.byExtension.erase (overrideKey entry.1)⟩
  else ⟨m.byExtension.insert (overrideKey entry.1) entry.2⟩

/-- The standard table with overrides applied in order. -/
def withOverrides (overrides : OrderedMap String String) : LanguageMap :=
  overrides.entries.foldl override standard

/-- The extension of a path's last segment in lower case. A segment whose only dot is its
first character has none. -/
def extension? (path : List Char) : Option (List Char) :=
  match Text.splitLast? (· = '.') (Text.afterLast (· = '/') path) with
  | none => none
  | some (stem, extension) =>
    if stem.isEmpty then none else some (Text.lowerAscii extension)

/-- The language of a path, if its extension is known. -/
def languageOf (m : LanguageMap) (path : String) : Option String :=
  (extension? path.toList).bind fun extension =>
    m.byExtension.find? (String.ofList extension)

end LanguageMap

end RuleCascade
