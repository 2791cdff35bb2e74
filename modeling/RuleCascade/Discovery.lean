import RuleCascade.CascadeError
import RuleCascade.FileTree
import RuleCascade.Format

/-! # Finding and loading documents

    A document is loaded from a path, or from the nearest directory above a
    starting point that holds a file with one of the standard names. The names
    are tried in order in each directory before the search moves up.
-/

namespace RuleCascade

namespace Discovery

/-! ## Section 1: Standard names -/

/-- The names searched for, the preferred ones first. -/
def configNames : List String :=
  ["cascade.config.json", "cascade.config.jsonc", "cascade.config.yaml", "cascade.config.yml",
   "cascade.config.toml"]

/-- The standard file of a directory. -/
def configIn? (t : FileTree) (names : List String) : Option (List String) :=
  (configNames.map fun name => names ++ [name]).find? t.isFile

/-- A place and all those above it, the nearest first. -/
def ancestors (names : List String) : List (List String) :=
  (List.range (names.length + 1)).reverse.map names.take

/-- The nearest standard file at or above a place. -/
def nearest? (t : FileTree) : Place → Option (List String)
  | .inside names => (ancestors names).findSome? (configIn? t)
  | .outside => none

/-- The nearest standard file at or above a path, which must lead somewhere. -/
def discover (t : FileTree) (path : String) : Except CascadeError (Option (List String)) :=
  match t.locate path with
  | .error fault => .error (.io path fault.message)
  | .ok place => .ok (nearest? t place)

/-- The full path of a place, given how the root is written. -/
def fullPath (root : String) (names : List String) : String :=
  "/".intercalate (root :: names)

/-! ## Section 2: Loading -/

/-- The refusal of a file whose extension names no format. -/
def unsupported (path : String) : CascadeError :=
  .config ("Unsupported file extension for '" ++ path ++
    "' (expected .json, .jsonc, .json5, .yaml, .yml or .toml)")

/-- The refusal of a file that its format cannot read. -/
def unreadable (path : String) : CascadeError :=
  .config ("Failed to load config from '" ++ path ++ "'")

/-- The document that a content spells under a path, which tells its format. The extension
counts before the content does. -/
def documentOf (path : String) (content : Except FileFault String) :
    Except CascadeError Document :=
  match Format.ofPath? path, content with
  | none, _ => .error (unsupported path)
  | some _, .error fault => .error (.io path fault.message)
  | some format, .ok text =>
    match format.parse? text with
    | none => .error (unreadable path)
    | some document => .ok document

/-- Load the document at a path. -/
def loadFile (t : FileTree) (path : String) : Except CascadeError Document :=
  documentOf path (t.read path)

/-- Find the document for a starting point, by default the root, and load it. `root` is how
the root is written in error messages. -/
def loadNearest (t : FileTree) (root : String) (start : Option String) :
    Except CascadeError Document := do
  match ← discover t (start.getD ".") with
  | none => throw (.config ("No config file found (" ++ ", ".intercalate configNames ++ ")"))
  | some names => documentOf (fullPath root names) (t.contentAt (.inside names))

/-- Load the document at a path if one is given, and the nearest one otherwise. -/
def load (t : FileTree) (root : String) (path start : Option String) :
    Except CascadeError Document :=
  match path with
  | none => loadNearest t root start
  | some path =>
    match t.locate path with
    | .error _ => .error (.config ("Config file not found: " ++ path))
    | .ok _ => loadFile t path

end Discovery

end RuleCascade
