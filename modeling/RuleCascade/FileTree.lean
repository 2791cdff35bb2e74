import RuleCascade.OrderedMap

/-! # A tree of files

    Documents are looked up in a tree of directories and files. A path is a
    text of segments between slashes and is walked one segment at a time from
    the root of the tree: a name leads to an entry of the current directory,
    `..` leads to the directory above, and `.` and an empty segment stay. Each
    of them needs a directory to stand in.

    What lies above the root is not part of the tree: paths can lead there and
    can ask what is there, and they find no files.
-/

namespace RuleCascade

/-! ## Section 1: Places -/

/-- What stands at a place. -/
inductive FileNode where
  | file (content : ByteArray)
  | directory
deriving Inhabited

/-- Why a path leads to no file. -/
inductive FileFault where
  | notFound
  | notDirectory
  | isDirectory
  /-- The content is no text. -/
  | notText
deriving DecidableEq, Repr

/-- The wording of a fault. -/
def FileFault.message : FileFault → String
  | .notFound => "No such file or directory (os error 2)"
  | .notDirectory => "Not a directory (os error 20)"
  | .isDirectory => "Is a directory (os error 21)"
  | .notText => "stream did not contain valid UTF-8"

/-- Where a path leads: to the place that names lead to from the root, or out of the tree. -/
inductive Place where
  | inside (names : List String)
  | outside
deriving DecidableEq, Repr

namespace Place

/-- The root of the tree. -/
def root : Place := .inside []

/-- The directory above. -/
def parent : Place → Place
  | .inside [] => .outside
  | .inside names => .inside names.dropLast
  | .outside => .outside

end Place

/-- The files and directories below the root, by the names that lead to them. -/
structure FileTree where
  nodes : OrderedMap (List String) FileNode := .empty

namespace FileTree

/-- A tree whose root is empty. -/
def empty : FileTree := {}

/-- What stands at a place; the root and what is above it are directories. -/
def node? (t : FileTree) : Place → Option FileNode
  | .inside [] => some .directory
  | .inside names => t.nodes.find? names
  | .outside => some .directory

/-- True when a file stands at the end of the names. -/
def isFile (t : FileTree) (names : List String) : Bool :=
  match t.node? (.inside names) with
  | some (.file _) => true
  | _ => false

/-! ## Section 2: Walking a path -/

/-- The entry of a directory. Nothing outside the tree has a name. -/
def child? (t : FileTree) (place : Place) (name : String) : Option Place :=
  match place with
  | .inside names =>
    if (t.node? (.inside (names ++ [name]))).isSome then some (.inside (names ++ [name])) else none
  | .outside => none

/-- Walk one segment. -/
def step (t : FileTree) (place : Place) (segment : String) : Except FileFault Place :=
  match t.node? place with
  | none => .error .notFound
  | some (.file _) => .error .notDirectory
  | some .directory =>
    if segment = "" ∨ segment = "." then .ok place
    else if segment = ".." then .ok place.parent
    else
      match t.child? place segment with
      | some next => .ok next
      | none => .error .notFound

/-- The place where a path starts: a path that starts with a slash starts outside. -/
def start (segments : List String) : Place :=
  if 1 < segments.length ∧ segments.head? = some "" then .outside else .root

/-- Where a path leads. The empty path leads nowhere. -/
def locate (t : FileTree) (path : String) : Except FileFault Place :=
  if path = "" then .error .notFound
  else
    let segments := path.splitOn "/"
    segments.foldlM t.step (start segments)

/-- The content of the file at a place. -/
def contentAt (t : FileTree) (place : Place) : Except FileFault String :=
  match t.node? place with
  | none => .error .notFound
  | some .directory => .error .isDirectory
  | some (.file bytes) =>
    match String.fromUTF8? bytes with
    | some text => .ok text
    | none => .error .notText

/-- The content of the file that a path leads to. -/
def read (t : FileTree) (path : String) : Except FileFault String := do
  let place ← t.locate path
  t.contentAt place

/-! ## Section 3: Making directories and files -/

/-- Walk one segment; a name that is missing becomes a directory. -/
def stepMaking (state : FileTree × Place) (segment : String) :
    Except FileFault (FileTree × Place) :=
  match state.1.step state.2 segment, state.2 with
  | .ok next, _ => .ok (state.1, next)
  | .error .notFound, .inside names =>
    .ok ({ nodes := state.1.nodes.insert (names ++ [segment]) .directory },
      .inside (names ++ [segment]))
  | .error fault, _ => .error fault

/-- Walk segments from the start of their path and make the directories that are missing. -/
def makeAll (t : FileTree) (segments : List String) : Except FileFault (FileTree × Place) :=
  segments.foldlM stepMaking (t, start segments)

/-- Make a directory and those above it. -/
def makeDirectory (t : FileTree) (path : String) : Except FileFault FileTree := do
  let made ← t.makeAll (path.splitOn "/")
  match made.1.node? made.2 with
  | some .directory => return made.1
  | _ => throw .notDirectory

/-- Write a file and make the directories above it. -/
def write (t : FileTree) (path : String) (content : ByteArray) : Except FileFault FileTree := do
  let segments := path.splitOn "/"
  let (t, place) ← t.makeAll segments.dropLast
  match place, segments.getLast? with
  | .inside names, some name =>
    match t.node? (.inside names), t.node? (.inside (names ++ [name])) with
    | some .directory, some .directory => throw .isDirectory
    | some .directory, _ =>
      return { nodes := t.nodes.insert (names ++ [name]) (.file content) }
    | _, _ => throw .notDirectory
  | _, _ => throw .notFound

end FileTree

end RuleCascade
