import RuleCascade.Document.Datum
import RuleCascade.Format.Yaml.Meaning

/-! # Nodes of YAML

    A node may have an anchor, and a reference stands for an anchored node.
    Nodes are numbered by their anchors; of several nodes with one number the
    one that starts last counts, also for the references in front of it. A
    document is therefore read to its end before references are followed.

    Following a reference takes a step, and the steps of a document are
    limited, because references to nodes that hold references multiply. Fields
    that nobody reads are not followed at all.
-/

namespace RuleCascade.Yaml

/-! ## Section 1: Nodes -/

/-- A node of a document before references are followed. Collections may have a tag of the
document's own. -/
inductive Node where
  | scalar (s : Scalar)
  | list (own : Bool) (items : List Node)
  | record (own : Bool) (fields : List (Node × Node))
  | reference (number : Nat)
deriving Inhabited

/-- The empty scalar that stands where a node is left out. -/
def Node.empty : Node := .scalar (meaning "" .plain none)

/-- An anchored node and how many anchored nodes start before it. -/
structure Anchored where
  start : Nat
  node : Node

/-- The nodes by number. -/
abbrev Anchors := OrderedMap Nat Anchored

/-- Give a node its number, unless the number is taken by a node that starts later. -/
def Anchors.place (anchors : Anchors) (number : Nat) (a : Anchored) : Anchors :=
  match anchors.find? number with
  | some other => if a.start < other.start then anchors else anchors.insert number a
  | none => anchors.insert number a

/-! ## Section 2: Following references -/

/-- The node that a reference stands for; following it takes one of the steps that are left. -/
def Node.follow (anchors : Anchors) : Node → StateT Nat Option Node
  | .reference number, steps =>
    match steps with
    | 0 => none
    | steps + 1 => (anchors.find? number).map fun a => (a.node, steps)
  | n, steps => some (n, steps)

/-- The text that a key is. -/
def Node.key (anchors : Anchors) (n : Node) : StateT Nat Option (Option String) := do
  match ← n.follow anchors with
  | .scalar s => return s.text
  | _ => return none

/-- A list or record, with or without a type of its own. -/
def typedIf (own : Bool) (d : Datum) : Datum :=
  if own then .typed d else d

/-- The tree of a node. Lists and records are nested at most `depth` deep in it; fields that
are not in the scope hold nothing. -/
def Node.toDatum (anchors : Anchors) (depth : Nat) (scope : Datum.Scope) (n : Node) :
    StateT Nat Option Datum := do
  match ← n.follow anchors, depth with
  | .scalar s, _ => return .scalar s
  | .list own items, depth + 1 =>
    return typedIf own (.list (← items.mapM (toDatum anchors depth .whole)))
  | .record own fields, depth + 1 =>
    let fields ← fields.mapM fun field => do
      let key ← field.1.key anchors
      match scope.field? (key.getD "") with
      | none => return (key, .scalar .null)
      | some scope => return (key, ← toDatum anchors depth scope field.2)
    return typedIf own (.record fields)
  | _, _ => failure

end RuleCascade.Yaml
