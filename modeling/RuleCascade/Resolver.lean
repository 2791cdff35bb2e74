import RuleCascade.Cache

/-! # Resolvers

    A resolver publishes one snapshot at a time. A reload loads the next
    document completely before it replaces the snapshot; when it fails,
    nothing changes. Whoever took a handle to a snapshot keeps working with that
    snapshot and its cache after later reloads.
-/

namespace RuleCascade

/-- The published snapshot, those it replaced, and the number of reloads. -/
structure Resolver where
  current : LiveSnapshot
  /-- Replaced snapshots, oldest first. -/
  retired : List LiveSnapshot := []
  /-- The number of successful reloads, counted in 64 bits. -/
  generation : UInt64 := 0

namespace Resolver

/-! ## Section 1: Publishing -/

/-- A handle to a snapshot: the number of snapshots published before it. -/
abbrev Handle := Nat

/-- A resolver that publishes the document. -/
def ofDocument (d : Document) : Except CascadeError Resolver := do
  let live ← LiveSnapshot.ofDocument d
  return { current := live }

/-- A handle to the published snapshot. -/
def handle (r : Resolver) : Handle :=
  r.retired.length

/-- The snapshot of a handle. -/
def live (r : Resolver) (h : Handle) : LiveSnapshot :=
  r.retired.getD h r.current

/-- Replace the snapshot of a handle by a later state of it. -/
def setLive (r : Resolver) (h : Handle) (l : LiveSnapshot) : Resolver :=
  if h < r.retired.length then { r with retired := r.retired.set h l }
  else { r with current := l }

/-- Resolve a path with the snapshot of a handle. -/
def resolve (r : Resolver) (h : Handle) (path : String) : Answer × Resolver :=
  let (answer, l) := (r.live h).resolve path
  (answer, r.setLive h l)

/-- Resolve paths with the snapshot of a handle. -/
def resolveAll (r : Resolver) (h : Handle) (paths : List String) :
    OrderedMap String Answer × Resolver :=
  let (answers, l) := (r.live h).resolveAll paths
  (answers, r.setLive h l)

/-- Publish a snapshot. -/
def publish (r : Resolver) (l : LiveSnapshot) : Resolver :=
  { current := l, retired := r.retired ++ [r.current], generation := r.generation + 1 }

/-- Load a document and publish it. -/
def reload (r : Resolver) (d : Document) : Except CascadeError Resolver := do
  let live ← LiveSnapshot.ofDocument d
  return r.publish live

/-- Load a document and publish it if that succeeds; says whether it did. -/
def tryReload (r : Resolver) (d : Document) : Bool × Resolver :=
  match r.reload d with
  | .ok next => (true, next)
  | .error _ => (false, r)

/-! ## Section 2: What a handle shows -/

@[simp] theorem live_handle (r : Resolver) : r.live r.handle = r.current := by
  simp [live, handle]

/-- A handle that is taken before a snapshot is published keeps its snapshot. -/
theorem live_publish (r : Resolver) (l : LiveSnapshot) {h : Handle} (hle : h ≤ r.handle) :
    (r.publish l).live h = r.live h := by
  unfold handle at hle
  rcases Nat.lt_or_eq_of_le hle with hlt | heq
  · -- the snapshot was retired before
    simp [live, publish, List.getD, List.getElem?_append_left hlt, hlt]
  · -- the snapshot is retired now
    simp [live, publish, heq]

@[simp] theorem generation_publish (r : Resolver) (l : LiveSnapshot) :
    (r.publish l).generation = r.generation + 1 := rfl

@[simp] theorem generation_setLive (r : Resolver) (h : Handle) (l : LiveSnapshot) :
    (r.setLive h l).generation = r.generation := by
  unfold setLive
  split <;> rfl

@[simp] theorem handle_setLive (r : Resolver) (h : Handle) (l : LiveSnapshot) :
    (r.setLive h l).handle = r.handle := by
  unfold setLive handle
  split
  · rw [List.length_set]
  · rfl

@[simp] theorem live_setLive_self (r : Resolver) (h : Handle) (l : LiveSnapshot) :
    (r.setLive h l).live h = l := by
  unfold setLive live
  split
  · rename_i hlt
    simp [List.getD, hlt]
  · rename_i hge
    simp [List.getD, List.getElem?_eq_none (Nat.le_of_not_lt hge)]

end Resolver

end RuleCascade
