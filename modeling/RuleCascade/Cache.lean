import RuleCascade.Snapshot

/-! # Remembered configurations

    A live snapshot remembers the configurations it has handed out, by
    normalized path. When the cache is full it is emptied before the next
    configuration goes in.

    Here one path is resolved at a time. Several workers may share a batch of
    paths, and then their accesses to the cache mix (`RuleCascade.Batch`):
    `resolveAll` is one of the ways for a batch to go, the one without any
    mixing.

    Every computed configuration is a new object: it carries a serial number,
    and two answers are the same object when their serial numbers agree.
-/

namespace RuleCascade

/-- A configuration that was handed out, with its identity. -/
structure Answer where
  serial : Nat
  configuration : Configuration
deriving Inhabited

/-- A snapshot with its cache. -/
structure LiveSnapshot where
  snapshot : Snapshot
  /-- Answers by normalized path. -/
  cached : OrderedMap String Answer := .empty
  /-- The number of answers computed so far, which is the next serial number. -/
  issued : Nat := 0

namespace LiveSnapshot

/-! ## Section 1: Resolving -/

/-- A snapshot that has not answered yet. -/
def fresh (s : Snapshot) : LiveSnapshot := { snapshot := s }

/-- Load a document. -/
def ofDocument (d : Document) : Except CascadeError LiveSnapshot := do
  let s ← Snapshot.ofDocument d
  return fresh s

/-- Remember an answer; a full cache is emptied first. -/
def remember (cached : OrderedMap String Answer) (capacity : Nat) (path : String)
    (answer : Answer) : OrderedMap String Answer :=
  (if capacity ≤ cached.size then .empty else cached).insert path answer

/-- The configuration of a path, from the cache if it is there. -/
def resolve (l : LiveSnapshot) (path : String) : Answer × LiveSnapshot :=
  let path := normalizePath path
  match l.snapshot.cacheCapacity with
  | none =>
    let answer : Answer := ⟨l.issued, l.snapshot.compute path⟩
    (answer, { l with issued := l.issued + 1 })
  | some capacity =>
    match l.cached.find? path with
    | some answer => (answer, l)
    | none =>
      let answer : Answer := ⟨l.issued, l.snapshot.compute path⟩
      (answer,
        { l with cached := remember l.cached capacity path answer, issued := l.issued + 1 })

/-- Resolve paths in order, adding to the answers so far. -/
def resolveEach (l : LiveSnapshot) (done : OrderedMap String Answer) :
    List String → OrderedMap String Answer × LiveSnapshot
  | [] => (done, l)
  | path :: rest =>
    let (answer, next) := l.resolve path
    resolveEach next (done.insert path answer) rest

/-- The configurations of many paths, by the paths as given; a repeated path keeps its first
place. So it goes with a single worker, who takes the paths as they come. -/
def resolveAll (l : LiveSnapshot) (paths : List String) :
    OrderedMap String Answer × LiveSnapshot :=
  l.resolveEach .empty paths

/-- The number of remembered configurations. -/
def cachedSize (l : LiveSnapshot) : Nat :=
  l.cached.size

/-! ## Section 2: The three ways to resolve -/

@[simp] theorem find?_remember_self (cached : OrderedMap String Answer) (capacity : Nat)
    (path : String) (answer : Answer) :
    (remember cached capacity path answer).find? path = some answer :=
  OrderedMap.find?_insert_self _ path answer

section ways

variable {l : LiveSnapshot} {path : String}

theorem resolve_uncached (h : l.snapshot.cacheCapacity = none) :
    l.resolve path =
      (⟨l.issued, l.snapshot.compute (normalizePath path)⟩, { l with issued := l.issued + 1 }) := by
  unfold resolve
  rw [h]

theorem resolve_hit {capacity : Nat} {answer : Answer}
    (h : l.snapshot.cacheCapacity = some capacity)
    (hanswer : l.cached.find? (normalizePath path) = some answer) :
    l.resolve path = (answer, l) := by
  unfold resolve
  simp only [h, hanswer]

theorem resolve_miss {capacity : Nat} (h : l.snapshot.cacheCapacity = some capacity)
    (hmiss : l.cached.find? (normalizePath path) = none) :
    l.resolve path =
      (⟨l.issued, l.snapshot.compute (normalizePath path)⟩,
        { l with
          cached := remember l.cached capacity (normalizePath path)
            ⟨l.issued, l.snapshot.compute (normalizePath path)⟩
          issued := l.issued + 1 }) := by
  unfold resolve
  simp only [h, hmiss]

end ways

@[simp] theorem snapshot_resolve (l : LiveSnapshot) (path : String) :
    (l.resolve path).2.snapshot = l.snapshot := by
  simp only [resolve]
  split
  · rfl
  · split <;> rfl

end LiveSnapshot

end RuleCascade
