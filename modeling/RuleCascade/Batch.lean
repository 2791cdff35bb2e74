import RuleCascade.Cache

/-! # Batches on several workers

    A batch of paths is shared out among workers, and all of them use one
    cache. To resolve a path a worker makes up to four accesses: it looks the
    path up, it reads off how much is remembered, it empties the cache if that
    is too much, and it puts the answer in. Each access is one step, and nobody
    holds the cache between two of them. While a worker is on its way from one
    access to the next, the others make theirs.

    So a batch is a relation (`Batch.Step`, `Batch.Runs`): any worker may be the
    next to go on, and what comes of the batch depends on it. With one path on
    the way at a time, the accesses are those of `LiveSnapshot.resolve`;
    `LiveSnapshot.resolveAll` is the batch in which a single worker takes the
    paths as they come.
-/

namespace RuleCascade

/-! ## Section 1: Accesses -/

/-- How far a path of a batch has come. -/
inductive Stage where
  | waiting
  /-- The path was not found, and its configuration has been computed. -/
  | computed (answer : Answer)
  /-- The cache was full when its size was read off. -/
  | clearing (answer : Answer)
  /-- The cache had room when its size was read off, or it has been emptied since. -/
  | storing (answer : Answer)
  | done (answer : Answer)

namespace Stage

/-- The answer, once there is one. -/
def answer? : Stage → Option Answer
  | .waiting => none
  | .computed answer | .clearing answer | .storing answer | .done answer => some answer

/-- True between the first access and the last one. -/
def isUnderWay : Stage → Bool
  | .computed _ | .clearing _ | .storing _ => true
  | .waiting | .done _ => false

/-- True when nothing but putting the answer into the cache is left. -/
def isStoring : Stage → Bool
  | .storing _ => true
  | _ => false

end Stage

namespace LiveSnapshot

/-- The room in the cache; there is none where no cache is kept. -/
def capacity (l : LiveSnapshot) : Nat :=
  l.snapshot.cacheCapacity.getD 0

/-- The answer that is computed next, if it is for this path. -/
def nextAnswer (l : LiveSnapshot) (path : String) : Answer :=
  ⟨l.issued, l.snapshot.compute path⟩

/-- The live snapshot after an answer was computed. -/
def issue (l : LiveSnapshot) : LiveSnapshot :=
  { l with issued := l.issued + 1 }

@[simp] theorem snapshot_issue (l : LiveSnapshot) : l.issue.snapshot = l.snapshot := rfl

@[simp] theorem cached_issue (l : LiveSnapshot) : l.issue.cached = l.cached := rfl

end LiveSnapshot

/-- One access for a normalized path: it takes the live snapshot and the stage of the path to
    those that follow. -/
inductive Access (path : String) : LiveSnapshot → Stage → LiveSnapshot → Stage → Prop where
  /-- Without a cache there is nothing but to compute the answer. -/
  | compute {l : LiveSnapshot} (hcache : l.snapshot.cacheCapacity = none) :
      Access path l .waiting l.issue (.done (l.nextAnswer path))
  /-- The path is found. -/
  | hit {l : LiveSnapshot} {answer : Answer} (hcache : l.snapshot.cacheCapacity ≠ none)
      (hfind : l.cached.find? path = some answer) : Access path l .waiting l (.done answer)
  /-- The path is not found, and its answer is computed. -/
  | miss {l : LiveSnapshot} (hcache : l.snapshot.cacheCapacity ≠ none)
      (hfind : l.cached.find? path = none) :
      Access path l .waiting l.issue (.computed (l.nextAnswer path))
  /-- The cache is full by its size. -/
  | full {l : LiveSnapshot} {answer : Answer} (hfull : l.capacity ≤ l.cached.size) :
      Access path l (.computed answer) l (.clearing answer)
  /-- The cache has room by its size. -/
  | room {l : LiveSnapshot} {answer : Answer} (hroom : l.cached.size < l.capacity) :
      Access path l (.computed answer) l (.storing answer)
  /-- The cache is emptied, whatever it holds by now. -/
  | clear {l : LiveSnapshot} {answer : Answer} :
      Access path l (.clearing answer) { l with cached := .empty } (.storing answer)
  /-- The answer goes in, whatever the cache holds by now. -/
  | insert {l : LiveSnapshot} {answer : Answer} :
      Access path l (.storing answer) { l with cached := l.cached.insert path answer }
        (.done answer)

/-! ## Section 2: Batches -/

/-- A path of a batch, as given, and how far it has come. -/
structure Job where
  path : String
  stage : Stage

/-- A batch, with the live snapshot that its workers share. -/
structure Batch where
  live : LiveSnapshot
  /-- One job for each path, in the order of the paths. -/
  jobs : List Job

namespace Batch

/-- The number of jobs that a worker is in the middle of. -/
def underWay (jobs : List Job) : Nat :=
  jobs.countP fun job => job.stage.isUnderWay

/-- A worker makes the next access for some path. A path that is waiting can only be begun if one
    of the workers is free. -/
inductive Step (workers : Nat) : Batch → Batch → Prop where
  | access {l l' path stage stage'} (before after : List Job)
      (haccess : Access (normalizePath path) l stage l' stage')
      (hfree : stage = .waiting → underWay (before ++ after) < workers) :
      Step workers ⟨l, before ++ ⟨path, stage⟩ :: after⟩ ⟨l', before ++ ⟨path, stage'⟩ :: after⟩

/-- The batch has come from another one by steps. -/
inductive Runs (workers : Nat) (first : Batch) : Batch → Prop where
  | start : Runs workers first first
  | step {b next} (h : Runs workers first b) (hstep : Step workers b next) :
      Runs workers first next

/-- The batch before its first step. -/
def start (l : LiveSnapshot) (paths : List String) : Batch :=
  ⟨l, paths.map fun path => ⟨path, .waiting⟩⟩

@[simp] theorem length_jobs_start (l : LiveSnapshot) (paths : List String) :
    (start l paths).jobs.length = paths.length :=
  List.length_map _

/-- A batch whose paths all have their answers. -/
def finished (l : LiveSnapshot) (pairs : List (String × Answer)) : Batch :=
  ⟨l, pairs.map fun pair => ⟨pair.1, .done pair.2⟩⟩

end Batch

/-- The paths can be resolved with these answers by so many workers, and the live snapshot is
    left like this. The answers stand by the paths as given; a repeated path keeps its first
    place and has the answer of its last one. -/
def ResolvesAll (workers : Nat) (l : LiveSnapshot) (paths : List String)
    (answers : OrderedMap String Answer) (l' : LiveSnapshot) : Prop :=
  ∃ pairs, Batch.Runs workers (.start l paths) (.finished l' pairs) ∧ .ofList pairs = answers

end RuleCascade
