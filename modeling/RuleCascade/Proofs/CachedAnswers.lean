import RuleCascade.Proofs.CacheHistory
import RuleCascade.Proofs.LastSetting

/-! # Batches and shared answers

    What a path resolves to does not depend on the cache, and whether an answer
    is a new object or one that was handed out before depends on nothing but
    the cache.

    * A batch of paths is answered with the configurations of the snapshot, by
      the paths as given (`Coherent.configurations_eq`). Its workers share one
      cache, which may be emptied any number of times on the way or be filled
      beyond its capacity, and nothing of that shows.
    * Serial numbers tell answers apart. The invariant is `Stamped`: all that is
      remembered was issued, and no answer is remembered under two paths. After a
      path is resolved, its answer is remembered, even where the cache had to
      be emptied for it; so the next call finds this very answer if it asks for
      the same path, and any other answer otherwise.

    Main statements: `batch_after_history` and `resolve_shares_iff`.
-/

namespace RuleCascade

/-! ## Section 1: Maps that are filled from a function -/

namespace OrderedMap

variable {α β : Type} [DecidableEq α]

/-- A map that is filled with the values of a function has them for the keys that were filled in,
    however often that was. -/
theorem find?_insertAll_map (f : α → β) (m : OrderedMap α β) (keys : List α) (key : α) :
    (m.insertAll (keys.map fun k => (k, f k))).find? key =
      if key ∈ keys then some (f key) else m.find? key := by
  induction keys generalizing m with
  | nil => rfl
  | cons first rest ih =>
    rw [List.map_cons, insertAll_cons, ih]
    by_cases hrest : key ∈ rest
    · rw [if_pos hrest, if_pos (List.mem_cons_of_mem _ hrest)]
    · rw [if_neg hrest]
      by_cases hfirst : key = first
      · subst hfirst
        rw [find?_insert_self, if_pos List.mem_cons_self]
      · rw [find?_insert_of_ne m _ hfirst, if_neg (List.not_mem_cons_of_ne_of_not_mem hfirst hrest)]

end OrderedMap

namespace LiveSnapshot

/-! ## Section 2: Snapshots that have been called -/

/-- The live snapshot has come from a fresh one by calls. It may be looked at in the middle of a
    batch, too. -/
inductive ReachedFrom (s : Snapshot) : LiveSnapshot → Prop where
  | fresh : ReachedFrom s (fresh s)
  | serves {l l' : LiveSnapshot} {workers : Nat} {call : Call} {reply : Reply Answer}
      (hl : ReachedFrom s l) (hworkers : 0 < workers) (h : Serves workers l call reply l') :
      ReachedFrom s l'
  | during {l : LiveSnapshot} {workers : Nat} {paths : List String} {b : Batch}
      (hl : ReachedFrom s l) (h : Batch.Runs workers (.start l paths) b) : ReachedFrom s b.live

variable {s : Snapshot} {l l' : LiveSnapshot} {workers : Nat}

theorem ReachedFrom.coherent (h : ReachedFrom s l) : Coherent s l := by
  induction h with
  | fresh => exact coherent_fresh s
  | serves _ _ hserves ih => exact (ih.serves hserves).2
  | during _ hruns ih => exact ih.during hruns

/-! ## Section 3: Batches -/

/-- The configurations of answers. -/
def configurations (answers : OrderedMap String Answer) : OrderedMap String Configuration :=
  answers.mapValues Answer.configuration

section batches

variable {paths : List String} {answers : OrderedMap String Answer}

/-- However the cache stands and whoever comes first, the batch has the configurations that the
    snapshot computes. -/
theorem Coherent.configurations_eq (h : Coherent s l)
    (hresolves : ResolvesAll workers l paths answers l') :
    configurations answers =
      .ofList (paths.map fun path => (path, s.compute (normalizePath path))) :=
  (h.resolvesAll hresolves).1

theorem Coherent.keys_answers (h : Coherent s l)
    (hresolves : ResolvesAll workers l paths answers l') : answers.keys = paths.eraseDups := by
  have hempty : (OrderedMap.empty : OrderedMap String Configuration).keys =
      ([] : List String).eraseDups := rfl
  rw [← OrderedMap.keys_mapValues Answer.configuration]
  show (configurations answers).keys = _
  rw [h.configurations_eq hresolves, OrderedMap.ofList, OrderedMap.keys_insertAll hempty,
    List.nil_append, Entries.keys, List.map_map]
  exact congrArg List.eraseDups (List.map_id paths)

theorem Coherent.find?_configurations (h : Coherent s l)
    (hresolves : ResolvesAll workers l paths answers l') (path : String) :
    (configurations answers).find? path =
      if path ∈ paths then some (s.compute (normalizePath path)) else none := by
  rw [h.configurations_eq hresolves]
  exact OrderedMap.find?_insertAll_map (fun path => s.compute (normalizePath path)) .empty paths
    path

end batches

/-- Whatever a snapshot has served before, every schedule of a batch ends with answers. They have
    the distinct paths as given, in the order of their first places, each with the configuration
    that the path resolves to alone. Two spellings of one path are two keys with one value.
    Another order of the paths makes no difference to any value, and neither do the schedule, the
    number of workers, the calls before and the room in the cache. -/
theorem batch_after_history (hl : ReachedFrom s l) (hworkers : 0 < workers)
    (paths : List String) :
    (¬ ∃ run : Nat → Batch, run 0 = .start l paths ∧
      ∀ i, Batch.Step workers (run i) (run (i + 1))) ∧
    (∀ b, Batch.Runs workers (.start l paths) b → (∀ next, ¬ Batch.Step workers b next) →
      ∃ answers, ResolvesAll workers l paths answers b.live) ∧
    ∀ answers l', ResolvesAll workers l paths answers l' →
      answers.keys = paths.eraseDups ∧
      (∀ path ∈ paths, (configurations answers).find? path =
        some (l.resolve path).1.configuration) ∧
      (∀ path ∈ paths, ∀ other ∈ paths, normalizePath path = normalizePath other →
        (configurations answers).find? path = (configurations answers).find? other) ∧
      (∀ others : List String, others.Perm paths →
        ∀ workers' answers' last, ResolvesAll workers' l others answers' last →
          answers'.keys.Perm answers.keys ∧
          ∀ path, (configurations answers').find? path = (configurations answers).find? path) ∧
      ∀ room other, ReachedFrom { s with cacheCapacity := room } other →
        ∀ workers' answers' last, ResolvesAll workers' other paths answers' last →
          configurations answers' = configurations answers := by
  have hcoherent := hl.coherent
  refine ⟨fun ⟨run, _, hrun⟩ => Batch.no_endless_schedule workers run hrun, ?_, ?_⟩
  · intro b hruns hstuck
    rcases Batch.exists_step_or_finished hworkers b with ⟨next, hstep⟩ | ⟨pairs, hfinished⟩
    · exact absurd hstep (hstuck next)
    · rw [hfinished] at hruns
      exact ⟨.ofList pairs, pairs, hruns, rfl⟩
  intro answers l' hresolves
  have hfind := hcoherent.find?_configurations hresolves
  refine ⟨hcoherent.keys_answers hresolves, ?_, ?_, ?_, ?_⟩
  · intro path hpath
    rw [hfind, if_pos hpath, (hcoherent.resolve path).1]
  · intro path hpath other hother hsame
    rw [hfind, hfind, if_pos hpath, if_pos hother, hsame]
  · intro others hperm workers' answers' last hresolves'
    refine ⟨?_, ?_⟩
    · refine (List.perm_ext_iff_of_nodup answers'.nodup_keys answers.nodup_keys).2 ?_
      intro path
      change path ∈ answers'.keys ↔ path ∈ answers.keys
      rw [hcoherent.keys_answers hresolves', hcoherent.keys_answers hresolves, List.mem_eraseDups,
        List.mem_eraseDups, hperm.mem_iff]
    · intro path
      rw [hcoherent.find?_configurations hresolves', hfind]
      simp only [hperm.mem_iff]
  · intro room other hother workers' answers' last hresolves'
    -- what a path resolves to has nothing to do with the capacity
    rw [hother.coherent.configurations_eq hresolves', hcoherent.configurations_eq hresolves]
    rfl

/-- A snapshot with a rule for scripts, whose cache has room for one path. -/
def tight : Snapshot where
  cascade := [Expansion.topEntry
    { origin := "fragments[0]", language := some "script"
      rules := .ofList [(⟨"no-var"⟩, { severity := .error })] }]
  ignores := {}
  languages := .withOverrides .empty
  cacheCapacity := some 1

theorem ofFragments_tight :
    Snapshot.ofFragments (tight.cascade.map Entry.fragment) {} {} { cacheCapacity := 1 } =
      .ok tight := by
  have hunfolds : Expansion.Unfolds {} tight.cascade tight.cascade :=
    .refl_of_bases_eq_nil (by simp [tight, Expansion.topEntry])
  exact Snapshot.ofFragments_eq_ok_iff.2 ⟨tight.cascade, hunfolds, by decide, rfl⟩

/-- Two workers can leave two paths in the cache of that snapshot. -/
theorem exists_overfull_tight : ∃ l, ReachedFrom tight l ∧ l.cachedSize = 2 := by
  have hnodup : (["c.md", "d.md"].map normalizePath).Nodup := by decide +kernel
  obtain ⟨answers, l, hresolves, hsize⟩ :=
    exists_overfull (l := fresh tight) Nat.one_pos hnodup (fun _ _ => rfl) (Nat.le_refl 2)
  exact ⟨l, .serves .fresh Nat.two_pos (.resolveAll hresolves), hsize⟩

/-- The cache holds too much before this batch. -/
theorem batch_after_history_tight :
    ∃ l, ReachedFrom tight l ∧ l.cachedSize = 2 ∧
      ∃ answers l', ResolvesAll 2 l ["./a.ts", "b.md", "a.ts", "b.md"] answers l' ∧
        answers.keys = ["./a.ts", "b.md", "a.ts"] ∧
        (configurations answers).find? "./a.ts" = (configurations answers).find? "a.ts" ∧
        ∀ answers' last, ResolvesAll 1 l ["a.ts", "b.md", "b.md", "./a.ts"] answers' last →
          (configurations answers').find? "b.md" = some (l.resolve "b.md").1.configuration := by
  obtain ⟨l, hreached, hsize⟩ := exists_overfull_tight
  have hresolves := resolvesAll_resolveAll Nat.two_pos l ["./a.ts", "b.md", "a.ts", "b.md"]
  obtain ⟨_, _, hall⟩ :=
    batch_after_history hreached Nat.two_pos ["./a.ts", "b.md", "a.ts", "b.md"]
  obtain ⟨hkeys, hvalues, hspellings, horders, _⟩ := hall _ _ hresolves
  refine ⟨l, hreached, hsize, _, _, hresolves, hkeys.trans rfl, ?_, ?_⟩
  · exact hspellings "./a.ts" (by decide) "a.ts" (by decide) (by decide +kernel)
  · intro answers' last hother
    obtain ⟨_, hsame⟩ := horders ["a.ts", "b.md", "b.md", "./a.ts"] (by decide) 1 _ _ hother
    rw [hsame]
    exact hvalues "b.md" (by decide)

/-! ## Section 4: Which answers are the same object -/

/-- All that is remembered was issued, and no answer is remembered under two paths. -/
structure Stamped (l : LiveSnapshot) : Prop where
  serial_lt : ∀ entry ∈ l.cached.entries, entry.2.serial < l.issued
  path_unique : ∀ entry ∈ l.cached.entries, ∀ other ∈ l.cached.entries,
    entry.2.serial = other.2.serial → entry.1 = other.1

theorem stamped_fresh (s : Snapshot) : Stamped (fresh s) :=
  ⟨by simp [fresh], by simp [fresh]⟩

theorem Stamped.start (h : Stamped l) (paths : List String) : Batch.Stamped (.start l paths) := by
  refine ⟨fun path answer hholds => ?_, fun path answer other answer' hpath hother heq => ?_⟩
  · exact h.serial_lt (path, answer) (Batch.holds_start_iff.1 hholds)
  · exact h.path_unique (path, answer) (Batch.holds_start_iff.1 hpath) (other, answer')
      (Batch.holds_start_iff.1 hother) heq

theorem Stamped.of_batch {b : Batch} (h : Batch.Stamped b) : Stamped b.live := by
  refine ⟨fun entry hentry => ?_, fun entry hentry other hother heq => ?_⟩
  · exact h.serial_lt entry.1 entry.2 (.remembered hentry)
  · exact h.path_unique entry.1 entry.2 other.1 other.2 (.remembered hentry) (.remembered hother)
      heq

/-- The invariant holds at every moment of a batch. -/
theorem Stamped.during {paths : List String} {b : Batch} (h : Stamped l)
    (hruns : Batch.Runs workers (.start l paths) b) : Stamped b.live :=
  .of_batch ((h.start paths).run hruns)

theorem Stamped.resolve (h : Stamped l) (path : String) : Stamped (l.resolve path).2 :=
  .of_batch ((h.start [path]).run (Batch.runs_resolve l path [] [] Nat.one_pos))

theorem ReachedFrom.stamped (h : ReachedFrom s l) : Stamped l := by
  induction h with
  | fresh => exact stamped_fresh s
  | serves _ hworkers hserves ih =>
    exact hserves.keeps hworkers (fun _ _ _ hl hruns => hl.during hruns) ih
  | during _ hruns ih => exact ih.during hruns

/-- Where there is a cache, a path that was just resolved is in it. -/
theorem find?_cached_resolve {capacity : Nat} (hcapacity : l.snapshot.cacheCapacity = some capacity)
    (path : String) :
    (l.resolve path).2.cached.find? (normalizePath path) = some (l.resolve path).1 := by
  cases hfind : l.cached.find? (normalizePath path) with
  | some answer =>
    rw [resolve_hit hcapacity hfind]
    exact hfind
  | none =>
    rw [resolve_miss hcapacity hfind]
    exact find?_remember_self l.cached capacity _ _

/-- Without a cache, every answer is a new object. -/
theorem serial_ne_of_uncached (h : l.snapshot.cacheCapacity = none) (first second : String) :
    (l.resolve first).1.serial ≠ ((l.resolve first).2.resolve second).1.serial := by
  have hnext : (l.resolve first).2.snapshot.cacheCapacity = none := by
    rw [snapshot_resolve, h]
  rw [resolve_uncached hnext, resolve_uncached h]
  exact Nat.ne_of_lt (Nat.lt_succ_self _)

/-- An answer that is remembered under another path is not the one that the path gets. -/
theorem Stamped.serial_ne (h : Stamped l) {capacity : Nat}
    (hcapacity : l.snapshot.cacheCapacity = some capacity) {path other : String} {answer : Answer}
    (hanswer : l.cached.find? other = some answer) (hne : other ≠ normalizePath path) :
    answer.serial ≠ (l.resolve path).1.serial := by
  have hentry := Entries.mem_of_find? hanswer
  cases hfind : l.cached.find? (normalizePath path) with
  | some found =>
    rw [resolve_hit hcapacity hfind]
    intro heq
    exact hne (h.path_unique _ hentry _ (Entries.mem_of_find? hfind) heq)
  | none =>
    rw [resolve_miss hcapacity hfind]
    exact Nat.ne_of_lt (h.serial_lt _ hentry)

theorem capacityOf_ne_none_iff {options : EngineOptions} :
    Snapshot.capacityOf options ≠ none ↔ options.cache = true ∧ 0 < options.cacheCapacity := by
  simp [Snapshot.capacityOf, UInt64.pos_iff_ne_zero]

/-- Two paths that are resolved one after the other get the very same object exactly if there is a
    cache with room for something and both are spellings of one path. What was called before plays
    no part, and neither does a cache that is full. -/
theorem resolve_shares_iff {fragments : List Fragment} {registry : Registry}
    {ignores : FileFilter} {options : EngineOptions}
    (h : Snapshot.ofFragments fragments registry ignores options = .ok s)
    (hl : ReachedFrom s l) (a b : String) :
    ∃ first second next last, l.resolve a = (first, next) ∧ next.resolve b = (second, last) ∧
      (first.serial = second.serial ↔
        (options.cache = true ∧ 0 < options.cacheCapacity) ∧ normalizePath a = normalizePath b) ∧
      (first.serial = second.serial →
        first = second ∧ last.cached.find? (normalizePath b) = some first) := by
  refine ⟨(l.resolve a).1, ((l.resolve a).2.resolve b).1, (l.resolve a).2,
    ((l.resolve a).2.resolve b).2, rfl, rfl, ?_⟩
  have hsnapshot : l.snapshot = s := hl.coherent.snapshot_eq
  rw [← capacityOf_ne_none_iff, ← cacheCapacity_of_ofFragments h, ← hsnapshot]
  cases hcapacity : l.snapshot.cacheCapacity with
  | none =>
    -- whether the paths are the same plays no part here
    have hne := serial_ne_of_uncached hcapacity a b
    exact ⟨iff_of_false hne (fun hboth => hboth.1 rfl), fun heq => absurd heq hne⟩
  | some capacity =>
    have hnext : (l.resolve a).2.snapshot.cacheCapacity = some capacity := by
      rw [snapshot_resolve, hcapacity]
    have hfound := find?_cached_resolve hcapacity a
    by_cases hsame : normalizePath a = normalizePath b
    · -- the second call finds what the first one has left
      rw [hsame] at hfound
      rw [resolve_hit hnext hfound]
      exact ⟨iff_of_true rfl ⟨Option.some_ne_none _, hsame⟩, fun _ => ⟨rfl, hfound⟩⟩
    · -- the first answer is remembered under its own path when the second call is made
      have hne := (hl.stamped.resolve a).serial_ne hnext hfound hsame
      exact ⟨iff_of_false hne (fun hboth => hsame hboth.2), fun heq => absurd heq hne⟩

/-- Two spellings of one path share an answer, even where the cache holds too much already; two
    paths do not. -/
theorem resolve_shares_iff_tight :
    Snapshot.ofFragments (tight.cascade.map Entry.fragment) {} {} { cacheCapacity := 1 } =
      .ok tight ∧
    ∃ l, ReachedFrom tight l ∧ l.cachedSize = 2 ∧
      (l.resolve "./a.ts").1 = ((l.resolve "./a.ts").2.resolve "a.ts").1 ∧
      (l.resolve "a.ts").1.serial ≠ ((l.resolve "a.ts").2.resolve "b.md").1.serial := by
  obtain ⟨l, hreached, hsize⟩ := exists_overfull_tight
  refine ⟨ofFragments_tight, l, hreached, hsize, ?_, ?_⟩
  · obtain ⟨first, second, next, last, hfirst, hsecond, hiff, hshared⟩ :=
      resolve_shares_iff ofFragments_tight hreached "./a.ts" "a.ts"
    rw [hfirst, hsecond]
    exact (hshared (hiff.2 ⟨by decide, by decide +kernel⟩)).1
  · obtain ⟨first, second, next, last, hfirst, hsecond, hiff, _⟩ :=
      resolve_shares_iff ofFragments_tight hreached "a.ts" "b.md"
    rw [hfirst, hsecond]
    intro heq
    exact absurd (hiff.1 heq).2 (by decide +kernel)

end LiveSnapshot

end RuleCascade
