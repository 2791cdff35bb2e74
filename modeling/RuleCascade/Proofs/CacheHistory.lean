import RuleCascade.Proofs.Schedules
import RuleCascade.Proofs.Unfolding

/-! # Histories of a cache

    A live snapshot is called many times, and its cache changes with the calls.
    The replies do not show it: they are those of the snapshot alone, which
    computes every configuration anew.

    A call for many paths is served by several workers, in any schedule, so
    serving is a relation (`Serves`, `ServesAll`). Serving without mixing
    (`perform`, `performAll`) is a case of it.

    The invariant is `Coherent`. What is remembered under a path is what the
    snapshot computes for it, and the paths are normalized. Misses, hits and the
    emptying of a full cache keep it, so it holds at every moment of every
    history.

    How much is remembered is another matter. A worker that has read off the
    size does not hold the cache until it puts its answer in, so the cache can
    grow beyond its capacity, by one for each worker but the first (`Bounded`), and
    it does (`not_cachedSize_le_capacity`).

    Main statement (`servesAll_fresh`): after every history, the replies and the
    entries of the cache are as the snapshot alone has them, and their number is
    bounded by the options and by the workers.
-/

namespace RuleCascade

/-! ## Section 1: Maps with other values -/

namespace Entries

variable {α β γ : Type}

theorem keys_map (f : β → γ) (entries : List (α × β)) :
    keys (entries.map (Prod.map id f)) = keys entries := by
  rw [keys, keys, List.map_map]
  rfl

theorem map_insert [DecidableEq α] (f : β → γ) (key : α) (value : β) (entries : List (α × β)) :
    (insert key value entries).map (Prod.map id f) =
      insert key (f value) (entries.map (Prod.map id f)) := by
  induction entries with
  | nil => rfl
  | cons entry rest ih =>
    rw [insert, List.map_cons, insert]
    show _ = if entry.1 = key then _ else _
    by_cases h : entry.1 = key
    · rw [if_pos h, if_pos h]
      rfl
    · rw [if_neg h, if_neg h, List.map_cons, ih]

end Entries

namespace OrderedMap

variable {α β γ : Type}

/-- The map with a function applied to every value. -/
def mapValues (f : β → γ) (m : OrderedMap α β) : OrderedMap α γ :=
  ⟨m.entries.map (Prod.map id f), by rw [Entries.keys_map]; exact m.nodup_keys⟩

@[simp] theorem keys_mapValues (f : β → γ) (m : OrderedMap α β) : (m.mapValues f).keys = m.keys :=
  Entries.keys_map f m.entries

theorem mapValues_insert [DecidableEq α] (f : β → γ) (m : OrderedMap α β) (key : α) (value : β) :
    (m.insert key value).mapValues f = (m.mapValues f).insert key (f value) :=
  OrderedMap.ext (Entries.map_insert f key value m.entries)

theorem mapValues_insertAll [DecidableEq α] (f : β → γ) (m : OrderedMap α β)
    (entries : List (α × β)) :
    (m.insertAll entries).mapValues f =
      (m.mapValues f).insertAll (entries.map (Prod.map id f)) := by
  induction entries generalizing m with
  | nil => rfl
  | cons entry rest ih =>
    rw [insertAll_cons, ih, mapValues_insert, List.map_cons, insertAll_cons]
    rfl

end OrderedMap

/-! ## Section 2: Calls and replies -/

/-- A question that needs no configuration. -/
inductive Query where
  | explain (path : String)
  | isIgnored (path : String)
  | languageOf (path : String)
  | cascade

/-- What a question is answered with. -/
inductive Fact where
  | explanation (e : Explanation)
  | ignored (verdict : Bool)
  | language (language : Option String)
  | cascade (entries : List Entry)

/-- A call on a live snapshot. -/
inductive Call where
  | resolve (path : String)
  | resolveAll (paths : List String)
  | ask (query : Query)

/-- The reply to a call, with configurations of the type `α`. -/
inductive Reply (α : Type) where
  | one (answer : α)
  | many (answers : OrderedMap String α)
  | told (fact : Fact)

/-- The reply with a function applied to its configurations. -/
def Reply.map {α β : Type} (f : α → β) : Reply α → Reply β
  | .one answer => .one (f answer)
  | .many answers => .many (answers.mapValues f)
  | .told fact => .told fact

namespace Snapshot

/-- The answer to a question. -/
def tell (s : Snapshot) : Query → Fact
  | .explain path => .explanation (s.explain path)
  | .isIgnored path => .ignored (s.isIgnored path)
  | .languageOf path => .language (s.languageOf path)
  | .cascade => .cascade s.cascade

/-- The reply to a call when every configuration is computed anew. -/
def reply (s : Snapshot) : Call → Reply Configuration
  | .resolve path => .one (s.compute (normalizePath path))
  | .resolveAll paths =>
    .many (.ofList (paths.map fun path => (path, s.compute (normalizePath path))))
  | .ask query => .told (s.tell query)

end Snapshot

/-! ## Section 3: Serving -/

/-- So many workers can serve the call with this reply, and the live snapshot is left like this. -/
inductive Serves (workers : Nat) :
    LiveSnapshot → Call → Reply Answer → LiveSnapshot → Prop where
  | resolve (l : LiveSnapshot) (path : String) :
      Serves workers l (.resolve path) (.one (l.resolve path).1) (l.resolve path).2
  | resolveAll {l l' : LiveSnapshot} {paths : List String} {answers : OrderedMap String Answer}
      (h : ResolvesAll workers l paths answers l') :
      Serves workers l (.resolveAll paths) (.many answers) l'
  | ask (l : LiveSnapshot) (query : Query) :
      Serves workers l (.ask query) (.told (l.snapshot.tell query)) l

/-- The calls can be served one after another with these replies. -/
inductive ServesAll (workers : Nat) :
    LiveSnapshot → List Call → List (Reply Answer) → LiveSnapshot → Prop where
  | nil (l : LiveSnapshot) : ServesAll workers l [] [] l
  | cons {l next last : LiveSnapshot} {call : Call} {calls : List Call} {reply : Reply Answer}
      {replies : List (Reply Answer)} (hfirst : Serves workers l call reply next)
      (hrest : ServesAll workers next calls replies last) :
      ServesAll workers l (call :: calls) (reply :: replies) last

namespace LiveSnapshot

/-- Serve one call without mixing. -/
def perform (l : LiveSnapshot) : Call → Reply Answer × LiveSnapshot
  | .resolve path =>
    let (answer, next) := l.resolve path
    (.one answer, next)
  | .resolveAll paths =>
    let (answers, next) := l.resolveAll paths
    (.many answers, next)
  | .ask query => (.told (l.snapshot.tell query), l)

/-- Serve calls one after another. -/
def performAll (l : LiveSnapshot) : List Call → List (Reply Answer) × LiveSnapshot
  | [] => ([], l)
  | call :: rest =>
    let (reply, next) := l.perform call
    let (replies, last) := next.performAll rest
    (reply :: replies, last)

end LiveSnapshot

section serving

variable {workers : Nat} {l l' : LiveSnapshot} {call : Call} {reply : Reply Answer}
  {calls : List Call} {replies : List (Reply Answer)}

theorem serves_perform (hworkers : 0 < workers) (l : LiveSnapshot) (call : Call) :
    Serves workers l call (l.perform call).1 (l.perform call).2 := by
  cases call with
  | resolve path => exact .resolve l path
  | resolveAll paths => exact .resolveAll (resolvesAll_resolveAll hworkers l paths)
  | ask query => exact .ask l query

theorem servesAll_performAll (hworkers : 0 < workers) (l : LiveSnapshot) (calls : List Call) :
    ServesAll workers l calls (l.performAll calls).1 (l.performAll calls).2 := by
  induction calls generalizing l with
  | nil => exact .nil l
  | cons call rest ih => exact .cons (serves_perform hworkers l call) (ih _)

/-- What the schedules of a batch keep is kept by every call. -/
theorem Serves.keeps {P : LiveSnapshot → Prop} (hworkers : 0 < workers)
    (hbatch : ∀ l paths b, P l → Batch.Runs workers (.start l paths) b → P b.live)
    (h : Serves workers l call reply l') (hl : P l) : P l' := by
  cases h with
  | resolve path =>
    -- a single path is a batch of one
    exact hbatch l [path] _ hl (Batch.runs_resolve l path [] [] hworkers)
  | resolveAll hresolves =>
    obtain ⟨pairs, hruns, _⟩ := hresolves
    exact hbatch l _ _ hl hruns
  | ask => exact hl

theorem ServesAll.keeps {P : LiveSnapshot → Prop} (hworkers : 0 < workers)
    (hbatch : ∀ l paths b, P l → Batch.Runs workers (.start l paths) b → P b.live)
    (h : ServesAll workers l calls replies l') (hl : P l) : P l' := by
  induction h with
  | nil => exact hl
  | cons hfirst _ ih => exact ih (hfirst.keeps hworkers hbatch hl)

/-- Calls are served by no more workers than the longest batch has paths. -/
theorem ServesAll.of_length_le (h : ServesAll workers l calls replies l') {most : Nat}
    (hmost : ∀ paths, Call.resolveAll paths ∈ calls → paths.length ≤ most) :
    ServesAll most l calls replies l' := by
  induction h with
  | nil l => exact .nil l
  | cons hfirst _ ih =>
    refine .cons ?_ (ih fun paths hpaths => hmost paths (List.mem_cons_of_mem _ hpaths))
    cases hfirst with
    | resolve path => exact .resolve _ path
    | @resolveAll _ paths _ hresolves =>
      obtain ⟨pairs, hruns, hpairs⟩ := hresolves
      refine .resolveAll ⟨pairs, hruns.of_length_le ?_, hpairs⟩
      rw [Batch.length_jobs_start]
      exact hmost paths List.mem_cons_self
    | ask query => exact .ask _ query

end serving

/-! ## Section 4: Replies and entries -/

namespace LiveSnapshot

/-- The cache holds nothing but what the snapshot computes, under normalized paths. -/
structure Coherent (s : Snapshot) (l : LiveSnapshot) : Prop where
  snapshot_eq : l.snapshot = s
  entries : ∀ entry ∈ l.cached.entries,
    normalizePath entry.1 = entry.1 ∧ entry.2.configuration = s.compute entry.1

variable {s : Snapshot} {l l' : LiveSnapshot} {workers : Nat}

theorem coherent_fresh (s : Snapshot) : Coherent s (fresh s) :=
  ⟨rfl, by simp [fresh]⟩

theorem Coherent.start (h : Coherent s l) (paths : List String) :
    Batch.Coherent s (.start l paths) :=
  ⟨h.snapshot_eq, fun path answer hholds =>
    h.entries (path, answer) (Batch.holds_start_iff.1 hholds)⟩

theorem Coherent.of_batch {b : Batch} (h : Batch.Coherent s b) : Coherent s b.live :=
  ⟨h.snapshot_eq, fun entry hentry => h.holds entry.1 entry.2 (.remembered hentry)⟩

/-- The invariant holds at every moment of a batch. -/
theorem Coherent.during {paths : List String} {b : Batch} (h : Coherent s l)
    (hruns : Batch.Runs workers (.start l paths) b) : Coherent s b.live :=
  .of_batch ((h.start paths).run hruns)

theorem Coherent.resolve (h : Coherent s l) (path : String) :
    (l.resolve path).1.configuration = s.compute (normalizePath path) ∧
      Coherent s (l.resolve path).2 := by
  have hlast := (h.start [path]).run (Batch.runs_resolve l path [] [] Nat.one_pos)
  exact ⟨(hlast.holds _ _ (.inHand List.mem_cons_self rfl rfl)).2, .of_batch hlast⟩

/-- In every schedule the answers of a batch are what the snapshot computes for the paths. -/
theorem Coherent.resolvesAll {paths : List String} {answers : OrderedMap String Answer}
    (h : Coherent s l) (hresolves : ResolvesAll workers l paths answers l') :
    answers.mapValues Answer.configuration =
        .ofList (paths.map fun path => (path, s.compute (normalizePath path))) ∧
      Coherent s l' := by
  obtain ⟨pairs, hruns, rfl⟩ := hresolves
  have hlast := (h.start paths).run hruns
  -- the jobs keep their paths, whoever gets them done
  have hpaths : pairs.map Prod.fst = paths := by
    simpa [Batch.start, Batch.finished, Function.comp_def] using hruns.map_path_jobs
  refine ⟨?_, .of_batch hlast⟩
  rw [OrderedMap.ofList, OrderedMap.mapValues_insertAll, ← hpaths, List.map_map]
  refine congrArg OrderedMap.ofList (List.map_congr_left fun pair hpair => ?_)
  have hjob : (⟨pair.1, .done pair.2⟩ : Job) ∈ (Batch.finished l' pairs).jobs :=
    List.mem_map_of_mem hpair
  exact Prod.ext rfl (hlast.holds _ _ (.inHand hjob rfl rfl)).2

theorem Coherent.serves {call : Call} {reply : Reply Answer} (h : Coherent s l)
    (hserves : Serves workers l call reply l') :
    reply.map Answer.configuration = s.reply call ∧ Coherent s l' := by
  cases hserves with
  | resolve path =>
    obtain ⟨hanswer, hnext⟩ := h.resolve path
    exact ⟨congrArg Reply.one hanswer, hnext⟩
  | resolveAll hresolves =>
    obtain ⟨hanswers, hnext⟩ := h.resolvesAll hresolves
    exact ⟨congrArg Reply.many hanswers, hnext⟩
  | ask query =>
    obtain rfl := h.snapshot_eq
    exact ⟨rfl, h⟩

theorem Coherent.servesAll {calls : List Call} {replies : List (Reply Answer)} (h : Coherent s l)
    (hserves : ServesAll workers l calls replies l') :
    replies.map (Reply.map Answer.configuration) = calls.map s.reply ∧ Coherent s l' := by
  induction hserves with
  | nil => exact ⟨rfl, h⟩
  | cons hfirst _ ih =>
    obtain ⟨hreply, hnext⟩ := h.serves hfirst
    obtain ⟨hreplies, hlast⟩ := ih hnext
    refine ⟨?_, hlast⟩
    rw [List.map_cons, List.map_cons, hreply, hreplies]

theorem Coherent.perform (h : Coherent s l) (call : Call) :
    (l.perform call).1.map Answer.configuration = s.reply call ∧
      Coherent s (l.perform call).2 :=
  h.serves (serves_perform Nat.one_pos l call)

theorem Coherent.performAll (h : Coherent s l) (calls : List Call) :
    (l.performAll calls).1.map (Reply.map Answer.configuration) = calls.map s.reply ∧
      Coherent s (l.performAll calls).2 :=
  h.servesAll (servesAll_performAll Nat.one_pos l calls)

/-- After any calls a live snapshot resolves a path as its snapshot computes it. -/
theorem configuration_resolve_performAll (s : Snapshot) (calls : List Call) (path : String) :
    (((fresh s).performAll calls).2.resolve path).1.configuration =
      s.compute (normalizePath path) :=
  (((coherent_fresh s).performAll calls).2.resolve path).1

/-! ## Section 5: The size of the cache -/

/-- The cache is within its capacity, with one entry more for each worker but the first. -/
structure Bounded (workers : Nat) (l : LiveSnapshot) : Prop where
  /-- A cache that is kept has room for something. -/
  room : l.snapshot.cacheCapacity ≠ none → 0 < l.capacity
  size_lt : l.cached.size < l.capacity + workers
  uncached : l.capacity = 0 → l.cached.size = 0

theorem Bounded.start (h : Bounded workers l) (paths : List String) :
    Batch.Bounded workers (.start l paths) := by
  have hidle : Batch.underWay (Batch.start l paths).jobs = 0 := by
    refine List.countP_eq_zero.2 fun job hjob => ?_
    obtain ⟨_, _, rfl⟩ := List.mem_map.1 hjob
    exact Bool.false_ne_true
  have hstoring := Batch.storing_le_underWay (Batch.start l paths).jobs
  refine ⟨h.room, ?_, ?_, fun hzero => ?_⟩
  · omega
  · have hsize := h.size_lt
    show l.cached.size + _ < l.capacity + workers
    omega
  · rw [hidle]
    exact h.uncached hzero

theorem Bounded.of_batch {b : Batch} (h : Batch.Bounded workers b) : Bounded workers b.live :=
  ⟨h.room, Nat.lt_of_le_of_lt (Nat.le_add_right _ _) h.size_lt,
    fun hzero => Nat.eq_zero_of_add_eq_zero_right (h.uncached hzero)⟩

theorem Bounded.during {paths : List String} {b : Batch} (h : Bounded workers l)
    (hruns : Batch.Runs workers (.start l paths) b) : Bounded workers b.live :=
  .of_batch ((h.start paths).run hruns)

theorem Bounded.servesAll {calls : List Call} {replies : List (Reply Answer)}
    (h : Bounded workers l) (hworkers : 0 < workers)
    (hserves : ServesAll workers l calls replies l') : Bounded workers l' :=
  hserves.keeps hworkers (fun _ _ _ hl hruns => hl.during hruns) h

/-! ## Section 6: Histories -/

theorem cacheCapacity_of_ofFragments {fragments : List Fragment} {registry : Registry}
    {ignores : FileFilter} {options : EngineOptions}
    (h : Snapshot.ofFragments fragments registry ignores options = .ok s) :
    s.cacheCapacity = Snapshot.capacityOf options := by
  obtain ⟨_, _, _, rfl⟩ := Snapshot.ofFragments_eq_ok_iff.1 h
  rfl

/-- A cache is kept only where it has room for something. -/
theorem pos_of_capacityOf {options : EngineOptions} {capacity : Nat}
    (h : Snapshot.capacityOf options = some capacity) : 0 < capacity := by
  unfold Snapshot.capacityOf at h
  split at h
  · rename_i hon
    cases h
    simp only [Bool.and_eq_true, decide_eq_true_eq] at hon
    exact UInt64.lt_iff_toNat_lt.1 hon.2
  · cases h

theorem pos_of_ofFragments {fragments : List Fragment} {registry : Registry}
    {ignores : FileFilter} {options : EngineOptions}
    (h : Snapshot.ofFragments fragments registry ignores options = .ok s) (capacity : Nat)
    (hcapacity : s.cacheCapacity = some capacity) : 0 < capacity := by
  rw [cacheCapacity_of_ofFragments h] at hcapacity
  exact pos_of_capacityOf hcapacity

theorem capacityOf_getD_le (options : EngineOptions) :
    (Snapshot.capacityOf options).getD 0 ≤ options.cacheCapacity.toNat := by
  unfold Snapshot.capacityOf
  split
  · exact Nat.le_refl _
  · exact Nat.zero_le _

theorem capacityOf_eq_none {options : EngineOptions}
    (h : options.cache = false ∨ options.cacheCapacity = 0) :
    Snapshot.capacityOf options = none := by
  unfold Snapshot.capacityOf
  rcases h with h | h <;> simp [h]

theorem bounded_fresh {fragments : List Fragment} {registry : Registry} {ignores : FileFilter}
    {options : EngineOptions} (h : Snapshot.ofFragments fragments registry ignores options = .ok s)
    (hworkers : 0 < workers) : Bounded workers (fresh s) := by
  refine ⟨fun hcache => ?_, ?_, fun _ => rfl⟩
  · obtain ⟨room, hcapacity⟩ := Option.ne_none_iff_exists'.1 hcache
    have hpos := pos_of_ofFragments h room hcapacity
    rw [capacity, hcapacity]
    exact hpos
  · exact Nat.lt_of_lt_of_le hworkers (Nat.le_add_left _ _)

/-- What is served from a fresh snapshot keeps the cache within the capacity of the options, but for
    the workers. -/
theorem Bounded.cachedSize_lt {fragments : List Fragment} {registry : Registry}
    {ignores : FileFilter} {options : EngineOptions}
    (h : Snapshot.ofFragments fragments registry ignores options = .ok s) (hl : Bounded workers l)
    (hsnapshot : l.snapshot = s) :
    l.cachedSize < options.cacheCapacity.toNat + workers ∧
      (options.cache = false ∨ options.cacheCapacity = 0 → l.cachedSize = 0) := by
  have hcapacity : l.capacity = (Snapshot.capacityOf options).getD 0 := by
    rw [capacity, hsnapshot, cacheCapacity_of_ofFragments h]
  have hle := capacityOf_getD_le options
  have hlt : l.cachedSize < l.capacity + workers := hl.size_lt
  refine ⟨by omega, fun hoff => hl.uncached ?_⟩
  rw [hcapacity, capacityOf_eq_none hoff]
  rfl

/-- Whatever calls a snapshot serves, and however the workers mix their accesses: the replies are
    those of the snapshot without a cache, and at every moment the cache maps normalized paths to
    their configurations. It holds less than the capacity of the options and the number of
    workers together, or of paths in the longest batch; it is empty when caching is off.
    Questions leave it alone. -/
theorem servesAll_fresh {fragments : List Fragment} {registry : Registry} {ignores : FileFilter}
    {options : EngineOptions} (h : Snapshot.ofFragments fragments registry ignores options = .ok s)
    (hworkers : 0 < workers) (calls : List Call) :
    (∃ replies l, ServesAll workers (fresh s) calls replies l) ∧
    ∀ replies l, ServesAll workers (fresh s) calls replies l →
      replies.map (Reply.map Answer.configuration) = calls.map s.reply ∧
      (∀ paths b, Batch.Runs workers (.start l paths) b →
        (∀ entry ∈ b.live.cached.entries,
          normalizePath entry.1 = entry.1 ∧ entry.2.configuration = s.compute entry.1) ∧
        b.live.cachedSize < options.cacheCapacity.toNat + workers ∧
        (options.cache = false ∨ options.cacheCapacity = 0 → b.live.cachedSize = 0)) ∧
      (∀ most, 0 < most → (∀ paths, Call.resolveAll paths ∈ calls → paths.length ≤ most) →
        l.cachedSize < options.cacheCapacity.toNat + most) ∧
      ∀ query reply l', Serves workers l (.ask query) reply l' → l' = l := by
  refine ⟨⟨_, _, servesAll_performAll hworkers (fresh s) calls⟩, fun replies l hserves => ?_⟩
  obtain ⟨hreplies, hlast⟩ := (coherent_fresh s).servesAll hserves
  refine ⟨hreplies, fun paths b hruns => ?_, fun most hmost hlength => ?_, ?_⟩
  · have hmoment := hlast.during hruns
    have hbounded := ((bounded_fresh h hworkers).servesAll hworkers hserves).during hruns
    exact ⟨hmoment.entries, hbounded.cachedSize_lt h hmoment.snapshot_eq⟩
  · -- as many workers would have done as there are paths in the longest batch
    have hbounded := (bounded_fresh h hmost).servesAll hmost (hserves.of_length_le hlength)
    exact (hbounded.cachedSize_lt h hlast.snapshot_eq).1
  · intro query reply l' hask
    cases hask
    rfl

/-- A snapshot of one fragment, whose cache has room for one path. -/
def narrow : Snapshot where
  cascade := [Expansion.topEntry
    { origin := "fragments[0]", rules := .ofList [(⟨"no-var"⟩, { severity := .error })] }]
  ignores := {}
  languages := .withOverrides .empty
  cacheCapacity := some 1

theorem ofFragments_narrow :
    Snapshot.ofFragments (narrow.cascade.map Entry.fragment) {} {} { cacheCapacity := 1 } =
      .ok narrow := by
  have hunfolds : Expansion.Unfolds {} narrow.cascade narrow.cascade :=
    .refl_of_bases_eq_nil (by simp [narrow, Expansion.topEntry])
  exact Snapshot.ofFragments_eq_ok_iff.2 ⟨narrow.cascade, hunfolds, by decide, rfl⟩

/-- Two paths take turns in that cache, with two workers for the batch. -/
theorem servesAll_fresh_narrow :
    Snapshot.ofFragments (narrow.cascade.map Entry.fragment) {} {} { cacheCapacity := 1 } =
      .ok narrow ∧
    ∃ replies l,
      ServesAll 2 (fresh narrow) [.resolve "./a", .resolveAll ["b", "a"], .ask .cascade] replies l ∧
      replies.map (Reply.map Answer.configuration) =
        [narrow.reply (.resolve "./a"), narrow.reply (.resolveAll ["b", "a"]),
          narrow.reply (.ask .cascade)] ∧
      (∀ entry ∈ l.cached.entries,
        normalizePath entry.1 = entry.1 ∧ entry.2.configuration = narrow.compute entry.1) ∧
      l.cachedSize < 1 + 2 := by
  obtain ⟨⟨replies, l, hserves⟩, hall⟩ := servesAll_fresh ofFragments_narrow Nat.two_pos
    [.resolve "./a", .resolveAll ["b", "a"], .ask .cascade]
  obtain ⟨hreplies, hmoments, _, _⟩ := hall replies l hserves
  obtain ⟨hentries, hsize, _⟩ := hmoments [] (.start l []) .start
  exact ⟨ofFragments_narrow, replies, l, hserves, hreplies, hentries, hsize⟩

/-- With two workers, two paths end up in a cache that has room for one: both workers read off its
    size before either puts its answer in. -/
theorem not_cachedSize_le_capacity :
    Snapshot.ofFragments (narrow.cascade.map Entry.fragment) {} {} { cacheCapacity := 1 } =
      .ok narrow ∧
    ¬ ∀ replies l, ServesAll 2 (fresh narrow) [.resolveAll ["a", "b"]] replies l →
      l.cachedSize ≤ 1 := by
  refine ⟨ofFragments_narrow, fun hall => ?_⟩
  have hnodup : (["a", "b"].map normalizePath).Nodup := by decide +kernel
  obtain ⟨answers, l, hresolves, hsize⟩ :=
    exists_overfull (l := fresh narrow) Nat.one_pos hnodup (fun _ _ => rfl) (Nat.le_refl 2)
  have hle := hall _ _ (.cons (.resolveAll hresolves) (.nil l))
  rw [hsize] at hle
  exact absurd hle (by decide)

end LiveSnapshot

end RuleCascade
