import RuleCascade.Batch
import RuleCascade.Proofs.LoadedFragments

/-! # What every schedule of a batch keeps

    Which worker makes the next access is open, so what is said about a batch is
    said about all of its schedules.

    * Every schedule ends, and it ends with an answer for each path
      (`no_endless_schedule`, `exists_step_or_finished`).
    * The accesses for one path, made without others in between, are
      `LiveSnapshot.resolve` (`runs_resolve`). So `LiveSnapshot.resolveAll` is what
      one of the schedules leads to (`resolvesAll_resolveAll`).
    * An answer is in the cache or in the hands of a worker. A step brings up at
      most one that was not there before, and it is new (`Step.holds`). From this come
      the two invariants: `Coherent`, the answers are what the snapshot computes
      for their paths, and `Stamped`, no two paths have one answer.
    * Between reading off the size and putting its answer in, a worker relies on
      what may no longer be so. The invariant `Bounded` counts the answers that
      are about to go in with the remembered ones: together they are beyond the
      capacity by at most one for each worker but the first. No less would do
      (`exists_overfull`).
-/

namespace RuleCascade

/-! ## Section 1: Every schedule ends -/

section progress

variable {path : String} {l l' : LiveSnapshot} {stage stage' : Stage}

/-- The number of accesses that can still be made for the path. -/
def Stage.remaining : Stage → Nat
  | .waiting => 4
  | .computed _ => 3
  | .clearing _ => 2
  | .storing _ => 1
  | .done _ => 0

theorem Access.remaining_lt (h : Access path l stage l' stage') :
    stage'.remaining < stage.remaining := by
  cases h <;> simp [Stage.remaining]

/-- Whatever the others have done, the next access can be made. -/
theorem exists_access (path : String) (l : LiveSnapshot) (stage : Stage) :
    (∃ l' stage', Access path l stage l' stage') ∨ ∃ answer, stage = .done answer := by
  cases stage with
  | waiting =>
    left
    by_cases hcache : l.snapshot.cacheCapacity = none
    · exact ⟨_, _, .compute hcache⟩
    · cases hfind : l.cached.find? path with
      | none => exact ⟨_, _, .miss hcache hfind⟩
      | some answer => exact ⟨_, _, .hit hcache hfind⟩
  | computed answer =>
    left
    by_cases hfull : l.capacity ≤ l.cached.size
    · exact ⟨_, _, .full hfull⟩
    · exact ⟨_, _, .room (by omega)⟩
  | clearing answer => exact .inl ⟨_, _, .clear⟩
  | storing answer => exact .inl ⟨_, _, .insert⟩
  | done answer => exact .inr ⟨answer, rfl⟩

end progress

namespace Batch

variable {workers : Nat} {b next : Batch}

/-- The number of accesses that can still be made for the paths. -/
def remaining : List Job → Nat
  | [] => 0
  | job :: rest => job.stage.remaining + remaining rest

theorem remaining_append (jobs others : List Job) :
    remaining (jobs ++ others) = remaining jobs + remaining others := by
  induction jobs with
  | nil => exact (Nat.zero_add _).symm
  | cons job rest ih =>
    rw [List.cons_append, remaining, remaining, ih]
    omega

theorem Step.remaining_lt (h : Step workers b next) : remaining next.jobs < remaining b.jobs := by
  cases h with
  | access before after haccess hfree =>
    have hlt := haccess.remaining_lt
    simp only [remaining_append, remaining]
    omega

/-- No schedule goes on for ever. -/
theorem no_endless_schedule (workers : Nat) (run : Nat → Batch) :
    ¬ ∀ i, Step workers (run i) (run (i + 1)) := by
  intro hrun
  -- every step uses up an access
  have hused : ∀ i, remaining (run i).jobs + i ≤ remaining (run 0).jobs := by
    intro i
    induction i with
    | zero => exact Nat.le_refl _
    | succ i ih =>
      have hlt := (hrun i).remaining_lt
      omega
  have hlast := hused (remaining (run 0).jobs + 1)
  omega

theorem exists_finished_of_done {jobs : List Job}
    (h : ∀ job ∈ jobs, ∃ answer, job.stage = .done answer) (l : LiveSnapshot) :
    ∃ pairs, (⟨l, jobs⟩ : Batch) = finished l pairs := by
  induction jobs with
  | nil => exact ⟨[], rfl⟩
  | cons job rest ih =>
    obtain ⟨answer, hanswer⟩ := h job List.mem_cons_self
    obtain ⟨pairs, hpairs⟩ := ih fun other hother => h other (List.mem_cons_of_mem _ hother)
    simp only [finished, Batch.mk.injEq, true_and] at hpairs
    refine ⟨(job.path, answer) :: pairs, ?_⟩
    rw [finished, List.map_cons, ← hpairs, ← hanswer]

theorem underWay_middle (before after : List Job) (job : Job) :
    underWay (before ++ job :: after) =
      underWay (before ++ after) + if job.stage.isUnderWay then 1 else 0 := by
  simp only [underWay, List.countP_append, List.countP_cons]
  omega

/-- A path without its answer can go on if it is under way or a worker is free. -/
theorem exists_step_of_mem {job : Job} (hjob : job ∈ b.jobs)
    (hopen : ∀ answer, job.stage ≠ .done answer)
    (hfree : job.stage = .waiting → underWay b.jobs < workers) : ∃ next, Step workers b next := by
  obtain ⟨l, jobs⟩ := b
  obtain ⟨before, after, rfl⟩ := List.append_of_mem hjob
  rcases exists_access (normalizePath job.path) l job.stage with
    ⟨l', stage', haccess⟩ | ⟨answer, hanswer⟩
  · refine ⟨_, .access before after haccess fun hwaiting => ?_⟩
    have hlt := hfree hwaiting
    rw [underWay_middle] at hlt
    omega
  · exact absurd hanswer (hopen answer)

/-- As long as a path is without its answer, some worker can go on. -/
theorem exists_step_or_finished (hworkers : 0 < workers) (b : Batch) :
    (∃ next, Step workers b next) ∨ ∃ pairs, b = finished b.live pairs := by
  by_cases hdone : ∀ job ∈ b.jobs, ∃ answer, job.stage = .done answer
  · exact .inr (exists_finished_of_done hdone b.live)
  left
  by_cases hidle : underWay b.jobs = 0
  · -- nothing is under way, so all the workers are free
    obtain ⟨job, hjob, hopen⟩ : ∃ job ∈ b.jobs, ∀ answer, job.stage ≠ .done answer := by
      simpa using hdone
    exact exists_step_of_mem hjob hopen fun _ => hidle ▸ hworkers
  · obtain ⟨job, hjob, hunderWay⟩ := List.countP_pos_iff.1 (Nat.pos_of_ne_zero hidle)
    refine exists_step_of_mem hjob ?_ ?_
    · intro answer hanswer
      rw [hanswer] at hunderWay
      cases hunderWay
    · intro hwaiting
      rw [hwaiting] at hunderWay
      cases hunderWay

/-! ## Section 2: One path after the other -/

theorem Runs.trans {first last : Batch} (h : Runs workers first b) (hlast : Runs workers b last) :
    Runs workers first last := by
  induction hlast with
  | start => exact h
  | step _ hstep ih => exact ih.step hstep

theorem Step.runs {first : Batch} (h : Step workers first next) : Runs workers first next :=
  .step .start h

/-- The accesses for a path, without any others in between, are what resolving it is. -/
theorem runs_resolve (l : LiveSnapshot) (path : String) (before after : List Job)
    (hfree : underWay (before ++ after) < workers) :
    Runs workers ⟨l, before ++ ⟨path, .waiting⟩ :: after⟩
      ⟨(l.resolve path).2, before ++ ⟨path, .done (l.resolve path).1⟩ :: after⟩ := by
  have hbegin {l'} {stage'} (haccess : Access (normalizePath path) l .waiting l' stage') :
      Runs workers ⟨l, before ++ ⟨path, .waiting⟩ :: after⟩
        ⟨l', before ++ ⟨path, stage'⟩ :: after⟩ :=
    (Step.access before after haccess fun _ => hfree).runs
  cases hcache : l.snapshot.cacheCapacity with
  | none =>
    rw [LiveSnapshot.resolve_uncached hcache]
    exact hbegin (.compute hcache)
  | some room =>
    have hne : l.snapshot.cacheCapacity ≠ none := by
      rw [hcache]
      exact Option.some_ne_none room
    have hcapacity : l.capacity = room := by
      rw [LiveSnapshot.capacity, hcache, Option.getD_some]
    cases hfind : l.cached.find? (normalizePath path) with
    | some answer =>
      rw [LiveSnapshot.resolve_hit hcache hfind]
      exact hbegin (.hit hne hfind)
    | none =>
      -- what `remember` does at once takes up to three accesses here
      rw [LiveSnapshot.resolve_miss hcache hfind, LiveSnapshot.remember]
      have hcomputed := hbegin (.miss hne hfind)
      by_cases hfull : room ≤ l.cached.size
      · rw [if_pos hfull]
        exact ((hcomputed.step (.access before after (.full (hcapacity ▸ hfull)) nofun)).step
          (.access before after .clear nofun)).step (.access before after .insert nofun)
      · rw [if_neg hfull]
        have hroom : l.issue.cached.size < l.issue.capacity := by
          show l.cached.size < l.capacity
          omega
        exact (hcomputed.step (.access before after (.room hroom) nofun)).step
          (.access before after .insert nofun)

/-- One worker can take the paths as they come, after others that have their answers already. -/
theorem runs_resolveEach (hworkers : 0 < workers) (l : LiveSnapshot) (paths : List String)
    (done : OrderedMap String Answer) (before : List (String × Answer)) :
    ∃ pairs, Runs workers ⟨l, (finished l before).jobs ++ (start l paths).jobs⟩
        (finished (l.resolveEach done paths).2 (before ++ pairs)) ∧
      done.insertAll pairs = (l.resolveEach done paths).1 := by
  induction paths generalizing l done before with
  | nil =>
    refine ⟨[], ?_, rfl⟩
    rw [List.append_nil]
    simp only [start, List.map_nil, List.append_nil]
    exact .start
  | cons path rest ih =>
    obtain ⟨pairs, hruns, hpairs⟩ :=
      ih (l.resolve path).2 (done.insert path (l.resolve path).1)
        (before ++ [(path, (l.resolve path).1)])
    refine ⟨(path, (l.resolve path).1) :: pairs, ?_, hpairs⟩
    -- the others are done or have not begun, so the worker is free
    have hidle : underWay ((finished l before).jobs ++ (start l rest).jobs) = 0 := by
      rw [underWay, List.countP_eq_zero]
      intro job hjob
      simp only [finished, start, List.mem_append, List.mem_map] at hjob
      rcases hjob with ⟨_, _, rfl⟩ | ⟨_, _, rfl⟩ <;> exact Bool.false_ne_true
    have hfirst := runs_resolve l path (finished l before).jobs (start l rest).jobs
      (hidle ▸ hworkers)
    refine hfirst.trans ?_
    simpa [finished, start, LiveSnapshot.resolveEach] using hruns

end Batch

/-- Resolving all the paths without mixing is one of the ways to resolve them. -/
theorem resolvesAll_resolveAll {workers : Nat} (hworkers : 0 < workers) (l : LiveSnapshot)
    (paths : List String) :
    ResolvesAll workers l paths (l.resolveAll paths).1 (l.resolveAll paths).2 := by
  obtain ⟨pairs, hruns, hpairs⟩ := Batch.runs_resolveEach hworkers l paths .empty []
  exact ⟨pairs, hruns, hpairs⟩

/-! ## Section 3: Which answers there are -/

section answers

variable {path : String} {l l' : LiveSnapshot} {stage stage' : Stage}

theorem Access.snapshot_eq (h : Access path l stage l' stage') :
    l'.snapshot = l.snapshot := by
  cases h <;> rfl

theorem Access.issued_le (h : Access path l stage l' stage') : l.issued ≤ l'.issued := by
  cases h with
  | compute | miss => exact Nat.le_succ l.issued
  | hit | full | room | clear | insert => exact Nat.le_refl _

/-- What goes into the cache is the answer that the path has. -/
theorem Access.mem_cached (h : Access path l stage l' stage') {entry : String × Answer}
    (hentry : entry ∈ l'.cached.entries) :
    entry ∈ l.cached.entries ∨ ∃ answer, stage.answer? = some answer ∧ entry = (path, answer) := by
  cases h with
  | compute | hit | miss | full | room => exact .inl hentry
  | clear => cases hentry
  | insert => exact (Entries.mem_insert hentry).symm.imp_right fun heq => ⟨_, rfl, heq⟩

/-- An answer that a path has got is a remembered one or a new one. -/
theorem Access.answer (h : Access path l stage l' stage') {answer : Answer}
    (hanswer : stage'.answer? = some answer) :
    stage.answer? = some answer ∨ (path, answer) ∈ l.cached.entries ∨
      answer = l.nextAnswer path ∧ l' = l.issue := by
  cases h with
  | compute | miss =>
    cases hanswer
    exact .inr (.inr ⟨rfl, rfl⟩)
  | hit _ hfind =>
    cases hanswer
    exact .inr (.inl (Entries.mem_of_find? hfind))
  | full | room | clear | insert => exact .inl hanswer

end answers

namespace Batch

variable {workers : Nat} {b next : Batch} {s : Snapshot}

/-- The answer is remembered for the path, or a worker has it for the path. -/
inductive Holds (b : Batch) (path : String) (answer : Answer) : Prop where
  | remembered (h : (path, answer) ∈ b.live.cached.entries)
  | inHand {job : Job} (hjob : job ∈ b.jobs) (hpath : normalizePath job.path = path)
      (hanswer : job.stage.answer? = some answer)

/-- Before the first step nobody has an answer in hand. -/
theorem holds_start_iff {l : LiveSnapshot} {paths : List String} {path : String} {answer : Answer} :
    (start l paths).Holds path answer ↔ (path, answer) ∈ l.cached.entries := by
  refine ⟨fun h => ?_, fun hentry => .remembered hentry⟩
  cases h with
  | remembered hentry => exact hentry
  | inHand hjob _ hanswer =>
    obtain ⟨_, _, rfl⟩ := List.mem_map.1 hjob
    cases hanswer

/-- A step brings up at most one answer. It is for a normalized path, has the next number and is
    what the snapshot computes. -/
theorem Step.holds (h : Step workers b next) :
    (∀ path answer, next.Holds path answer → b.Holds path answer) ∨
    ∃ new, normalizePath new = new ∧ next.live.issued = b.live.issued + 1 ∧
      ∀ path answer, next.Holds path answer →
        b.Holds path answer ∨ path = new ∧ answer = b.live.nextAnswer new := by
  cases h with
  | @access l l' given stage stage' before after haccess hfree =>
    have hmem : (⟨given, stage⟩ : Job) ∈ before ++ ⟨given, stage⟩ :: after := by simp
    -- what is held afterwards, but for the answer that this path may have got
    have hheld : ∀ path answer,
        Holds ⟨l', before ++ ⟨given, stage'⟩ :: after⟩ path answer →
          Holds ⟨l, before ++ ⟨given, stage⟩ :: after⟩ path answer ∨
            normalizePath given = path ∧ answer = l.nextAnswer path ∧ l' = l.issue := by
      intro path answer hholds
      cases hholds with
      | remembered hentry =>
        rcases haccess.mem_cached hentry with hold | ⟨_, hanswer, heq⟩
        · exact .inl (.remembered hold)
        · cases heq
          exact .inl (.inHand hmem rfl hanswer)
      | @inHand job hjob hpath hanswer =>
        rcases List.mem_append.1 hjob with hbefore | hrest
        · exact .inl (.inHand (List.mem_append_left _ hbefore) hpath hanswer)
        rcases List.mem_cons.1 hrest with rfl | hafter
        · subst hpath
          rcases haccess.answer hanswer with hkept | hentry | ⟨hnew, hissue⟩
          · exact .inl (.inHand hmem rfl hkept)
          · exact .inl (.remembered hentry)
          · exact .inr ⟨rfl, hnew, hissue⟩
        · exact .inl (.inHand (by simp [hafter]) hpath hanswer)
    by_cases hissue : l' = l.issue
    · refine .inr ⟨normalizePath given, normalizePath_normalizePath given, ?_, ?_⟩
      · rw [hissue]
        rfl
      · intro path answer hholds
        refine (hheld path answer hholds).imp_right ?_
        rintro ⟨rfl, hnew, _⟩
        exact ⟨rfl, hnew⟩
    · refine .inl fun path answer hholds => ?_
      exact (hheld path answer hholds).resolve_right fun hnew => hissue hnew.2.2

theorem Step.snapshot_eq (h : Step workers b next) :
    next.live.snapshot = b.live.snapshot := by
  cases h with
  | access before after haccess hfree => exact haccess.snapshot_eq

theorem Step.issued_le (h : Step workers b next) : b.live.issued ≤ next.live.issued := by
  cases h with
  | access before after haccess hfree => exact haccess.issued_le

theorem Step.map_path_jobs (h : Step workers b next) :
    next.jobs.map Job.path = b.jobs.map Job.path := by
  cases h with
  | access before after haccess hfree => simp

theorem Runs.map_path_jobs (h : Runs workers b next) :
    next.jobs.map Job.path = b.jobs.map Job.path := by
  induction h with
  | start => rfl
  | step _ hstep ih => rw [hstep.map_path_jobs, ih]

/-- Every answer is for a normalized path, and is what the snapshot computes for it. -/
structure Coherent (s : Snapshot) (b : Batch) : Prop where
  snapshot_eq : b.live.snapshot = s
  holds : ∀ path answer, b.Holds path answer →
    normalizePath path = path ∧ answer.configuration = s.compute path

theorem Coherent.step (h : Coherent s b) (hstep : Step workers b next) : Coherent s next := by
  refine ⟨hstep.snapshot_eq.trans h.snapshot_eq, ?_⟩
  intro path answer hholds
  rcases hstep.holds with hkept | ⟨new, hnormal, _, hnew⟩
  · exact h.holds path answer (hkept path answer hholds)
  rcases hnew path answer hholds with hold | ⟨rfl, rfl⟩
  · exact h.holds path answer hold
  · -- the answer was computed in this step
    refine ⟨hnormal, ?_⟩
    show b.live.snapshot.compute path = _
    rw [h.snapshot_eq]

theorem Coherent.run (h : Coherent s b) (hruns : Runs workers b next) : Coherent s next := by
  induction hruns with
  | start => exact h
  | step _ hstep ih => exact ih.step hstep

/-- All answers have been counted, and no answer is for two paths. -/
structure Stamped (b : Batch) : Prop where
  serial_lt : ∀ path answer, b.Holds path answer → answer.serial < b.live.issued
  path_unique : ∀ path answer other answer', b.Holds path answer → b.Holds other answer' →
    answer.serial = answer'.serial → path = other

theorem Stamped.step (h : Stamped b) (hstep : Step workers b next) : Stamped next := by
  rcases hstep.holds with hkept | ⟨new, _, hissued, hnew⟩
  · refine ⟨fun path answer hholds => ?_, fun path answer other answer' hpath hother => ?_⟩
    · exact Nat.lt_of_lt_of_le (h.serial_lt path answer (hkept path answer hholds))
        hstep.issued_le
    · exact h.path_unique path answer other answer' (hkept path answer hpath)
        (hkept other answer' hother)
  · refine ⟨fun path answer hholds => ?_, fun path answer other answer' hpath hother heq => ?_⟩
    · rw [hissued]
      rcases hnew path answer hholds with hold | ⟨_, rfl⟩
      · exact Nat.lt_succ_of_lt (h.serial_lt path answer hold)
      · exact Nat.lt_succ_self _
    · -- the new number is above all the others, so either both answers are new or none is
      rcases hnew path answer hpath with hold | ⟨rfl, rfl⟩
      · rcases hnew other answer' hother with hold' | ⟨_, rfl⟩
        · exact h.path_unique path answer other answer' hold hold' heq
        · have hlt := h.serial_lt path answer hold
          exact absurd heq (Nat.ne_of_lt hlt)
      · rcases hnew other answer' hother with hold' | ⟨rfl, _⟩
        · have hlt := h.serial_lt other answer' hold'
          exact absurd heq (Nat.ne_of_gt hlt)
        · rfl

theorem Stamped.run (h : Stamped b) (hruns : Runs workers b next) : Stamped next := by
  induction hruns with
  | start => exact h
  | step _ hstep ih => exact ih.step hstep

/-! ## Section 4: How much is remembered -/

/-- The number of answers that are about to go into the cache. -/
def storing (jobs : List Job) : Nat :=
  jobs.countP fun job => job.stage.isStoring

theorem storing_middle (before after : List Job) (job : Job) :
    storing (before ++ job :: after) =
      storing (before ++ after) + if job.stage.isStoring then 1 else 0 := by
  simp only [storing, List.countP_append, List.countP_cons]
  omega

theorem storing_le_underWay (jobs : List Job) : storing jobs ≤ underWay jobs := by
  refine List.countP_mono_left fun job _ hstoring => ?_
  cases hstage : job.stage <;> simp_all [Stage.isStoring, Stage.isUnderWay]

/-- The remembered answers and those that are about to be remembered are no more than the cache has
    room for, with one more for each worker but the first. -/
structure Bounded (workers : Nat) (b : Batch) : Prop where
  /-- A cache that is kept has room for something. -/
  room : b.live.snapshot.cacheCapacity ≠ none → 0 < b.live.capacity
  underWay_le : underWay b.jobs ≤ workers
  size_lt : b.live.cached.size + storing b.jobs < b.live.capacity + workers
  /-- Without a cache no path is ever under way: its first access is its last one. -/
  uncached : b.live.capacity = 0 → b.live.cached.size + underWay b.jobs = 0

/-- The invariant with one job counted apart. -/
theorem bounded_middle_iff {l : LiveSnapshot} {before after : List Job} {path : String}
    {stage : Stage} :
    Bounded workers ⟨l, before ++ ⟨path, stage⟩ :: after⟩ ↔
      (l.snapshot.cacheCapacity ≠ none → 0 < l.capacity) ∧
      underWay (before ++ after) + (if stage.isUnderWay then 1 else 0) ≤ workers ∧
      l.cached.size + (storing (before ++ after) + if stage.isStoring then 1 else 0) <
        l.capacity + workers ∧
      (l.capacity = 0 →
        l.cached.size + (underWay (before ++ after) + if stage.isUnderWay then 1 else 0) = 0) := by
  rw [← underWay_middle before after ⟨path, stage⟩, ← storing_middle before after ⟨path, stage⟩]
  constructor
  · rintro ⟨hroom, hunderWay, hsize, huncached⟩
    exact ⟨hroom, hunderWay, hsize, huncached⟩
  · rintro ⟨hroom, hunderWay, hsize, huncached⟩
    exact ⟨hroom, hunderWay, hsize, huncached⟩

theorem Bounded.step (h : Bounded workers b) (hstep : Step workers b next) :
    Bounded workers next := by
  cases hstep with
  | @access l l' given stage stage' before after haccess hfree =>
    have hle := storing_le_underWay (before ++ after)
    rw [bounded_middle_iff] at h ⊢
    obtain ⟨hroom, hunderWay, hsize, huncached⟩ := h
    cases haccess with
    | compute | hit | full => exact ⟨hroom, hunderWay, hsize, huncached⟩
    | miss hcache hfind =>
      have hpos := hroom hcache
      exact ⟨hroom, hfree rfl, hsize, fun hzero => absurd hzero (Nat.ne_of_gt hpos)⟩
    | room hfits =>
      -- this answer and the others that wait to go in belong to different workers
      have hself : underWay (before ++ after) + 1 ≤ workers := hunderWay
      refine ⟨hroom, hunderWay, ?_, huncached⟩
      show l.cached.size + (storing (before ++ after) + 1) < l.capacity + workers
      omega
    | clear =>
      -- what is left are the answers that wait to go in, one for each worker at most
      have hself : underWay (before ++ after) + 1 ≤ workers := hunderWay
      have hpos : l.capacity ≠ 0 := fun hzero => Nat.succ_ne_zero _ (huncached hzero)
      refine ⟨hroom, hunderWay, ?_, fun hzero => absurd hzero hpos⟩
      show 0 + (storing (before ++ after) + 1) < l.capacity + workers
      omega
    | @insert answer =>
      have hself : underWay (before ++ after) + 1 ≤ workers := hunderWay
      have hpos : l.capacity ≠ 0 := fun hzero => Nat.succ_ne_zero _ (huncached hzero)
      have hgrows := OrderedMap.size_insert_le l.cached (normalizePath given) answer
      have hcounted : l.cached.size + (storing (before ++ after) + 1) < l.capacity + workers :=
        hsize
      refine ⟨hroom, Nat.le_of_succ_le hself, ?_, fun hzero => absurd hzero hpos⟩
      show (l.cached.insert (normalizePath given) answer).size + storing (before ++ after) <
        l.capacity + workers
      omega

theorem Bounded.run (h : Bounded workers b) (hruns : Runs workers b next) :
    Bounded workers next := by
  induction hruns with
  | start => exact h
  | step _ hstep ih => exact ih.step hstep

/-- Among so few paths a worker is free for each. -/
theorem Step.of_length_lt {l l' : LiveSnapshot} {path : String} {stage stage' : Stage}
    {before after : List Job} (haccess : Access (normalizePath path) l stage l' stage')
    (hlt : before.length + after.length < workers) :
    Step workers ⟨l, before ++ ⟨path, stage⟩ :: after⟩
      ⟨l', before ++ ⟨path, stage'⟩ :: after⟩ := by
  refine .access before after haccess fun _ => Nat.lt_of_le_of_lt List.countP_le_length ?_
  rw [List.length_append]
  exact hlt

/-- A batch gets by with as many workers as it has paths. -/
theorem Runs.of_length_le {fewer : Nat} (h : Runs workers b next) (hle : b.jobs.length ≤ fewer) :
    Runs fewer b next := by
  induction h with
  | start => exact .start
  | step hbefore hstep ih =>
    refine ih.step ?_
    rw [← List.length_map Job.path, ← hbefore.map_path_jobs] at hle
    cases hstep with
    | access before after haccess hfree =>
      refine .of_length_lt haccess ?_
      simp only [List.length_map, List.length_append, List.length_cons] at hle
      omega

/-! ## Section 5: More than there is room for -/

/-- Paths that have come to the same stage, with their answers. -/
def jobsAt (stage : Answer → Stage) (pairs : List (String × Answer)) : List Job :=
  pairs.map fun pair => ⟨pair.1, stage pair.2⟩

/-- All the paths are looked up before anything is put in. -/
theorem runs_miss {l : LiveSnapshot} (hcache : l.snapshot.cacheCapacity ≠ none)
    {paths : List String} (hnew : ∀ path ∈ paths, l.cached.find? (normalizePath path) = none)
    (before : List (String × Answer)) (hworkers : before.length + paths.length ≤ workers) :
    ∃ pairs issued, pairs.map Prod.fst = paths ∧
      Runs workers ⟨l, jobsAt .computed before ++ (start l paths).jobs⟩
        ⟨{ l with issued }, jobsAt .computed (before ++ pairs)⟩ := by
  induction paths generalizing l before with
  | nil =>
    refine ⟨[], l.issued, rfl, ?_⟩
    simp only [start, List.map_nil, List.append_nil]
    exact .start
  | cons path rest ih =>
    rw [List.length_cons] at hworkers
    have hfirst : Step workers ⟨l, jobsAt .computed before ++ (start l (path :: rest)).jobs⟩
        ⟨l.issue, jobsAt .computed before ++
          ⟨path, .computed (l.nextAnswer (normalizePath path))⟩ :: (start l rest).jobs⟩ := by
      refine .of_length_lt (.miss hcache (hnew path List.mem_cons_self)) ?_
      simp only [jobsAt, List.length_map]
      omega
    obtain ⟨pairs, issued, hpaths, hruns⟩ := ih (l := l.issue) hcache
      (fun other hother => hnew other (List.mem_cons_of_mem _ hother))
      (before ++ [(path, l.nextAnswer (normalizePath path))]) (by
        rw [List.length_append, List.length_singleton]
        omega)
    refine ⟨(path, l.nextAnswer (normalizePath path)) :: pairs, issued, ?_, hfirst.runs.trans ?_⟩
    · rw [List.map_cons, hpaths]
    · simpa [jobsAt, start] using hruns

/-- As long as nothing is put in, the size stays below the capacity for all of them. -/
theorem runs_room {l : LiveSnapshot} (hroom : l.cached.size < l.capacity)
    (pairs before : List (String × Answer)) :
    Runs workers ⟨l, jobsAt .storing before ++ jobsAt .computed pairs⟩
      ⟨l, jobsAt .storing (before ++ pairs)⟩ := by
  induction pairs generalizing before with
  | nil =>
    simp only [jobsAt, List.map_nil, List.append_nil]
    exact .start
  | cons pair rest ih =>
    have hfirst : Step workers ⟨l, jobsAt .storing before ++ jobsAt .computed (pair :: rest)⟩
        ⟨l, jobsAt .storing before ++ ⟨pair.1, .storing pair.2⟩ :: jobsAt .computed rest⟩ :=
      .access _ _ (.room hroom) nofun
    refine hfirst.runs.trans ?_
    simpa [jobsAt] using ih (before ++ [pair])

/-- Then all of them put their answers in. -/
theorem runs_insert (l : LiveSnapshot) (pairs before : List (String × Answer)) :
    Runs workers ⟨l, jobsAt .done before ++ jobsAt .storing pairs⟩
      (finished { l with
        cached := l.cached.insertAll (pairs.map fun pair => (normalizePath pair.1, pair.2)) }
        (before ++ pairs)) := by
  induction pairs generalizing l before with
  | nil =>
    simp only [jobsAt, finished, List.map_nil, List.append_nil, OrderedMap.insertAll_nil]
    exact .start
  | cons pair rest ih =>
    have hfirst : Step workers ⟨l, jobsAt .done before ++ jobsAt .storing (pair :: rest)⟩
        ⟨{ l with cached := l.cached.insert (normalizePath pair.1) pair.2 },
          jobsAt .done before ++ ⟨pair.1, .done pair.2⟩ :: jobsAt .storing rest⟩ :=
      .access _ _ .insert nofun
    refine hfirst.runs.trans ?_
    simpa [jobsAt, finished] using ih _ (before ++ [pair])

end Batch

/-- A batch of new paths, all different, can leave every one of its answers in a cache that had
    room for a single one. It takes a worker for each path. -/
theorem exists_overfull {l : LiveSnapshot} (hroom : l.cached.size < l.capacity)
    {paths : List String} (hnodup : (paths.map normalizePath).Nodup)
    (hnew : ∀ path ∈ paths, l.cached.find? (normalizePath path) = none) {workers : Nat}
    (hworkers : paths.length ≤ workers) :
    ∃ answers l', ResolvesAll workers l paths answers l' ∧
      l'.cachedSize = l.cachedSize + paths.length := by
  have hcache : l.snapshot.cacheCapacity ≠ none := by
    intro hnone
    rw [LiveSnapshot.capacity, hnone] at hroom
    cases hroom
  -- look up every path, read off the size for each of them, put every answer in
  obtain ⟨pairs, issued, hpaths, hmiss⟩ := Batch.runs_miss hcache hnew [] (by simpa using hworkers)
  have hstored := hmiss.trans (Batch.runs_room (l := { l with issued }) hroom pairs [])
  have hinserted := hstored.trans (Batch.runs_insert { l with issued } pairs [])
  refine ⟨_, _, ⟨pairs, hinserted, rfl⟩, ?_⟩
  -- no two of the keys are the same, so every answer has an entry of its own
  have hkeys : Entries.keys (pairs.map fun pair => (normalizePath pair.1, pair.2)) =
      paths.map normalizePath := by
    rw [← hpaths, Entries.keys, List.map_map, List.map_map]
    rfl
  have hfresh : (l.cached.keys ++ paths.map normalizePath).Nodup := by
    refine List.nodup_append.2 ⟨l.cached.nodup_keys, hnodup, ?_⟩
    intro key hkey other hother heq
    obtain ⟨path, hpath, rfl⟩ := List.mem_map.1 hother
    exact Entries.find?_eq_none_iff.1 (hnew path hpath) (heq ▸ hkey)
  rw [← hkeys] at hfresh
  show (l.cached.insertAll _).entries.length = _
  rw [OrderedMap.entries_insertAll hfresh, List.length_append, List.length_map, ← hpaths,
    List.length_map]
  rfl

end RuleCascade
