import RuleCascade.Proofs.LoadedFragments
import RuleCascade.Proofs.RepeatedLayers

/-! # Answers that agree

    Three questions about a path are answered apart from each other: whether it
    is ignored, what its configuration is, and why. Each of them normalizes the
    path on its own, and the configuration may come out of the cache.

    They agree because all of them look for the first ignore pattern that covers
    the normalized path. If there is one, nothing else is looked at. If there is
    none, the explanation lists the entries that are layered.

    Main statement: `answers_agree`.
-/

namespace RuleCascade

/-! ## Section 1: The first pattern -/

/-- The pattern covers the path, and none of those before it does. -/
def FirstCovering (patterns : List Pattern) (path : String) (p : Pattern) : Prop :=
  p.isMatch path = true ∧ ∃ before after, patterns = before ++ p :: after ∧
    ∀ earlier ∈ before, earlier.isMatch path = false

theorem firstCovering_iff {f : FileFilter} {path : String} {p : Pattern} :
    FirstCovering f.excluded path p ↔ f.excludedBy? path = some p := by
  unfold FirstCovering FileFilter.excludedBy?
  rw [List.find?_eq_some_iff_append]
  simp only [Bool.not_eq_true']

theorem Pattern.source_of_compile {source : String} {p : Pattern} (h : compile source = .ok p) :
    p.source = source := by
  simp only [compile] at h
  split at h
  · cases h
  obtain ⟨_, _, h⟩ := exists_ok_of_bind_eq_ok h
  obtain ⟨alternatives, _, h⟩ := exists_ok_of_bind_eq_ok h
  cases h
  rfl

/-- Ignore patterns are compiled one by one, and each keeps its text. -/
theorem compiled_of_loadIgnores {patterns : List String} {ignores : FileFilter}
    (h : loadIgnores patterns = .ok ignores) :
    List.Forall₂ (fun source p => Pattern.compile source = .ok p ∧ p.source = source)
      patterns ignores.excluded := by
  unfold loadIgnores at h
  split at h
  · rename_i filter hfilter
    cases h
    obtain ⟨included, _, hfilter⟩ := exists_ok_of_bind_eq_ok hfilter
    obtain ⟨excluded, hexcluded, hfilter⟩ := exists_ok_of_bind_eq_ok hfilter
    cases hfilter
    refine (FileFilter.compileAll_eq_ok_iff.1 hexcluded).imp ?_
    intro source p hp
    exact ⟨hp, Pattern.source_of_compile hp⟩
  · cases h

/-! ## Section 2: Ways to write a path -/

/-- The path with a number of `./` in front. -/
def dotted (path : String) : Nat → String
  | 0 => path
  | n + 1 => "./" ++ dotted path n

theorem normalizePath_dotSlash (path : String) :
    normalizePath ("./" ++ path) = normalizePath path := by
  unfold normalizePath
  rw [String.toList_append]
  rfl

theorem normalizePath_dotted (path : String) (n : Nat) :
    normalizePath (dotted path n) = normalizePath path := by
  induction n with
  | zero => rfl
  | succ n ih => rw [dotted, normalizePath_dotSlash, ih]

namespace Snapshot

variable {s : Snapshot}

/-- Paths that normalize to the same have the same answers. -/
theorem tell_congr {path other : String} (h : normalizePath path = normalizePath other) :
    s.explain path = s.explain other ∧ s.isIgnored path = s.isIgnored other ∧
      s.languageOf path = s.languageOf other := by
  unfold explain isIgnored languageOf
  rw [h]
  exact ⟨rfl, rfl, rfl⟩

/-! ## Section 3: One answer and the others -/

theorem ignoredBy_explain (s : Snapshot) (path : String) :
    (s.explain path).ignoredBy = s.ignoredBy? (normalizePath path) := by
  unfold explain
  cases hignored : s.ignoredBy? (normalizePath path) <;> simp only [hignored]

theorem ignored_compute (s : Snapshot) (path : String) :
    (s.compute path).ignored = (s.ignoredBy? path).isSome := by
  unfold compute
  split
  · rename_i hignored
    rw [hignored]
    rfl
  · rename_i hcovered
    rw [Configuration.merge, Configuration.ignored_applyAll]
    exact (Bool.eq_false_iff.2 hcovered).symm

/-- Where a path is ignored, the first pattern that covers it is the whole explanation. -/
theorem explain_of_ignored {path : String} (h : (s.compute (normalizePath path)).ignored = true) :
    (∃ p, FirstCovering s.ignores.excluded (normalizePath path) p ∧
      (s.explain path).ignoredBy = some p.source) ∧
    (s.explain path).applied = [] ∧ s.compute (normalizePath path) = .ofIgnored := by
  rw [ignored_compute] at h
  obtain ⟨source, hsource⟩ := Option.isSome_iff_exists.1 h
  obtain ⟨p, hp, rfl⟩ := Option.map_eq_some_iff.1 hsource
  refine ⟨⟨p, firstCovering_iff.2 hp, ?_⟩, ?_, ?_⟩
  · rw [ignoredBy_explain, hsource]
  · unfold explain
    simp only [hsource]
  · rw [compute, if_pos h]

/-- Where it is not, the entries that apply are listed and layered. -/
theorem explain_of_not_ignored {path : String}
    (h : (s.compute (normalizePath path)).ignored = false) :
    (s.explain path).applied =
      (s.applicable (normalizePath path) (s.languageOf path)).map Entry.provenance ∧
    s.compute (normalizePath path) =
      .merge ((s.applicable (normalizePath path) (s.languageOf path)).map Entry.fragment) := by
  rw [ignored_compute] at h
  have hnone := Option.isNone_iff_eq_none.1 (Option.isSome_eq_false_iff.1 h)
  refine ⟨?_, ?_⟩
  · unfold explain
    simp only [hnone]
    rfl
  · rw [compute, if_neg (Bool.eq_false_iff.1 h)]
    rfl

/-! ## Section 4: All answers -/

/-- Whatever calls a snapshot has served, the answers about a path agree on whether it is ignored.
    If it is, the explanation is the first ignore pattern that covers it, and nothing is layered.
    If it is not, the explanation lists the entries that the configuration is merged from. No
    answer depends on how many `./` stand in front of the path. -/
theorem answers_agree {fragments : List Fragment} {registry : Registry} {ignores : FileFilter}
    {options : EngineOptions} (h : ofFragments fragments registry ignores options = .ok s)
    (calls : List Call) (path : String) :
    let live := ((LiveSnapshot.fresh s).performAll calls).2
    let resolved := (live.resolve path).1.configuration
    (s.isIgnored path = true ↔ resolved.ignored = true) ∧
    ((s.explain path).ignoredBy.isSome = true ↔ resolved.ignored = true) ∧
    (resolved.ignored = true →
      (∃ p, FirstCovering ignores.excluded (normalizePath path) p ∧
        (s.explain path).ignoredBy = some p.source) ∧
      (s.explain path).applied = [] ∧ resolved.rules = .empty ∧ resolved.sharedOptions = []) ∧
    (∀ patterns, loadIgnores patterns = .ok ignores →
      List.Forall₂ (fun source p => Pattern.compile source = .ok p ∧ p.source = source)
        patterns ignores.excluded) ∧
    (resolved.ignored = false →
      let entries := s.cascade.filter fun e => e.appliesTo (normalizePath path) (s.languageOf path)
      (s.explain path).applied = entries.map Entry.provenance ∧
      resolved = .merge (entries.map Entry.fragment)) ∧
    ∀ n, live.resolve (dotted path n) = live.resolve path ∧
      s.explain (dotted path n) = s.explain path ∧
      s.isIgnored (dotted path n) = s.isIgnored path ∧
      s.languageOf (dotted path n) = s.languageOf path := by
  intro live resolved
  -- the cache may answer, but with nothing else than what the snapshot computes
  have hresolved : resolved = s.compute (normalizePath path) :=
    LiveSnapshot.configuration_resolve_performAll s calls path
  obtain ⟨_, _, _, rfl⟩ := ofFragments_eq_ok_iff.1 h
  rw [hresolved]
  refine ⟨?_, ?_, ?_, fun _ => compiled_of_loadIgnores, ?_, ?_⟩
  · rw [ignored_compute]
    rfl
  · rw [ignored_compute, ignoredBy_explain]
  · intro hignored
    obtain ⟨hfirst, happlied, hcompute⟩ := explain_of_ignored hignored
    rw [hcompute]
    exact ⟨hfirst, happlied, rfl, rfl⟩
  · intro hcovered
    exact explain_of_not_ignored hcovered
  · intro n
    have hpath := normalizePath_dotted path n
    refine ⟨?_, tell_congr hpath⟩
    unfold LiveSnapshot.resolve
    rw [hpath]

/-- The layered document with patterns in front of and behind the one that it has. -/
def guardedSnapshot : Snapshot :=
  { layeredSnapshot with
    ignores := ⟨[], [
      ⟨"*.ts~", [[.anyRecursive, .anySequence, .char '.', .char 't', .char 's', .char '~']]⟩,
      ⟨"gen", [[.anyRecursive, .char 'g', .char 'e', .char 'n']]⟩,
      ⟨"g*", [[.anyRecursive, .char 'g', .anySequence]]⟩]⟩ }

/-- Two patterns cover one path, and the first of them is the explanation. The other path comes out
    of the cache. -/
theorem answers_agree_guarded :
    loadIgnores ["*.ts~", "gen", "g*"] = .ok guardedSnapshot.ignores ∧
    ofFragments [layeredTop] layeredRegistry guardedSnapshot.ignores {} = .ok guardedSnapshot ∧
    ∃ live, ((LiveSnapshot.fresh guardedSnapshot).performAll [.resolve "a.ts"]).2 = live ∧
      (live.resolve (dotted "gen" 2)).1.configuration.ignored = true ∧
      guardedSnapshot.explain (dotted "gen" 2) =
        { path := "gen", language := none, ignoredBy := some "gen", applied := [] } ∧
      guardedSnapshot.isIgnored "./a.ts" = false ∧
      (guardedSnapshot.explain "./a.ts").applied =
        ["ruleSets.base[0] (via base)", "fragments[0]"] ∧
      (live.resolve "./a.ts").1.configuration = .merge (layeredBase.fragments ++ [layeredTop]) := by
  have hignores : loadIgnores ["*.ts~", "gen", "g*"] = .ok guardedSnapshot.ignores := by
    decide +kernel
  have hsnapshot : ofFragments [layeredTop] layeredRegistry guardedSnapshot.ignores {} =
      .ok guardedSnapshot :=
    ofFragments_eq_ok_iff.2 ⟨_, unfolds_layered, by decide, rfl⟩
  obtain ⟨hflag, _, _, _, _, hdotted⟩ := answers_agree hsnapshot [.resolve "a.ts"] "gen"
  obtain ⟨hresolve, hexplain, _, _⟩ := hdotted 2
  obtain ⟨hother, _, _, _, hlayered, _⟩ := answers_agree hsnapshot [.resolve "a.ts"] "./a.ts"
  have hcovered : guardedSnapshot.isIgnored "./a.ts" = false := by decide +kernel
  have hlive := mt hother.2 (Bool.eq_false_iff.1 hcovered)
  obtain ⟨happlied, hmerge⟩ := hlayered (Bool.eq_false_iff.2 hlive)
  refine ⟨hignores, hsnapshot, _, rfl, ?_, ?_, hcovered, ?_, ?_⟩
  · rw [hresolve]
    exact hflag.1 (by decide +kernel)
  · rw [hexplain]
    decide +kernel
  · rw [happlied]
    decide +kernel
  · rw [hmerge]
    rfl

end Snapshot

end RuleCascade
