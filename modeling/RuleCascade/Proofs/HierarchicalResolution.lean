import RuleCascade.Proofs.CacheHistory

/-! # Resolution fragment by fragment

    The direct way to resolve a path walks the fragments of a document as they
    are written. A fragment that rejects the path is left out with all that it
    is built on. Any other fragment first walks the rule sets it is built on
    and then layers its own rules and shared options.

    The flat cascade is filtered instead, entry by entry. A fragment passes on
    its restriction to what is below it through the scope, so an entry applies
    exactly if the walk would come to it.

    Main statement: a resolved path has a configuration exactly if the walk
    over the document leaves that configuration.
-/

namespace RuleCascade

open Expansion

/-! ## Section 1: The direct walk -/

/-- Walking fragments in order takes the first configuration to the second. -/
inductive Walks (registry : Registry) (path : String) (language : Option String) :
    List Fragment → Configuration → Configuration → Prop where
  | done (c : Configuration) : Walks registry path language [] c c
  | skip {f : Fragment} {rest : List Fragment} {c d : Configuration} :
      f.appliesTo path language = false → Walks registry path language rest c d →
      Walks registry path language (f :: rest) c d
  | layer {f : Fragment} {rest : List Fragment} {sets : List RuleSet}
      {c below d : Configuration} :
      f.appliesTo path language = true → f.StandsOn registry sets →
      Walks registry path language (sets.flatMap RuleSet.fragments) c below →
      Walks registry path language rest (below.apply f) d →
      Walks registry path language (f :: rest) c d

variable {registry : Registry} {path : String} {language : Option String}

theorem Walks.unique {fragments : List Fragment} {c d e : Configuration}
    (h : Walks registry path language fragments c d)
    (h' : Walks registry path language fragments c e) : d = e := by
  induction h generalizing e with
  | done c =>
    cases h'
    rfl
  | skip hreject _ ih =>
    cases h' with
    | skip _ hrest => exact ih hrest
    | layer happlies _ _ _ =>
      rw [hreject] at happlies
      cases happlies
  | layer happlies hsets _ _ ihbelow ihrest =>
    cases h' with
    | skip hreject _ =>
      rw [happlies] at hreject
      cases hreject
    | layer _ hothers hbelow hrest =>
      obtain rfl := hsets.unique hothers
      obtain rfl := ihbelow hbelow
      exact ihrest hrest

/-- The configuration of a normalized path as the document declares it: ignored as a whole, or
    what the walk over the top-level fragments leaves. -/
def Document.ResolvesTo (d : Document) (path : String) (c : Configuration) : Prop :=
  ∃ ignores registry fragments,
    loadIgnores d.ignores = .ok ignores ∧
    Registry.ofDeclarations d.ruleSets d.aliases = .ok registry ∧
    Fragment.loadAll d.fragments = .ok fragments ∧
    if ∃ pattern ∈ ignores.excluded, pattern.isMatch path = true then
      c = { rules := .empty, sharedOptions := [], ignored := true }
    else
      Walks registry path ((LanguageMap.withOverrides d.options.languages).languageOf path)
        fragments {} c

/-! ## Section 2: Scopes -/

/-- Every restriction that an entry inherits admits the path. -/
def ScopeAdmits (path : String) (language : Option String) (e : Entry) : Prop :=
  ∀ ancestor ∈ e.scope, ancestor.appliesTo path language = true

theorem appliesTo_iff {e : Entry} :
    e.appliesTo path language = true ↔
      e.fragment.appliesTo path language = true ∧ ScopeAdmits path language e := by
  rw [Entry.appliesTo, Bool.and_eq_true, List.all_eq_true, ScopeAdmits]

/-- A fragment that restricts no files applies to every path. -/
theorem appliesTo_of_not_hasConstraints {f : Fragment} (h : ¬ f.hasConstraints = true) :
    f.appliesTo path language = true := by
  have hnone : f.filter.included = [] ∧ f.filter.excluded = [] ∧ f.language = none := by
    simpa [Fragment.hasConstraints, FileFilter.isUniversal, and_assoc] using h
  obtain ⟨hincluded, hexcluded, hlanguage⟩ := hnone
  simp [Fragment.appliesTo, isCompatible, FileFilter.appliesTo, FileFilter.excludes,
    FileFilter.excludedBy?, hincluded, hexcluded, hlanguage]

/-- What is below an entry inherits the restrictions of the entry and its own. -/
theorem scopeAdmits_iff_of_mem {e child : Entry} {sets : List RuleSet}
    (hchild : child ∈ sets.flatMap (entriesBelow e)) :
    ScopeAdmits path language child ↔ e.appliesTo path language = true := by
  obtain ⟨set, _, hmem⟩ := List.mem_flatMap.1 hchild
  obtain ⟨fragment, _, rfl⟩ := List.mem_map.1 hmem
  rw [appliesTo_iff]
  unfold ScopeAdmits childScope
  split
  · exact List.forall_mem_cons
  · -- an entry without restrictions is left out of the scope, and admits every path
    rename_i hfree
    exact (and_iff_right (appliesTo_of_not_hasConstraints hfree)).symm

/-! ## Section 3: The cascade and the walk -/

/-- The configuration with the fragments of those entries layered on it that apply. -/
def layerAll (path : String) (language : Option String) (c : Configuration)
    (cascade : List Entry) : Configuration :=
  c.applyAll ((cascade.filter fun e => e.appliesTo path language).map (·.fragment))

theorem layerAll_append (c : Configuration) (cascade more : List Entry) :
    layerAll path language c (cascade ++ more) =
      layerAll path language (layerAll path language c cascade) more := by
  rw [layerAll, List.filter_append, List.map_append, Configuration.applyAll_append]
  rfl

theorem layerAll_cons_of_applies (c : Configuration) {e : Entry} (rest : List Entry)
    (h : e.appliesTo path language = true) :
    layerAll path language c (e :: rest) = layerAll path language (c.apply e.fragment) rest := by
  rw [layerAll, List.filter_cons, if_pos h]
  rfl

theorem layerAll_cons_of_not_applies (c : Configuration) {e : Entry} (rest : List Entry)
    (h : ¬ e.appliesTo path language = true) :
    layerAll path language c (e :: rest) = layerAll path language c rest := by
  rw [layerAll, List.filter_cons, if_neg h]
  rfl

theorem layerAll_of_forall_not {c : Configuration} {cascade : List Entry}
    (h : ∀ e ∈ cascade, ¬ e.appliesTo path language = true) :
    layerAll path language c cascade = c := by
  rw [layerAll, List.filter_eq_nil_iff.2 h]
  rfl

/-- Where the scope of the entries rejects a path, nothing below them applies. -/
theorem Expansion.Unfolds.not_appliesTo {entries cascade : List Entry}
    (h : Unfolds registry entries cascade)
    (hscope : ∀ e ∈ entries, ¬ ScopeAdmits path language e) :
    ∀ e ∈ cascade, ¬ e.appliesTo path language = true := by
  induction h with
  | nil => simp
  | @cons e sets rest below after _ _ _ _ ihbelow ihafter =>
    have hhead := hscope e List.mem_cons_self
    have hreject : ¬ e.appliesTo path language = true :=
      fun happlies => hhead (appliesTo_iff.1 happlies).2
    intro x hx
    rcases List.mem_append.1 hx with hbelow | hx
    · exact ihbelow (fun child hchild => mt (scopeAdmits_iff_of_mem hchild).1 hreject) x hbelow
    rcases List.mem_cons.1 hx with rfl | hafter
    · exact hreject
    · exact ihafter (fun other hmem => hscope other (List.mem_cons_of_mem e hmem)) x hafter

/-- Where it admits the path, the walk over the fragments of the entries gives what the entries
    of the cascade give that apply. -/
theorem Expansion.Unfolds.walks {entries cascade : List Entry}
    (h : Unfolds registry entries cascade)
    (hscope : ∀ e ∈ entries, ScopeAdmits path language e) (c : Configuration) :
    Walks registry path language (entries.map Entry.fragment) c
      (layerAll path language c cascade) := by
  induction h generalizing c with
  | nil => exact .done c
  | @cons e sets rest below after hsets _ hbelow _ ihbelow ihafter =>
    have hhead := hscope e List.mem_cons_self
    have hrest := fun other hmem => hscope other (List.mem_cons_of_mem e hmem)
    rw [List.map_cons, layerAll_append]
    cases happlies : e.fragment.appliesTo path language with
    | true =>
      have hentry := appliesTo_iff.2 ⟨happlies, hhead⟩
      have hwalk := ihbelow (fun child hchild => (scopeAdmits_iff_of_mem hchild).2 hentry) c
      rw [map_fragment_entriesBelow] at hwalk
      rw [layerAll_cons_of_applies _ after hentry]
      exact .layer happlies hsets hwalk (ihafter hrest _)
    | false =>
      -- the walk skips the fragment; in the cascade, nothing that it is built on applies
      have hreject : ¬ e.appliesTo path language = true := by
        intro hentry
        rw [(appliesTo_iff.1 hentry).1] at happlies
        cases happlies
      have hbarred : ∀ child ∈ sets.flatMap (entriesBelow e), ¬ ScopeAdmits path language child :=
        fun child hchild hadmits => hreject ((scopeAdmits_iff_of_mem hchild).1 hadmits)
      have hnone := hbelow.not_appliesTo hbarred
      rw [layerAll_of_forall_not hnone, layerAll_cons_of_not_applies _ after hreject]
      exact .skip happlies (ihafter hrest c)

/-! ## Section 4: Documents -/

/-- A document loads if its ignore patterns, its rule sets and its fragments do. -/
theorem Snapshot.ofDocument_eq_ok_iff {d : Document} {s : Snapshot} :
    Snapshot.ofDocument d = .ok s ↔
      ∃ ignores registry fragments, loadIgnores d.ignores = .ok ignores ∧
        Registry.ofDeclarations d.ruleSets d.aliases = .ok registry ∧
        Fragment.loadAll d.fragments = .ok fragments ∧
        Snapshot.ofFragments fragments registry ignores d.options = .ok s := by
  constructor
  · intro h
    obtain ⟨ignores, hignores, h⟩ := exists_ok_of_bind_eq_ok h
    obtain ⟨registry, hregistry, h⟩ := exists_ok_of_bind_eq_ok h
    obtain ⟨fragments, hfragments, h⟩ := exists_ok_of_bind_eq_ok h
    exact ⟨ignores, registry, fragments, hignores, hregistry, hfragments, h⟩
  · rintro ⟨ignores, registry, fragments, hignores, hregistry, hfragments, h⟩
    rw [Snapshot.ofDocument, hignores, hregistry, hfragments]
    exact h

theorem isSome_ignoredBy?_iff {s : Snapshot} :
    (s.ignoredBy? path).isSome = true ↔
      ∃ pattern ∈ s.ignores.excluded, pattern.isMatch path = true := by
  rw [Snapshot.ignoredBy?, FileFilter.excludedBy?, Option.isSome_map, List.find?_isSome]

/-- The walk over top-level fragments leaves what the applicable entries of their cascade give. -/
theorem walks_of_unfolds {fragments : List Fragment} {cascade : List Entry}
    (h : Unfolds registry (fragments.map topEntry) cascade) :
    Walks registry path language fragments {} (layerAll path language {} cascade) := by
  have hscope : ∀ e ∈ fragments.map topEntry, ScopeAdmits path language e := by
    intro e he
    obtain ⟨fragment, _, rfl⟩ := List.mem_map.1 he
    exact List.forall_mem_nil _
  have hwalk := h.walks hscope {}
  rwa [map_fragment_topEntry] at hwalk

theorem compute_of_ignored {s : Snapshot} (h : ∃ p ∈ s.ignores.excluded, p.isMatch path = true) :
    s.compute path = .ofIgnored := by
  rw [Snapshot.compute, if_pos (isSome_ignoredBy?_iff.2 h)]

theorem compute_of_not_ignored {s : Snapshot}
    (h : ¬ ∃ p ∈ s.ignores.excluded, p.isMatch path = true) :
    s.compute path = layerAll path (s.languages.languageOf path) {} s.cascade := by
  rw [Snapshot.compute, if_neg (mt isSome_ignoredBy?_iff.1 h)]
  rfl

theorem Snapshot.resolvesTo_compute {d : Document} {s : Snapshot}
    (h : Snapshot.ofDocument d = .ok s) (path : String) : d.ResolvesTo path (s.compute path) := by
  obtain ⟨ignores, registry, fragments, hignores, hregistry, hfragments, h⟩ :=
    Snapshot.ofDocument_eq_ok_iff.1 h
  obtain ⟨cascade, hunfolds, _, rfl⟩ := Snapshot.ofFragments_eq_ok_iff.1 h
  refine ⟨ignores, registry, fragments, hignores, hregistry, hfragments, ?_⟩
  split
  · rename_i hignored
    exact compute_of_ignored hignored
  · rename_i hcovered
    rw [compute_of_not_ignored hcovered]
    exact walks_of_unfolds hunfolds

theorem Document.ResolvesTo.unique {d : Document} {path : String} {c e : Configuration}
    (h : d.ResolvesTo path c) (h' : d.ResolvesTo path e) : c = e := by
  obtain ⟨ignores, registry, fragments, hignores, hregistry, hfragments, h⟩ := h
  obtain ⟨_, _, _, hothers, hother, hlisted, h'⟩ := h'
  rw [hignores] at hothers
  cases hothers
  rw [hregistry] at hother
  cases hother
  rw [hfragments] at hlisted
  cases hlisted
  split at h
  · rename_i hignored
    rw [if_pos hignored] at h'
    rw [h, h']
  · rename_i hcovered
    rw [if_neg hcovered] at h'
    exact h.unique h'

/-! ## Section 5: A layered document -/

/-- A document whose only fragment is for one language and is built on a rule set by its alias. -/
def layered : Document where
  fragments := [
    { language := some "script", bases := some ["strict"]
      rules := some (.ofList [("eqeqeq", .string "warn")]) }]
  ruleSets := .ofList [("base", [{ rules := some (.ofList [("no-var", .string "error")]) }])]
  ignores := ["gen"]
  aliases := .ofList [("strict", "base")]

def layeredBase : RuleSet where
  name := "base"
  fragments := [
    { origin := "ruleSets.base[0]", rules := .ofList [(⟨"no-var"⟩, { severity := .error })] }]

def layeredTop : Fragment where
  origin := "fragments[0]"
  language := some "script"
  bases := ["strict"]
  rules := .ofList [(⟨"eqeqeq"⟩, { severity := .warn })]

def layeredRegistry : Registry where
  ruleSets := .ofList [("base", layeredBase.fragments)]
  aliases := .ofList [("strict", "base")]

def layeredSnapshot : Snapshot where
  cascade := layeredBase.fragments.map (⟨·, [layeredTop], ["base"]⟩) ++ [topEntry layeredTop]
  ignores := ⟨[], [⟨"gen", [[.anyRecursive, .char 'g', .char 'e', .char 'n']]⟩]⟩
  languages := .withOverrides .empty
  cacheCapacity := some 65536

theorem lookup_layered (requestedBy : String) :
    layeredRegistry.lookup "strict" requestedBy = .ok layeredBase :=
  Registry.lookup_of_alias rfl rfl rfl

theorem ofDeclarations_layered :
    Registry.ofDeclarations layered.ruleSets layered.aliases = .ok layeredRegistry := by
  have hvalid : layeredRegistry.validateAliases = .ok () := by
    show (layeredRegistry.lookup "strict" "aliases.strict" >>= fun _ => .ok ()) = _
    rw [lookup_layered]
    rfl
  show (layeredRegistry.validateAliases >>= fun _ => .ok layeredRegistry) = _
  rw [hvalid]
  rfl

theorem unfolds_layered :
    Unfolds layeredRegistry [topEntry layeredTop] layeredSnapshot.cascade := by
  have hsets : layeredTop.StandsOn layeredRegistry [layeredBase] := .cons (lookup_layered _) .nil
  have hbelow : Unfolds layeredRegistry (entriesBelow (topEntry layeredTop) layeredBase)
      (entriesBelow (topEntry layeredTop) layeredBase) :=
    .refl_of_bases_eq_nil (by simp [entriesBelow, layeredBase])
  exact .cons hsets (by simp [topEntry]) hbelow .nil

theorem ofDocument_layered : Snapshot.ofDocument layered = .ok layeredSnapshot := by
  have hignores : loadIgnores layered.ignores = .ok layeredSnapshot.ignores := by decide +kernel
  have hfragments : Fragment.loadAll layered.fragments = .ok [layeredTop] := rfl
  have hcascade : Snapshot.ofFragments [layeredTop] layeredRegistry layeredSnapshot.ignores
      layered.options = .ok layeredSnapshot :=
    Snapshot.ofFragments_eq_ok_iff.2 ⟨_, unfolds_layered, by decide, rfl⟩
  exact Snapshot.ofDocument_eq_ok_iff.2
    ⟨_, _, _, hignores, ofDeclarations_layered, hfragments, hcascade⟩

/-! ## Section 6: Resolving -/

/-- Resolving a path, after whatever calls, gives the configuration that the walk over the
    document gives for the normalized path. -/
theorem resolve_eq_iff_resolvesTo {d : Document} {s : Snapshot}
    (h : Snapshot.ofDocument d = .ok s) (calls : List Call) (path : String) (c : Configuration) :
    (((LiveSnapshot.fresh s).performAll calls).2.resolve path).1.configuration = c ↔
      d.ResolvesTo (normalizePath path) c := by
  have hresolves := Snapshot.resolvesTo_compute h (normalizePath path)
  rw [LiveSnapshot.configuration_resolve_performAll]
  constructor
  · rintro rfl
    exact hresolves
  · intro hc
    exact hresolves.unique hc

/-- The rule set counts for scripts only, since the fragment that is built on it does. -/
theorem resolve_eq_iff_resolvesTo_layered :
    Snapshot.ofDocument layered = .ok layeredSnapshot ∧
    layered.ResolvesTo "a.ts"
      { rules := .ofList
          [(⟨"no-var"⟩, { severity := .error }), (⟨"eqeqeq"⟩, { severity := .warn })] } ∧
    layered.ResolvesTo "b.css" {} ∧ layered.ResolvesTo "gen" .ofIgnored := by
  refine ⟨ofDocument_layered, ?_, ?_, ?_⟩
  · exact (resolve_eq_iff_resolvesTo ofDocument_layered [.resolve "gen"] "./a.ts" _).1 rfl
  · exact (resolve_eq_iff_resolvesTo ofDocument_layered [.resolve "a.ts"] "b.css" _).1 rfl
  · exact (resolve_eq_iff_resolvesTo ofDocument_layered [] "./gen" _).1 rfl

end RuleCascade
