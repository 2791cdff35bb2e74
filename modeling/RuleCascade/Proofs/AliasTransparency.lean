import RuleCascade.Proofs.HierarchicalResolution
import RuleCascade.Proofs.LoadedFragments

/-! # Documents without aliases

    An alias is only a spelling. When every reference that resolves is replaced
    by the name of the rule set that it stands for, the aliases can go: the
    document still loads, and nobody who asks for configurations or explanations
    sees a difference.

    References are renamed on every level, from declared fragments to entries
    of the cascade, and each operation of loading and expansion commutes with
    renaming. The new names are canonical, so a lookup finds at once the rule
    set that the old reference led to.

    Main statement: `ofDocument_withoutAliases`.
-/

namespace RuleCascade

open Expansion

/-! ## Section 1: Canonical names -/

namespace Registry

/-- Who asks only matters for messages. -/
theorem lookupFrom_eq_ok_of_requestedBy {r : Registry} {name requestedBy : String}
    {walk : List String} {s : RuleSet} (h : r.lookupFrom requestedBy walk name = .ok s)
    (other : String) : r.lookupFrom other walk name = .ok s := by
  fun_induction lookupFrom r requestedBy walk name with
  | case1 walk name found hfound =>
    cases h
    exact lookupFrom_of_ruleSet? walk hfound
  | case2 => cases h
  | case3 => cases h
  | case4 walk name hset target halias hnew ih =>
    -- the same alias is followed, whoever asks
    rw [lookupFrom_of_alias hset halias hnew]
    exact ih h

/-- The name of the rule set that a reference stands for; a reference that stands for nothing
    is left as it is. -/
def canonical (r : Registry) (reference : String) : String :=
  match r.canonicalName reference "" with
  | .ok name => name
  | .error _ => reference

theorem canonical_of_lookup {r : Registry} {reference requestedBy : String} {s : RuleSet}
    (h : r.lookup reference requestedBy = .ok s) : r.canonical reference = s.name := by
  have hset : r.lookup reference "" = .ok s := lookupFrom_eq_ok_of_requestedBy h ""
  rw [canonical, canonicalName, hset]
  rfl

end Registry

/-! ## Section 2: Renaming references -/

section references

variable (rename : String → String)

/-- A declared fragment with its references renamed. -/
def FragmentDeclaration.renameBases (d : FragmentDeclaration) : FragmentDeclaration :=
  { d with bases := d.bases.map (List.map rename) }

/-- A fragment with its references renamed. -/
def Fragment.renameBases (f : Fragment) : Fragment :=
  { f with bases := f.bases.map rename }

/-- A rule set with the references in its fragments renamed. -/
def RuleSet.renameBases (s : RuleSet) : RuleSet :=
  { s with fragments := s.fragments.map (Fragment.renameBases rename) }

/-- The rule sets of a registry with the references in them renamed, and no aliases. -/
def Registry.renameBases (r : Registry) : Registry :=
  { ruleSets := r.ruleSets.mapValues (List.map (Fragment.renameBases rename)) }

/-- An entry with the references renamed in its fragment and in those it inherits from. -/
def Entry.renameBases (e : Entry) : Entry :=
  { e with
    fragment := e.fragment.renameBases rename
    scope := e.scope.map (Fragment.renameBases rename) }

/-- A snapshot with the references in its cascade renamed. -/
def Snapshot.renameBases (s : Snapshot) : Snapshot :=
  { s with cascade := s.cascade.map (Entry.renameBases rename) }

/-- A document with its references renamed, and no aliases. -/
def Document.renameBases (d : Document) : Document :=
  { d with
    fragments := d.fragments.map (FragmentDeclaration.renameBases rename)
    ruleSets := d.ruleSets.mapValues (List.map (FragmentDeclaration.renameBases rename))
    aliases := .empty }

end references

/-- The document that says the same without aliases: every reference that resolves is replaced
    by the name of its rule set. -/
def Document.withoutAliases (d : Document) : Except CascadeError Document := do
  let registry ← Registry.ofDeclarations d.ruleSets d.aliases
  return d.renameBases registry.canonical

/-! ## Section 3: Loading -/

section loading

variable {rename : String → String}

/-- Names that show are renamed to names that show. -/
def KeepsShown (rename : String → String) : Prop :=
  ∀ name, Text.isBlankText name = false → Text.isBlankText (rename name) = false

theorem FragmentDeclaration.isEmpty_renameBases (d : FragmentDeclaration) :
    (d.renameBases rename).isEmpty = d.isEmpty := by
  simp [isEmpty, renameBases]

namespace Fragment

theorem checkBases_map (hrename : KeepsShown rename) {bases : List String}
    (h : checkBases bases = .ok ()) : checkBases (bases.map rename) = .ok () := by
  have hshown : ∀ name ∈ bases, Text.isBlankText name = false := by
    unfold checkBases at h
    split at h
    · cases h
    · rename_i hnone
      exact List.findIdx?_eq_none_iff.1 hnone
  have hnone : (bases.map rename).findIdx? Text.isBlankText = none := by
    rw [List.findIdx?_eq_none_iff]
    intro name hname
    obtain ⟨old, hold, rfl⟩ := List.mem_map.1 hname
    exact hrename old (hshown old hold)
  rw [checkBases, hnone]

theorem Loads.renameBases (hrename : KeepsShown rename) {d : FragmentDeclaration}
    {origin : String} {f : Fragment} (h : Loads d origin f) :
    Loads (d.renameBases rename) origin (f.renameBases rename) := by
  obtain ⟨hbases, hf⟩ := h.bases
  have hrenamed : (d.bases.map (List.map rename)).getD [] = (d.bases.getD []).map rename := by
    cases d.bases <;> rfl
  -- only the check of the references sees a difference
  refine { h with declares := ?_, bases := ?_ }
  · rw [FragmentDeclaration.isEmpty_renameBases, h.declares]
  · unfold FragmentDeclaration.renameBases Fragment.renameBases
    rw [hrenamed, hf]
    exact ⟨checkBases_map hrename hbases, rfl⟩

theorem load_renameBases (hrename : KeepsShown rename) {d : FragmentDeclaration} {origin : String}
    {f : Fragment} (h : load d origin = .ok f) :
    load (d.renameBases rename) origin = .ok (f.renameBases rename) :=
  load_eq_ok_iff_loads.2 ((load_eq_ok_iff_loads.1 h).renameBases hrename)

theorem loadFrom_map (hrename : KeepsShown rename) {position : Nat → String} {index : Nat}
    {declarations : List FragmentDeclaration} {fragments : List Fragment}
    (h : loadFrom position index declarations = .ok fragments) :
    loadFrom position index (declarations.map (.renameBases rename)) =
      .ok (fragments.map (.renameBases rename)) := by
  induction declarations generalizing index fragments with
  | nil =>
    cases h
    rfl
  | cons d rest ih =>
    obtain ⟨first, hfirst, h⟩ := exists_ok_of_bind_eq_ok h
    obtain ⟨others, hothers, h⟩ := exists_ok_of_bind_eq_ok h
    cases h
    rw [List.map_cons, loadFrom, bind_of_eq_ok (load_renameBases hrename hfirst),
      bind_of_eq_ok (ih hothers)]
    rfl

end Fragment

theorem RuleSet.load_map (hrename : KeepsShown rename) {name : String}
    {declarations : List FragmentDeclaration} {s : RuleSet} (h : load name declarations = .ok s) :
    load name (declarations.map (.renameBases rename)) = .ok (s.renameBases rename) := by
  unfold load at h ⊢
  split at h
  · cases h
  rename_i hshown
  obtain ⟨fragments, hfragments, h⟩ := exists_ok_of_bind_eq_ok h
  cases h
  rw [if_neg hshown, bind_of_eq_ok (Fragment.loadFrom_map hrename hfragments)]
  rfl

/-- A rule set is loaded under the name that it is declared under, and that name shows. -/
theorem RuleSet.name_of_load {name : String} {declarations : List FragmentDeclaration} {s : RuleSet}
    (h : load name declarations = .ok s) : s.name = name ∧ Text.isBlankText name = false := by
  unfold load at h
  split at h
  · cases h
  rename_i hshown
  obtain ⟨fragments, _, h⟩ := exists_ok_of_bind_eq_ok h
  cases h
  exact ⟨rfl, by simpa using hshown⟩

namespace Registry

theorem renameBases_register (r : Registry) (s : RuleSet) :
    (r.register s).renameBases rename = (r.renameBases rename).register (s.renameBases rename) := by
  rw [renameBases, register, OrderedMap.mapValues_insert]
  rfl

theorem registerAll_map (hrename : KeepsShown rename) {r final : Registry}
    {entries : List (String × List FragmentDeclaration)} (h : registerAll r entries = .ok final) :
    registerAll (r.renameBases rename)
        (entries.map (Prod.map id (List.map (.renameBases rename)))) =
      .ok (final.renameBases rename) := by
  induction entries generalizing r with
  | nil =>
    cases h
    rfl
  | cons entry rest ih =>
    obtain ⟨s, hs, hrest⟩ := exists_ok_of_bind_eq_ok h
    have hnext := ih hrest
    rw [renameBases_register] at hnext
    rw [List.map_cons, Prod.map, registerAll, id_eq,
      bind_of_eq_ok (RuleSet.load_map hrename hs)]
    exact hnext

/-- Every name of a rule set shows. -/
def NamesShow (r : Registry) : Prop :=
  ∀ name ∈ r.ruleSets.keys, Text.isBlankText name = false

theorem namesShow_of_registerAll {r final : Registry}
    {entries : List (String × List FragmentDeclaration)} (hr : r.NamesShow)
    (h : registerAll r entries = .ok final) : final.NamesShow := by
  induction entries generalizing r with
  | nil =>
    cases h
    exact hr
  | cons entry rest ih =>
    obtain ⟨s, hs, hrest⟩ := exists_ok_of_bind_eq_ok h
    obtain ⟨hname, hshown⟩ := RuleSet.name_of_load hs
    refine ih ?_ hrest
    intro name hname'
    rw [register, OrderedMap.keys_insert] at hname'
    split at hname'
    · exact hr name hname'
    · rcases List.mem_append.1 hname' with hold | hnew
      · exact hr name hold
      · rw [List.mem_singleton.1 hnew, hname]
        exact hshown

theorem ruleSets_of_registerAliases {r final : Registry} {entries : List (String × String)}
    (h : registerAliases r entries = .ok final) : final.ruleSets = r.ruleSets := by
  induction entries generalizing r with
  | nil =>
    cases h
    rfl
  | cons entry rest ih =>
    obtain ⟨next, hnext, hrest⟩ := exists_ok_of_bind_eq_ok h
    rw [ih hrest, ruleSets_of_registerAlias hnext]

/-- The rule sets of a declared registry are those that were registered before the aliases. -/
theorem exists_registerAll_of_ofDeclarations {ruleSets : RuleSetDeclarations}
    {aliases : OrderedMap String String} {r : Registry}
    (h : ofDeclarations ruleSets aliases = .ok r) :
    ∃ sets, registerAll {} ruleSets.entries = .ok sets ∧ r.ruleSets = sets.ruleSets := by
  obtain ⟨sets, hsets, h⟩ := exists_ok_of_bind_eq_ok h
  obtain ⟨found, hfound, h⟩ := exists_ok_of_bind_eq_ok h
  obtain ⟨_, _, h⟩ := exists_ok_of_bind_eq_ok h
  cases h
  exact ⟨sets, hsets, ruleSets_of_registerAliases hfound⟩

theorem namesShow_of_ofDeclarations {ruleSets : RuleSetDeclarations}
    {aliases : OrderedMap String String} {r : Registry}
    (h : ofDeclarations ruleSets aliases = .ok r) : r.NamesShow := by
  obtain ⟨sets, hsets, heq⟩ := exists_registerAll_of_ofDeclarations h
  have hshow : sets.NamesShow := namesShow_of_registerAll (fun name hname => by simp at hname) hsets
  unfold NamesShow
  rw [heq]
  exact hshow

theorem ofDeclarations_renameBases (hrename : KeepsShown rename) {ruleSets : RuleSetDeclarations}
    {aliases : OrderedMap String String} {r : Registry}
    (h : ofDeclarations ruleSets aliases = .ok r) :
    ofDeclarations (ruleSets.mapValues (List.map (.renameBases rename))) .empty =
      .ok (r.renameBases rename) := by
  obtain ⟨sets, hsets, heq⟩ := exists_registerAll_of_ofDeclarations h
  have hrenamed : sets.renameBases rename = r.renameBases rename := by
    rw [renameBases, renameBases, heq]
  have hregistered := registerAll_map hrename hsets
  rw [hrenamed] at hregistered
  exact bind_of_eq_ok hregistered _

/-- Canonical names show if the references do. -/
theorem keepsShown_canonical {r : Registry} (h : r.NamesShow) : KeepsShown r.canonical := by
  intro reference hshown
  cases hset : r.lookup reference "" with
  | ok s =>
    rw [canonical_of_lookup hset]
    exact h s.name (mem_keys_of_lookup hset)
  | error e =>
    rw [canonical, canonicalName, hset]
    exact hshown

end Registry

end loading

/-! ## Section 4: Expansion -/

namespace Registry

variable {r : Registry}

theorem ruleSet?_renameBases (rename : String → String) (name : String) :
    (r.renameBases rename).ruleSet? name = (r.ruleSet? name).map (.renameBases rename) := by
  have hfind : (r.renameBases rename).ruleSets.find? name =
      (r.ruleSets.find? name).map (List.map (.renameBases rename)) :=
    Entries.find?_map _ name r.ruleSets.entries
  rw [ruleSet?, ruleSet?, hfind, Option.map_map, Option.map_map]
  rfl

/-- Without aliases, the canonical name of a reference stands for the same rule set. -/
theorem lookup_canonical {reference requestedBy : String} {s : RuleSet}
    (h : r.lookup reference requestedBy = .ok s) (other : String) :
    (r.renameBases r.canonical).lookup (r.canonical reference) other =
      .ok (s.renameBases r.canonical) := by
  apply lookup_of_ruleSet?
  rw [canonical_of_lookup h, ruleSet?_renameBases, ruleSet?_of_lookupFrom h]
  rfl

theorem standsOn_canonical {f : Fragment} {sets : List RuleSet} (h : f.StandsOn r sets) :
    (f.renameBases r.canonical).StandsOn (r.renameBases r.canonical)
      (sets.map (.renameBases r.canonical)) := by
  unfold Fragment.StandsOn StandFor at h ⊢
  rw [Fragment.renameBases, List.forall₂_map_left_iff, List.forall₂_map_right_iff]
  exact h.imp fun reference set hset => lookup_canonical hset _

end Registry

section entries

variable (rename : String → String)

theorem appliesTo_renameBases (e : Entry) (path : String) (language : Option String) :
    (e.renameBases rename).appliesTo path language = e.appliesTo path language := by
  simp only [Entry.appliesTo, Entry.renameBases, List.all_map]
  rfl

theorem childScope_renameBases (f : Fragment) (scope : List Fragment) :
    childScope (f.renameBases rename) (scope.map (.renameBases rename)) =
      (childScope f scope).map (.renameBases rename) := by
  show (if f.hasConstraints then _ else _) = (if f.hasConstraints then _ else _ : List _).map _
  split <;> rfl

theorem entriesBelow_renameBases (e : Entry) (s : RuleSet) :
    entriesBelow (e.renameBases rename) (s.renameBases rename) =
      (entriesBelow e s).map (.renameBases rename) := by
  rw [entriesBelow, entriesBelow, RuleSet.renameBases, List.map_map, List.map_map]
  apply List.map_congr_left
  intro f _
  show Entry.mk _ (childScope (e.fragment.renameBases rename) (e.scope.map _)) _ = Entry.mk _ _ _
  rw [childScope_renameBases]
  rfl

end entries

variable {registry : Registry}

theorem Expansion.Unfolds.canonical {entries cascade : List Entry}
    (h : Unfolds registry entries cascade) :
    Unfolds (registry.renameBases registry.canonical)
      (entries.map (.renameBases registry.canonical))
      (cascade.map (.renameBases registry.canonical)) := by
  induction h with
  | nil => exact .nil
  | @cons e sets rest below after hsets hnew _ _ ihbelow ihafter =>
    rw [List.map_cons, List.map_append, List.map_cons]
    refine .cons (Registry.standsOn_canonical hsets) ?_ ?_ ihafter
    · -- the names on the chain are those of rule sets, which keep theirs
      intro set hset
      obtain ⟨old, hold, rfl⟩ := List.mem_map.1 hset
      exact hnew old hold
    · have hchildren : (sets.map (.renameBases registry.canonical)).flatMap
          (entriesBelow (e.renameBases registry.canonical)) =
          (sets.flatMap (entriesBelow e)).map (.renameBases registry.canonical) := by
        rw [List.flatMap_map, List.map_flatMap]
        congr 1
        funext set
        exact entriesBelow_renameBases registry.canonical e set
      rw [hchildren]
      exact ihbelow

/-! ## Section 5: Snapshots -/

namespace Snapshot

variable (rename : String → String) (s : Snapshot)

theorem applicable_renameBases (path : String) (language : Option String) :
    (s.renameBases rename).applicable path language =
      (s.applicable path language).map (.renameBases rename) := by
  rw [applicable, renameBases, List.filter_map]
  congr 1
  apply List.filter_congr
  intro e _
  exact appliesTo_renameBases rename e path language

theorem compute_renameBases (path : String) :
    (s.renameBases rename).compute path = s.compute path := by
  have hmerge : ∀ entries : List Entry,
      Configuration.merge ((entries.map (.renameBases rename)).map Entry.fragment) =
        Configuration.merge (entries.map Entry.fragment) := by
    intro entries
    -- layering reads the rules and the shared options of a fragment, not its references
    rw [Configuration.merge, Configuration.merge, Configuration.applyAll, Configuration.applyAll,
      List.map_map, List.foldl_map, List.foldl_map]
    rfl
  show (if (s.ignoredBy? path).isSome then _ else Configuration.merge
    (((s.renameBases rename).applicable path (s.languages.languageOf path)).map _)) = _
  rw [applicable_renameBases, hmerge]
  rfl

theorem explain_renameBases (path : String) :
    (s.renameBases rename).explain path = s.explain path := by
  have happlied : ∀ language, ((s.renameBases rename).applicable (normalizePath path) language).map
      Entry.provenance = (s.applicable (normalizePath path) language).map Entry.provenance := by
    intro language
    rw [applicable_renameBases, List.map_map]
    rfl
  have hignored : ∀ path, (s.renameBases rename).ignoredBy? path = s.ignoredBy? path := fun _ => rfl
  unfold explain
  simp only [hignored, happlied]
  rfl

end Snapshot

/-- What the queries show of an entry: its label, its route and its provenance. -/
def Entry.shown (e : Entry) : String × List String × String :=
  (e.fragment.label, e.route, e.provenance)

theorem Snapshot.shown_renameBases (rename : String → String) (s : Snapshot) :
    (s.renameBases rename).cascade.map Entry.shown = s.cascade.map Entry.shown := by
  rw [renameBases, List.map_map]
  rfl

theorem Snapshot.ofFragments_canonical {fragments : List Fragment} {ignores : FileFilter}
    {options : EngineOptions} {s : Snapshot}
    (h : ofFragments fragments registry ignores options = .ok s) :
    ofFragments (fragments.map (.renameBases registry.canonical))
        (registry.renameBases registry.canonical) ignores options =
      .ok (s.renameBases registry.canonical) := by
  obtain ⟨cascade, hunfolds, hlimit, rfl⟩ := ofFragments_eq_ok_iff.1 h
  refine ofFragments_eq_ok_iff.2 ⟨_, ?_, ?_, rfl⟩
  · have hrenamed := hunfolds.canonical
    rw [List.map_map] at hrenamed ⊢
    exact hrenamed
  · rw [List.length_map]
    exact hlimit

/-! ## Section 6: Documents -/

/-- Of a document that loads, the document without aliases loads as well. The cascade shows the
    same labels, routes and provenances in the same order, and after any calls all paths resolve
    to the same configurations and have the same explanations. -/
theorem ofDocument_withoutAliases {d : Document} {s : Snapshot}
    (h : Snapshot.ofDocument d = .ok s) :
    ∃ d' s', d.withoutAliases = .ok d' ∧ d'.aliases = .empty ∧ Snapshot.ofDocument d' = .ok s' ∧
      s'.cascade.map Entry.shown = s.cascade.map Entry.shown ∧
      (∀ calls calls' path,
        (((LiveSnapshot.fresh s').performAll calls').2.resolve path).1.configuration =
          (((LiveSnapshot.fresh s).performAll calls).2.resolve path).1.configuration) ∧
      ∀ path, s'.explain path = s.explain path := by
  obtain ⟨ignores, registry, fragments, hignores, hregistry, hfragments, hcascade⟩ :=
    Snapshot.ofDocument_eq_ok_iff.1 h
  have hshown : KeepsShown registry.canonical :=
    Registry.keepsShown_canonical (Registry.namesShow_of_ofDeclarations hregistry)
  have hload : Snapshot.ofDocument (d.renameBases registry.canonical) =
      .ok (s.renameBases registry.canonical) := by
    refine Snapshot.ofDocument_eq_ok_iff.2 ⟨ignores, registry.renameBases registry.canonical,
      fragments.map (.renameBases registry.canonical), hignores, ?_, ?_, ?_⟩
    · exact Registry.ofDeclarations_renameBases hshown hregistry
    · exact Fragment.loadFrom_map hshown hfragments
    · exact Snapshot.ofFragments_canonical hcascade
  refine ⟨d.renameBases registry.canonical, s.renameBases registry.canonical,
    bind_of_eq_ok hregistry _, rfl, hload, Snapshot.shown_renameBases _ s, ?_, ?_⟩
  · intro calls calls' path
    rw [LiveSnapshot.configuration_resolve_performAll,
      LiveSnapshot.configuration_resolve_performAll, Snapshot.compute_renameBases]
  · exact Snapshot.explain_renameBases registry.canonical s

/-- The layered document, built on the rule set by its own name. -/
def layeredPlain : Document :=
  { layered with
    fragments := layered.fragments.map fun d => { d with bases := some ["base"] }
    aliases := .empty }

theorem withoutAliases_layered : layered.withoutAliases = .ok layeredPlain := by
  have hcanonical : layeredRegistry.canonical "strict" = "base" :=
    Registry.canonical_of_lookup (lookup_layered "")
  rw [Document.withoutAliases, bind_of_eq_ok ofDeclarations_layered]
  simp only [Document.renameBases, layered, layeredPlain, List.map_cons, List.map_nil,
    FragmentDeclaration.renameBases, Option.map_some, hcanonical]
  rfl

/-- The file still has both rules, of which one comes from the rule set. -/
theorem ofDocument_withoutAliases_layered :
    Snapshot.ofDocument layered = .ok layeredSnapshot ∧
    ∃ s', Snapshot.ofDocument layeredPlain = .ok s' ∧
      s'.cascade.map Entry.shown =
        [("ruleSets.base[0]", ["base"], "ruleSets.base[0] (via base)"),
          ("fragments[0]", [], "fragments[0]")] ∧
      (((LiveSnapshot.fresh s').performAll []).2.resolve "a.ts").1.configuration =
        (((LiveSnapshot.fresh layeredSnapshot).performAll []).2.resolve
          "a.ts").1.configuration := by
  obtain ⟨d', s', hplain, _, hload, hshown, hresolve, _⟩ :=
    ofDocument_withoutAliases ofDocument_layered
  rw [withoutAliases_layered] at hplain
  cases hplain
  exact ⟨ofDocument_layered, s', hload, hshown, hresolve [] [] "a.ts"⟩

end RuleCascade
