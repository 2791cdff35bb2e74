import Mathlib.Data.List.Perm.Basic
import RuleCascade.Proofs.DeclaredRegistry

/-! # The order of declared names

    Rule sets and aliases are declared in maps that remember their order, and
    loading walks through them in that order. Nothing that is loaded depends on
    it. Each rule set is loaded by itself, and each alias is checked against
    all rule sets, whether they are declared before it or after it.

    Two registries with the same names answer every lookup alike, down to the
    error. Expansion knows a registry by its lookups alone, so it gives the
    same cascade.

    Main statement: `ofDocument_of_reorders`.
-/

namespace RuleCascade

open Expansion

/-! ## Section 1: Registries with the same names -/

namespace Registry

/-- Under every name, the registries have the same rule set and the same alias. -/
structure Agrees (r other : Registry) : Prop where
  ruleSets : ∀ name, r.ruleSets.find? name = other.ruleSets.find? name
  aliases : ∀ name, r.aliases.find? name = other.aliases.find? name

variable {r other : Registry}

theorem Agrees.ruleSet? (h : r.Agrees other) (name : String) :
    r.ruleSet? name = other.ruleSet? name := by
  rw [Registry.ruleSet?, Registry.ruleSet?, h.ruleSets]

/-- A walk along the aliases takes the same steps in both, and ends alike. -/
theorem Agrees.lookupFrom (h : r.Agrees other) (requestedBy : String) (walk : List String)
    (name : String) :
    other.lookupFrom requestedBy walk name = r.lookupFrom requestedBy walk name := by
  fun_induction Registry.lookupFrom r requestedBy walk name with
  | case1 walk name found hfound =>
    rw [h.ruleSet?] at hfound
    exact lookupFrom_of_ruleSet? walk hfound
  | case2 walk name hset halias =>
    rw [h.ruleSet?] at hset
    rw [h.aliases] at halias
    exact lookupFrom_of_unknown walk hset halias
  | case3 walk name hset target halias hfollowed =>
    rw [h.ruleSet?] at hset
    rw [h.aliases] at halias
    exact lookupFrom_of_followed hset halias hfollowed
  | case4 walk name hset target halias hnew ih =>
    rw [h.ruleSet?] at hset
    rw [h.aliases] at halias
    rw [lookupFrom_of_alias hset halias hnew]
    exact ih

theorem Agrees.lookup (h : r.Agrees other) (reference requestedBy : String) :
    other.lookup reference requestedBy = r.lookup reference requestedBy :=
  h.lookupFrom requestedBy [] reference

theorem Agrees.standsOn (h : r.Agrees other) {f : Fragment} {sets : List RuleSet}
    (hsets : f.StandsOn r sets) : f.StandsOn other sets := by
  apply hsets.imp
  intro reference set hset
  rw [h.lookup]
  exact hset

theorem Agrees.unfolds (h : r.Agrees other) {entries cascade : List Entry}
    (hunfolds : Unfolds r entries cascade) : Unfolds other entries cascade := by
  induction hunfolds with
  | nil => exact .nil
  | cons hsets hnew _ _ ihbelow ihafter => exact .cons (h.standsOn hsets) hnew ihbelow ihafter

/-! ## Section 2: Loading in another order -/

theorem ofDeclarations_of_perm {ruleSets otherSets : RuleSetDeclarations}
    {aliases otherAliases : OrderedMap String String}
    (hsets : ruleSets.entries.Perm otherSets.entries)
    (haliases : aliases.entries.Perm otherAliases.entries)
    (h : ofDeclarations ruleSets aliases = .ok r) :
    ∃ other, ofDeclarations otherSets otherAliases = .ok other ∧ r.Agrees other := by
  obtain ⟨hloads, rfl, hadmits, hresolve⟩ := ofDeclarations_eq_ok_iff.1 h
  -- each rule set is loaded by itself, so the loaded ones are reordered alike
  obtain ⟨reordered, hreordered, hperm⟩ := List.perm_comp_forall₂ hsets.symm hloads
  have hnodup : (Entries.keys reordered).Nodup :=
    (hperm.map Prod.fst).nodup_iff.2 r.ruleSets.nodup_keys
  have hagrees : r.Agrees ⟨⟨reordered, hnodup⟩, otherAliases⟩ :=
    ⟨Entries.find?_of_perm hperm.symm r.ruleSets.nodup_keys,
      Entries.find?_of_perm haliases r.aliases.nodup_keys⟩
  refine ⟨⟨⟨reordered, hnodup⟩, otherAliases⟩,
    ofDeclarations_eq_ok_iff.2 ⟨hreordered, rfl, ?_, ?_⟩, hagrees⟩
  · -- an alias is admitted by what the registry finds under its name
    intro entry hentry
    obtain ⟨hname, htarget, hfree⟩ := hadmits entry (haliases.mem_iff.2 hentry)
    refine ⟨hname, htarget, ?_⟩
    rw [OrderedMap.contains, hagrees.ruleSets] at hfree
    exact hfree
  · intro name hname requestedBy
    have hkey : name ∈ r.aliases.keys := (haliases.map Prod.fst).mem_iff.2 hname
    obtain ⟨s, hs⟩ := hresolve name hkey requestedBy
    exact ⟨s, (hagrees.lookup name requestedBy).trans hs⟩

end Registry

/-! ## Section 3: Documents -/

/-- The documents declare the same, but for the order of rule sets and the order of aliases. -/
structure Document.Reorders (d e : Document) : Prop where
  ruleSets : d.ruleSets.entries.Perm e.ruleSets.entries
  aliases : d.aliases.entries.Perm e.aliases.entries
  fragments_eq : d.fragments = e.fragments
  ignores_eq : d.ignores = e.ignores
  options_eq : d.options = e.options

theorem Document.Reorders.symm {d e : Document} (h : d.Reorders e) : e.Reorders d :=
  ⟨h.ruleSets.symm, h.aliases.symm, h.fragments_eq.symm, h.ignores_eq.symm, h.options_eq.symm⟩

/-- A snapshot of the one document is a snapshot of the other. -/
theorem Snapshot.ofDocument_eq_ok_of_reorders {d e : Document} {s : Snapshot} (h : d.Reorders e)
    (hs : ofDocument d = .ok s) : ofDocument e = .ok s := by
  obtain ⟨ignores, registry, fragments, hignores, hregistry, hfragments, hs⟩ :=
    ofDocument_eq_ok_iff.1 hs
  obtain ⟨other, hother, hagrees⟩ :=
    Registry.ofDeclarations_of_perm h.ruleSets h.aliases hregistry
  obtain ⟨cascade, hunfolds, hlimit, rfl⟩ := ofFragments_eq_ok_iff.1 hs
  rw [h.ignores_eq] at hignores
  rw [h.fragments_eq] at hfragments
  rw [h.options_eq] at hlimit ⊢
  have hcascade : ofFragments fragments other ignores e.options =
      .ok { cascade, ignores, languages := .withOverrides e.options.languages,
            cacheCapacity := capacityOf e.options } :=
    ofFragments_eq_ok_iff.2 ⟨cascade, hagrees.unfolds hunfolds, hlimit, rfl⟩
  exact ofDocument_eq_ok_iff.2
    ⟨ignores, other, fragments, hignores, hother, hfragments, hcascade⟩

/-- The order in which a document declares its rule sets and its aliases decides neither whether
    it loads nor what it loads to: the cascade is the same, and after any calls all paths resolve
    to the same configurations, have the same explanations and are ignored alike. -/
theorem ofDocument_of_reorders {d e : Document} (h : d.Reorders e) :
    ((∃ s, Snapshot.ofDocument d = .ok s) ↔ ∃ t, Snapshot.ofDocument e = .ok t) ∧
    ∀ s t, Snapshot.ofDocument d = .ok s → Snapshot.ofDocument e = .ok t →
      t.cascade = s.cascade ∧
      (∀ calls calls' path,
        (((LiveSnapshot.fresh t).performAll calls').2.resolve path).1.configuration =
          (((LiveSnapshot.fresh s).performAll calls).2.resolve path).1.configuration) ∧
      (∀ path, t.explain path = s.explain path) ∧ ∀ path, t.isIgnored path = s.isIgnored path := by
  refine ⟨⟨?_, ?_⟩, ?_⟩
  · rintro ⟨s, hs⟩
    exact ⟨s, Snapshot.ofDocument_eq_ok_of_reorders h hs⟩
  · rintro ⟨t, ht⟩
    exact ⟨t, Snapshot.ofDocument_eq_ok_of_reorders h.symm ht⟩
  · intro s t hs ht
    have hsame := Snapshot.ofDocument_eq_ok_of_reorders h hs
    rw [ht] at hsame
    cases hsame
    refine ⟨rfl, ?_, fun _ => rfl, fun _ => rfl⟩
    intro calls calls' path
    rw [LiveSnapshot.configuration_resolve_performAll,
      LiveSnapshot.configuration_resolve_performAll]

/-! ## Section 4: The chain of aliases in another order -/

def chainedReversed : Document where
  fragments := chained.fragments
  ruleSets := .ofList [
    ("extra", [{ bases := some ["std"] }]),
    ("base", [{ rules := some (.ofList [("no-var", .string "error")]) }])]
  aliases := .ofList [("std", "base"), ("all", "std")]

def chainedBase : RuleSet where
  name := "base"
  fragments := [
    { origin := "ruleSets.base[0]", rules := .ofList [(⟨"no-var"⟩, { severity := .error })] }]

def chainedExtra : RuleSet where
  name := "extra"
  fragments := [{ origin := "ruleSets.extra[0]", bases := ["std"] }]

def chainedTop : Fragment where
  origin := "fragments[0]"
  bases := ["all", "extra"]

/-- The rules of `base` count twice: by themselves, and since `extra` is built on them. -/
def chainedCascade : List Entry :=
  chainedBase.fragments.map (⟨·, [], ["base"]⟩) ++
  chainedBase.fragments.map (⟨·, [], ["base", "extra"]⟩) ++
  chainedExtra.fragments.map (⟨·, [], ["extra"]⟩) ++ [topEntry chainedTop]

theorem unfolds_chained : Unfolds chainedRegistry [topEntry chainedTop] chainedCascade := by
  have hextra : Unfolds chainedRegistry (entriesBelow (topEntry chainedTop) chainedExtra)
      (chainedBase.fragments.map (⟨·, [], ["base", "extra"]⟩) ++
        chainedExtra.fragments.map (⟨·, [], ["extra"]⟩)) := by
    have hsets : chainedExtra.fragments[0].StandsOn chainedRegistry [chainedBase] :=
      .cons (lookup_chained (by decide) _) .nil
    exact .cons hsets (by decide) (.refl_of_bases_eq_nil (by decide)) .nil
  have hbelow := Unfolds.append
    (.refl_of_bases_eq_nil (by decide) :
      Unfolds chainedRegistry (entriesBelow (topEntry chainedTop) chainedBase) _) hextra
  have hsets : chainedTop.StandsOn chainedRegistry [chainedBase, chainedExtra] :=
    .cons (lookup_chained (by decide) _) (.cons (Registry.lookup_of_ruleSet? rfl) .nil)
  exact .cons hsets (by decide) hbelow .nil

theorem ofDocument_chained : Snapshot.ofDocument chained =
    .ok ⟨chainedCascade, {}, .withOverrides .empty, some 65536⟩ := by
  have hfragments : Fragment.loadAll chained.fragments = .ok [chainedTop] := rfl
  have hcascade : Snapshot.ofFragments [chainedTop] chainedRegistry {} chained.options =
      .ok ⟨chainedCascade, {}, .withOverrides .empty, some 65536⟩ :=
    Snapshot.ofFragments_eq_ok_iff.2 ⟨_, unfolds_chained, by decide, rfl⟩
  exact Snapshot.ofDocument_eq_ok_iff.2
    ⟨_, _, _, rfl, ofDeclarations_chained, hfragments, hcascade⟩

theorem reorders_chained : chained.Reorders chainedReversed where
  ruleSets := .swap _ _ []
  aliases := .swap _ _ []
  fragments_eq := rfl
  ignores_eq := rfl
  options_eq := rfl

theorem ofDocument_of_reorders_chained :
    chained.Reorders chainedReversed ∧
    ∃ s, Snapshot.ofDocument chainedReversed = .ok s ∧ s.cascade = chainedCascade := by
  obtain ⟨hloads, hsame⟩ := ofDocument_of_reorders reorders_chained
  obtain ⟨s, hs⟩ := hloads.1 ⟨_, ofDocument_chained⟩
  exact ⟨reorders_chained, s, hs, (hsame _ s ofDocument_chained hs).1⟩

end RuleCascade
