import RuleCascade.Proofs.AliasChains
import RuleCascade.Proofs.AliasTransparency

/-! # Registries that documents declare

    Declared rule sets and aliases make a registry in three passes: all rule
    sets are loaded and registered, then all aliases, and then every alias is
    looked up. The names of a declared map do not repeat, so nothing is ever
    replaced, and the registry holds what was declared, in the same order.

    The last pass leaves an invariant behind: every alias stands for a rule
    set. Registering a rule set keeps it. A chain of aliases that comes to the
    name of the rule set ends there from now on, and every other chain ends
    where it did.

    Main statement: `settled_of_ofDeclarations`. Whatever is registered later,
    the names of the registry are exactly the references that resolve.
-/

namespace RuleCascade

open Relation

/-! ## Section 1: Maps that are filled with new names -/

namespace OrderedMap

variable {α β γ : Type}

/-- None of the names of the entries is a key. -/
def FreshFor (m : OrderedMap α β) (entries : List (α × γ)) : Prop :=
  ∀ name ∈ Entries.keys entries, name ∉ m.keys

theorem freshFor_empty (entries : List (α × γ)) : FreshFor (empty : OrderedMap α β) entries :=
  fun _ _ hmem => List.not_mem_nil hmem

theorem FreshFor.insert [DecidableEq α] {m : OrderedMap α β} {entry : α × γ}
    {rest : List (α × γ)} (h : FreshFor m (entry :: rest))
    (hnodup : (Entries.keys (entry :: rest)).Nodup) (value : β) :
    (m.insert entry.1 value).entries = m.entries ++ [(entry.1, value)] ∧
      FreshFor (m.insert entry.1 value) rest := by
  have hkey : entry.1 ∉ m.keys := h entry.1 List.mem_cons_self
  refine ⟨Entries.insert_of_notMem hkey value, ?_⟩
  intro name hname hmem
  rw [keys_insert, if_neg hkey] at hmem
  rcases List.mem_append.1 hmem with hold | hnew
  · exact h name (List.mem_cons_of_mem _ hname) hold
  · obtain rfl := List.mem_singleton.1 hnew
    exact (List.nodup_cons.1 hnodup).1 hname

end OrderedMap

namespace Registry

/-! ## Section 2: The three passes -/

theorem ext_entries {r other : Registry} (hsets : r.ruleSets.entries = other.ruleSets.entries)
    (haliases : r.aliases.entries = other.aliases.entries) : r = other := by
  obtain ⟨sets, aliases⟩ := r
  obtain ⟨otherSets, otherAliases⟩ := other
  obtain rfl : sets = otherSets := OrderedMap.ext hsets
  obtain rfl : aliases = otherAliases := OrderedMap.ext haliases
  rfl

/-- The declared entry loads to the entry of the registry. -/
def LoadsTo (declared : String × List FragmentDeclaration) (loaded : String × List Fragment) :
    Prop :=
  RuleSet.load declared.1 declared.2 = .ok ⟨loaded.1, loaded.2⟩

theorem registerAll_eq_ok_iff {r final : Registry}
    {entries : List (String × List FragmentDeclaration)} (hfresh : r.ruleSets.FreshFor entries)
    (hnodup : (Entries.keys entries).Nodup) :
    registerAll r entries = .ok final ↔
      ∃ loaded, List.Forall₂ LoadsTo entries loaded ∧
        final.ruleSets.entries = r.ruleSets.entries ++ loaded ∧ final.aliases = r.aliases := by
  induction entries generalizing r with
  | nil =>
    constructor
    · intro h
      cases h
      exact ⟨[], .nil, (List.append_nil _).symm, rfl⟩
    · rintro ⟨loaded, hloads, hsets, haliases⟩
      cases hloads
      rw [List.append_nil] at hsets
      rw [registerAll, ext_entries hsets (congrArg OrderedMap.entries haliases)]
  | cons entry rest ih =>
    have hrest := (List.nodup_cons.1 hnodup).2
    constructor
    · intro h
      obtain ⟨s, hs, h⟩ := exists_ok_of_bind_eq_ok h
      have hname : s.name = entry.1 := (RuleSet.name_of_load hs).1
      obtain ⟨happend, hnext⟩ := hfresh.insert hnodup s.fragments
      rw [← hname] at happend hnext
      obtain ⟨loaded, hloads, hsets, haliases⟩ := (ih hnext hrest).1 h
      refine ⟨(s.name, s.fragments) :: loaded, .cons hs hloads, ?_, haliases⟩
      rw [hsets, register, happend, List.append_assoc, List.singleton_append]
    · rintro ⟨loaded, hloads, hsets, haliases⟩
      cases hloads with
      | @cons _ first _ others hfirst hothers =>
        have hname : first.1 = entry.1 := (RuleSet.name_of_load hfirst).1
        obtain ⟨happend, hnext⟩ := hfresh.insert hnodup first.2
        rw [← hname] at happend hnext
        rw [registerAll, bind_of_eq_ok hfirst]
        refine (ih hnext hrest).2 ⟨others, hothers, ?_, haliases⟩
        rw [hsets, register, happend, List.append_assoc, List.singleton_append]

/-- An alias can be declared over the rule sets of the registry: its two names show, and no rule
    set has its name. -/
def Admits (r : Registry) (entry : String × String) : Prop :=
  Text.isBlankText entry.1 = false ∧ Text.isBlankText entry.2 = false ∧
    r.ruleSets.contains entry.1 = false

instance (r : Registry) : DecidablePred r.Admits := fun entry =>
  inferInstanceAs (Decidable (Text.isBlankText entry.1 = false ∧
    Text.isBlankText entry.2 = false ∧ r.ruleSets.contains entry.1 = false))

theorem registerAlias_eq_ok_iff {r next : Registry} {name target : String} :
    r.registerAlias name target = .ok next ↔
      r.Admits (name, target) ∧ next = { r with aliases := r.aliases.insert name target } := by
  unfold registerAlias Admits
  constructor
  · intro h
    split at h
    · cases h
    rename_i hshow
    split at h
    · cases h
    rename_i hfree
    cases h
    obtain ⟨hname, htarget⟩ := Bool.or_eq_false_iff.1 (Bool.eq_false_iff.2 hshow)
    exact ⟨⟨hname, htarget, Bool.eq_false_iff.2 hfree⟩, rfl⟩
  · rintro ⟨⟨hname, htarget, hfree⟩, rfl⟩
    simp [hname, htarget, hfree]

theorem registerAliases_eq_ok_iff {r final : Registry} {entries : List (String × String)}
    (hfresh : r.aliases.FreshFor entries) (hnodup : (Entries.keys entries).Nodup) :
    registerAliases r entries = .ok final ↔
      (∀ entry ∈ entries, r.Admits entry) ∧ final.ruleSets = r.ruleSets ∧
        final.aliases.entries = r.aliases.entries ++ entries := by
  induction entries generalizing r with
  | nil =>
    constructor
    · intro h
      cases h
      exact ⟨List.forall_mem_nil _, rfl, (List.append_nil _).symm⟩
    · rintro ⟨_, hsets, haliases⟩
      rw [List.append_nil] at haliases
      rw [registerAliases, ext_entries (congrArg OrderedMap.entries hsets) haliases]
  | cons entry rest ih =>
    have hrest := (List.nodup_cons.1 hnodup).2
    obtain ⟨happend, hnext⟩ := hfresh.insert hnodup entry.2
    have hjoin : r.aliases.entries ++ entry :: rest =
        (r.aliases.insert entry.1 entry.2).entries ++ rest := by
      rw [happend, List.append_assoc, List.singleton_append]
    constructor
    · intro h
      obtain ⟨next, hregister, h⟩ := exists_ok_of_bind_eq_ok h
      obtain ⟨hadmits, rfl⟩ := registerAlias_eq_ok_iff.1 hregister
      obtain ⟨hothers, hsets, haliases⟩ := (ih hnext hrest).1 h
      exact ⟨List.forall_mem_cons.2 ⟨hadmits, hothers⟩, hsets, haliases.trans hjoin.symm⟩
    · rintro ⟨hadmits, hsets, haliases⟩
      obtain ⟨hfirst, hothers⟩ := List.forall_mem_cons.1 hadmits
      rw [registerAliases, bind_of_eq_ok (registerAlias_eq_ok_iff.2 ⟨hfirst, rfl⟩)]
      exact (ih hnext hrest).2 ⟨hothers, hsets, haliases.trans hjoin⟩

/-- Every alias stands for a rule set, whoever asks. -/
def AliasesResolve (r : Registry) : Prop :=
  ∀ name ∈ r.aliases.keys, ∀ requestedBy, ∃ s, r.lookup name requestedBy = .ok s

theorem validateEach_eq_ok_iff {r : Registry} {names : List String} :
    r.validateEach names = .ok () ↔
      ∀ name ∈ names, ∀ requestedBy, ∃ s, r.lookup name requestedBy = .ok s := by
  induction names with
  | nil => simp [validateEach]
  | cons name rest ih =>
    rw [List.forall_mem_cons, ← ih]
    constructor
    · intro h
      obtain ⟨s, hs, h⟩ := exists_ok_of_bind_eq_ok h
      exact ⟨fun requestedBy => ⟨s, lookupFrom_eq_ok_of_requestedBy hs requestedBy⟩, h⟩
    · rintro ⟨hname, hrest⟩
      obtain ⟨s, hs⟩ := hname ("aliases." ++ name)
      rw [validateEach, bind_of_eq_ok hs, hrest]

/-- A registry is declared by its rule sets and aliases if it holds all of them in their order,
    no alias hides behind a rule set, and every alias stands for one. -/
theorem ofDeclarations_eq_ok_iff {ruleSets : RuleSetDeclarations}
    {aliases : OrderedMap String String} {r : Registry} :
    ofDeclarations ruleSets aliases = .ok r ↔
      List.Forall₂ LoadsTo ruleSets.entries r.ruleSets.entries ∧ r.aliases = aliases ∧
        (∀ entry ∈ aliases.entries, r.Admits entry) ∧ r.AliasesResolve := by
  have hsetsFresh := OrderedMap.freshFor_empty (β := List Fragment) ruleSets.entries
  constructor
  · intro h
    obtain ⟨sets, hsets, h⟩ := exists_ok_of_bind_eq_ok h
    obtain ⟨found, hfound, h⟩ := exists_ok_of_bind_eq_ok h
    obtain ⟨⟨⟩, hvalid, h⟩ := exists_ok_of_bind_eq_ok h
    cases h
    obtain ⟨loaded, hloads, hentries, hnone⟩ :=
      (registerAll_eq_ok_iff hsetsFresh ruleSets.nodup_keys).1 hsets
    have haliasesFresh : sets.aliases.FreshFor aliases.entries := by
      rw [hnone]
      exact OrderedMap.freshFor_empty aliases.entries
    obtain ⟨hadmits, hsame, hall⟩ :=
      (registerAliases_eq_ok_iff haliasesFresh aliases.nodup_keys).1 hfound
    rw [hnone] at hall
    have hadmits' : ∀ entry ∈ aliases.entries, r.Admits entry := by
      unfold Admits
      rw [hsame]
      exact hadmits
    refine ⟨?_, OrderedMap.ext hall, hadmits', validateEach_eq_ok_iff.1 hvalid⟩
    rw [hsame, hentries]
    exact hloads
  · rintro ⟨hloads, rfl, hadmits, hresolve⟩
    have hsets : registerAll {} ruleSets.entries = .ok { ruleSets := r.ruleSets } :=
      (registerAll_eq_ok_iff hsetsFresh ruleSets.nodup_keys).2
        ⟨r.ruleSets.entries, hloads, rfl, rfl⟩
    have haliases : registerAliases { ruleSets := r.ruleSets } r.aliases.entries = .ok r :=
      (registerAliases_eq_ok_iff (OrderedMap.freshFor_empty _) r.aliases.nodup_keys).2
        ⟨hadmits, rfl, rfl⟩
    have hvalid : r.validateAliases = .ok () := validateEach_eq_ok_iff.2 hresolve
    rw [ofDeclarations, bind_of_eq_ok hsets, bind_of_eq_ok haliases, bind_of_eq_ok hvalid]
    rfl

/-! ## Section 3: Registering more rule sets -/

/-- Register rule sets one after another. -/
def registerEach (r : Registry) (sets : List RuleSet) : Registry :=
  sets.foldl register r

theorem AliasesResolve.register {r : Registry} (h : r.AliasesResolve) (added : RuleSet) :
    (r.register added).AliasesResolve := by
  intro name hname requestedBy
  exact exists_lookup_register (h name hname requestedBy) added

theorem AliasesResolve.registerEach {r : Registry} (h : r.AliasesResolve) (sets : List RuleSet) :
    (r.registerEach sets).AliasesResolve := by
  induction sets generalizing r with
  | nil => exact h
  | cons first rest ih => exact ih (h.register first)

theorem aliases_registerEach (r : Registry) (sets : List RuleSet) :
    (r.registerEach sets).aliases = r.aliases := by
  induction sets generalizing r with
  | nil => rfl
  | cons first rest ih => exact ih (r.register first)

/-! ## Section 4: Names and references -/

/-- The names of the registry are the references that resolve, at whatever depth they are made. -/
structure Settled (r : Registry) : Prop where
  contains_iff : ∀ name requestedBy,
    r.contains name = true ↔ ∃ s, r.lookup name requestedBy = .ok s
  /-- A lookup fails at the reference itself, never behind it and never in a cycle. -/
  lookup_error : ∀ reference requestedBy error,
    r.lookup reference requestedBy = .error error →
      error = .unknownRuleSet reference requestedBy
  canonicalName_idem : ∀ reference requestedBy name,
    r.canonicalName reference requestedBy = .ok name →
      ∀ other, r.canonicalName name other = .ok name
  /-- An expansion that misses a rule set names a reference that is no name of the registry. -/
  expandAll_unknown : ∀ limit fragments reference requestedBy,
    Expansion.expandAll r limit fragments = .error (.unknownRuleSet reference requestedBy) →
      r.contains reference = false
  /-- An expansion that runs into a cycle names rule sets, not aliases. -/
  expandAll_cyclic : ∀ limit fragments cycle,
    Expansion.expandAll r limit fragments = .error (.cyclicExtends cycle) →
      ∀ name ∈ cycle, ∃ s, r.ruleSet? name = some s

theorem canonicalName_eq_ok_iff {r : Registry} {reference requestedBy name : String} :
    r.canonicalName reference requestedBy = .ok name ↔
      ∃ s, r.lookup reference requestedBy = .ok s ∧ s.name = name := by
  constructor
  · intro h
    obtain ⟨s, hs, h⟩ := exists_ok_of_bind_eq_ok h
    cases h
    exact ⟨s, hs, rfl⟩
  · rintro ⟨s, hs, rfl⟩
    exact bind_of_eq_ok hs _

theorem lookup_of_contains_eq_false {r : Registry} {reference : String}
    (h : r.contains reference = false) (requestedBy : String) :
    r.lookup reference requestedBy = .error (.unknownRuleSet reference requestedBy) := by
  obtain ⟨hset, halias⟩ := contains_eq_false_iff.1 h
  exact lookupFrom_of_unknown [] hset halias

/-- Every name resolves if every alias does. -/
theorem AliasesResolve.lookup {r : Registry} (h : r.AliasesResolve) {name : String}
    (hname : r.contains name = true) (requestedBy : String) :
    ∃ s, r.lookup name requestedBy = .ok s := by
  cases hset : r.ruleSet? name with
  | some s => exact ⟨s, lookup_of_ruleSet? hset⟩
  | none =>
    refine h name (OrderedMap.contains_iff.1 ?_) requestedBy
    have hnone : r.ruleSets.contains name = false := by
      rw [OrderedMap.contains, Option.map_eq_none_iff.1 hset]
      rfl
    rwa [contains, hnone, Bool.false_or] at hname

theorem AliasesResolve.eq_of_lookup {r : Registry} (h : r.AliasesResolve)
    {reference requestedBy : String} {error : CascadeError}
    (herror : r.lookup reference requestedBy = .error error) :
    r.contains reference = false ∧ error = .unknownRuleSet reference requestedBy := by
  have hcontains : r.contains reference = false := by
    rw [Bool.eq_false_iff]
    intro hname
    obtain ⟨s, hs⟩ := h.lookup hname requestedBy
    rw [hs] at herror
    cases herror
  rw [lookup_of_contains_eq_false hcontains] at herror
  cases herror
  exact ⟨hcontains, rfl⟩

theorem AliasOf.unique {r : Registry} {name target other : String} (h : r.AliasOf name target)
    (h' : r.AliasOf name other) : target = other :=
  Option.some.inj (h.2.symm.trans h'.2)

theorem leads_of_lookupFrom {r : Registry} {requestedBy name : String} {walk : List String}
    {s : RuleSet} (h : r.lookupFrom requestedBy walk name = .ok s) :
    ReflTransGen r.AliasOf name s.name := by
  fun_induction lookupFrom r requestedBy walk name with
  | case1 walk name found hfound =>
    cases h
    rw [name_of_ruleSet? hfound]
  | case2 => cases h
  | case3 => cases h
  | case4 walk name hset target halias hnew ih => exact (ih h).head ⟨hset, halias⟩

/-- Aliases have one target each, so whatever a name on a cycle leads to leads back to it. -/
theorem exists_alias_of_leads {r : Registry} {first second name : String}
    (hstep : r.AliasOf first second) (hback : ReflTransGen r.AliasOf second first)
    (hname : ReflTransGen r.AliasOf first name) :
    ∃ next, r.AliasOf name next ∧ ReflTransGen r.AliasOf next first := by
  induction hname with
  | refl => exact ⟨second, hstep, hback⟩
  | tail _ hlast ih =>
    obtain ⟨next, hnext, hreturns⟩ := ih
    obtain rfl := hnext.unique hlast
    rcases hreturns.cases_head with rfl | hmore
    · exact ⟨second, hstep, hback⟩
    · exact hmore

theorem exists_alias_of_isCycle {r : Registry} {cycle : List String}
    (h : IsCycle r.AliasOf cycle) :
    ∃ first second, r.AliasOf first second ∧ ReflTransGen r.AliasOf second first := by
  obtain ⟨first, second, rest, rfl⟩ : ∃ first second rest, cycle = first :: second :: rest := by
    match cycle, h.two_le_length with
    | first :: second :: rest, _ => exact ⟨first, second, rest, rfl⟩
  obtain ⟨hstep, hchain⟩ := List.isChain_cons_cons.1 h.isChain
  refine ⟨first, second, hstep, ?_⟩
  -- the rest of the cycle is a walk from the second name to its end, which is the first
  have hlast := h.head?_eq_getLast?
  rw [List.head?_cons, List.getLast?_cons_cons,
    List.getLast?_eq_some_getLast (List.cons_ne_nil second rest)] at hlast
  exact List.relationReflTransGen_of_exists_isChain_cons rest hchain (Option.some.inj hlast).symm

/-- Where aliases resolve, they form no cycle: a walk around the cycle would never come to a rule
    set. -/
theorem AliasesResolve.not_isCycle {r : Registry} (h : r.AliasesResolve) (cycle : List String) :
    ¬ IsCycle r.AliasOf cycle := by
  intro hcycle
  obtain ⟨first, second, hstep, hback⟩ := exists_alias_of_isCycle hcycle
  have hkey : first ∈ r.aliases.keys := by
    refine OrderedMap.contains_iff.1 ?_
    rw [OrderedMap.contains, hstep.2]
    rfl
  obtain ⟨s, hs⟩ := h first hkey ""
  have hleads := leads_of_lookupFrom hs
  obtain ⟨next, hnext, _⟩ := exists_alias_of_leads hstep hback hleads
  -- the rule set that the walk has come to would be an alias
  have hset := ruleSet?_of_lookupFrom hs
  rw [hnext.1] at hset
  cases hset

/-- Whatever an expansion misses is no name of the registry. -/
theorem contains_eq_false_of_expandAll {r : Registry} {limit : Nat} {fragments : List Fragment}
    {reference requestedBy : String}
    (herror : Expansion.expandAll r limit fragments =
      .error (.unknownRuleSet reference requestedBy)) : r.contains reference = false := by
  have hfault := Expansion.expansionFault_of_expandAll herror
  generalize hunknown : CascadeError.unknownRuleSet reference requestedBy = error at hfault
  cases hfault with
  | lookup _ _ hlookup =>
    cases hlookup with
    | unknown hcontains _ =>
      cases hunknown
      exact hcontains
    | cyclic _ _ => cases hunknown
  | cyclic _ _ => cases hunknown
  | limit _ => cases hunknown

/-- Where aliases resolve, the names of a cycle that an expansion runs into are those of rule
    sets. -/
theorem AliasesResolve.ruleSet?_of_expandAll {r : Registry} (h : r.AliasesResolve) {limit : Nat}
    {fragments : List Fragment} {cycle : List String}
    (herror : Expansion.expandAll r limit fragments = .error (.cyclicExtends cycle)) :
    ∀ name ∈ cycle, ∃ s, r.ruleSet? name = some s := by
  have hfault := Expansion.expansionFault_of_expandAll herror
  generalize hcyclic : CascadeError.cyclicExtends cycle = error at hfault
  cases hfault with
  | lookup _ _ hlookup =>
    cases hlookup with
    | unknown _ _ => cases hcyclic
    | cyclic hcycle _ => exact absurd hcycle (h.not_isCycle _)
  | cyclic _ hreaches =>
    cases hcyclic
    intro name hname
    obtain ⟨f, _, reference, _, hcanonical⟩ := hreaches name hname
    obtain ⟨s, hs, rfl⟩ := canonicalName_eq_ok_iff.1 hcanonical
    exact ⟨s, ruleSet?_of_lookupFrom hs⟩
  | limit _ => cases hcyclic

theorem AliasesResolve.settled {r : Registry} (h : r.AliasesResolve) : r.Settled where
  contains_iff := by
    intro name requestedBy
    constructor
    · intro hname
      exact h.lookup hname requestedBy
    · rintro ⟨s, hs⟩
      by_contra hname
      rw [lookup_of_contains_eq_false (Bool.eq_false_iff.2 hname)] at hs
      cases hs
  lookup_error := by
    intro reference requestedBy error herror
    exact (h.eq_of_lookup herror).2
  canonicalName_idem := by
    intro reference requestedBy name hname other
    obtain ⟨s, hs, rfl⟩ := canonicalName_eq_ok_iff.1 hname
    have hset := ruleSet?_of_lookupFrom hs
    exact canonicalName_eq_ok_iff.2 ⟨s, lookup_of_ruleSet? hset, rfl⟩
  expandAll_unknown := by
    intro limit fragments reference requestedBy herror
    exact contains_eq_false_of_expandAll herror
  expandAll_cyclic := by
    intro limit fragments cycle herror
    exact h.ruleSet?_of_expandAll herror

/-- In a registry that a document declares, and after any number of rule sets have been
    registered on top of it, the names are the references that resolve; the aliases of the document
    are among them. -/
theorem settled_of_ofDeclarations {ruleSets : RuleSetDeclarations}
    {aliases : OrderedMap String String} {r : Registry}
    (h : ofDeclarations ruleSets aliases = .ok r) (added : List RuleSet) :
    (r.registerEach added).Settled ∧
      ∀ name ∈ aliases.keys, (r.registerEach added).contains name = true := by
  obtain ⟨_, haliases, _, hresolve⟩ := ofDeclarations_eq_ok_iff.1 h
  refine ⟨(hresolve.registerEach added).settled, ?_⟩
  intro name hname
  have hkey : (r.registerEach added).aliases.contains name = true := by
    rw [aliases_registerEach, haliases]
    exact OrderedMap.contains_iff.2 hname
  rw [contains, hkey, Bool.or_true]

end Registry

/-! ## Section 5: A chain of aliases -/

/-- Two aliases, of which the first is declared before the one that it stands for. -/
def chained : Document where
  fragments := [{ bases := some ["all", "extra"] }]
  ruleSets := .ofList [
    ("base", [{ rules := some (.ofList [("no-var", .string "error")]) }]),
    ("extra", [{ bases := some ["std"] }])]
  aliases := .ofList [("all", "std"), ("std", "base")]

def chainedRegistry : Registry where
  ruleSets := .ofList [
    ("base", [
      { origin := "ruleSets.base[0]", rules := .ofList [(⟨"no-var"⟩, { severity := .error })] }]),
    ("extra", [{ origin := "ruleSets.extra[0]", bases := ["std"] }])]
  aliases := .ofList [("all", "std"), ("std", "base")]

theorem lookup_chained {name : String} (h : name ∈ chainedRegistry.aliases.keys)
    (requestedBy : String) :
    chainedRegistry.lookup name requestedBy =
      .ok ⟨"base", [{ origin := "ruleSets.base[0]",
                      rules := .ofList [(⟨"no-var"⟩, { severity := .error })] }]⟩ := by
  have hname : name = "all" ∨ name = "std" := by
    have hkeys : chainedRegistry.aliases.keys = ["all", "std"] := by decide
    simpa [hkeys] using h
  rcases hname with rfl | rfl
  · -- from alias to alias, and then to the rule set
    show chainedRegistry.lookupFrom requestedBy [] "all" = _
    rw [Registry.lookupFrom_of_alias rfl rfl (by decide),
      Registry.lookupFrom_of_alias rfl rfl (by decide)]
    exact Registry.lookupFrom_of_ruleSet? _ rfl
  · exact Registry.lookup_of_alias rfl rfl rfl

theorem ofDeclarations_chained :
    Registry.ofDeclarations chained.ruleSets chained.aliases = .ok chainedRegistry := by
  refine Registry.ofDeclarations_eq_ok_iff.2 ⟨.cons rfl (.cons rfl .nil), rfl, by decide, ?_⟩
  intro name hname requestedBy
  exact ⟨_, lookup_chained hname requestedBy⟩

/-- A rule set takes the place of the second alias, and the first one stands for it. -/
theorem settled_of_ofDeclarations_chained :
    Registry.ofDeclarations chained.ruleSets chained.aliases = .ok chainedRegistry ∧
    (chainedRegistry.registerEach [⟨"std", []⟩]).Settled ∧
    (chainedRegistry.registerEach [⟨"std", []⟩]).contains "all" = true ∧
    (chainedRegistry.registerEach [⟨"std", []⟩]).lookup "all" "fragments[0]" =
      .ok ⟨"std", []⟩ := by
  obtain ⟨hsettled, hnames⟩ :=
    Registry.settled_of_ofDeclarations ofDeclarations_chained [⟨"std", []⟩]
  exact ⟨ofDeclarations_chained, hsettled, hnames "all" (by decide),
    Registry.lookup_of_alias rfl rfl rfl⟩

end RuleCascade
