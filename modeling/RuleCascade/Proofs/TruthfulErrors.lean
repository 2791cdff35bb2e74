import Mathlib.Data.List.Chain
import Mathlib.Data.List.Nodup
import RuleCascade.Proofs.ReferenceGraph

/-! # What errors of lookup and expansion say

    A lookup that fails has followed aliases to a name that stands for nothing,
    or back to a name that it had followed before. An expansion that fails has
    met such a lookup, has come back to a rule set that it was expanding, or
    has run out of room.

    * The names that a lookup has followed form a walk along the aliases. It
      reports the part of the walk from the first visit of the name on.
    * The names on the chain of an entry form a walk along the graph of
      references, outermost first, and the walk goes on to whatever the
      fragment of the entry refers to (`Traced`). Every entry that expansion
      comes to keeps this, so the part of the chain that is reported is a
      cycle of the graph.

    Main statement: `lookup_and_expandAll_faults`.
-/

namespace RuleCascade

open Relation

/-! ## Section 1: Cycles -/

/-- Names along a relation that come back to where they start and meet no other name twice. -/
structure IsCycle (step : String → String → Prop) (names : List String) : Prop where
  two_le_length : 2 ≤ names.length
  head?_eq_getLast? : names.head? = names.getLast?
  nodup_dropLast : names.dropLast.Nodup
  isChain : names.IsChain step

/-- The cycle starts where the name was met first. -/
theorem Registry.cycleAt_append {before : List String} {name : String} (after : List String)
    (hbefore : name ∉ before) :
    cycleAt (before ++ name :: after) name = name :: after ++ [name] := by
  have hall : ∀ other ∈ before, decide (other ≠ name) = true := by
    intro other hother
    have hne : other ≠ name := by
      rintro rfl
      exact hbefore hother
    simpa using hne
  rw [cycleAt, List.dropWhile_append_of_pos hall]
  simp

/-- A walk that comes to a name again has closed a cycle there. -/
theorem isCycle_cycleAt {step : String → String → Prop} {walk : List String} {name : String}
    (hwalk : (walk ++ [name]).IsChain step) (hnodup : walk.Nodup) (hmem : name ∈ walk) :
    IsCycle step (Registry.cycleAt walk name) := by
  obtain ⟨before, after, rfl, hbefore⟩ := List.eq_append_cons_of_mem hmem
  rw [Registry.cycleAt_append after hbefore]
  rw [List.append_assoc] at hwalk
  refine ⟨by simp, ?_, ?_, ?_⟩
  · rw [List.getLast?_concat]
    rfl
  · rw [List.dropLast_concat]
    exact (List.nodup_append.1 hnodup).2.1
  · exact (List.isChain_append.1 hwalk).2.1

theorem mem_of_mem_cycleAt {walk : List String} {name other : String}
    (h : other ∈ Registry.cycleAt walk name) : other ∈ walk ∨ other = name := by
  rcases List.mem_append.1 h with hwalk | hlast
  · exact Or.inl (List.dropWhile_sublist _ |>.subset hwalk)
  · exact Or.inr (List.mem_singleton.1 hlast)

/-! ## Section 2: Lookups -/

namespace Registry

/-- The name is an alias of the target. The name of a rule set is no alias. -/
def AliasOf (r : Registry) (name target : String) : Prop :=
  r.ruleSet? name = none ∧ r.aliases.find? name = some target

/-- What a failed lookup says about the aliases. -/
inductive LookupFault (r : Registry) (reference requestedBy : String) : CascadeError → Prop where
  /-- The aliases of the reference end at a name that stands for nothing. -/
  | unknown {name : String} : r.contains name = false →
      ReflTransGen r.AliasOf reference name →
      LookupFault r reference requestedBy (.unknownRuleSet name requestedBy)
  /-- The aliases of the reference lead into a cycle, and none of its names is a rule set. -/
  | cyclic {cycle : List String} : IsCycle r.AliasOf cycle →
      (∀ name ∈ cycle, r.ruleSet? name = none ∧ ReflTransGen r.AliasOf reference name) →
      LookupFault r reference requestedBy (.cyclicExtends cycle)

theorem contains_eq_false_iff {r : Registry} {name : String} :
    r.contains name = false ↔ r.ruleSet? name = none ∧ r.aliases.find? name = none := by
  simp [contains, OrderedMap.contains, ruleSet?]

/-- What a lookup has followed so far: aliases, each once, from the reference to the name. -/
structure Followed (r : Registry) (reference : String) (walk : List String) (name : String) :
    Prop where
  isChain : (walk ++ [name]).IsChain r.AliasOf
  nodup : walk.Nodup
  /-- What was followed is no rule set and was led to from the reference. -/
  leads : ∀ other ∈ walk, r.ruleSet? other = none ∧ ReflTransGen r.AliasOf reference other
  leads_last : ReflTransGen r.AliasOf reference name

theorem followed_nil (r : Registry) (reference : String) : Followed r reference [] reference :=
  ⟨.singleton _, List.nodup_nil, by simp, .refl⟩

theorem Followed.step {r : Registry} {reference name target : String} {walk : List String}
    (h : Followed r reference walk name) (hstep : r.AliasOf name target) (hnew : name ∉ walk) :
    Followed r reference (walk ++ [name]) target := by
  refine ⟨?_, ?_, ?_, h.leads_last.tail hstep⟩
  · refine List.isChain_append.2 ⟨h.isChain, .singleton _, ?_⟩
    intro last hlast next hnext
    obtain rfl : name = last := by simpa using hlast
    obtain rfl : target = next := by simpa using hnext
    exact hstep
  · refine List.nodup_append.2 ⟨h.nodup, by simp, ?_⟩
    rintro other hother _ hlast rfl
    obtain rfl := List.mem_singleton.1 hlast
    exact hnew hother
  · intro other hother
    rcases List.mem_append.1 hother with hold | hlast
    · exact h.leads other hold
    · obtain rfl := List.mem_singleton.1 hlast
      exact ⟨hstep.1, h.leads_last⟩

theorem lookupFault_of_lookupFrom {r : Registry} {reference requestedBy name : String}
    {walk : List String} {e : CascadeError} (hwalk : Followed r reference walk name)
    (h : r.lookupFrom requestedBy walk name = .error e) :
    LookupFault r reference requestedBy e := by
  fun_induction lookupFrom r requestedBy walk name with
  | case1 => cases h
  | case2 walk name hset halias =>
    cases h
    exact .unknown (contains_eq_false_iff.2 ⟨hset, halias⟩) hwalk.leads_last
  | case3 walk name hset target halias hmem =>
    -- the name was followed before, so the walk has come back to it
    cases h
    refine .cyclic (isCycle_cycleAt hwalk.isChain hwalk.nodup hmem) ?_
    intro other hother
    rcases mem_of_mem_cycleAt hother with hold | rfl
    · exact hwalk.leads other hold
    · exact ⟨hset, hwalk.leads_last⟩
  | case4 walk name hset target halias hnew ih =>
    exact ih (hwalk.step ⟨hset, halias⟩ hnew) h

theorem lookupFault_of_lookup {r : Registry} {reference requestedBy : String} {e : CascadeError}
    (h : r.lookup reference requestedBy = .error e) : LookupFault r reference requestedBy e :=
  lookupFault_of_lookupFrom (followed_nil r reference) h

end Registry

/-! ## Section 3: Expansion -/

namespace Expansion

variable {registry : Registry} {limit : Nat} {fragments : List Fragment}

/-- The rule set of this name is one that references lead to. -/
def ReachesSet (registry : Registry) (fragments : List Fragment) (name : String) : Prop :=
  ∃ f, Reachable registry fragments f ∧ RefersTo registry f name

/-- What a failed expansion says about the registry and the fragments. -/
inductive ExpansionFault (registry : Registry) (limit : Nat) (fragments : List Fragment) :
    CascadeError → Prop where
  /-- A reachable fragment makes a reference whose lookup fails. -/
  | lookup {f : Fragment} {reference : String} {e : CascadeError} :
      Reachable registry fragments f → reference ∈ f.bases →
      registry.LookupFault reference f.label e → ExpansionFault registry limit fragments e
  /-- Rule sets that are reached refer to each other in a cycle. -/
  | cyclic {cycle : List String} : IsCycle (Edge registry) cycle →
      (∀ name ∈ cycle, ReachesSet registry fragments name) →
      ExpansionFault registry limit fragments (.cyclicExtends cycle)
  /-- A top-level fragment has no room. -/
  | limit {root : Fragment} : root ∈ fragments →
      ExpansionFault registry limit fragments (limitExceeded root limit)

/-- An entry as expansion comes to it: the names it was reached through form a walk along the
    graph, and the walk goes on to all that the fragment refers to. -/
structure Traced (registry : Registry) (fragments : List Fragment) (e : Entry) : Prop where
  reachable : Reachable registry fragments e.fragment
  nodup : e.via.Nodup
  reaches : ∀ name ∈ e.via, ReachesSet registry fragments name
  isChain : ∀ target, RefersTo registry e.fragment target →
    (e.route ++ [target]).IsChain (Edge registry)

theorem traced_topEntry {f : Fragment} (hf : f ∈ fragments) :
    Traced registry fragments (topEntry f) :=
  ⟨.top hf, List.nodup_nil, by simp [topEntry], fun _ _ => .singleton _⟩

variable {e : Entry} {reference : String} {set : RuleSet}

theorem refersTo_of_lookup {f : Fragment} (hmem : reference ∈ f.bases)
    (hset : registry.lookup reference f.label = .ok set) : RefersTo registry f set.name :=
  refersTo_iff.2 ⟨reference, hmem, set, hset, rfl⟩

theorem Traced.child (h : Traced registry fragments e) (hmem : reference ∈ e.fragment.bases)
    (hset : registry.lookup reference e.fragment.label = .ok set) (hnew : set.name ∉ e.via)
    {f : Fragment} (hf : f ∈ set.fragments) (scope : List Fragment) :
    Traced registry fragments ⟨f, scope, set.name :: e.via⟩ := by
  have hname := refersTo_of_lookup hmem hset
  refine ⟨h.reachable.follow hmem hset hf, List.nodup_cons.2 ⟨hnew, h.nodup⟩, ?_, ?_⟩
  · exact List.forall_mem_cons.2 ⟨⟨e.fragment, h.reachable, hname⟩, h.reaches⟩
  · intro target htarget
    have hroute : Entry.route ⟨f, scope, set.name :: e.via⟩ = e.route ++ [set.name] :=
      List.reverse_cons
    rw [hroute]
    -- the walk of the entry goes on to the rule set, and from there the fragment leads on
    refine List.isChain_append.2 ⟨h.isChain set.name hname, .singleton _, ?_⟩
    intro last hlast next hnext
    obtain rfl : set.name = last := by simpa using hlast
    obtain rfl : target = next := by simpa using hnext
    exact edge_of_lookup hset hf htarget

/-- A reference back to a rule set on the chain closes a cycle of the graph. -/
theorem Traced.cyclic (h : Traced registry fragments e) (hmem : reference ∈ e.fragment.bases)
    (hset : registry.lookup reference e.fragment.label = .ok set) (hcycle : set.name ∈ e.via) :
    ExpansionFault registry limit fragments (.cyclicExtends (cycleOf e.via set.name)) := by
  have hname := refersTo_of_lookup hmem hset
  refine .cyclic (isCycle_cycleAt (h.isChain set.name hname) ?_ ?_) ?_
  · exact List.nodup_reverse.2 h.nodup
  · exact List.mem_reverse.2 hcycle
  · intro name hmemcycle
    rcases mem_of_mem_cycleAt hmemcycle with hvia | rfl
    · exact h.reaches name (List.mem_reverse.1 hvia)
    · exact ⟨e.fragment, h.reachable, hname⟩

/-- Expanding an entry only fails for a reason. -/
def FailsTruthfully (registry : Registry) (limit : Nat) (fragments : List Fragment)
    (e : Entry) : Prop :=
  ∀ root ∈ fragments, ∀ output error,
    expandEntry registry limit root e output = .error error →
      ExpansionFault registry limit fragments error

/-- Entries one after another fail where one of them does. -/
theorem exists_of_expandEach_eq_error {rootOf : Entry → Fragment} {entries : List Entry}
    {output : Array Entry} {error : CascadeError}
    (h : expandEach registry limit rootOf entries output = .error error) :
    ∃ e ∈ entries, ∃ before, expandEntry registry limit (rootOf e) e before = .error error := by
  induction entries generalizing output with
  | nil => cases h
  | cons e rest ih =>
    rw [expandEach, List.foldlM_cons] at h
    cases hfirst : expandEntry registry limit (rootOf e) e output with
    | error first =>
      rw [hfirst] at h
      cases h
      exact ⟨e, List.mem_cons_self, output, hfirst⟩
    | ok middle =>
      rw [hfirst] at h
      obtain ⟨found, hfound, before, hbefore⟩ := ih h
      exact ⟨found, List.mem_cons_of_mem e hfound, before, hbefore⟩

theorem fault_of_expandReferences {root : Fragment} (hroot : root ∈ fragments)
    (h : Traced registry fragments e)
    (hlonger : ∀ name ∈ registry.ruleSets.keys, name ∉ e.via → ∀ child : Entry,
      child.via = name :: e.via → Traced registry fragments child →
      FailsTruthfully registry limit fragments child)
    {references : List String}
    (hreferences : ∀ reference ∈ references, reference ∈ e.fragment.bases)
    {output : Array Entry} {error : CascadeError}
    (herror : expandReferences registry limit root e references output = .error error) :
    ExpansionFault registry limit fragments error := by
  induction references generalizing output with
  | nil =>
    rw [expandReferences_nil] at herror
    cases herror
  | cons reference rest ih =>
    have hmem := hreferences reference List.mem_cons_self
    cases hset : registry.lookup reference e.fragment.label with
    | error fault =>
      rw [expandReferences_of_error _ _ hset] at herror
      cases herror
      exact .lookup h.reachable hmem (Registry.lookupFault_of_lookup hset)
    | ok set =>
      by_cases hcycle : set.name ∈ e.via
      · -- the rule set is being expanded already
        rw [expandReferences_of_cycle _ _ hset hcycle] at herror
        cases herror
        exact h.cyclic hmem hset hcycle
      rw [expandReferences_of_ok _ _ hset hcycle] at herror
      cases hfragments : expandFragments registry limit root (childScope e.fragment e.scope)
          (set.name :: e.via) set.fragments output with
      | ok middle =>
        -- nothing has failed yet, so one of the other references does
        rw [hfragments] at herror
        exact ih (fun other hother => hreferences other (List.mem_cons_of_mem reference hother))
          herror
      | error fault =>
        rw [hfragments] at herror
        cases herror
        rw [expandFragments_eq_expandEach] at hfragments
        obtain ⟨child, hchild, before, hbefore⟩ := exists_of_expandEach_eq_error hfragments
        obtain ⟨f, hf, rfl⟩ := List.mem_map.1 hchild
        exact hlonger set.name (mem_keys_of_lookup hset) hcycle _ rfl
          (h.child hmem hset hcycle hf _) root hroot before error hbefore

/-- By induction on the names that the chain has not got yet. -/
theorem failsTruthfully (e : Entry) (h : Traced registry fragments e) :
    FailsTruthfully registry limit fragments e := by
  obtain ⟨chain, hchain⟩ : ∃ chain, e.via = chain := ⟨e.via, rfl⟩
  induction chain using chain_induction registry generalizing e with
  | step chain ih =>
    subst hchain
    intro root hroot output error herror
    rw [expandEntry_eq] at herror
    cases hreferences : expandReferences registry limit root e e.fragment.bases output with
    | error fault =>
      rw [hreferences] at herror
      cases herror
      refine fault_of_expandReferences hroot h ?_ (fun _ hmem => hmem) hreferences
      intro name hkey hnew child hvia hchild
      exact ih name hkey hnew child hchild hvia
    | ok middle =>
      -- all references are expanded, so it is the fragment itself that has no room
      rw [hreferences] at herror
      change (if limit ≤ middle.size then _ else _) = _ at herror
      split at herror
      · cases herror
        exact .limit hroot
      · cases herror

theorem expansionFault_of_expandAll {error : CascadeError}
    (herror : expandAll registry limit fragments = .error error) :
    ExpansionFault registry limit fragments error := by
  rw [expandAll_eq_expandEach] at herror
  cases heach : expandEach registry limit Entry.fragment (fragments.map topEntry) #[] with
  | ok output =>
    rw [heach] at herror
    cases herror
  | error fault =>
    rw [heach] at herror
    cases herror
    obtain ⟨e, he, before, hbefore⟩ := exists_of_expandEach_eq_error heach
    obtain ⟨f, hf, rfl⟩ := List.mem_map.1 he
    exact failsTruthfully (topEntry f) (traced_topEntry hf) f hf before error hbefore

/-! ## Section 4: Both -/

/-- Lookups and expansions that fail tell the truth about the aliases, the references and the
    limit. -/
theorem lookup_and_expandAll_faults (registry : Registry) (limit : Nat)
    (fragments : List Fragment) :
    (∀ reference requestedBy error, registry.lookup reference requestedBy = .error error →
      registry.LookupFault reference requestedBy error) ∧
    ∀ error, expandAll registry limit fragments = .error error →
      ExpansionFault registry limit fragments error := by
  refine ⟨fun _ _ _ => Registry.lookupFault_of_lookup, ?_⟩
  intro error herror
  exact expansionFault_of_expandAll herror

end Expansion

end RuleCascade
