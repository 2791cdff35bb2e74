import Mathlib.Data.List.Forall2
import RuleCascade.Proofs.DepthFirst
import RuleCascade.Snapshot

/-! # Cascades as unfoldings

    A cascade that is built without an error is the post-order listing of a
    forest: below an entry stand the fragments of the rule sets that its
    references stand for. `Unfolds` derives such listings. It knows no limit
    and no errors, so properties of cascades are proved by induction on it.

    Main statement: `expandAll_eq_ok_iff`. Expansion succeeds with a cascade
    exactly if the top-level fragments unfold to it and it fits the limit.
    `Snapshot.ofFragments_eq_ok_iff` says the same of snapshots.
-/

namespace RuleCascade

/-! ## Section 1: Listings -/

/-- The references of what has this label stand for the rule sets, one by one. -/
abbrev StandFor (registry : Registry) (label : String) : List String → List RuleSet → Prop :=
  List.Forall₂ fun reference set => registry.lookup reference label = .ok set

/-- The rule sets that the references of a fragment stand for, in order. -/
def Fragment.StandsOn (registry : Registry) (f : Fragment) (sets : List RuleSet) : Prop :=
  StandFor registry f.label f.bases sets

/-- A fragment stands on one list of rule sets at most. -/
theorem Fragment.StandsOn.unique {registry : Registry} {f : Fragment} {sets others : List RuleSet}
    (h : f.StandsOn registry sets) (h' : f.StandsOn registry others) : sets = others := by
  refine List.right_unique_forall₂' (fun {reference set other} hset hother => ?_) h h'
  rw [hset] at hother
  exact Except.ok.inj hother

section references

variable {registry : Registry} {label : String} {references : List String} {sets : List RuleSet}

/-- One of the references stands for each of the rule sets. -/
theorem exists_reference_of_mem {set : RuleSet} (h : StandFor registry label references sets)
    (hset : set ∈ sets) :
    ∃ reference ∈ references, registry.lookup reference label = .ok set := by
  induction h with
  | nil => simp at hset
  | @cons reference found _ _ hfound _ ih =>
    rcases List.mem_cons.1 hset with rfl | hmem
    · exact ⟨reference, List.mem_cons_self, hfound⟩
    · obtain ⟨other, hother, hlookup⟩ := ih hmem
      exact ⟨other, List.mem_cons_of_mem _ hother, hlookup⟩

/-- Each of the references stands for one of the rule sets. -/
theorem exists_set_of_mem {reference : String} (h : StandFor registry label references sets)
    (hreference : reference ∈ references) :
    ∃ set ∈ sets, registry.lookup reference label = .ok set := by
  induction h with
  | nil => simp at hreference
  | @cons _ set _ _ hset _ ih =>
    rcases List.mem_cons.1 hreference with rfl | hmem
    · exact ⟨set, List.mem_cons_self, hset⟩
    · obtain ⟨other, hother, hlookup⟩ := ih hmem
      exact ⟨other, List.mem_cons_of_mem _ hother, hlookup⟩

theorem exists_sets
    (h : ∀ reference ∈ references, ∃ set, registry.lookup reference label = .ok set) :
    ∃ sets, StandFor registry label references sets := by
  induction references with
  | nil => exact ⟨[], .nil⟩
  | cons reference rest ih =>
    obtain ⟨set, hset⟩ := h reference List.mem_cons_self
    obtain ⟨sets, hsets⟩ := ih fun other hmem => h other (List.mem_cons_of_mem reference hmem)
    exact ⟨set :: sets, .cons hset hsets⟩

end references

namespace Expansion

variable {registry : Registry} {limit : Nat} {root : Fragment}

/-- The entries of a rule set below an entry that refers to it. -/
def entriesBelow (e : Entry) (set : RuleSet) : List Entry :=
  set.fragments.map fun fragment =>
    ⟨fragment, childScope e.fragment e.scope, set.name :: e.via⟩

theorem map_fragment_entriesBelow (e : Entry) (sets : List RuleSet) :
    (sets.flatMap (entriesBelow e)).map Entry.fragment = sets.flatMap RuleSet.fragments := by
  have hfragments : (fun set => (entriesBelow e set).map Entry.fragment) = RuleSet.fragments := by
    funext set
    rw [entriesBelow, List.map_map]
    exact List.map_id set.fragments
  rw [List.map_flatMap, hfragments]

theorem map_fragment_topEntry (fragments : List Fragment) :
    (fragments.map topEntry).map Entry.fragment = fragments := by
  rw [List.map_map]
  exact List.map_id fragments

/-- Induction on what an entry is built on: what holds of an entry as soon as it holds of all
    that is below it holds of every entry. Where an entry closes a cycle, nothing is below it. -/
theorem entry_induction (registry : Registry) {motive : Entry → Prop}
    (step : ∀ e, (∀ sets, e.fragment.StandsOn registry sets → (∀ set ∈ sets, set.name ∉ e.via) →
      ∀ child ∈ sets.flatMap (entriesBelow e), motive child) → motive e)
    (e : Entry) : motive e := by
  obtain ⟨chain, hchain⟩ : ∃ chain, e.via = chain := ⟨e.via, rfl⟩
  induction chain using chain_induction registry generalizing e with
  | step chain ih =>
    subst hchain
    apply step
    intro sets hsets hnew child hchild
    obtain ⟨set, hset, hmem⟩ := List.mem_flatMap.1 hchild
    obtain ⟨reference, _, hlookup⟩ := exists_reference_of_mem hsets hset
    obtain ⟨fragment, _, rfl⟩ := List.mem_map.1 hmem
    exact ih set.name (mem_keys_of_lookup hlookup) (hnew set hset) _ rfl

/-- The cascade that entries unfold to: what is below an entry comes before it, and no rule set
    is below itself. -/
inductive Unfolds (registry : Registry) : List Entry → List Entry → Prop where
  | nil : Unfolds registry [] []
  | cons {e : Entry} {sets : List RuleSet} {rest below after : List Entry} :
      e.fragment.StandsOn registry sets → (∀ set ∈ sets, set.name ∉ e.via) →
      Unfolds registry (sets.flatMap (entriesBelow e)) below → Unfolds registry rest after →
      Unfolds registry (e :: rest) (below ++ e :: after)

theorem Unfolds.append {entries others cascade more : List Entry}
    (h : Unfolds registry entries cascade) (h' : Unfolds registry others more) :
    Unfolds registry (entries ++ others) (cascade ++ more) := by
  induction h with
  | nil => exact h'
  | cons hsets hnew hbelow _ _ ih =>
    rw [List.cons_append, List.append_assoc, List.cons_append]
    exact .cons hsets hnew hbelow ih

/-- Entries whose fragments are built on nothing are their own cascade. -/
theorem Unfolds.refl_of_bases_eq_nil {entries : List Entry}
    (h : ∀ e ∈ entries, e.fragment.bases = []) : Unfolds registry entries entries := by
  induction entries with
  | nil => exact .nil
  | cons e rest ih =>
    have hsets : e.fragment.StandsOn registry [] := by
      rw [Fragment.StandsOn, h e List.mem_cons_self]
      exact .nil
    have hrest := ih fun other hmem => h other (List.mem_cons_of_mem e hmem)
    exact .cons hsets (by simp) .nil hrest

/-! ## Section 2: Expanding entries one after another -/

/-- Expand entries in order, each on account of a top-level fragment. -/
def expandEach (registry : Registry) (limit : Nat) (rootOf : Entry → Fragment)
    (entries : List Entry) (output : Array Entry) : Except CascadeError (Array Entry) :=
  entries.foldlM (fun output e => expandEntry registry limit (rootOf e) e output) output

theorem expandFragments_eq_expandEach (scope : List Fragment) (chain : List String)
    (fragments : List Fragment) (output : Array Entry) :
    expandFragments registry limit root scope chain fragments output =
      expandEach registry limit (fun _ => root)
        (fragments.map fun fragment => ⟨fragment, scope, chain⟩) output := by
  induction fragments generalizing output with
  | nil => exact expandFragments_nil scope chain output
  | cons fragment rest ih =>
    rw [expandFragments_cons, expandEach, List.map_cons, List.foldlM_cons]
    congr 1
    funext output
    exact ih output

/-- References that stand for rule sets outside the chain expand the entries below. -/
theorem expandReferences_eq_expandEach {e : Entry} {references : List String}
    {sets : List RuleSet} (h : StandFor registry e.fragment.label references sets)
    (hnew : ∀ set ∈ sets, set.name ∉ e.via) (output : Array Entry) :
    expandReferences registry limit root e references output =
      expandEach registry limit (fun _ => root) (sets.flatMap (entriesBelow e)) output := by
  induction h generalizing output with
  | nil => exact expandReferences_nil e output
  | @cons reference set references sets hset _ ih =>
    have hfirst := hnew set List.mem_cons_self
    have hrest := fun other hmem => hnew other (List.mem_cons_of_mem set hmem)
    rw [expandReferences_of_ok _ _ hset hfirst, expandFragments_eq_expandEach, expandEach,
      expandEach, List.flatMap_cons, List.foldlM_append]
    congr 1
    funext output
    exact ih hrest output

/-- References whose expansion succeeds stand for rule sets outside the chain. -/
theorem standFor_of_expandReferences {e : Entry} {references : List String}
    {output result : Array Entry}
    (h : expandReferences registry limit root e references output = .ok result) :
    ∃ sets, StandFor registry e.fragment.label references sets ∧
      ∀ set ∈ sets, set.name ∉ e.via := by
  induction references generalizing output with
  | nil => exact ⟨[], .nil, by simp⟩
  | cons reference rest ih =>
    cases hset : registry.lookup reference e.fragment.label with
    | error error =>
      rw [expandReferences_of_error _ _ hset] at h
      cases h
    | ok set =>
      by_cases hcycle : set.name ∈ e.via
      · rw [expandReferences_of_cycle _ _ hset hcycle] at h
        cases h
      · rw [expandReferences_of_ok _ _ hset hcycle] at h
        obtain ⟨middle, _, hrest⟩ := exists_ok_of_bind_eq_ok h
        obtain ⟨sets, hsets, hnew⟩ := ih hrest
        exact ⟨set :: sets, .cons hset hsets, List.forall_mem_cons.2 ⟨hcycle, hnew⟩⟩

/-! ## Section 3: Success is an unfolding that fits -/

/-- Room for all entries of an unfolding is enough for success. -/
theorem expandEach_of_unfolds {rootOf : Entry → Fragment} {entries cascade : List Entry}
    {output : Array Entry} (h : Unfolds registry entries cascade)
    (hroom : output.size + cascade.length ≤ limit) :
    expandEach registry limit rootOf entries output = .ok (output ++ cascade.toArray) := by
  induction h generalizing output rootOf with
  | nil =>
    rw [expandEach, List.foldlM_nil, show output ++ ([] : List Entry).toArray = output by simp]
    rfl
  | @cons e sets rest below after hsets hnew _ _ ihbelow ihafter =>
    simp only [List.length_append, List.length_cons] at hroom
    -- all that is below the entry is expanded on account of one top-level fragment
    have hbelow : expandEach registry limit (fun _ => rootOf e) (sets.flatMap (entriesBelow e))
        output = .ok (output ++ below.toArray) := ihbelow (by omega)
    -- `hroom` leaves a place for the entry itself
    have hentry : expandEntry registry limit (rootOf e) e output =
        .ok ((output ++ below.toArray).push e) := by
      rw [expandEntry_eq, expandReferences_eq_expandEach hsets hnew, hbelow]
      have hsize : ¬ limit ≤ (output ++ below.toArray).size := by
        simp only [Array.size_append, List.size_toArray]
        omega
      show (if limit ≤ (output ++ below.toArray).size then _ else _) = _
      rw [if_neg hsize]
    have hafter : expandEach registry limit rootOf rest ((output ++ below.toArray).push e) =
        .ok ((output ++ below.toArray).push e ++ after.toArray) := by
      apply ihafter
      simp only [Array.size_push, Array.size_append, List.size_toArray]
      omega
    rw [expandEach, List.foldlM_cons, hentry]
    show expandEach registry limit rootOf rest _ = _
    rw [hafter]
    simp

/-- What expanding an entry adds is an unfolding of the entry that fits the limit. -/
def UnfoldsIfOk (registry : Registry) (limit : Nat) (e : Entry) : Prop :=
  ∀ root output result, expandEntry registry limit root e output = .ok result →
    ∃ cascade, Unfolds registry [e] cascade ∧ result = output ++ cascade.toArray ∧
      result.size ≤ limit

theorem unfolds_of_expandEach {rootOf : Entry → Fragment} {entries : List Entry}
    {output result : Array Entry} (hentries : ∀ e ∈ entries, UnfoldsIfOk registry limit e)
    (h : expandEach registry limit rootOf entries output = .ok result) :
    ∃ cascade, Unfolds registry entries cascade ∧ result = output ++ cascade.toArray ∧
      (output.size ≤ limit → result.size ≤ limit) := by
  induction entries generalizing output with
  | nil =>
    cases h
    exact ⟨[], .nil, by simp, id⟩
  | cons e rest ih =>
    rw [expandEach, List.foldlM_cons] at h
    obtain ⟨middle, hfirst, hrest⟩ := exists_ok_of_bind_eq_ok h
    obtain ⟨first, hunfolds, rfl, hsize⟩ :=
      hentries e List.mem_cons_self (rootOf e) output middle hfirst
    obtain ⟨cascade, hcascade, rfl, hfits⟩ :=
      ih (fun other hmem => hentries other (List.mem_cons_of_mem e hmem)) hrest
    refine ⟨first ++ cascade, hunfolds.append hcascade, by simp, fun _ => hfits hsize⟩

theorem unfoldsIfOk (e : Entry) : UnfoldsIfOk registry limit e := by
  induction e using entry_induction registry with
  | step e ih =>
    intro root output result h
    rw [expandEntry_eq] at h
    obtain ⟨middle, hreferences, hemit⟩ := exists_ok_of_bind_eq_ok h
    -- success below the entry names the rule sets, so the induction hypothesis applies there
    obtain ⟨sets, hsets, hnew⟩ := standFor_of_expandReferences hreferences
    rw [expandReferences_eq_expandEach hsets hnew] at hreferences
    obtain ⟨below, hbelow, rfl, _⟩ := unfolds_of_expandEach (ih sets hsets hnew) hreferences
    split at hemit
    · cases hemit
    · rename_i hroom
      cases hemit
      refine ⟨below ++ [e], .cons hsets hnew hbelow .nil, by simp, ?_⟩
      rw [Array.size_push]
      omega

theorem expandAll_eq_expandEach (fragments : List Fragment) :
    expandAll registry limit fragments =
      (expandEach registry limit Entry.fragment (fragments.map topEntry) #[] >>= fun output =>
        .ok output.toList) := by
  rw [expandAll, expandEach, List.foldlM_map, expandInto_eq]
  rfl

/-- Expansion succeeds with a cascade exactly if the top-level fragments unfold to it and it
    fits the limit. -/
theorem expandAll_eq_ok_iff {fragments : List Fragment} {cascade : List Entry} :
    expandAll registry limit fragments = .ok cascade ↔
      Unfolds registry (fragments.map topEntry) cascade ∧ cascade.length ≤ limit := by
  rw [expandAll_eq_expandEach]
  constructor
  · intro h
    obtain ⟨result, heach, hresult⟩ := exists_ok_of_bind_eq_ok h
    obtain ⟨listed, hlisted, rfl, hfits⟩ := unfolds_of_expandEach (fun e _ => unfoldsIfOk e) heach
    cases hresult
    have hsize := hfits (Nat.zero_le limit)
    have hlist : (#[] ++ listed.toArray).toList = listed := by simp
    rw [← Array.length_toList, hlist] at hsize
    rw [hlist]
    exact ⟨hlisted, hsize⟩
  · rintro ⟨hunfolds, hfits⟩
    have heach : expandEach registry limit Entry.fragment (fragments.map topEntry) #[] =
        .ok (#[] ++ cascade.toArray) := by
      apply expandEach_of_unfolds hunfolds
      simpa using hfits
    rw [heach]
    show Except.ok (#[] ++ cascade.toArray).toList = _
    simp

end Expansion

/-! ## Section 4: Snapshots -/

open Expansion in
/-- A snapshot is the unfolding of its fragments, beside what it takes from the options. -/
theorem Snapshot.ofFragments_eq_ok_iff {fragments : List Fragment} {registry : Registry}
    {ignores : FileFilter} {options : EngineOptions} {s : Snapshot} :
    Snapshot.ofFragments fragments registry ignores options = .ok s ↔
      ∃ cascade, Unfolds registry (fragments.map topEntry) cascade ∧
        cascade.length ≤ options.maxCascadeEntries.toNat ∧
        s = { cascade, ignores
              languages := .withOverrides options.languages
              cacheCapacity := Snapshot.capacityOf options } := by
  constructor
  · intro h
    obtain ⟨cascade, hcascade, hs⟩ := exists_ok_of_bind_eq_ok h
    cases hs
    obtain ⟨hunfolds, hfits⟩ := expandAll_eq_ok_iff.1 hcascade
    exact ⟨cascade, hunfolds, hfits, rfl⟩
  · rintro ⟨cascade, hunfolds, hfits, rfl⟩
    rw [Snapshot.ofFragments, expandAll_eq_ok_iff.2 ⟨hunfolds, hfits⟩]
    rfl

end RuleCascade
