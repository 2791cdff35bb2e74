import Mathlib.Logic.Relation
import RuleCascade.Proofs.Unfolding

/-! # The graph of references

    Rule sets refer to rule sets: an edge leads from a name to the canonical
    name of every reference in the fragments that stand under it. The part of
    this graph that the top-level fragments reach decides whether they unfold.

    * A cascade holds an entry for every fragment that is reached, so every
      reference there resolves. The chain of an entry holds no name that the
      entry leads to, so no name that is reached leads back to itself.
    * Conversely, without a cycle no rule set is below itself: every name on
      a chain leads to all that the entry refers to.

    Main statement: `exists_unfolds_iff`.
-/

namespace RuleCascade.Expansion

variable {registry : Registry} {fragments : List Fragment}

/-! ## Section 1: What references reach -/

/-- The fragments that references lead to, the given ones included. -/
inductive Reachable (registry : Registry) (fragments : List Fragment) : Fragment → Prop where
  | top {f : Fragment} : f ∈ fragments → Reachable registry fragments f
  | follow {f g : Fragment} {reference : String} {set : RuleSet} :
      Reachable registry fragments f → reference ∈ f.bases →
      registry.lookup reference f.label = .ok set → g ∈ set.fragments →
      Reachable registry fragments g

/-- The fragment refers to the rule set of this name, directly or through aliases. -/
def RefersTo (registry : Registry) (f : Fragment) (name : String) : Prop :=
  ∃ reference ∈ f.bases, registry.canonicalName reference f.label = .ok name

/-- An edge of the graph: a fragment of the one rule set refers to the other. -/
def Edge (registry : Registry) (source target : String) : Prop :=
  ∃ set, registry.ruleSet? source = some set ∧ ∃ f ∈ set.fragments, RefersTo registry f target

/-- Every reference of every reachable fragment stands for a rule set. -/
def ReferencesResolve (registry : Registry) (fragments : List Fragment) : Prop :=
  ∀ f, Reachable registry fragments f → ∀ reference ∈ f.bases,
    ∃ set, registry.lookup reference f.label = .ok set

/-- No name that a reachable fragment refers to leads back to itself. -/
def Acyclic (registry : Registry) (fragments : List Fragment) : Prop :=
  ∀ f, Reachable registry fragments f → ∀ name, RefersTo registry f name →
    ¬ Relation.TransGen (Edge registry) name name

theorem refersTo_iff {f : Fragment} {name : String} :
    RefersTo registry f name ↔
      ∃ reference ∈ f.bases, ∃ set, registry.lookup reference f.label = .ok set ∧
        set.name = name := by
  constructor
  · rintro ⟨reference, hmem, hname⟩
    obtain ⟨set, hset, hpure⟩ := exists_ok_of_bind_eq_ok hname
    cases hpure
    exact ⟨reference, hmem, set, hset, rfl⟩
  · rintro ⟨reference, hmem, set, hset, rfl⟩
    refine ⟨reference, hmem, ?_⟩
    rw [Registry.canonicalName, hset]
    rfl

theorem edge_of_lookup {f : Fragment} {reference requestedBy target : String} {set : RuleSet}
    (hset : registry.lookup reference requestedBy = .ok set) (hf : f ∈ set.fragments)
    (htarget : RefersTo registry f target) : Edge registry set.name target :=
  ⟨set, Registry.ruleSet?_of_lookupFrom hset, f, hf, htarget⟩

/-- A fragment that stands on rule sets refers to them and to no others. -/
theorem refersTo_iff_of_standsOn {f : Fragment} {sets : List RuleSet}
    (hsets : f.StandsOn registry sets) {name : String} :
    RefersTo registry f name ↔ ∃ set ∈ sets, set.name = name := by
  rw [refersTo_iff]
  constructor
  · rintro ⟨reference, hmem, set, hset, rfl⟩
    obtain ⟨found, hfound, hlookup⟩ := exists_set_of_mem hsets hmem
    rw [hset] at hlookup
    cases hlookup
    exact ⟨set, hfound, rfl⟩
  · rintro ⟨set, hmem, rfl⟩
    obtain ⟨reference, hreference, hset⟩ := exists_reference_of_mem hsets hmem
    exact ⟨reference, hreference, set, hset, rfl⟩

/-! ## Section 2: A cascade shows the graph -/

/-- What holds of a cascade as a set of entries: with an entry it holds all that is below it. -/
def Closed (registry : Registry) (cascade : List Entry) : Prop :=
  ∀ e ∈ cascade, ∃ sets, e.fragment.StandsOn registry sets ∧
    (∀ set ∈ sets, set.name ∉ e.via) ∧
    ∀ set ∈ sets, ∀ child ∈ entriesBelow e set, child ∈ cascade

theorem Unfolds.subset {entries cascade : List Entry} (h : Unfolds registry entries cascade) :
    entries ⊆ cascade := by
  induction h with
  | nil => exact List.Subset.refl []
  | cons _ _ _ _ _ ih =>
    intro e he
    rcases List.mem_cons.1 he with rfl | hrest
    · exact List.mem_append_right _ List.mem_cons_self
    · exact List.mem_append_right _ (List.mem_cons_of_mem _ (ih hrest))

theorem Unfolds.closed {entries cascade : List Entry} (h : Unfolds registry entries cascade) :
    Closed registry cascade := by
  induction h with
  | nil =>
    intro e he
    simp at he
  | @cons e sets rest below after hsets hnew hbelow _ ihbelow ihafter =>
    intro x hx
    rcases List.mem_append.1 hx with hx | hx
    · obtain ⟨inner, hinner, hfresh, hchildren⟩ := ihbelow x hx
      exact ⟨inner, hinner, hfresh, fun set hset child hchild =>
        List.mem_append_left _ (hchildren set hset child hchild)⟩
    rcases List.mem_cons.1 hx with rfl | hx
    · exact ⟨sets, hsets, hnew, fun set hset child hchild =>
        List.mem_append_left _ (hbelow.subset (List.mem_flatMap.2 ⟨set, hset, hchild⟩))⟩
    · obtain ⟨inner, hinner, hfresh, hchildren⟩ := ihafter x hx
      exact ⟨inner, hinner, hfresh, fun set hset child hchild =>
        List.mem_append_right _ (List.mem_cons_of_mem _ (hchildren set hset child hchild))⟩

/-- What an entry of a closed cascade refers to is not on its chain, and its fragments stand in
    the cascade with that name on their chain. -/
theorem Closed.child {cascade : List Entry} (h : Closed registry cascade) {e : Entry}
    (he : e ∈ cascade) {name : String} (hname : RefersTo registry e.fragment name) :
    name ∉ e.via ∧ ∀ set, registry.ruleSet? name = some set → ∀ f ∈ set.fragments,
      ∃ child ∈ cascade, child.fragment = f ∧ child.via = name :: e.via := by
  obtain ⟨sets, hsets, hnew, hchildren⟩ := h e he
  obtain ⟨found, hfound, rfl⟩ := (refersTo_iff_of_standsOn hsets).1 hname
  refine ⟨hnew found hfound, fun set hset f hf => ?_⟩
  obtain ⟨reference, _, hlookup⟩ := exists_reference_of_mem hsets hfound
  rw [Registry.ruleSet?_of_lookupFrom hlookup] at hset
  cases hset
  exact ⟨_, hchildren found hfound _ (List.mem_map_of_mem hf), rfl, rfl⟩

theorem Closed.exists_entry {cascade : List Entry} (h : Closed registry cascade)
    (htop : ∀ f ∈ fragments, topEntry f ∈ cascade) {f : Fragment}
    (hf : Reachable registry fragments f) : ∃ e ∈ cascade, e.fragment = f := by
  induction hf with
  | top hmem => exact ⟨_, htop _ hmem, rfl⟩
  | @follow f g reference set _ hmem hset hg ih =>
    obtain ⟨e, he, rfl⟩ := ih
    have hname : RefersTo registry e.fragment set.name :=
      refersTo_iff.2 ⟨reference, hmem, set, hset, rfl⟩
    obtain ⟨child, hchild, hfragment, _⟩ :=
      (h.child he hname).2 set (Registry.ruleSet?_of_lookupFrom hset) g hg
    exact ⟨child, hchild, hfragment⟩

/-- No name that an entry leads to is on its chain. -/
theorem Closed.notMem_via {cascade : List Entry} (h : Closed registry cascade)
    {name last : String} (hlast : Relation.ReflTransGen (Edge registry) name last) :
    ∀ e ∈ cascade, RefersTo registry e.fragment name → last ∉ e.via := by
  induction hlast using Relation.ReflTransGen.head_induction_on with
  | refl =>
    intro e he hname
    exact (h.child he hname).1
  | head hedge _ ih =>
    intro e he hname hmem
    obtain ⟨set, hset, f, hf, hnext⟩ := hedge
    -- the child below has every name of the chain on its own, so it will do to look there
    obtain ⟨child, hchild, rfl, hvia⟩ := (h.child he hname).2 set hset f hf
    have hchildvia := ih child hchild hnext
    rw [hvia] at hchildvia
    exact hchildvia (List.mem_cons_of_mem _ hmem)

theorem Closed.acyclic {cascade : List Entry} (h : Closed registry cascade)
    (htop : ∀ f ∈ fragments, topEntry f ∈ cascade) : Acyclic registry fragments := by
  intro f hf name hname hcycle
  obtain ⟨e, he, rfl⟩ := h.exists_entry htop hf
  obtain ⟨next, hedge, hback⟩ := Relation.TransGen.head'_iff.1 hcycle
  obtain ⟨set, hset, g, hg, hnext⟩ := hedge
  -- the way back to the name starts at a child that has the name on its chain
  obtain ⟨child, hchild, rfl, hvia⟩ := (h.child he hname).2 set hset g hg
  have hnot := h.notMem_via hback child hchild hnext
  rw [hvia] at hnot
  exact hnot List.mem_cons_self

theorem Closed.referencesResolve {cascade : List Entry} (h : Closed registry cascade)
    (htop : ∀ f ∈ fragments, topEntry f ∈ cascade) : ReferencesResolve registry fragments := by
  intro f hf reference hmem
  obtain ⟨e, he, rfl⟩ := h.exists_entry htop hf
  obtain ⟨sets, hsets, _, _⟩ := h e he
  obtain ⟨set, _, hset⟩ := exists_set_of_mem hsets hmem
  exact ⟨set, hset⟩

/-! ## Section 3: The graph gives a cascade -/

/-- An entry that stands where references lead: its fragment is reachable, and every name on its
    chain leads to all that the fragment refers to. -/
structure Grounded (registry : Registry) (fragments : List Fragment) (e : Entry) : Prop where
  reachable : Reachable registry fragments e.fragment
  leads : ∀ name ∈ e.via, ∀ target, RefersTo registry e.fragment target →
    Relation.TransGen (Edge registry) name target

theorem Grounded.top {f : Fragment} (hf : f ∈ fragments) :
    Grounded registry fragments (topEntry f) :=
  ⟨.top hf, fun name hname => by simp [topEntry] at hname⟩

theorem Grounded.child {e : Entry} (h : Grounded registry fragments e) {sets : List RuleSet}
    (hsets : e.fragment.StandsOn registry sets) {child : Entry}
    (hchild : child ∈ sets.flatMap (entriesBelow e)) : Grounded registry fragments child := by
  obtain ⟨set, hset, hmem⟩ := List.mem_flatMap.1 hchild
  obtain ⟨reference, hreference, hlookup⟩ := exists_reference_of_mem hsets hset
  obtain ⟨f, hf, rfl⟩ := List.mem_map.1 hmem
  refine ⟨h.reachable.follow hreference hlookup hf, fun name hname target htarget => ?_⟩
  have hedge := edge_of_lookup hlookup hf htarget
  rcases List.mem_cons.1 hname with rfl | hname
  · exact .single hedge
  · -- the name led to the rule set already, and the rule set leads on
    have hleads := h.leads name hname set.name
      ((refersTo_iff_of_standsOn hsets).2 ⟨set, hset, rfl⟩)
    exact hleads.tail hedge

theorem exists_unfolds_of_forall {entries : List Entry}
    (h : ∀ e ∈ entries, ∃ cascade, Unfolds registry [e] cascade) :
    ∃ cascade, Unfolds registry entries cascade := by
  induction entries with
  | nil => exact ⟨[], .nil⟩
  | cons e rest ih =>
    obtain ⟨first, hfirst⟩ := h e List.mem_cons_self
    obtain ⟨after, hafter⟩ := ih fun other hmem => h other (List.mem_cons_of_mem e hmem)
    exact ⟨first ++ after, hfirst.append hafter⟩

theorem exists_unfolds_of_grounded (hresolve : ReferencesResolve registry fragments)
    (hacyclic : Acyclic registry fragments) (e : Entry) (h : Grounded registry fragments e) :
    ∃ cascade, Unfolds registry [e] cascade := by
  induction e using entry_induction registry with
  | step e ih =>
    obtain ⟨sets, hsets⟩ := exists_sets (hresolve e.fragment h.reachable)
    have hnew : ∀ set ∈ sets, set.name ∉ e.via := by
      -- a name on the chain would lead to the same name below
      intro set hset hmem
      have hname := (refersTo_iff_of_standsOn hsets).2 ⟨set, hset, rfl⟩
      exact hacyclic e.fragment h.reachable set.name hname (h.leads set.name hmem set.name hname)
    obtain ⟨below, hbelow⟩ : ∃ below, Unfolds registry (sets.flatMap (entriesBelow e)) below := by
      apply exists_unfolds_of_forall
      intro child hchild
      exact ih sets hsets hnew child hchild (h.child hsets hchild)
    exact ⟨below ++ [e], .cons hsets hnew hbelow .nil⟩

/-- Fragments unfold exactly if all they reach resolves and has no cycle. -/
theorem exists_unfolds_iff :
    (∃ cascade, Unfolds registry (fragments.map topEntry) cascade) ↔
      ReferencesResolve registry fragments ∧ Acyclic registry fragments := by
  constructor
  · rintro ⟨cascade, h⟩
    have htop : ∀ f ∈ fragments, topEntry f ∈ cascade :=
      fun f hf => h.subset (List.mem_map_of_mem hf)
    exact ⟨h.closed.referencesResolve htop, h.closed.acyclic htop⟩
  · rintro ⟨hresolve, hacyclic⟩
    apply exists_unfolds_of_forall
    intro e he
    obtain ⟨f, hf, rfl⟩ := List.mem_map.1 he
    exact exists_unfolds_of_grounded hresolve hacyclic (topEntry f) (.top hf)

end RuleCascade.Expansion
