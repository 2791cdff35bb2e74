import RuleCascade.Proofs.HierarchicalResolution
import RuleCascade.Proofs.ReferenceGraph

/-! # Lineages

    An entry of a cascade was reached along references: a top-level fragment
    refers to a rule set, a fragment of that rule set to the next one, and so
    on down to the entry. These fragments are its lineage. It has one for the
    place where it stands, and equal entries may have different ones.

    * `Lineage` says what a lineage is: neighbours refer to each other, along
      the rule sets that the entry was reached through.
    * `Descends` lists the lineages of a whole cascade by a recursion that
      keeps them in full and knows neither scopes nor restrictions.

    The scope of an entry is what is left of its lineage when the entry itself
    and the fragments without restrictions are taken out. Those apply to every
    path, so the scope admits a path exactly if the lineage does.

    Main statement: `appliesTo_iff_lineage`.
-/

namespace RuleCascade.Expansion

variable {registry : Registry} {fragments : List Fragment}

/-! ## Section 1: The lineage of an entry -/

/-- Fragments that refer to each other, from the innermost one up to a top-level fragment, and the
    names of the rule sets between them. -/
inductive Lineage (registry : Registry) (fragments : List Fragment) :
    List Fragment → List String → Prop where
  | top {f : Fragment} : f ∈ fragments → Lineage registry fragments [f] []
  | follow {f parent : Fragment} {above : List Fragment} {reference : String} {set : RuleSet}
      {via : List String} :
      Lineage registry fragments (parent :: above) via → reference ∈ parent.bases →
      registry.lookup reference parent.label = .ok set → f ∈ set.fragments →
      Lineage registry fragments (f :: parent :: above) (set.name :: via)

/-- Every fragment above the innermost one refers to a rule set on the way. -/
theorem Lineage.refersTo {f parent : Fragment} {above : List Fragment} {via : List String}
    (h : Lineage registry fragments (f :: above) via) (hparent : parent ∈ above) :
    ∃ name ∈ via, RefersTo registry parent name := by
  generalize hline : f :: above = line at h
  induction h generalizing f above with
  | top _ =>
    cases hline
    cases hparent
  | @follow _ first rest reference set via _ hreference hset _ ih =>
    cases hline
    rcases List.mem_cons.1 hparent with rfl | hrest
    · refine ⟨set.name, List.mem_cons_self, ?_⟩
      exact refersTo_iff.2 ⟨reference, hreference, set, hset, rfl⟩
    · obtain ⟨name, hname, hrefers⟩ := ih hrest rfl
      exact ⟨name, List.mem_cons_of_mem _ hname, hrefers⟩

/-- The entry stands at the end of the lineage, and its scope is what restricts files above it. -/
structure Inherits (registry : Registry) (fragments line : List Fragment) (e : Entry) :
    Prop where
  isLineage : Lineage registry fragments line e.via
  head?_eq : line.head? = some e.fragment
  scope_eq : e.scope = line.tail.filter Fragment.hasConstraints

theorem inherits_topEntry {f : Fragment} (h : f ∈ fragments) :
    Inherits registry fragments [f] (topEntry f) :=
  ⟨.top h, rfl, rfl⟩

/-- The fragments of a rule set that an entry refers to come below the entry, each for itself. -/
theorem Inherits.child {e : Entry} {above : List Fragment} {reference : String} {set : RuleSet}
    {f : Fragment} (h : Inherits registry fragments (e.fragment :: above) e)
    (hreference : reference ∈ e.fragment.bases)
    (hset : registry.lookup reference e.fragment.label = .ok set) (hf : f ∈ set.fragments) :
    Inherits registry fragments (f :: e.fragment :: above)
      ⟨f, childScope e.fragment e.scope, set.name :: e.via⟩ := by
  refine ⟨.follow h.isLineage hreference hset hf, rfl, ?_⟩
  have hscope : e.scope = above.filter Fragment.hasConstraints := h.scope_eq
  show childScope e.fragment e.scope = (e.fragment :: above).filter Fragment.hasConstraints
  rw [childScope, List.filter_cons, hscope]

/-- Fragments without restrictions can be left out where all are to apply. -/
theorem forall_mem_filter_hasConstraints_iff {line : List Fragment} {path : String}
    {language : Option String} :
    (∀ f ∈ line.filter Fragment.hasConstraints, f.appliesTo path language = true) ↔
      ∀ f ∈ line, f.appliesTo path language = true := by
  constructor
  · intro h f hf
    by_cases hfree : f.hasConstraints = true
    · exact h f (List.mem_filter.2 ⟨hf, hfree⟩)
    · exact appliesTo_of_not_hasConstraints hfree
  · intro h f hf
    exact h f (List.mem_filter.1 hf).1

theorem Inherits.appliesTo_iff {e : Entry} {lineage : List Fragment}
    (h : Inherits registry fragments lineage e) (path : String) (language : Option String) :
    e.appliesTo path language = true ↔ ∀ f ∈ lineage, f.appliesTo path language = true := by
  obtain ⟨above, rfl⟩ : ∃ above, lineage = e.fragment :: above :=
    List.head?_eq_some_iff.1 h.head?_eq
  have hscope : e.scope = above.filter Fragment.hasConstraints := h.scope_eq
  rw [RuleCascade.appliesTo_iff, ScopeAdmits, hscope, forall_mem_filter_hasConstraints_iff,
    List.forall_mem_cons]

/-- Whatever restricts an entry from above refers to a rule set that the entry was reached
    through. -/
theorem Inherits.refersTo_of_mem_scope {e : Entry} {lineage : List Fragment}
    (h : Inherits registry fragments lineage e) {f : Fragment} (hf : f ∈ e.scope) :
    ∃ name ∈ e.via, RefersTo registry f name := by
  obtain ⟨above, rfl⟩ : ∃ above, lineage = e.fragment :: above :=
    List.head?_eq_some_iff.1 h.head?_eq
  rw [h.scope_eq] at hf
  exact h.isLineage.refersTo (List.mem_filter.1 hf).1

/-! ## Section 2: The lineages of a cascade -/

/-- The lineages of all that the fragments are built on and of the fragments themselves, in the
    order of the cascade. The fragments stand below those that are given first. -/
inductive Descends (registry : Registry) :
    List Fragment → List Fragment → List (List Fragment) → Prop where
  | nil (above : List Fragment) : Descends registry above [] []
  | cons {f : Fragment} {sets : List RuleSet} {above rest : List Fragment}
      {below after : List (List Fragment)} : f.StandsOn registry sets →
      Descends registry (f :: above) (sets.flatMap RuleSet.fragments) below →
      Descends registry above rest after →
      Descends registry above (f :: rest) (below ++ (f :: above) :: after)

theorem Descends.unique {above given : List Fragment} {lineages others : List (List Fragment)}
    (h : Descends registry above given lineages) (h' : Descends registry above given others) :
    lineages = others := by
  induction h generalizing others with
  | nil above =>
    cases h'
    rfl
  | cons hsets _ _ ihbelow ihafter =>
    cases h' with
    | cons hsets' hbelow' hafter' =>
      obtain rfl := hsets.unique hsets'
      rw [ihbelow hbelow', ihafter hafter']

/-- Entries that unfold have lineages that go on from those of the entries. -/
theorem Unfolds.exists_descends {entries cascade : List Entry} {above : List Fragment}
    (h : Unfolds registry entries cascade)
    (hentries : ∀ e ∈ entries, Inherits registry fragments (e.fragment :: above) e) :
    ∃ lineages, Descends registry above (entries.map Entry.fragment) lineages ∧
      List.Forall₂ (Inherits registry fragments) lineages cascade := by
  induction h generalizing above with
  | nil => exact ⟨[], .nil above, .nil⟩
  | @cons e sets rest below after hsets _ _ _ ihbelow ihafter =>
    obtain ⟨hentry, hrest⟩ := List.forall_mem_cons.1 hentries
    have hchildren : ∀ child ∈ sets.flatMap (entriesBelow e),
        Inherits registry fragments (child.fragment :: e.fragment :: above) child := by
      intro child hchild
      obtain ⟨set, hset, hmem⟩ := List.mem_flatMap.1 hchild
      obtain ⟨f, hf, rfl⟩ := List.mem_map.1 hmem
      obtain ⟨reference, hreference, hlookup⟩ := exists_reference_of_mem hsets hset
      exact hentry.child hreference hlookup hf
    obtain ⟨lower, hlower, hbelow⟩ := ihbelow hchildren
    obtain ⟨later, hlater, hafter⟩ := ihafter hrest
    rw [map_fragment_entriesBelow] at hlower
    refine ⟨lower ++ (e.fragment :: above) :: later, .cons hsets hlower hlater, ?_⟩
    exact List.rel_append hbelow (.cons hentry hafter)

/-! ## Section 3: Where entries apply -/

/-- Each entry of a cascade has its lineage, place by place, and applies exactly where all fragments
    of the lineage do. Its scope holds those above it that restrict files and nothing else, so
    whatever restricts it refers to a rule set that it was reached through. -/
theorem appliesTo_iff_lineage {limit : Nat} {cascade : List Entry}
    (h : expandAll registry limit fragments = .ok cascade) :
    ∃ lineages, (∀ others, Descends registry [] fragments others ↔ others = lineages) ∧
      List.Forall₂ (fun lineage e => Inherits registry fragments lineage e ∧
        (∀ path language, e.appliesTo path language = true ↔
          ∀ f ∈ lineage, f.appliesTo path language = true) ∧
        ∀ f ∈ e.scope, ∃ name ∈ e.via, RefersTo registry f name) lineages cascade := by
  obtain ⟨hunfolds, _⟩ := expandAll_eq_ok_iff.1 h
  have htop : ∀ e ∈ fragments.map topEntry, Inherits registry fragments [e.fragment] e := by
    intro e he
    obtain ⟨f, hf, rfl⟩ := List.mem_map.1 he
    exact inherits_topEntry hf
  obtain ⟨lineages, hdescends, hinherits⟩ := hunfolds.exists_descends htop
  rw [map_fragment_topEntry] at hdescends
  refine ⟨lineages, ?_, ?_⟩
  · intro others
    constructor
    · intro hothers
      exact hothers.unique hdescends
    · rintro rfl
      exact hdescends
  · refine hinherits.imp fun lineage e hentry => ⟨hentry, hentry.appliesTo_iff, ?_⟩
    intro f hf
    exact hentry.refersTo_of_mem_scope hf

/-! ## Section 4: A style kit -/

/-- The fragment for styles refers to another rule set. -/
def kitStyles : Fragment :=
  { origin := "ruleSets.kit[0]", language := some "css", bases := ["base"] }

/-- The fragment for scripts stands beside it. -/
def kitScripts : Fragment := { origin := "ruleSets.kit[1]", language := some "script" }

def kitBase : Fragment := { origin := "ruleSets.base[0]" }

def kitTop : Fragment := { origin := "fragments[0]", bases := ["kit"] }

def kitRegistry : Registry where
  ruleSets := .ofList [("kit", [kitStyles, kitScripts]), ("base", [kitBase])]

def kitCascade : List Entry :=
  [⟨kitBase, [kitStyles], ["base", "kit"]⟩, ⟨kitStyles, [], ["kit"]⟩, ⟨kitScripts, [], ["kit"]⟩,
    topEntry kitTop]

theorem standsOn_kitTop : kitTop.StandsOn kitRegistry [⟨"kit", [kitStyles, kitScripts]⟩] :=
  .cons (Registry.lookup_of_ruleSet? rfl) .nil

theorem standsOn_kitStyles : kitStyles.StandsOn kitRegistry [⟨"base", [kitBase]⟩] :=
  .cons (Registry.lookup_of_ruleSet? rfl) .nil

theorem expandAll_kit : expandAll kitRegistry 4 [kitTop] = .ok kitCascade := by
  refine expandAll_eq_ok_iff.2 ⟨?_, by decide⟩
  have hscripts : Unfolds kitRegistry [⟨kitScripts, [], ["kit"]⟩] [⟨kitScripts, [], ["kit"]⟩] :=
    .refl_of_bases_eq_nil (by simp [kitScripts])
  have hbase : Unfolds kitRegistry [⟨kitBase, [kitStyles], ["base", "kit"]⟩] _ :=
    .refl_of_bases_eq_nil (by simp [kitBase])
  have hkit : Unfolds kitRegistry [⟨kitStyles, [], ["kit"]⟩, ⟨kitScripts, [], ["kit"]⟩] _ :=
    .cons standsOn_kitStyles (by simp) hbase hscripts
  have htop : ∀ set ∈ [(⟨"kit", [kitStyles, kitScripts]⟩ : RuleSet)],
      set.name ∉ (topEntry kitTop).via := by simp [topEntry]
  exact .cons standsOn_kitTop htop hkit .nil

theorem descends_kit : Descends kitRegistry [] [kitTop]
    [[kitBase, kitStyles, kitTop], [kitStyles, kitTop], [kitScripts, kitTop], [kitTop]] := by
  have hbase : Descends kitRegistry [kitStyles, kitTop] [kitBase] _ := .cons .nil (.nil _) (.nil _)
  have hscripts : Descends kitRegistry [kitTop] [kitScripts] _ := .cons .nil (.nil _) (.nil _)
  have hkit : Descends kitRegistry [kitTop] [kitStyles, kitScripts] _ :=
    .cons standsOn_kitStyles hbase hscripts
  exact .cons standsOn_kitTop hkit (.nil _)

/-- The fragment for styles restricts what it refers to. The one beside it does not, and the
    top-level fragment has nothing to restrict. -/
theorem appliesTo_iff_lineage_kit :
    expandAll kitRegistry 4 [kitTop] = .ok kitCascade ∧
    (∀ path language, Entry.appliesTo ⟨kitBase, [kitStyles], ["base", "kit"]⟩ path language = true ↔
      ∀ f ∈ [kitBase, kitStyles, kitTop], f.appliesTo path language = true) ∧
    Entry.appliesTo ⟨kitBase, [kitStyles], ["base", "kit"]⟩ "a.css" (some "css") = true := by
  obtain ⟨lineages, hlineages, hentries⟩ := appliesTo_iff_lineage expandAll_kit
  obtain rfl := (hlineages _).1 descends_kit
  cases hentries with
  | cons hbase _ => exact ⟨expandAll_kit, hbase.2.1, rfl⟩

end RuleCascade.Expansion
