import Mathlib.Algebra.BigOperators.Group.List.Basic
import Mathlib.Data.Set.Card
import RuleCascade.Proofs.ReferenceGraph

/-! # Paths of references

    A fragment stands in a cascade once for every path of references that
    leads to it. A path starts at the position of a top-level fragment; every
    step names the position of a reference and the position of a fragment in
    the rule set that the reference stands for. Paths are told apart by these
    positions, so a reference that is repeated makes a path of its own.

    With a cycle there are infinitely many paths, so they are counted by the
    extended cardinality of the set.

    Main statements: an unfolding has one entry for every path
    (`Unfolds.encard_extendsPaths`), and expansion ends and succeeds exactly if
    everything resolves, nothing is cyclic and the paths fit the limit.
-/

namespace RuleCascade.Expansion

variable {registry : Registry}

/-! ## Section 1: Paths -/

/-- A step down from a fragment. -/
structure Hop where
  /-- The position of a reference of the fragment. -/
  reference : Nat
  /-- The position of a fragment in the rule set of the reference. -/
  fragment : Nat
deriving DecidableEq

/-- The fragment that a step leads to. -/
def Hop.target? (registry : Registry) (f : Fragment) (hop : Hop) : Option Fragment :=
  (f.bases[hop.reference]?).bind fun reference =>
    (CascadeError.value? (registry.lookup reference f.label)).bind fun set =>
      set.fragments[hop.fragment]?

/-- The fragment that steps lead to, one after another. -/
def follow? (registry : Registry) (f : Fragment) : List Hop → Option Fragment
  | [] => some f
  | hop :: hops => (hop.target? registry f).bind fun g => follow? registry g hops

/-- The paths that start at a fragment, the empty one included. -/
def pathsFrom (registry : Registry) (f : Fragment) : Set (List Hop) :=
  {hops | (follow? registry f hops).isSome}

/-- The paths that start at the top-level fragments. -/
def extendsPaths (registry : Registry) (fragments : List Fragment) : Set (Nat × List Hop) :=
  {path | ∃ f, fragments[path.1]? = some f ∧ path.2 ∈ pathsFrom registry f}

theorem mem_pathsFrom_cons {f : Fragment} {hop : Hop} {hops : List Hop} :
    hop :: hops ∈ pathsFrom registry f ↔
      ∃ reference, f.bases[hop.reference]? = some reference ∧
        ∃ set, registry.lookup reference f.label = .ok set ∧
          ∃ g, set.fragments[hop.fragment]? = some g ∧ hops ∈ pathsFrom registry g := by
  simp only [pathsFrom, Set.mem_ofPred_eq, follow?, Hop.target?, Option.isSome_iff_exists,
    Option.bind_eq_some_iff]
  constructor
  · rintro ⟨last, g, ⟨reference, hreference, set, hset, hg⟩, hlast⟩
    exact ⟨reference, hreference, set, CascadeError.value?_eq_some_iff.1 hset, g, hg, last, hlast⟩
  · rintro ⟨reference, hreference, set, hset, g, hg, last, hlast⟩
    exact ⟨last, g, ⟨reference, hreference, set, CascadeError.value?_eq_some_iff.2 hset, hg⟩, hlast⟩

/-! ## Section 2: Counting by position -/

section counting

variable {α β : Type}

/-- Members of sets that a list gives, each with the position of its set. -/
def indexed (xs : List α) (members : α → Set β) : Set (Nat × β) :=
  {p | ∃ x, xs[p.1]? = some x ∧ p.2 ∈ members x}

theorem indexed_nil (members : α → Set β) : indexed [] members = ∅ := by
  ext p
  simp [indexed]

theorem indexed_cons (x : α) (xs : List α) (members : α → Set β) :
    indexed (x :: xs) members =
      Prod.mk 0 '' members x ∪ Prod.map Nat.succ id '' indexed xs members := by
  ext ⟨i, b⟩
  cases i with
  | zero => simp [indexed]
  | succ i => simp [indexed]

/-- Positions keep equal members apart, so the sizes add up. -/
theorem encard_indexed (xs : List α) (members : α → Set β) :
    (indexed xs members).encard = (xs.map fun x => (members x).encard).sum := by
  induction xs with
  | nil => simp [indexed_nil]
  | cons x xs ih =>
    -- the members of the first set are at position zero and all others further down
    have hdisjoint : Disjoint (Prod.mk 0 '' members x)
        (Prod.map Nat.succ id '' indexed xs members) := by
      rw [Set.disjoint_left]
      rintro _ ⟨b, _, rfl⟩ ⟨⟨i, c⟩, _, hic⟩
      simp at hic
    have hfirst : (Prod.mk (0 : Nat) '' members x).encard = (members x).encard :=
      (Prod.mk_right_injective 0).encard_image _
    have hrest : (Prod.map Nat.succ id '' indexed xs members).encard =
        (indexed xs members).encard :=
      (Nat.succ_injective.prodMap Function.injective_id).encard_image _
    rw [indexed_cons, Set.encard_union_eq hdisjoint, hfirst, hrest, ih, List.map_cons,
      List.sum_cons]

end counting

/-! ## Section 3: Paths and entries -/

/-- The paths that a reference opens: a fragment of its rule set and a path from there. -/
def pathsThrough (registry : Registry) (label reference : String) : Set (Nat × List Hop) :=
  {path | ∃ set, registry.lookup reference label = .ok set ∧
    path ∈ indexed set.fragments (pathsFrom registry)}

theorem pathsThrough_eq {label reference : String} {set : RuleSet}
    (h : registry.lookup reference label = .ok set) :
    pathsThrough registry label reference = indexed set.fragments (pathsFrom registry) := by
  ext path
  simp [pathsThrough, h]

/-- Put a step in front of a path. -/
def consHop (path : Nat × Nat × List Hop) : List Hop :=
  ⟨path.1, path.2.1⟩ :: path.2.2

theorem consHop_injective : Function.Injective consHop := by
  rintro ⟨i, j, hops⟩ ⟨i', j', hops'⟩ h
  simp only [consHop, List.cons.injEq, Hop.mk.injEq] at h
  obtain ⟨⟨rfl, rfl⟩, rfl⟩ := h
  rfl

theorem pathsFrom_eq (f : Fragment) :
    pathsFrom registry f =
      insert [] (consHop '' indexed f.bases (pathsThrough registry f.label)) := by
  ext hops
  cases hops with
  | nil => simp [pathsFrom, follow?]
  | cons hop hops =>
    rw [mem_pathsFrom_cons]
    simp only [Set.mem_insert_iff, List.cons_ne_nil, false_or, Set.mem_image]
    constructor
    · rintro ⟨reference, hreference, set, hset, g, hg, hhops⟩
      exact ⟨(hop.reference, hop.fragment, hops), ⟨reference, hreference, set, hset, g, hg, hhops⟩,
        rfl⟩
    · rintro ⟨⟨i, j, rest⟩, ⟨reference, hreference, set, hset, g, hg, hhops⟩, hcons⟩
      cases hcons
      exact ⟨reference, hreference, set, hset, g, hg, hhops⟩

/-- The paths that references open go on from the fragments of their rule sets. -/
theorem sum_encard_pathsThrough {label : String} {references : List String} {sets : List RuleSet}
    (h : StandFor registry label references sets) :
    (references.map fun reference => (pathsThrough registry label reference).encard).sum =
      ((sets.flatMap RuleSet.fragments).map fun g => (pathsFrom registry g).encard).sum := by
  induction h with
  | nil => simp
  | cons hset _ ih =>
    rw [List.map_cons, List.sum_cons, ih, pathsThrough_eq hset, encard_indexed,
      List.flatMap_cons, List.map_append, List.sum_append]

/-- The paths from a fragment: the empty one, and those that go on below it. -/
theorem encard_pathsFrom {f : Fragment} {sets : List RuleSet}
    (hsets : f.StandsOn registry sets) :
    (pathsFrom registry f).encard =
      ((sets.flatMap RuleSet.fragments).map fun g => (pathsFrom registry g).encard).sum + 1 := by
  have hnil : [] ∉ consHop '' indexed f.bases (pathsThrough registry f.label) := by
    rintro ⟨path, _, hpath⟩
    cases hpath
  rw [pathsFrom_eq, Set.encard_insert_of_notMem hnil, consHop_injective.encard_image,
    encard_indexed, sum_encard_pathsThrough hsets]

/-- The paths from unfolded entries are as many as the entries of the cascade. -/
theorem Unfolds.length_eq {entries cascade : List Entry} (h : Unfolds registry entries cascade) :
    (cascade.length : ℕ∞) =
      ((entries.map Entry.fragment).map fun f => (pathsFrom registry f).encard).sum := by
  induction h with
  | nil => simp
  | @cons e sets rest below after hsets _ _ _ ihbelow ihafter =>
    rw [map_fragment_entriesBelow] at ihbelow
    -- the empty path counts the entry itself
    rw [List.map_cons, List.map_cons, List.sum_cons, encard_pathsFrom hsets, ← ihbelow, ← ihafter,
      List.length_append, List.length_cons]
    push_cast
    rw [add_comm (after.length : ℕ∞) 1, add_assoc]

theorem Unfolds.encard_extendsPaths {fragments : List Fragment} {cascade : List Entry}
    (h : Unfolds registry (fragments.map topEntry) cascade) :
    (extendsPaths registry fragments).encard = cascade.length := by
  rw [h.length_eq, map_fragment_topEntry]
  exact encard_indexed fragments (pathsFrom registry)

/-! ## Section 4: When expansion succeeds -/

/-- Every turn makes the state lighter, so no run of the loop goes on for ever. -/
theorem wellFounded_turn (registry : Registry) (limit : Nat) (root : Fragment) :
    WellFounded fun next s => Turn registry limit root s next := by
  refine Subrelation.wf (r := InvImage (· < ·) (State.weight registry)) ?_
    (InvImage.wf _ Nat.lt_wfRel.wf)
  rintro next s ⟨item, rest, hwork, hstep⟩
  have hlighter := weight_step hstep
  cases s
  cases hwork
  exact hlighter

/-- Expansion comes to an end, and it succeeds exactly if everything that is reached resolves,
    no rule set that is reached leads back to itself, and there are no more paths than the limit
    allows. The cascade then has one entry for each path. -/
theorem expandAll_ends_and_succeeds_iff (registry : Registry) (fragments : List Fragment)
    (limit : Nat) :
    (∀ root, WellFounded fun next s => Turn registry limit root s next) ∧
    ((∃ cascade, expandAll registry limit fragments = .ok cascade) ↔
      ReferencesResolve registry fragments ∧ Acyclic registry fragments ∧
        (extendsPaths registry fragments).encard ≤ limit) ∧
    ∀ cascade, expandAll registry limit fragments = .ok cascade →
      (extendsPaths registry fragments).encard = cascade.length := by
  refine ⟨wellFounded_turn registry limit, ?_, ?_⟩
  · constructor
    · rintro ⟨cascade, h⟩
      obtain ⟨hunfolds, hfits⟩ := expandAll_eq_ok_iff.1 h
      obtain ⟨hresolve, hacyclic⟩ := exists_unfolds_iff.1 ⟨cascade, hunfolds⟩
      refine ⟨hresolve, hacyclic, ?_⟩
      rw [hunfolds.encard_extendsPaths]
      exact_mod_cast hfits
    · rintro ⟨hresolve, hacyclic, hfits⟩
      obtain ⟨cascade, hunfolds⟩ := exists_unfolds_iff.2 ⟨hresolve, hacyclic⟩
      rw [hunfolds.encard_extendsPaths] at hfits
      exact ⟨cascade, expandAll_eq_ok_iff.2 ⟨hunfolds, by exact_mod_cast hfits⟩⟩
  · intro cascade h
    exact (expandAll_eq_ok_iff.1 h).1.encard_extendsPaths

end RuleCascade.Expansion
