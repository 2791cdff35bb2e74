import RuleCascade.Expansion

/-! # Expansion as a depth-first recursion

    The work list of `RuleCascade.Expansion` computes a recursion over
    entries. An entry is expanded by expanding its references in order and
    emitting it afterwards; a reference is expanded by expanding the fragments
    of its rule set under the chain that the name of the rule set extends.

    The recursion has one chain, the names an entry was reached through. The
    walk keeps the names it is expanding in a list, once more in a hash set,
    and a third time as the `via` of its items; `Tracks` and the shape of the
    items tie them together.

    Main statement: the two are equal for every registry, every list of
    fragments and every limit, errors included.
-/

namespace RuleCascade.Expansion

/-! ## Section 1: The recursion -/

/-- The number of rule sets that are not on the chain. -/
def remaining (registry : Registry) (chain : List String) : Nat :=
  countUnseen (fun name => decide (name ∈ chain)) registry.ruleSets.keys

/-- A rule set that is put on the chain is one less that remains. -/
theorem remaining_cons_lt {registry : Registry} {chain : List String} {name : String}
    (hkey : name ∈ registry.ruleSets.keys) (hnew : name ∉ chain) :
    remaining registry (name :: chain) < remaining registry chain := by
  refine countUnseen_lt (fun n hn => ?_) hkey (by simpa using hnew) (by simp)
  simp only [decide_eq_true_eq] at hn ⊢
  exact List.mem_cons_of_mem _ hn

theorem mem_keys_of_lookup {registry : Registry} {reference requestedBy : String} {set : RuleSet}
    (h : registry.lookup reference requestedBy = .ok set) :
    set.name ∈ registry.ruleSets.keys :=
  List.mem_map_of_mem (f := Prod.fst) (Registry.mem_entries_of_lookup h)

-- Under one chain, fragments lead to entries and entries to references, which the second part of
-- the measure counts. References put a name on the chain, and the first part gets smaller.
mutual

/-- Expand an entry: all that it is built on, and then the entry itself if there is room. -/
def expandEntry (registry : Registry) (limit : Nat) (root : Fragment) (e : Entry)
    (output : Array Entry) : Except CascadeError (Array Entry) := do
  let output ← expandReferences registry limit root e e.fragment.bases output
  if limit ≤ output.size then .error (limitExceeded root limit)
  else .ok (output.push e)
termination_by (remaining registry e.via, 1, 0)

/-- Expand references of an entry in order. A rule set that is being expanded closes a cycle. -/
def expandReferences (registry : Registry) (limit : Nat) (root : Fragment) (e : Entry)
    (references : List String) (output : Array Entry) : Except CascadeError (Array Entry) :=
  match references with
  | [] => .ok output
  | reference :: rest =>
    match _hset : registry.lookup reference e.fragment.label with
    | .error error => .error error
    | .ok set =>
      if _hcycle : set.name ∈ e.via then .error (.cyclicExtends (cycleOf e.via set.name))
      else do
        let output ← expandFragments registry limit root (childScope e.fragment e.scope)
          (set.name :: e.via) set.fragments output
        expandReferences registry limit root e rest output
termination_by (remaining registry e.via, 0, references.length)
decreasing_by
  · exact Prod.Lex.left _ _ (remaining_cons_lt (mem_keys_of_lookup _hset) _hcycle)
  · simp [Prod.lex_def]

/-- Expand fragments in order, each as an entry with the given scope and chain. -/
def expandFragments (registry : Registry) (limit : Nat) (root : Fragment) (scope : List Fragment)
    (chain : List String) (fragments : List Fragment) (output : Array Entry) :
    Except CascadeError (Array Entry) :=
  match fragments with
  | [] => .ok output
  | fragment :: rest => do
    let output ← expandEntry registry limit root ⟨fragment, scope, chain⟩ output
    expandFragments registry limit root scope chain rest output
termination_by (remaining registry chain, 2, fragments.length)

end

/-- The entry of a top-level fragment. -/
def topEntry (fragment : Fragment) : Entry :=
  ⟨fragment, [], []⟩

/-- Expand top-level fragments one after another into one cascade. -/
def depthFirst (registry : Registry) (limit : Nat) (fragments : List Fragment) :
    Except CascadeError (List Entry) := do
  let output ← fragments.foldlM
    (fun output root => expandEntry registry limit root (topEntry root) output) #[]
  return output.toList

/-! ## Section 2: Equations of the recursion -/

variable {registry : Registry} {limit : Nat} {root : Fragment}

theorem expandEntry_eq (e : Entry) (output : Array Entry) :
    expandEntry registry limit root e output =
      (expandReferences registry limit root e e.fragment.bases output >>= fun output =>
        if limit ≤ output.size then .error (limitExceeded root limit)
        else .ok (output.push e)) := by
  rw [expandEntry]

@[simp] theorem expandReferences_nil (e : Entry) (output : Array Entry) :
    expandReferences registry limit root e [] output = .ok output := by
  rw [expandReferences]

theorem expandReferences_of_error {e : Entry} {reference : String} {error : CascadeError}
    (rest : List String) (output : Array Entry)
    (h : registry.lookup reference e.fragment.label = .error error) :
    expandReferences registry limit root e (reference :: rest) output = .error error := by
  rw [expandReferences]
  split
  · rename_i found hfound
    rw [h] at hfound
    cases hfound
    rfl
  · rename_i set hset
    rw [h] at hset
    cases hset

theorem expandReferences_of_cycle {e : Entry} {reference : String} {set : RuleSet}
    (rest : List String) (output : Array Entry)
    (h : registry.lookup reference e.fragment.label = .ok set) (hcycle : set.name ∈ e.via) :
    expandReferences registry limit root e (reference :: rest) output =
      .error (.cyclicExtends (cycleOf e.via set.name)) := by
  rw [expandReferences]
  split
  · rename_i error herror
    rw [h] at herror
    cases herror
  · rename_i found hfound
    rw [h] at hfound
    cases hfound
    rw [dif_pos hcycle]

theorem expandReferences_of_ok {e : Entry} {reference : String} {set : RuleSet}
    (rest : List String) (output : Array Entry)
    (h : registry.lookup reference e.fragment.label = .ok set) (hnew : set.name ∉ e.via) :
    expandReferences registry limit root e (reference :: rest) output =
      (expandFragments registry limit root (childScope e.fragment e.scope) (set.name :: e.via)
        set.fragments output >>= fun output =>
          expandReferences registry limit root e rest output) := by
  rw [expandReferences]
  split
  · rename_i error herror
    rw [h] at herror
    cases herror
  · rename_i found hfound
    rw [h] at hfound
    cases hfound
    rw [dif_neg hnew]

@[simp] theorem expandFragments_nil (scope : List Fragment) (chain : List String)
    (output : Array Entry) :
    expandFragments registry limit root scope chain [] output = .ok output := by
  rw [expandFragments]

theorem expandFragments_cons (scope : List Fragment) (chain : List String) (fragment : Fragment)
    (rest : List Fragment) (output : Array Entry) :
    expandFragments registry limit root scope chain (fragment :: rest) output =
      (expandEntry registry limit root ⟨fragment, scope, chain⟩ output >>= fun output =>
        expandFragments registry limit root scope chain rest output) := by
  rw [expandFragments]

/-- Induction on what is not on the chain yet: a property of chains that holds under a chain
    when it holds under all longer ones holds under every chain. -/
theorem chain_induction (registry : Registry) {motive : List String → Prop}
    (step : ∀ chain, (∀ name ∈ registry.ruleSets.keys, name ∉ chain → motive (name :: chain)) →
      motive chain) (chain : List String) : motive chain := by
  induction hn : remaining registry chain using Nat.strongRecOn generalizing chain with
  | ind n ih =>
    subst hn
    apply step
    intro name hkey hnew
    exact ih _ (remaining_cons_lt hkey hnew) _ rfl

/-! ## Section 3: Runs of the work list -/

/-- One turn of the loop: the first item of work is taken off and done. -/
def Turn (registry : Registry) (limit : Nat) (root : Fragment) (s next : State) : Prop :=
  ∃ item rest, s.work = item :: rest ∧
    step registry limit root { s with work := rest } item = .ok next

theorem run_nil (chain : List String) (active : Std.HashSet String) (output : Array Entry) :
    run registry limit root ⟨[], chain, active, output⟩ = .ok output := by
  rw [run]

theorem run_cons (item : Work) (rest : List Work) (chain : List String)
    (active : Std.HashSet String) (output : Array Entry) :
    run registry limit root ⟨item :: rest, chain, active, output⟩ =
      (step registry limit root ⟨rest, chain, active, output⟩ item >>=
        run registry limit root) := by
  rw [run]
  split
  · rename_i hnil
    cases hnil
  · rename_i head tail hwork
    cases hwork
    split
    · rename_i error herror
      rw [herror]
      rfl
    · rename_i next hnext
      rw [hnext]
      rfl

section items

variable (rest : List Work) (chain : List String) (active : Std.HashSet String)
  (output : Array Entry)

theorem run_visit (fragment : Fragment) (scope : List Fragment) (via : List String) :
    run registry limit root ⟨.visit fragment scope via :: rest, chain, active, output⟩ =
      run registry limit root ⟨visitWork fragment scope via ++ rest, chain, active, output⟩ := by
  rw [run_cons]
  rfl

theorem run_emit (e : Entry) :
    run registry limit root ⟨.emit e :: rest, chain, active, output⟩ =
      if limit ≤ output.size then .error (limitExceeded root limit)
      else run registry limit root ⟨rest, chain, active, output.push e⟩ := by
  rw [run_cons, step]
  split <;> rfl

theorem run_leave (name : String) :
    run registry limit root ⟨.leave :: rest, name :: chain, active, output⟩ =
      run registry limit root ⟨rest, chain, active.erase name, output⟩ := by
  rw [run_cons]
  rfl

variable {reference requestedBy : String} (scope : List Fragment) (via : List String)

theorem run_enter_of_error {error : CascadeError}
    (h : registry.lookup reference requestedBy = .error error) :
    run registry limit root
      ⟨.enter reference requestedBy scope via :: rest, chain, active, output⟩ = .error error := by
  rw [run_cons, step, h]
  rfl

theorem run_enter_of_active {set : RuleSet} (h : registry.lookup reference requestedBy = .ok set)
    (hactive : active.contains set.name = true) :
    run registry limit root
        ⟨.enter reference requestedBy scope via :: rest, chain, active, output⟩ =
      .error (.cyclicExtends (cycleOf chain set.name)) := by
  rw [run_cons, step, h]
  simp only [hactive, if_true]
  rfl

theorem run_enter_of_inactive {set : RuleSet}
    (h : registry.lookup reference requestedBy = .ok set)
    (hinactive : ¬ active.contains set.name = true) :
    run registry limit root
        ⟨.enter reference requestedBy scope via :: rest, chain, active, output⟩ =
      run registry limit root
        ⟨enterWork set scope via ++ rest, set.name :: chain, active.insert set.name, output⟩ := by
  have hfree : active.contains set.name = false := Bool.eq_false_iff.2 hinactive
  rw [run_cons, step_enter_eq_ok_iff.2 ⟨set, h, hfree, rfl⟩]
  rfl

end items

/-! ## Section 4: The chain and the active names -/

/-- The set of active names holds the names of the chain, none of which occurs twice. -/
structure Tracks (active : Std.HashSet String) (chain : List String) : Prop where
  nodup : chain.Nodup
  contains_iff : ∀ name, active.contains name = true ↔ name ∈ chain

theorem Tracks.empty : Tracks ∅ [] :=
  ⟨List.nodup_nil, fun name => by simp⟩

theorem Tracks.enter {active : Std.HashSet String} {chain : List String} {name : String}
    (h : Tracks active chain) (hnew : name ∉ chain) :
    Tracks (active.insert name) (name :: chain) := by
  refine ⟨List.nodup_cons.2 ⟨hnew, h.nodup⟩, fun other => ?_⟩
  rw [Std.HashSet.contains_insert, Bool.or_eq_true, beq_iff_eq, h.contains_iff other,
    List.mem_cons, eq_comm]

theorem Tracks.leave {active : Std.HashSet String} {chain : List String} {name : String}
    (h : Tracks active (name :: chain)) : Tracks (active.erase name) chain := by
  have hnodup := List.nodup_cons.1 h.nodup
  refine ⟨hnodup.2, fun other => ?_⟩
  rw [Std.HashSet.contains_erase, Bool.and_eq_true, h.contains_iff other, List.mem_cons]
  constructor
  · rintro ⟨hne, hmem⟩
    have hother : other ≠ name := by
      rintro rfl
      simp at hne
    exact hmem.resolve_left hother
  · -- the name was on the chain once only, so whatever stays on it is another one
    intro hmem
    have hne : name ≠ other := by
      rintro rfl
      exact hnodup.1 hmem
    exact ⟨by simpa using hne, Or.inr hmem⟩

/-! ## Section 5: What a list of work computes -/

/-- Under the chain, the list of work turns every output into the result that `k` gives,
    in whatever way the active names are stored. -/
def Computes (registry : Registry) (limit : Nat) (root : Fragment) (chain : List String)
    (work : List Work) (k : Array Entry → Except CascadeError (Array Entry)) : Prop :=
  ∀ active output, Tracks active chain →
    run registry limit root ⟨work, chain, active, output⟩ = k output

theorem computes_nil (chain : List String) :
    Computes registry limit root chain [] .ok :=
  fun active output _ => run_nil chain active output

variable {chain : List String} {rest : List Work}
  {k : Array Entry → Except CascadeError (Array Entry)}

theorem Computes.emit (h : Computes registry limit root chain rest k) (e : Entry) :
    Computes registry limit root chain (.emit e :: rest) (fun output =>
      (if limit ≤ output.size then .error (limitExceeded root limit)
        else .ok (output.push e)) >>= k) := by
  intro active output htracks
  rw [run_emit]
  show _ = (if limit ≤ output.size then _ else _) >>= k
  split
  · rfl
  · exact h active (output.push e) htracks

theorem Computes.leave (h : Computes registry limit root chain rest k) (name : String) :
    Computes registry limit root (name :: chain) (.leave :: rest) k := by
  intro active output htracks
  rw [run_leave]
  exact h (active.erase name) output htracks.leave

/-- An entry that a list of work is to visit is expanded as the recursion does it, and then
    the work goes on. -/
def Faithful (registry : Registry) (limit : Nat) (root : Fragment) (chain : List String) : Prop :=
  ∀ fragment scope rest k, Computes registry limit root chain rest k →
    Computes registry limit root chain (.visit fragment scope chain :: rest) (fun output =>
      expandEntry registry limit root ⟨fragment, scope, chain⟩ output >>= k)

theorem Faithful.visits (hvisit : Faithful registry limit root chain)
    (h : Computes registry limit root chain rest k) (scope : List Fragment)
    (fragments : List Fragment) :
    Computes registry limit root chain
      (fragments.map (fun fragment => .visit fragment scope chain) ++ rest) (fun output =>
        expandFragments registry limit root scope chain fragments output >>= k) := by
  induction fragments with
  | nil =>
    intro active output htracks
    show _ = expandFragments registry limit root scope chain [] output >>= k
    rw [expandFragments_nil]
    exact h active output htracks
  | cons fragment others ih =>
    intro active output htracks
    show _ = expandFragments registry limit root scope chain (fragment :: others) output >>= k
    rw [expandFragments_cons, bind_assoc]
    exact hvisit fragment scope _ _ ih active output htracks

/-- The references of an entry are entered as the recursion does it, once longer chains are
    dealt with. -/
theorem Computes.enters {e : Entry} (h : Computes registry limit root e.via rest k)
    (hlonger : ∀ name ∈ registry.ruleSets.keys, name ∉ e.via →
      Faithful registry limit root (name :: e.via))
    (references : List String) :
    Computes registry limit root e.via
      (references.map (fun reference =>
        .enter reference e.fragment.label (childScope e.fragment e.scope) e.via) ++ rest)
      (fun output => expandReferences registry limit root e references output >>= k) := by
  induction references with
  | nil =>
    intro active output htracks
    show _ = expandReferences registry limit root e [] output >>= k
    rw [expandReferences_nil]
    exact h active output htracks
  | cons reference others ih =>
    intro active output htracks
    show _ = expandReferences registry limit root e (reference :: others) output >>= k
    rw [List.map_cons, List.cons_append]
    cases hset : registry.lookup reference e.fragment.label with
    | error error =>
      rw [run_enter_of_error _ _ _ _ _ _ hset, expandReferences_of_error _ _ hset]
      rfl
    | ok set =>
      -- the walk asks the active names and the recursion the chain: `htracks` says they agree
      by_cases hcycle : set.name ∈ e.via
      · have hactive := (htracks.contains_iff set.name).2 hcycle
        rw [run_enter_of_active _ _ _ _ _ _ hset hactive,
          expandReferences_of_cycle _ _ hset hcycle]
        rfl
      · have hinactive := mt (htracks.contains_iff set.name).1 hcycle
        -- the fragments of the rule set, and after them its `leave` and the other references
        have hfragments := (hlonger set.name (mem_keys_of_lookup hset) hcycle).visits
          (ih.leave set.name) (childScope e.fragment e.scope) set.fragments
        rw [run_enter_of_inactive _ _ _ _ _ _ hset hinactive, enterWork, List.append_assoc,
          expandReferences_of_ok _ _ hset hcycle, bind_assoc]
        exact hfragments _ output (htracks.enter hcycle)

/-- Whatever the chain, the work list visits an entry as the recursion expands it. -/
theorem faithful (chain : List String) : Faithful registry limit root chain := by
  induction chain using chain_induction registry with
  | step chain ih =>
    intro fragment scope rest k h active output htracks
    -- a visit is replaced by the references of the fragment and its emission after them
    have hemit := h.emit ⟨fragment, scope, chain⟩
    have henters := Computes.enters (e := ⟨fragment, scope, chain⟩) hemit ih fragment.bases
    show _ = expandEntry registry limit root ⟨fragment, scope, chain⟩ output >>= k
    rw [run_visit, visitWork, List.append_assoc, expandEntry_eq, bind_assoc]
    exact henters active output htracks

/-! ## Section 6: The two agree -/

/-- A run for a top-level fragment is the recursion on its entry. -/
theorem expandInto_eq (registry : Registry) (limit : Nat) :
    expandInto registry limit = fun output root =>
      expandEntry registry limit root (topEntry root) output := by
  funext output root
  have hvisit : Computes registry limit root [] [.visit root [] []] fun output =>
      expandEntry registry limit root (topEntry root) output >>= .ok :=
    faithful [] root [] [] _ (computes_nil [])
  rw [expandInto, State.start, hvisit ∅ output Tracks.empty]
  exact bind_pure _

/-- The work list and the recursion give the same cascade or the same error. -/
theorem expandAll_eq_depthFirst (registry : Registry) (limit : Nat) (fragments : List Fragment) :
    expandAll registry limit fragments = depthFirst registry limit fragments := by
  rw [expandAll, depthFirst, expandInto_eq]

end RuleCascade.Expansion
