import Std.Data.HashSet.Lemmas
import RuleCascade.Registry

/-! # Expansion of references

    Expansion replaces every reference of a fragment by the fragments of the
    rule set it stands for, recursively and in order. They come before the
    fragment that refers to them, so that its own rules win.

    The walk is driven by a list of work, so its depth is not bounded by a call
    stack. Visiting a fragment schedules one `enter` for each reference and then
    its `emit`; entering a rule set puts its name on the chain and schedules its
    fragments and then a `leave`, which takes the name off again.

    The chain holds the names that are being expanded. A rule set that is
    reached twice along different ways is expanded twice; one that is reached
    from inside itself is an error. The number of entries is limited, because
    rule sets that are reached along many ways multiply.

    A fragment inherits the restrictions of every fragment above it: they form
    its scope.
-/

namespace RuleCascade

/-! ## Section 1: Entries -/

/-- A fragment in its place in the cascade. -/
structure Entry where
  fragment : Fragment
  /-- The fragments above it that restrict files, innermost first. -/
  scope : List Fragment
  /-- The rule sets it was reached through, innermost first. -/
  via : List String
deriving Inhabited

namespace Entry

/-- The rule sets the entry was reached through, outermost first. -/
def route (e : Entry) : List String :=
  e.via.reverse

/-- True when the fragment and every inherited restriction apply. -/
def appliesTo (e : Entry) (path : String) (language : Option String) : Bool :=
  e.fragment.appliesTo path language &&
    e.scope.all fun ancestor => ancestor.appliesTo path language

/-- The label of the fragment and the way it was reached. -/
def provenance (e : Entry) : String :=
  if e.via.isEmpty then e.fragment.label
  else e.fragment.label ++ " (via " ++ " → ".intercalate e.route ++ ")"

end Entry

namespace Expansion

/-! ## Section 2: Work -/

/-- An item of work. -/
inductive Work where
  | visit (fragment : Fragment) (scope : List Fragment) (via : List String)
  | enter (reference requestedBy : String) (scope : List Fragment) (via : List String)
  | emit (entry : Entry)
  | leave

/-- The state of a walk. -/
structure State where
  /-- What is left to do, the next item first. -/
  work : List Work
  /-- The names of the rule sets being expanded, innermost first. -/
  chain : List String
  /-- The same names, for a quick membership test. -/
  active : Std.HashSet String
  output : Array Entry

/-- The walk over one fragment, after the entries that are there already. -/
def State.start (root : Fragment) (output : Array Entry) : State :=
  ⟨[.visit root [] []], [], ∅, output⟩

/-- The scope of what is built into a fragment. -/
def childScope (fragment : Fragment) (scope : List Fragment) : List Fragment :=
  if fragment.hasConstraints then fragment :: scope else scope

/-- What visiting a fragment schedules. -/
def visitWork (fragment : Fragment) (scope : List Fragment) (via : List String) : List Work :=
  fragment.bases.map (fun reference =>
    .enter reference fragment.label (childScope fragment scope) via) ++
  [.emit ⟨fragment, scope, via⟩]

/-- What entering a rule set schedules. -/
def enterWork (s : RuleSet) (scope : List Fragment) (via : List String) : List Work :=
  s.fragments.map (fun fragment => .visit fragment scope (s.name :: via)) ++ [.leave]

/-- The cycle that a name closes on the chain, outermost first. -/
def cycleOf (chain : List String) (name : String) : List String :=
  Registry.cycleAt chain.reverse name

/-- The error of a cascade that grows too large under a top-level fragment. -/
def limitExceeded (root : Fragment) (limit : Nat) : CascadeError :=
  .config ("Expanding extends of " ++ root.label ++ " exceeds the limit of " ++
    toString limit ++ " cascade entries")

/-- Do one item of work, which has been taken off the list. -/
def step (registry : Registry) (limit : Nat) (root : Fragment) (s : State) :
    Work → Except CascadeError State
  | .visit fragment scope via => .ok { s with work := visitWork fragment scope via ++ s.work }
  | .enter reference requestedBy scope via =>
    match registry.lookup reference requestedBy with
    | .error e => .error e
    | .ok set =>
      if s.active.contains set.name then .error (.cyclicExtends (cycleOf s.chain set.name))
      else
        .ok { s with
          work := enterWork set scope via ++ s.work
          chain := set.name :: s.chain
          active := s.active.insert set.name }
  | .emit entry =>
    if limit ≤ s.output.size then .error (limitExceeded root limit)
    else .ok { s with output := s.output.push entry }
  | .leave =>
    match s.chain with
    | [] => .ok s
    | name :: outer => .ok { s with chain := outer, active := s.active.erase name }

section step

variable {registry : Registry} {limit : Nat} {root : Fragment} {s next : State}

/-- Entering succeeds for a rule set that is not being expanded. -/
theorem step_enter_eq_ok_iff {reference requestedBy : String} {scope : List Fragment}
    {via : List String} :
    step registry limit root s (.enter reference requestedBy scope via) = .ok next ↔
      ∃ set, registry.lookup reference requestedBy = .ok set ∧
        s.active.contains set.name = false ∧
        next = { s with
          work := enterWork set scope via ++ s.work
          chain := set.name :: s.chain
          active := s.active.insert set.name } := by
  simp only [step]
  constructor
  · intro h
    split at h
    · cases h
    rename_i set hset
    split at h
    · cases h
    · rename_i hactive
      cases h
      exact ⟨set, hset, by simpa using hactive, rfl⟩
  · rintro ⟨set, hset, hinactive, rfl⟩
    simp [hset, hinactive]

/-- Emitting succeeds while there is room. -/
theorem step_emit_eq_ok_iff {e : Entry} :
    step registry limit root s (.emit e) = .ok next ↔
      s.output.size < limit ∧ next = { s with output := s.output.push e } := by
  simp only [step]
  constructor
  · intro h
    split at h
    · cases h
    · rename_i hroom
      cases h
      exact ⟨Nat.lt_of_not_le hroom, rfl⟩
  · rintro ⟨hroom, rfl⟩
    rw [if_neg (Nat.not_le_of_lt hroom)]

end step

/-! ## Section 3: The walk ends

    An item weighs more than all that it schedules. Entering a rule set lowers
    the number of names that can still be entered, and the weight of an `enter`
    grows with that number; a `leave` restores it for the items behind it. -/

/-- The fragments of all rule sets. -/
def allFragments (registry : Registry) : List Fragment :=
  registry.ruleSets.entries.flatMap Prod.snd

/-- The weight of visiting a fragment when an `enter` weighs `enter`. -/
def visitWeight (enter : Nat) (fragment : Fragment) : Nat :=
  fragment.bases.length * enter + 2

/-- The weight of visiting fragments one after another. -/
def visitsWeight (enter : Nat) : List Fragment → Nat
  | [] => 0
  | fragment :: rest => visitWeight enter fragment + visitsWeight enter rest

/-- The weight of an `enter` when so many names can still be entered. -/
def enterWeight (registry : Registry) : Nat → Nat
  | 0 => 1
  | n + 1 => visitsWeight (enterWeight registry n) (allFragments registry) + 2

/-- The weight of one item when so many names can still be entered. -/
def itemWeight (registry : Registry) (free : Nat) : Work → Nat
  | .visit fragment _ _ => visitWeight (enterWeight registry free) fragment
  | .enter .. => enterWeight registry free
  | .emit _ => 1
  | .leave => 1

/-- The weight of a list of work under the active names and the chain. -/
def weight (registry : Registry) (active : String → Bool) (chain : List String) :
    List Work → Nat
  | [] => 0
  | .leave :: rest =>
    1 + match chain with
      | [] => weight registry active [] rest
      | name :: outer => weight registry (fun n => active n && n != name) outer rest
  | item :: rest =>
    itemWeight registry (countUnseen active registry.ruleSets.keys) item +
      weight registry active chain rest

/-- The weight of a state. -/
def State.weight (registry : Registry) (s : State) : Nat :=
  Expansion.weight registry s.active.contains s.chain s.work

theorem visitsWeight_append (enter : Nat) (fragments others : List Fragment) :
    visitsWeight enter (fragments ++ others) =
      visitsWeight enter fragments + visitsWeight enter others := by
  induction fragments with
  | nil => simp [visitsWeight]
  | cons f rest ih => simp [visitsWeight, ih, Nat.add_assoc]

theorem visitsWeight_mono {a b : Nat} (h : a ≤ b) (fragments : List Fragment) :
    visitsWeight a fragments ≤ visitsWeight b fragments := by
  induction fragments with
  | nil => exact Nat.le_refl 0
  | cons f rest ih =>
    have hbases := Nat.mul_le_mul_left f.bases.length h
    simp only [visitsWeight, visitWeight]
    omega

theorem enterWeight_mono (registry : Registry) {a b : Nat} (h : a ≤ b) :
    enterWeight registry a ≤ enterWeight registry b := by
  induction b generalizing a with
  | zero => simp_all
  | succ b ih =>
    cases a with
    | zero => simp [enterWeight]
    | succ a =>
      have := visitsWeight_mono (ih (Nat.le_of_succ_le_succ h)) (allFragments registry)
      simp only [enterWeight]
      omega

/-- The fragments of one rule set weigh no more than those of all. -/
theorem visitsWeight_le_of_mem {enter : Nat} {name : String} {fragments : List Fragment}
    {entries : List (String × List Fragment)} (h : (name, fragments) ∈ entries) :
    visitsWeight enter fragments ≤ visitsWeight enter (entries.flatMap Prod.snd) := by
  induction entries with
  | nil => simp at h
  | cons entry rest ih =>
    rw [List.flatMap_cons, visitsWeight_append]
    rcases List.mem_cons.1 h with rfl | hrest
    · exact Nat.le_add_right _ _
    · have := ih hrest
      omega

theorem weight_visits (registry : Registry) (active : String → Bool) (chain : List String)
    (fragments : List Fragment) (scope : List Fragment) (via : List String) (rest : List Work) :
    weight registry active chain
        (fragments.map (fun fragment => Work.visit fragment scope via) ++ rest) =
      visitsWeight (enterWeight registry (countUnseen active registry.ruleSets.keys)) fragments +
        weight registry active chain rest := by
  induction fragments with
  | nil => simp [visitsWeight]
  | cons f others ih =>
    simp only [List.map_cons, List.cons_append, weight, itemWeight, visitsWeight, ih]
    omega

theorem weight_enters (registry : Registry) (active : String → Bool) (chain : List String)
    (references : List String) (label : String) (scope : List Fragment) (via : List String)
    (rest : List Work) :
    weight registry active chain
        (references.map (fun reference => Work.enter reference label scope via) ++ rest) =
      references.length * enterWeight registry (countUnseen active registry.ruleSets.keys) +
        weight registry active chain rest := by
  induction references with
  | nil => simp
  | cons r others ih =>
    simp only [List.map_cons, List.cons_append, weight, itemWeight, List.length_cons, ih,
      Nat.add_mul, Nat.one_mul]
    omega

/-- Every item of work that does not fail makes the state lighter. -/
theorem weight_step {registry : Registry} {limit : Nat} {root : Fragment} {s next : State}
    {item : Work} (h : step registry limit root s item = .ok next) :
    next.weight registry <
      ({ s with work := item :: s.work } : State).weight registry := by
  cases item with
  | visit fragment scope via =>
    cases h
    simp only [State.weight, visitWork, List.append_assoc, weight_enters]
    simp only [List.cons_append, List.nil_append, weight, itemWeight, visitWeight]
    omega
  | enter reference requestedBy scope via =>
    obtain ⟨set, hset, hinactive, rfl⟩ := step_enter_eq_ok_iff.1 h
    have hmem := Registry.mem_entries_of_lookup hset
    have hkey : set.name ∈ registry.ruleSets.keys := List.mem_map_of_mem (f := Prod.fst) hmem
    have hlater : (s.active.insert set.name).contains set.name = true := by simp
    have hmono : ∀ n, s.active.contains n = true →
        (s.active.insert set.name).contains n = true := by
      intro n hn
      simp [Std.HashSet.contains_insert, hn]
    have hlt := countUnseen_lt hmono hkey hinactive hlater
    have hrestore : (fun n => (s.active.insert set.name).contains n && n != set.name) =
        s.active.contains := by
      funext n
      by_cases hn : n = set.name
      · simp [hn, hinactive]
      · have hne : (set.name == n) = false := beq_false_of_ne (Ne.symm hn)
        simp [Std.HashSet.contains_insert, hne, bne_iff_ne.2 hn]
    simp only [State.weight, enterWork, List.append_assoc, weight_visits]
    simp only [List.cons_append, List.nil_append, weight, itemWeight, hrestore]
    generalize countUnseen s.active.contains registry.ruleSets.keys = free at hlt ⊢
    generalize countUnseen (s.active.insert set.name).contains registry.ruleSets.keys = fewer
      at hlt ⊢
    cases free with
    | zero => omega
    | succ free =>
      have hmono := visitsWeight_mono (enterWeight_mono registry (Nat.le_of_lt_succ hlt))
        set.fragments
      have hall : visitsWeight (enterWeight registry free) set.fragments ≤ _ :=
        visitsWeight_le_of_mem hmem
      simp only [enterWeight, allFragments]
      omega
  | emit entry =>
    obtain ⟨_, rfl⟩ := step_emit_eq_ok_iff.1 h
    simp [State.weight, weight, itemWeight]
  | leave =>
    simp only [step] at h
    split at h
    · rename_i hchain
      cases h
      simp [State.weight, weight, hchain]
    · rename_i name outer hchain
      cases h
      have herase : (s.active.erase name).contains =
          fun n => s.active.contains n && n != name := by
        funext n
        by_cases hn : n = name
        · simp [hn]
        · have hne : (name == n) = false := beq_false_of_ne (Ne.symm hn)
          simp [Std.HashSet.contains_erase, hne, bne_iff_ne.2 hn]
      simp [State.weight, weight, hchain, herase]

/-! ## Section 4: Whole cascades -/

/-- Work until nothing is left. -/
def run (registry : Registry) (limit : Nat) (root : Fragment) (s : State) :
    Except CascadeError (Array Entry) :=
  match _hwork : s.work with
  | [] => .ok s.output
  | item :: rest =>
    match _hstep : step registry limit root { s with work := rest } item with
    | .error e => .error e
    | .ok next => run registry limit root next
termination_by s.weight registry
decreasing_by
  have := weight_step _hstep
  cases s
  simp_all

/-- Expand one fragment after the entries that are there already. -/
def expandInto (registry : Registry) (limit : Nat) (output : Array Entry) (root : Fragment) :
    Except CascadeError (Array Entry) :=
  run registry limit root (.start root output)

/-- Expand fragments one after another into one cascade. -/
def expandAll (registry : Registry) (limit : Nat) (fragments : List Fragment) :
    Except CascadeError (List Entry) := do
  let output ← fragments.foldlM (expandInto registry limit) #[]
  return output.toList

end Expansion

end RuleCascade
