import RuleCascade.Fragment.Load
import RuleCascade.Unseen

/-! # Rule sets and their names

    A rule set is a named group of fragments that other fragments can be built
    on. The registry holds rule sets by name, and aliases: further names that
    stand for a rule set or for another alias.

    A reference is resolved by following aliases until the name of a rule set
    is reached. A rule set always wins over an alias of the same name.
-/

namespace RuleCascade

/-! ## Section 1: Rule sets -/

/-- A named, ordered group of fragments. -/
structure RuleSet where
  name : String
  fragments : List Fragment
deriving Inhabited

/-- Load a declared rule set; its fragments stand at `ruleSets.<name>[i]`. -/
def RuleSet.load (name : String) (declarations : List FragmentDeclaration) :
    Except CascadeError RuleSet := do
  if Text.isBlankText name then
    .error (.invalidFragment "ruleSets" "<name>" "rule set name is empty")
  else
    let fragments ←
      Fragment.loadFrom (fun i => "ruleSets." ++ name ++ "[" ++ toString i ++ "]") 0 declarations
    return ⟨name, fragments⟩

/-- The registered rule sets and aliases, each in the order of registration. -/
structure Registry where
  ruleSets : OrderedMap String (List Fragment) := .empty
  aliases : OrderedMap String String := .empty
deriving Inhabited

namespace Registry

/-! ## Section 2: Registration -/

/-- The rule set of a name, without following aliases. -/
def ruleSet? (r : Registry) (name : String) : Option RuleSet :=
  (r.ruleSets.find? name).map (RuleSet.mk name)

/-- Add a rule set, or replace the one of the same name in its place. -/
def register (r : Registry) (s : RuleSet) : Registry :=
  { r with ruleSets := r.ruleSets.insert s.name s.fragments }

/-- Add an alias. Its two names must show, and no rule set may have its name. -/
def registerAlias (r : Registry) (name target : String) : Except CascadeError Registry :=
  if Text.isBlankText name || Text.isBlankText target then
    .error (.config ("Alias '" ++ name ++ "' → '" ++ target ++ "' has an empty name"))
  else if r.ruleSets.contains name then
    .error (.config ("Alias '" ++ name ++ "' shadows a rule set of the same name"))
  else .ok { r with aliases := r.aliases.insert name target }

/-! ## Section 3: Looking up references -/

/-- The part of a walk from the first visit of a name on, closed by that name. -/
def cycleAt (walk : List String) (name : String) : List String :=
  walk.dropWhile (· ≠ name) ++ [name]

/-- Follow aliases from a name after those already followed, in the order of the walk. -/
def lookupFrom (r : Registry) (requestedBy : String) (walk : List String) (name : String) :
    Except CascadeError RuleSet :=
  match r.ruleSet? name with
  | some s => .ok s
  | none =>
    match _h : r.aliases.find? name with
    | none => .error (.unknownRuleSet name requestedBy)
    | some target =>
      if _hw : name ∈ walk then .error (.cyclicExtends (cycleAt walk name))
      else lookupFrom r requestedBy (walk ++ [name]) target
termination_by countUnseen (fun n => decide (n ∈ walk)) r.aliases.keys
decreasing_by
  have hkey : name ∈ r.aliases.keys :=
    OrderedMap.contains_iff.1 (by simp [OrderedMap.contains, _h])
  refine countUnseen_lt (fun n hn => ?_) hkey (by simpa using _hw) (by simp)
  simp only [decide_eq_true_eq] at hn ⊢
  exact List.mem_append_left _ hn

/-- The rule set a reference stands for. `requestedBy` names who asks, for the message. -/
def lookup (r : Registry) (reference requestedBy : String) : Except CascadeError RuleSet :=
  lookupFrom r requestedBy [] reference

/-- The name of the rule set a reference stands for. -/
def canonicalName (r : Registry) (reference requestedBy : String) : Except CascadeError String := do
  let s ← r.lookup reference requestedBy
  return s.name

/-- True for the names of rule sets and for aliases. -/
def contains (r : Registry) (name : String) : Bool :=
  r.ruleSets.contains name || r.aliases.contains name

/-- Check that every alias in the list stands for a rule set. -/
def validateEach (r : Registry) : List String → Except CascadeError Unit
  | [] => .ok ()
  | name :: rest => do
    let _ ← r.lookup name ("aliases." ++ name)
    validateEach r rest

/-- Check that every alias stands for a rule set. -/
def validateAliases (r : Registry) : Except CascadeError Unit :=
  r.validateEach r.aliases.keys

/-! ## Section 4: Declared registries -/

/-- Load and register declared rule sets in order. -/
def registerAll (r : Registry) :
    List (String × List FragmentDeclaration) → Except CascadeError Registry
  | [] => .ok r
  | (name, declarations) :: rest => do
    let s ← RuleSet.load name declarations
    registerAll (r.register s) rest

/-- Register declared aliases in order. -/
def registerAliases (r : Registry) : List (String × String) → Except CascadeError Registry
  | [] => .ok r
  | (name, target) :: rest => do
    let next ← r.registerAlias name target
    registerAliases next rest

/-- The registry of a document: all rule sets, then all aliases, then a check of the aliases. -/
def ofDeclarations (ruleSets : RuleSetDeclarations) (aliases : OrderedMap String String) :
    Except CascadeError Registry := do
  let sets ← registerAll {} ruleSets.entries
  let r ← registerAliases sets aliases.entries
  r.validateAliases
  return r

/-! ## Section 5: What registration changes -/

@[simp] theorem aliases_register (r : Registry) (s : RuleSet) :
    (r.register s).aliases = r.aliases := rfl

@[simp] theorem ruleSet?_register_self (r : Registry) (s : RuleSet) :
    (r.register s).ruleSet? s.name = some s := by
  simp [ruleSet?, register]

theorem ruleSet?_register_of_ne (r : Registry) {s : RuleSet} {name : String}
    (h : name ≠ s.name) : (r.register s).ruleSet? name = r.ruleSet? name := by
  simp [ruleSet?, register, OrderedMap.find?_insert_of_ne _ _ h]

theorem ruleSets_of_registerAlias {r next : Registry} {name target : String}
    (h : r.registerAlias name target = .ok next) : next.ruleSets = r.ruleSets := by
  unfold registerAlias at h
  split at h
  · cases h
  split at h
  · cases h
  · cases h
    rfl

/-! ## Section 6: What a lookup finds -/

section steps

variable {r : Registry} {name requestedBy : String} (walk : List String)

theorem lookupFrom_of_ruleSet? {s : RuleSet} (h : r.ruleSet? name = some s) :
    r.lookupFrom requestedBy walk name = .ok s := by
  rw [lookupFrom, h]

theorem lookupFrom_of_unknown (hname : r.ruleSet? name = none)
    (halias : r.aliases.find? name = none) :
    r.lookupFrom requestedBy walk name = .error (.unknownRuleSet name requestedBy) := by
  rw [lookupFrom]
  simp only [hname]
  split
  · rfl
  · rename_i found hfound
    rw [halias] at hfound
    cases hfound

variable {walk} {target : String}

theorem lookupFrom_of_followed (hname : r.ruleSet? name = none)
    (halias : r.aliases.find? name = some target) (hfollowed : name ∈ walk) :
    r.lookupFrom requestedBy walk name = .error (.cyclicExtends (cycleAt walk name)) := by
  rw [lookupFrom]
  simp only [hname]
  split
  · rename_i hnone
    rw [halias] at hnone
    cases hnone
  · rw [dif_pos hfollowed]

theorem lookupFrom_of_alias (hname : r.ruleSet? name = none)
    (halias : r.aliases.find? name = some target) (hnew : name ∉ walk) :
    r.lookupFrom requestedBy walk name = r.lookupFrom requestedBy (walk ++ [name]) target := by
  rw [lookupFrom]
  simp only [hname]
  split
  · rename_i hnone
    rw [halias] at hnone
    cases hnone
  · rename_i found hfound
    rw [halias] at hfound
    cases hfound
    rw [dif_neg hnew]

end steps

/-- A rule set wins over an alias of the same name. -/
theorem lookup_of_ruleSet? {r : Registry} {name requestedBy : String} {s : RuleSet}
    (h : r.ruleSet? name = some s) : r.lookup name requestedBy = .ok s :=
  lookupFrom_of_ruleSet? [] h

/-- An alias of a rule set stands for it. -/
theorem lookup_of_alias {r : Registry} {name target requestedBy : String} {s : RuleSet}
    (hname : r.ruleSet? name = none) (halias : r.aliases.find? name = some target)
    (htarget : r.ruleSet? target = some s) : r.lookup name requestedBy = .ok s := by
  rw [lookup, lookupFrom_of_alias hname halias List.not_mem_nil]
  exact lookupFrom_of_ruleSet? _ htarget

@[simp] theorem name_of_ruleSet? {r : Registry} {name : String} {s : RuleSet}
    (h : r.ruleSet? name = some s) : s.name = name := by
  obtain ⟨_, _, rfl⟩ := Option.map_eq_some_iff.1 h
  rfl

/-- A lookup only finds rule sets that are registered under their own name. -/
theorem ruleSet?_of_lookupFrom {r : Registry} {requestedBy name : String} {walk : List String}
    {s : RuleSet} (h : r.lookupFrom requestedBy walk name = .ok s) :
    r.ruleSet? s.name = some s := by
  fun_induction lookupFrom r requestedBy walk name with
  | case1 walk name found hfound =>
    cases h
    rw [name_of_ruleSet? hfound, hfound]
  | case2 => cases h
  | case3 => cases h
  | case4 walk name _ target _ _ ih => exact ih h

theorem mem_entries_of_lookup {r : Registry} {reference requestedBy : String} {s : RuleSet}
    (h : r.lookup reference requestedBy = .ok s) :
    (s.name, s.fragments) ∈ r.ruleSets.entries := by
  obtain ⟨fragments, hfind, hs⟩ := Option.map_eq_some_iff.1 (ruleSet?_of_lookupFrom h)
  rw [← hs]
  exact Entries.mem_of_find? hfind

end Registry

end RuleCascade
