import Mathlib.Data.List.Rotate
import RuleCascade.Proofs.DeclaredRegistry

/-! # Aliases and their targets

    A registry grows by registrations, of rule sets and of aliases, in any
    order. An alias is refused if a rule set has its name, and a registration
    that is refused changes nothing.

    * No registration drops an alias or a rule set. So a name that is both has
      become so by one step, and an alias is never the second of the two:
      somebody has registered a rule set under the name of an alias
      (`Shadowed.exists_registration`).
    * The lookup of an alias is the lookup of its target with one more name
      behind it (`lookupFrom_cons`). Both find the same unless the target leads
      back to the alias. Then the alias lies on a ring, and so does the target:
      the lookup of a name on a ring goes once around and reports the ring from
      that name on (`IsRing.lookup`, `IsRing.rotate`).

    Main statement: `lookup_alias_of_registrations`.
-/

namespace RuleCascade.Registry

/-! ## Section 1: Registrations -/

/-- A step by which a registry grows. -/
inductive Registration where
  | ruleSet (s : RuleSet)
  | aliased (name target : String)

/-- The registry after a registration; one that is refused changes nothing. -/
def apply (r : Registry) : Registration → Registry
  | .ruleSet s => r.register s
  | .aliased name target =>
    match r.registerAlias name target with
    | .ok next => next
    | .error _ => r

/-- The registry after registrations in order. -/
def applyAll (r : Registry) (registrations : List Registration) : Registry :=
  registrations.foldl apply r

/-- The name is that of a rule set and of an alias as well. -/
def Shadowed (r : Registry) (name : String) : Prop :=
  name ∈ r.ruleSets.keys ∧ name ∈ r.aliases.keys

variable {r : Registry} {name target : String}

theorem applyAll_concat (r : Registry) (registrations : List Registration)
    (last : Registration) :
    r.applyAll (registrations ++ [last]) = (r.applyAll registrations).apply last := by
  simp [applyAll]

theorem applyAll_append (r : Registry) (registrations others : List Registration) :
    r.applyAll (registrations ++ others) = (r.applyAll registrations).applyAll others :=
  List.foldl_append

/-- An alias that is declared either is admitted or changes nothing. -/
theorem apply_aliased (r : Registry) (name target : String) :
    (r.Admits (name, target) ∧
      r.apply (.aliased name target) =
        { r with aliases := r.aliases.insert name target }) ∨
    (¬ r.Admits (name, target) ∧ r.apply (.aliased name target) = r) := by
  rw [apply]
  cases h : r.registerAlias name target with
  | ok next =>
    left
    exact registerAlias_eq_ok_iff.1 h
  | error e =>
    right
    refine ⟨?_, rfl⟩
    intro hadmits
    rw [registerAlias_eq_ok_iff.2 ⟨hadmits, rfl⟩] at h
    cases h

theorem mem_aliases_apply (h : name ∈ r.aliases.keys) (registration : Registration) :
    name ∈ (r.apply registration).aliases.keys := by
  cases registration with
  | ruleSet s => exact h
  | aliased other target =>
    rcases apply_aliased r other target with ⟨_, heq⟩ | ⟨_, heq⟩
    · rw [heq, OrderedMap.keys_insert]
      split
      · exact h
      · exact List.mem_append_left _ h
    · rw [heq]
      exact h

theorem mem_aliases_applyAll (h : name ∈ r.aliases.keys) (registrations : List Registration) :
    name ∈ (r.applyAll registrations).aliases.keys := by
  induction registrations generalizing r with
  | nil => exact h
  | cons first rest ih => exact ih (mem_aliases_apply h first)

/-- One registration makes a name both only by giving a rule set the name of an alias. -/
theorem Shadowed.of_apply {registration : Registration}
    (h : (r.apply registration).Shadowed name) :
    r.Shadowed name ∨
      ∃ s, registration = .ruleSet s ∧ s.name = name ∧ name ∈ r.aliases.keys := by
  obtain ⟨hset, halias⟩ := h
  cases registration with
  | ruleSet s =>
    rw [apply, aliases_register] at halias
    by_cases hname : s.name = name
    · exact Or.inr ⟨s, rfl, hname, halias⟩
    · left
      refine ⟨?_, halias⟩
      rw [apply, ← OrderedMap.contains_iff, register, OrderedMap.contains,
        OrderedMap.find?_insert_of_ne _ _ (Ne.symm hname)] at hset
      exact OrderedMap.contains_iff.1 hset
  | aliased other target =>
    left
    rcases apply_aliased r other target with ⟨⟨_, _, hfree⟩, heq⟩ | ⟨_, heq⟩
    · rw [heq] at hset halias
      refine ⟨hset, ?_⟩
      -- an alias that is admitted does not have the name of a rule set
      have hne : name ≠ other := by
        rintro rfl
        rw [OrderedMap.contains_iff.2 hset] at hfree
        cases hfree
      rw [← OrderedMap.contains_iff, OrderedMap.contains,
        OrderedMap.find?_insert_of_ne _ _ hne] at halias
      exact OrderedMap.contains_iff.1 halias
    · rw [heq] at hset halias
      exact ⟨hset, halias⟩

/-- A name that is both was an alias when a rule set was registered under it. -/
theorem Shadowed.exists_registration {registrations : List Registration}
    (h : (applyAll {} registrations).Shadowed name) :
    ∃ before s after, registrations = before ++ .ruleSet s :: after ∧ s.name = name ∧
      name ∈ (applyAll {} before).aliases.keys := by
  -- from the end: either the last registration has done it, or it was done before
  induction registrations using List.reverseRecOn with
  | nil => exact absurd h.1 List.not_mem_nil
  | append_singleton registrations last ih =>
    rw [applyAll_concat] at h
    rcases h.of_apply with hbefore | ⟨s, rfl, hname, halias⟩
    · obtain ⟨before, s, after, rfl, hname, halias⟩ := ih hbefore
      exact ⟨before, s, after ++ [last], by simp, hname, halias⟩
    · exact ⟨registrations, s, [], rfl, hname, halias⟩

/-! ## Section 2: Rings -/

/-- The names of a ring, closed by the first one. -/
def closeRing (ring : List String) : List String :=
  ring ++ ring.take 1

/-- The name lies on this ring of aliases, which is written from the name on. -/
structure IsRing (r : Registry) (name : String) (ring : List String) : Prop where
  head?_eq : ring.head? = some name
  isCycle : IsCycle r.AliasOf (closeRing ring)

/-- The answers of two lookups that come round a ring, from its first name and from the one after
    it. -/
structure ReportRing (ring : List String) (answer next : Except CascadeError RuleSet) : Prop where
  answer_eq : answer = .error (.cyclicExtends (closeRing ring))
  next_eq : next = .error (.cyclicExtends (closeRing (ring.rotate 1)))

theorem cycleAt_cons_self (walk : List String) (name : String) :
    cycleAt (name :: walk) name = closeRing (name :: walk) := by
  rw [cycleAt, List.dropWhile_cons_of_neg (by simp)]
  rfl

theorem cycleAt_cons_of_ne {walk : List String} {first : String} (h : first ≠ name) :
    cycleAt (first :: walk) name = cycleAt walk name := by
  rw [cycleAt, cycleAt, List.dropWhile_cons_of_pos (by simpa using h)]

/-- A ring as the names behind its first one. -/
theorem isRing_iff {ring : List String} :
    r.IsRing name ring ↔ ∃ rest, ring = name :: rest ∧ (name :: rest).Nodup ∧
      (name :: rest ++ [name]).IsChain r.AliasOf := by
  constructor
  · rintro ⟨hhead, hcycle⟩
    obtain ⟨rest, rfl⟩ := List.head?_eq_some_iff.1 hhead
    refine ⟨rest, rfl, ?_, hcycle.isChain⟩
    have hnodup := hcycle.nodup_dropLast
    rwa [closeRing, List.take_succ_cons, List.take_zero, List.dropLast_concat] at hnodup
  · rintro ⟨rest, rfl, hnodup, hchain⟩
    refine ⟨rfl, ⟨?_, ?_, ?_, hchain⟩⟩
    · simp [closeRing]
    · show some name = (name :: rest ++ [name]).getLast?
      rw [List.getLast?_concat]
    · rwa [closeRing, List.take_succ_cons, List.take_zero, List.dropLast_concat]

/-- A lookup follows aliases that are all new to it. -/
theorem lookupFrom_of_isChain {walk names : List String} {first last : String}
    (requestedBy : String) (hchain : (names ++ [last]).IsChain r.AliasOf)
    (hnodup : (walk ++ names).Nodup) (hfirst : (names ++ [last]).head? = some first) :
    r.lookupFrom requestedBy walk first = r.lookupFrom requestedBy (walk ++ names) last := by
  induction names generalizing walk first with
  | nil =>
    obtain rfl : last = first := Option.some.inj hfirst
    rw [List.append_nil]
  | cons followed rest ih =>
    obtain rfl : followed = first := Option.some.inj hfirst
    obtain ⟨second, hsecond⟩ : ∃ second, (rest ++ [last]).head? = some second := by
      cases rest <;> exact ⟨_, rfl⟩
    rw [List.cons_append, List.isChain_cons] at hchain
    obtain ⟨hset, halias⟩ := hchain.1 second hsecond
    have hnew : followed ∉ walk := fun hmem =>
      (List.nodup_append.1 hnodup).2.2 followed hmem followed List.mem_cons_self rfl
    rw [List.append_cons] at hnodup ⊢
    rw [lookupFrom_of_alias hset halias hnew]
    exact ih hchain.2 hnodup hsecond

/-- The lookup of a name on a ring reports the ring from this name on. -/
theorem IsRing.lookup {ring : List String} (h : r.IsRing name ring) (requestedBy : String) :
    r.lookup name requestedBy = .error (.cyclicExtends (closeRing ring)) := by
  obtain ⟨rest, rfl, hnodup, hchain⟩ := isRing_iff.1 h
  obtain ⟨second, hsecond⟩ : ∃ second, (rest ++ [name]).head? = some second := by
    cases rest <;> exact ⟨_, rfl⟩
  obtain ⟨hset, halias⟩ := (List.isChain_cons.1 hchain).1 second hsecond
  rw [Registry.lookup, lookupFrom_of_isChain requestedBy hchain hnodup rfl, List.nil_append,
    lookupFrom_of_followed hset halias List.mem_cons_self, cycleAt_cons_self]

/-- The target of a name on a ring is the next name on it. -/
theorem IsRing.rotate {ring : List String} (h : r.IsRing name ring)
    (hstep : r.AliasOf name target) : r.IsRing target (ring.rotate 1) := by
  obtain ⟨rest, rfl, hnodup, hchain⟩ := isRing_iff.1 h
  rw [List.cons_append] at hchain
  obtain ⟨hnext, hrest⟩ := List.isChain_cons.1 hchain
  obtain ⟨tail, htail⟩ : ∃ tail, rest ++ [name] = target :: tail := by
    cases hjoin : rest ++ [name] with
    | nil => simp at hjoin
    | cons second tail =>
      rw [hjoin] at hnext
      exact ⟨tail, by rw [hstep.unique (hnext second rfl)]⟩
  rw [List.rotate_cons_succ, List.rotate_zero]
  refine isRing_iff.2 ⟨tail, htail, ?_, ?_⟩
  · rw [← htail]
    exact (List.perm_append_singleton name rest).nodup_iff.2 hnodup
  · rw [← htail]
    refine List.isChain_append.2 ⟨hrest, .singleton _, ?_⟩
    intro last hlast first hfirst
    obtain rfl : name = last := by simpa using hlast
    obtain rfl : target = first := by simpa using hfirst
    exact hstep

/-! ## Section 3: Lookups of an alias and of its target -/

/-- With one more name behind it a lookup finds the same, unless it comes back to this name. -/
theorem lookupFrom_cons {walk : List String} {other requestedBy : String} (hnew : name ∉ walk) :
    r.lookupFrom requestedBy (name :: walk) other = r.lookupFrom requestedBy walk other ∨
      ∃ ring, ring.head? = some name ∧
        r.lookupFrom requestedBy (name :: walk) other =
          .error (.cyclicExtends (closeRing ring)) := by
  fun_induction lookupFrom r requestedBy walk other with
  | case1 walk other s hset => exact Or.inl (lookupFrom_of_ruleSet? _ hset)
  | case2 walk other hset halias => exact Or.inl (lookupFrom_of_unknown _ hset halias)
  | case3 walk other hset next halias hmem =>
    left
    have hne : name ≠ other := by
      rintro rfl
      exact hnew hmem
    rw [lookupFrom_of_followed hset halias (List.mem_cons_of_mem _ hmem), cycleAt_cons_of_ne hne]
  | case4 walk other hset next halias hother ih =>
    by_cases hback : other = name
    · subst hback
      right
      refine ⟨other :: walk, rfl, ?_⟩
      rw [lookupFrom_of_followed hset halias List.mem_cons_self, cycleAt_cons_self]
    · -- both lookups follow the same alias, which is new to either
      have hcons : other ∉ name :: walk := List.not_mem_cons_of_ne_of_not_mem hback hother
      rw [lookupFrom_of_alias hset halias hcons, List.cons_append]
      apply ih
      intro hmem
      rcases List.mem_append.1 hmem with hold | hlast
      · exact hnew hold
      · exact hback (List.mem_singleton.1 hlast).symm

/-- An alias answers as its target does, or it lies on a ring. -/
theorem AliasOf.lookup (h : r.AliasOf name target) (requestedBy : String) :
    r.lookup name requestedBy = r.lookup target requestedBy ∨ ∃ ring, r.IsRing name ring := by
  have hfirst : r.lookup name requestedBy = r.lookupFrom requestedBy [name] target :=
    lookupFrom_of_alias h.1 h.2 List.not_mem_nil
  rcases lookupFrom_cons List.not_mem_nil with hsame | ⟨ring, hhead, hring⟩
  · exact Or.inl (hfirst.trans hsame)
  · right
    rw [← hfirst] at hring
    -- what a failed lookup reports is a cycle
    cases lookupFault_of_lookup hring with
    | cyclic hcycle _ => exact ⟨ring, hhead, hcycle⟩

/-- Two aliases of each other are a ring of two. -/
theorem AliasOf.isRing_of_mutual {other : String} (h : r.AliasOf name other)
    (hback : r.AliasOf other name) (hne : name ≠ other) : r.IsRing name [name, other] :=
  isRing_iff.2 ⟨[other], rfl, by simpa using hne, by simp [h, hback]⟩

/-! ## Section 4: Registries that have grown -/

theorem ruleSet?_eq_none_of_not_shadowed (halias : r.aliases.find? name = some target)
    (h : ¬ r.Shadowed name) : r.ruleSet? name = none := by
  have hkey : name ∈ r.aliases.keys := by
    rw [← OrderedMap.contains_iff, OrderedMap.contains, halias]
    rfl
  rw [ruleSet?, Option.map_eq_none_iff]
  exact Entries.find?_eq_none_iff.2 fun hset => h ⟨hset, hkey⟩

/-- Whatever has been registered: an alias that was accepted is still one. A name is both a rule
    set and an alias only if it was an alias when a rule set was registered under it. For every
    other alias: on a ring of aliases, the alias and its target report this ring, each from its own
    name on; off every ring, the alias answers as its target does. -/
theorem lookup_alias_of_registrations (registrations : List Registration) :
    (∀ before name target after next, registrations = before ++ .aliased name target :: after →
      (applyAll {} before).registerAlias name target = .ok next →
      name ∈ (applyAll {} registrations).aliases.keys) ∧
    (∀ name, (applyAll {} registrations).Shadowed name →
      ∃ before s after, registrations = before ++ .ruleSet s :: after ∧ s.name = name ∧
        name ∈ (applyAll {} before).aliases.keys) ∧
    ∀ name target, (applyAll {} registrations).aliases.find? name = some target →
      ¬ (applyAll {} registrations).Shadowed name → ∀ requestedBy,
        (∀ ring, (applyAll {} registrations).IsRing name ring →
          ReportRing ring ((applyAll {} registrations).lookup name requestedBy)
            ((applyAll {} registrations).lookup target requestedBy)) ∧
        ((∀ ring, ¬ (applyAll {} registrations).IsRing name ring) →
          (applyAll {} registrations).lookup name requestedBy =
            (applyAll {} registrations).lookup target requestedBy) := by
  refine ⟨?_, fun name h => h.exists_registration, ?_⟩
  · intro before name target after next heq hnext
    subst heq
    rw [applyAll_append]
    have hkey : name ∈ ((applyAll {} before).apply (.aliased name target)).aliases.keys := by
      rw [apply, hnext]
      obtain ⟨_, rfl⟩ := registerAlias_eq_ok_iff.1 hnext
      exact OrderedMap.contains_iff.1 (by simp [OrderedMap.contains])
    exact mem_aliases_applyAll hkey after
  · intro name target halias hshadowed requestedBy
    have hstep : (applyAll {} registrations).AliasOf name target :=
      ⟨ruleSet?_eq_none_of_not_shadowed halias hshadowed, halias⟩
    refine ⟨fun ring hring => ?_, fun hoff => ?_⟩
    · exact ⟨hring.lookup requestedBy, (hring.rotate hstep).lookup requestedBy⟩
    · exact (hstep.lookup requestedBy).resolve_right (not_exists.2 hoff)

/-- Two aliases, the rule set that they lead to, an alias that is refused, and a ring of two. -/
def grown : List Registration :=
  [.aliased "a" "b", .aliased "b" "c", .ruleSet ⟨"c", []⟩, .aliased "c" "a", .aliased "x" "y",
    .aliased "y" "x"]

/-- The first alias is still there, hides behind no rule set and answers as the second one. The last
    two report their ring. -/
theorem lookup_alias_of_registrations_grown :
    "a" ∈ (applyAll {} grown).aliases.keys ∧ ¬ (applyAll {} grown).Shadowed "a" ∧
      (applyAll {} grown).aliases.find? "a" = some "b" ∧
      (applyAll {} grown).lookup "a" "fragments[0]" =
        (applyAll {} grown).lookup "b" "fragments[0]" ∧
      (applyAll {} grown).lookup "x" "fragments[0]" = .error (.cyclicExtends ["x", "y", "x"]) ∧
      (applyAll {} grown).lookup "y" "fragments[0]" = .error (.cyclicExtends ["y", "x", "y"]) := by
  obtain ⟨hkept, _, hanswer⟩ := lookup_alias_of_registrations grown
  have hfree : ¬ (applyAll {} grown).Shadowed "a" := fun h => absurd h.1 (by decide +kernel)
  have hfree' : ¬ (applyAll {} grown).Shadowed "x" := fun h => absurd h.1 (by decide +kernel)
  have hfirst : AliasOf (applyAll {} grown) "x" "y" := ⟨rfl, rfl⟩
  have hsecond : AliasOf (applyAll {} grown) "y" "x" := ⟨rfl, rfl⟩
  obtain ⟨hring, _⟩ := hanswer "x" "y" rfl hfree' "fragments[0]"
  obtain ⟨hx, hy⟩ := hring _ (hfirst.isRing_of_mutual hsecond (by decide))
  refine ⟨hkept [] "a" "b" _ _ rfl rfl, hfree, rfl, ?_, hx, hy⟩
  refine (hanswer "a" "b" rfl hfree "fragments[0]").2 fun ring hring => ?_
  -- on a ring the alias would report it, but it is an alias of a rule set
  have hlookup : (applyAll {} grown).lookup "b" "fragments[0]" = .ok ⟨"c", []⟩ :=
    lookup_of_alias rfl rfl rfl
  rw [(hring.rotate ⟨rfl, rfl⟩).lookup] at hlookup
  cases hlookup

/-- No name is both a rule set and an alias, and every alias answers as its target does. -/
def TargetsAnswer (r : Registry) : Prop :=
  (∀ name, ¬ r.Shadowed name) ∧
    ∀ name target, r.aliases.find? name = some target →
      ∀ requestedBy, r.lookup name requestedBy = r.lookup target requestedBy

/-- Two aliases of each other report their ring from different names on, and a rule set can be
    registered under the name of an alias. -/
theorem not_targetsAnswer_ring_shadow :
    ¬ TargetsAnswer (applyAll {} [.aliased "a" "b", .aliased "b" "a"]) ∧
    ¬ TargetsAnswer
      (applyAll {} [.ruleSet ⟨"b", []⟩, .aliased "a" "b", .ruleSet ⟨"a", []⟩]) := by
  refine ⟨?_, ?_⟩
  · intro ⟨_, hanswer⟩
    have hsame := hanswer "a" "b" rfl "fragments[0]"
    have hfirst : AliasOf (applyAll {} [.aliased "a" "b", .aliased "b" "a"]) "a" "b" := ⟨rfl, rfl⟩
    have hsecond : AliasOf (applyAll {} [.aliased "a" "b", .aliased "b" "a"]) "b" "a" := ⟨rfl, rfl⟩
    rw [(hfirst.isRing_of_mutual hsecond (by decide)).lookup,
      (hsecond.isRing_of_mutual hfirst (by decide)).lookup] at hsame
    simp [closeRing] at hsame
  · intro ⟨hnone, _⟩
    exact hnone "a" ⟨by decide +kernel, by decide +kernel⟩

end RuleCascade.Registry
