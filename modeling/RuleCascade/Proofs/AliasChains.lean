import Mathlib.Data.List.Nodup
import Mathlib.Data.Nat.Find
import RuleCascade.Proofs.TruthfulErrors

/-! # Chains of aliases

    A reference starts a chain of names. From a name that is no rule set the
    chain goes on to the target of the alias of that name, if there is one.
    The chain is a stream with no memory of its own: it may go round for ever,
    and what comes next depends on the last name only.

    * A chain that comes to a rule set or to an unknown name stops there.
    * A chain that comes to a name twice is periodic from there on (`Returns`),
      so it never stops, and the names that it repeats are the names that it
      comes to again and again.

    A lookup walks along the chain and remembers every name. It has seen the
    first names of the chain, all of them different (`Walked`), so the name at
    which it gives up is the first one that the chain repeats.

    Main statements: `lookup_follows_chain`, each chain ends in one way and a
    lookup answers by it; and `lookup_after_register`, a rule set that is
    registered catches exactly the chains that come to its name.
-/

namespace RuleCascade.Registry

/-! ## Section 1: Chains -/

/-- The name that a chain goes on to. The name of a rule set has none, even if an alias has that
    name as well. -/
def next? (r : Registry) (name : String) : Option String :=
  match r.ruleSet? name with
  | some _ => none
  | none => r.aliases.find? name

/-- The names on the chain of a reference, by their place. -/
def chain? (r : Registry) (reference : String) : Nat → Option String
  | 0 => some reference
  | n + 1 => (r.chain? reference n).bind r.next?

/-- The chain of the reference comes to the name. -/
def ComesTo (r : Registry) (reference name : String) : Prop :=
  ∃ n, r.chain? reference n = some name

variable {r : Registry} {reference name : String}

theorem next?_of_ruleSet? {s : RuleSet} (h : r.ruleSet? name = some s) : r.next? name = none := by
  rw [next?, h]

theorem next?_of_ruleSet?_eq_none (h : r.ruleSet? name = none) :
    r.next? name = r.aliases.find? name := by
  rw [next?, h]

theorem chain?_succ {n : Nat} (h : r.chain? reference n = some name) :
    r.chain? reference (n + 1) = r.next? name := by
  rw [chain?, h]
  rfl

/-- A chain that has a name at some place has one at every place before it. -/
theorem exists_chain?_of_le {m n : Nat} (hle : m ≤ n) (h : r.chain? reference n = some name) :
    ∃ other, r.chain? reference m = some other := by
  induction n generalizing name with
  | zero =>
    have hm : m = 0 := by omega
    exact ⟨name, hm ▸ h⟩
  | succ n ih =>
    rcases Nat.lt_or_eq_of_le hle with hlt | rfl
    · obtain ⟨last, hlast, _⟩ := Option.bind_eq_some_iff.1 h
      exact ih (Nat.le_of_lt_succ hlt) hlast
    · exact ⟨name, h⟩

/-- A chain passes no rule set. -/
theorem ruleSet?_of_chain?_lt {m n : Nat} {other : String} (hlt : m < n)
    (hm : r.chain? reference m = some other) (hn : r.chain? reference n = some name) :
    r.ruleSet? other = none := by
  obtain ⟨following, hfollowing⟩ := exists_chain?_of_le hlt hn
  rw [chain?_succ hm] at hfollowing
  cases hset : r.ruleSet? other with
  | none => rfl
  | some s =>
    rw [next?_of_ruleSet? hset] at hfollowing
    cases hfollowing

/-- From equal names on a chain goes the same way. -/
theorem chain?_add_congr {i j : Nat} (h : r.chain? reference i = r.chain? reference j) (k : Nat) :
    r.chain? reference (i + k) = r.chain? reference (j + k) := by
  induction k with
  | zero => exact h
  | succ k ih =>
    show (r.chain? reference (i + k)).bind r.next? = (r.chain? reference (j + k)).bind r.next?
    rw [ih]

/-! ## Section 2: How chains end -/

/-- The name is the last one of the chain. -/
structure StopsAt (r : Registry) (reference : String) (n : Nat) (name : String) : Prop where
  last : r.chain? reference n = some name
  stop : r.chain? reference (n + 1) = none

theorem StopsAt.place_unique {m n : Nat} {other : String} (h : r.StopsAt reference m name)
    (h' : r.StopsAt reference n other) : m = n := by
  have hle : ∀ {i j first second}, r.StopsAt reference i first → r.StopsAt reference j second →
      j ≤ i := by
    intro i j first second hi hj
    by_contra hlt
    obtain ⟨following, hfollowing⟩ := exists_chain?_of_le (Nat.lt_of_not_le hlt) hj.last
    rw [hi.stop] at hfollowing
    cases hfollowing
  exact Nat.le_antisymm (hle h' h) (hle h h')

/-- The first name that the chain repeats is the one at `start`, and it comes again after so many
    steps. -/
structure Returns (r : Registry) (reference : String) (start period : Nat) : Prop where
  pos : 0 < period
  distinct : ∀ i j, i < j → j < start + period → r.chain? reference i ≠ r.chain? reference j
  return_eq : r.chain? reference (start + period) = r.chain? reference start

section returns

variable {start period : Nat}

/-- A chain is periodic from the name on that it repeats. -/
theorem Returns.add_mul (h : r.Returns reference start period) (i k : Nat) :
    r.chain? reference (start + i + k * period) = r.chain? reference (start + i) := by
  induction k with
  | zero => rw [Nat.zero_mul, Nat.add_zero]
  | succ k ih =>
    have hplace : start + i + (k + 1) * period = start + period + (i + k * period) := by
      rw [Nat.succ_mul]
      omega
    rw [hplace, chain?_add_congr h.return_eq, ← Nat.add_assoc, ih]

theorem Returns.mod (h : r.Returns reference start period) (i : Nat) :
    r.chain? reference (start + i) = r.chain? reference (start + i % period) := by
  have hmod := h.add_mul (i % period) (i / period)
  rw [Nat.add_assoc, Nat.mul_comm, Nat.mod_add_div] at hmod
  exact hmod

theorem Returns.unique {first length : Nat} (h : r.Returns reference start period)
    (h' : r.Returns reference first length) : start = first ∧ period = length := by
  have hpos := h.pos
  have hpos' := h'.pos
  -- neither chain can return before the other
  have hend : start + period = first + length := by
    rcases Nat.lt_trichotomy (start + period) (first + length) with hlt | heq | hgt
    · exact absurd h.return_eq.symm (h'.distinct start (start + period) (by omega) hlt)
    · exact heq
    · exact absurd h'.return_eq.symm (h.distinct first (first + length) (by omega) hgt)
  have hsame : r.chain? reference start = r.chain? reference first := by
    rw [← h.return_eq, hend, h'.return_eq]
  have hstart : start = first := by
    rcases Nat.lt_trichotomy start first with hlt | heq | hgt
    · exact absurd hsame (h.distinct start first hlt (by omega))
    · exact heq
    · exact absurd hsame.symm (h.distinct first start hgt (by omega))
  exact ⟨hstart, by omega⟩

end returns

/-- The names stand on the chain one after another, from the place `start` on. -/
def IsPart (r : Registry) (reference : String) (start : Nat) (names : List String) : Prop :=
  ∀ i < names.length, r.chain? reference (start + i) = names[i]?

section parts

variable {start : Nat} {names : List String}

theorem IsPart.unique {others : List String} (h : r.IsPart reference start names)
    (h' : r.IsPart reference start others) (hlength : names.length = others.length) :
    names = others := by
  apply List.ext_getElem?
  intro i
  by_cases hi : i < names.length
  · rw [← h i hi, h' i (by omega)]
  · rw [List.getElem?_eq_none (by omega), List.getElem?_eq_none (by omega)]

theorem IsPart.concat (h : r.IsPart reference start names)
    (hname : r.chain? reference (start + names.length) = some name) :
    r.IsPart reference start (names ++ [name]) := by
  intro i hi
  rw [List.length_append, List.length_singleton] at hi
  rcases Nat.lt_or_eq_of_le (Nat.le_of_lt_succ hi) with hlt | rfl
  · rw [List.getElem?_append_left hlt, h i hlt]
  · rw [List.getElem?_concat_length, hname]

theorem IsPart.drop {before rest : List String} (h : r.IsPart reference start (before ++ rest)) :
    r.IsPart reference (start + before.length) rest := by
  intro i hi
  have hplace := h (before.length + i) (by rw [List.length_append]; omega)
  rw [List.getElem?_append_right (by omega), Nat.add_sub_cancel_left] at hplace
  rw [Nat.add_assoc, hplace]

end parts

/-- A way for a chain to end. -/
inductive Ending where
  | ruleSet (s : RuleSet)
  | unknown (name : String)
  | cycle (names : List String)

/-- The answer to a lookup whose chain ends this way. -/
def Ending.answer (requestedBy : String) : Ending → Except CascadeError RuleSet
  | .ruleSet s => .ok s
  | .unknown name => .error (.unknownRuleSet name requestedBy)
  | .cycle names => .error (.cyclicExtends names)

theorem Ending.answer_injective {requestedBy : String} {e other : Ending}
    (h : e.answer requestedBy = other.answer requestedBy) : e = other := by
  cases e <;> cases other <;> simp [answer] at h <;> rw [h]

/-- The chain of the reference ends this way. -/
inductive Ends (r : Registry) (reference : String) : Ending → Prop where
  /-- The first name that is a rule set. -/
  | ruleSet {n : Nat} {name : String} {s : RuleSet} : r.chain? reference n = some name →
      r.ruleSet? name = some s →
      (∀ m < n, ∀ other, r.chain? reference m = some other → r.ruleSet? other = none) →
      Ends r reference (.ruleSet s)
  /-- The last name, where none is a rule set. -/
  | unknown {n : Nat} {name : String} : r.StopsAt reference n name →
      (∀ other, r.ComesTo reference other → r.ruleSet? other = none) →
      Ends r reference (.unknown name)
  /-- The names from the first one that is repeated to where it is repeated. -/
  | cycle {start period : Nat} {names : List String} : r.Returns reference start period →
      r.IsPart reference start names → names.length = period + 1 →
      Ends r reference (.cycle names)

theorem stopsAt_of_ruleSet? {n : Nat} {s : RuleSet} (h : r.chain? reference n = some name)
    (hset : r.ruleSet? name = some s) : r.StopsAt reference n name :=
  ⟨h, (chain?_succ h).trans (next?_of_ruleSet? hset)⟩

section cycles

variable {start period : Nat} {names : List String}

/-- A chain that returns has a name at every place. -/
theorem Returns.exists_chain? (h : r.Returns reference start period)
    (hpart : r.IsPart reference start names) (hlength : names.length = period + 1) (n : Nat) :
    ∃ other, r.chain? reference n = some other := by
  have hpos := h.pos
  have hlt : n % period < names.length := by
    have hmod := Nat.mod_lt n hpos
    omega
  -- a later round has the names of the first one
  have hround : r.chain? reference (start + n) = some names[n % period] := by
    rw [h.mod n, hpart _ hlt, List.getElem?_eq_getElem]
  exact exists_chain?_of_le (Nat.le_add_left n start) hround

theorem Returns.not_stopsAt (h : r.Returns reference start period)
    (hpart : r.IsPart reference start names) (hlength : names.length = period + 1) (n : Nat) :
    ¬ r.StopsAt reference n name := by
  intro hstops
  obtain ⟨other, hother⟩ := h.exists_chain? hpart hlength (n + 1)
  rw [hstops.stop] at hother
  cases hother

/-- The names of the cycle are those that the chain comes to again and again. -/
theorem Returns.mem_iff (h : r.Returns reference start period)
    (hpart : r.IsPart reference start names) (hlength : names.length = period + 1) :
    name ∈ names ↔ ∀ n, ∃ m ≥ n, r.chain? reference m = some name := by
  have hpos := h.pos
  constructor
  · intro hmem n
    obtain ⟨i, hi⟩ := List.mem_iff_getElem?.1 hmem
    have hlt := (List.getElem?_eq_some_iff.1 hi).1
    refine ⟨start + i + n * period, ?_, ?_⟩
    · have hrounds : n * 1 ≤ n * period := Nat.mul_le_mul_left n hpos
      omega
    · rw [h.add_mul, hpart i hlt, hi]
  · intro hagain
    obtain ⟨m, hle, hm⟩ := hagain start
    have hplace : start + (m - start) = m := by omega
    have hlt : (m - start) % period < names.length := by
      have hmod := Nat.mod_lt (m - start) hpos
      omega
    rw [← hplace, h.mod, hpart _ hlt] at hm
    exact List.mem_of_getElem? hm

end cycles

/-- A chain ends in one way only. -/
theorem Ends.unique {e other : Ending} (h : r.Ends reference e) (h' : r.Ends reference other) :
    e = other := by
  cases h with
  | @ruleSet n name s hname hset hfirst =>
    have hstops := stopsAt_of_ruleSet? hname hset
    cases h' with
    | ruleSet hname' hset' _ =>
      obtain rfl := hstops.place_unique (stopsAt_of_ruleSet? hname' hset')
      rw [hname] at hname'
      obtain rfl := Option.some.inj hname'
      rw [hset] at hset'
      rw [Option.some.inj hset']
    | unknown _ hnone =>
      rw [hnone name ⟨n, hname⟩] at hset
      cases hset
    | cycle hreturns hpart hlength =>
      exact absurd hstops (hreturns.not_stopsAt hpart hlength n)
  | @unknown n name hstops hnone =>
    cases h' with
    | @ruleSet m found s hname' hset' _ =>
      rw [hnone found ⟨m, hname'⟩] at hset'
      cases hset'
    | unknown hstops' _ =>
      obtain rfl := hstops.place_unique hstops'
      have hname := hstops'.last
      rw [hstops.last] at hname
      rw [Option.some.inj hname]
    | cycle hreturns hpart hlength =>
      exact absurd hstops (hreturns.not_stopsAt hpart hlength n)
  | cycle hreturns hpart hlength =>
    cases h' with
    | @ruleSet m _ _ hname' hset' _ =>
      exact absurd (stopsAt_of_ruleSet? hname' hset') (hreturns.not_stopsAt hpart hlength m)
    | @unknown m _ hstops' _ => exact absurd hstops' (hreturns.not_stopsAt hpart hlength m)
    | cycle hreturns' hpart' hlength' =>
      obtain ⟨rfl, rfl⟩ := hreturns.unique hreturns'
      rw [hpart.unique hpart' (hlength.trans hlength'.symm)]

/-! ## Section 3: Lookups -/

/-- A lookup that has come to the name has walked over the names of the chain before it, and all
    of them differ. -/
structure Walked (r : Registry) (reference : String) (walk : List String) (name : String) :
    Prop where
  isPart : r.IsPart reference 0 walk
  here : r.chain? reference walk.length = some name
  nodup : walk.Nodup

theorem walked_nil (r : Registry) (reference : String) : r.Walked reference [] reference :=
  ⟨fun i hi => absurd hi (Nat.not_lt_zero i), rfl, List.nodup_nil⟩

section walks

variable {walk : List String}

theorem Walked.chain?_eq (h : r.Walked reference walk name) {i : Nat} (hi : i < walk.length) :
    r.chain? reference i = walk[i]? := by
  have hplace := h.isPart i hi
  rwa [Nat.zero_add] at hplace

theorem Walked.concat (h : r.Walked reference walk name) :
    r.IsPart reference 0 (walk ++ [name]) :=
  h.isPart.concat (by rw [Nat.zero_add]; exact h.here)

theorem Walked.step {target : String} (h : r.Walked reference walk name)
    (hstep : r.next? name = some target) (hnew : name ∉ walk) :
    r.Walked reference (walk ++ [name]) target := by
  refine ⟨h.concat, ?_, ?_⟩
  · rw [List.length_append, List.length_singleton, chain?_succ h.here, hstep]
  · refine List.nodup_append.2 ⟨h.nodup, List.nodup_singleton name, ?_⟩
    rintro other hother _ hlast rfl
    obtain rfl := List.mem_singleton.1 hlast
    exact hnew hother

theorem Walked.ruleSet?_eq_none (h : r.Walked reference walk name) {m : Nat} {other : String}
    (hlt : m < walk.length) (hm : r.chain? reference m = some other) :
    r.ruleSet? other = none :=
  ruleSet?_of_chain?_lt hlt hm h.here

/-- A walk that comes to a name again has gone round once. -/
theorem Walked.ends_cycle (h : r.Walked reference walk name) (hmem : name ∈ walk) :
    r.Ends reference (.cycle (cycleAt walk name)) := by
  obtain ⟨before, after, rfl, hbefore⟩ := List.eq_append_cons_of_mem hmem
  have hlength : (before ++ name :: after).length = before.length + (after.length + 1) := by
    rw [List.length_append, List.length_cons]
  have hpart : r.IsPart reference before.length (name :: after ++ [name]) := by
    have hconcat := h.concat
    rw [List.append_assoc] at hconcat
    have hdrop := hconcat.drop
    rwa [Nat.zero_add] at hdrop
  rw [cycleAt_append after hbefore]
  have hreturns : r.Returns reference before.length (after.length + 1) := by
    refine ⟨by omega, ?_, ?_⟩
    · -- two places with the same name would be one place in the walk
      intro i j hij hj heq
      rw [h.chain?_eq (by omega), h.chain?_eq (by omega)] at heq
      have hplace := (List.getElem?_inj (by omega) h.nodup).1 heq
      omega
    · have hstart := hpart 0 (by simp)
      rw [Nat.add_zero] at hstart
      rw [← hlength, h.here, hstart]
      rfl
  exact .cycle hreturns hpart (by simp)

theorem Walked.exists_ends (h : r.Walked reference walk name) (requestedBy : String) :
    ∃ e, r.Ends reference e ∧ r.lookupFrom requestedBy walk name = e.answer requestedBy := by
  fun_induction lookupFrom r requestedBy walk name with
  | case1 walk name s hset =>
    exact ⟨.ruleSet s, .ruleSet h.here hset fun m hm _ => h.ruleSet?_eq_none hm, rfl⟩
  | case2 walk name hset halias =>
    have hstop : r.chain? reference (walk.length + 1) = none := by
      rw [chain?_succ h.here, next?_of_ruleSet?_eq_none hset, halias]
    refine ⟨.unknown name, .unknown ⟨h.here, hstop⟩ ?_, rfl⟩
    rintro other ⟨m, hm⟩
    rcases Nat.lt_trichotomy m walk.length with hlt | rfl | hgt
    · exact h.ruleSet?_eq_none hlt hm
    · rw [h.here] at hm
      rw [← Option.some.inj hm, hset]
    · -- the chain has stopped before this place
      obtain ⟨following, hfollowing⟩ := exists_chain?_of_le hgt hm
      rw [hstop] at hfollowing
      cases hfollowing
  | case3 walk name hset target halias hmem =>
    exact ⟨.cycle (cycleAt walk name), h.ends_cycle hmem, rfl⟩
  | case4 walk name hset target halias hnew ih =>
    refine ih (h.step ?_ hnew)
    rw [next?_of_ruleSet?_eq_none hset, halias]

end walks

/-- The end of the chain and the answer to the lookup tell each other. -/
theorem ends_iff {requestedBy : String} {e : Ending} :
    r.Ends reference e ↔ r.lookup reference requestedBy = e.answer requestedBy := by
  obtain ⟨found, hfound, hanswer⟩ := (walked_nil r reference).exists_ends requestedBy
  constructor
  · intro h
    rw [h.unique hfound]
    exact hanswer
  · intro h
    have heq : e = found := Ending.answer_injective (h.symm.trans hanswer)
    rw [heq]
    exact hfound

/-! ## Section 4: What a lookup depends on -/

/-- A chain is the same in every registry that goes on alike from the names that it passes. -/
theorem chain?_congr {r' : Registry} {n : Nat}
    (h : ∀ m < n, ∀ other, r.chain? reference m = some other → r'.next? other = r.next? other) :
    r'.chain? reference n = r.chain? reference n := by
  induction n with
  | zero => rfl
  | succ n ih =>
    have hbefore := ih fun m hm => h m (Nat.lt_succ_of_lt hm)
    show (r'.chain? reference n).bind r'.next? = (r.chain? reference n).bind r.next?
    rw [hbefore]
    cases hlast : r.chain? reference n with
    | none => rfl
    | some last => exact h n (Nat.lt_succ_self n) last hlast

/-- The names that the chain comes to are the same rule sets and the same aliases in both
    registries. -/
def AgreesAlong (r r' : Registry) (reference : String) : Prop :=
  ∀ other, r.ComesTo reference other →
    r'.ruleSet? other = r.ruleSet? other ∧ r'.next? other = r.next? other

theorem AgreesAlong.chain? {r' : Registry} (h : r.AgreesAlong r' reference) (n : Nat) :
    r'.chain? reference n = r.chain? reference n :=
  chain?_congr fun m _ other hother => (h other ⟨m, hother⟩).2

theorem AgreesAlong.ends {r' : Registry} (h : r.AgreesAlong r' reference) {e : Ending}
    (hends : r.Ends reference e) : r'.Ends reference e := by
  cases hends with
  | @ruleSet n name s hname hset hfirst =>
    refine .ruleSet ((h.chain? n).trans hname) ((h name ⟨n, hname⟩).1.trans hset) ?_
    intro m hm other hother
    rw [h.chain?] at hother
    rw [(h other ⟨m, hother⟩).1]
    exact hfirst m hm other hother
  | @unknown n name hstops hnone =>
    refine .unknown (n := n) ⟨(h.chain? n).trans hstops.last, (h.chain? _).trans hstops.stop⟩ ?_
    rintro other ⟨m, hother⟩
    rw [h.chain?] at hother
    rw [(h other ⟨m, hother⟩).1]
    exact hnone other ⟨m, hother⟩
  | @cycle start period names hreturns hpart hlength =>
    have hreturns' : r'.Returns reference start period := by
      refine ⟨hreturns.pos, ?_, ?_⟩
      · intro i j hij hj
        rw [h.chain?, h.chain?]
        exact hreturns.distinct i j hij hj
      · rw [h.chain?, h.chain?, hreturns.return_eq]
    refine .cycle hreturns' ?_ hlength
    intro i hi
    rw [h.chain?, hpart i hi]

theorem AgreesAlong.lookup {r' : Registry} (h : r.AgreesAlong r' reference)
    (requestedBy : String) : r'.lookup reference requestedBy = r.lookup reference requestedBy := by
  obtain ⟨e, hends, hanswer⟩ := (walked_nil r reference).exists_ends requestedBy
  have hsame : r'.lookup reference requestedBy = e.answer requestedBy := ends_iff.1 (h.ends hends)
  rw [hsame]
  exact hanswer.symm

/-- Aliases that have the name of a rule set play no part. -/
theorem lookup_of_shadowed {aliases : OrderedMap String String}
    (h : ∀ name, r.ruleSet? name = none → aliases.find? name = r.aliases.find? name)
    (requestedBy : String) :
    { r with aliases }.lookup reference requestedBy = r.lookup reference requestedBy := by
  have hagrees : r.AgreesAlong { r with aliases } reference := by
    intro other _
    have hset : Registry.ruleSet? { r with aliases } other = r.ruleSet? other := rfl
    refine ⟨hset, ?_⟩
    cases hother : r.ruleSet? other with
    | some s => rw [next?_of_ruleSet? (hset.trans hother), next?_of_ruleSet? hother]
    | none =>
      rw [next?_of_ruleSet?_eq_none (hset.trans hother), next?_of_ruleSet?_eq_none hother]
      exact h other hother
  exact hagrees.lookup requestedBy

/-- Every chain ends in exactly one way, and the lookup of its reference answers by that: with the
    first rule set on the chain, with the last name where there is none, or with the names that the
    chain repeats, which are those that it comes to again and again. An alias that has the name of
    a rule set makes no difference at any step. -/
theorem lookup_follows_chain (r : Registry) (reference requestedBy : String) :
    (∃! e, r.Ends reference e) ∧
    (∀ e, r.Ends reference e ↔ r.lookup reference requestedBy = e.answer requestedBy) ∧
    (∀ names, r.Ends reference (.cycle names) →
      ∀ name, name ∈ names ↔ ∀ n, ∃ m ≥ n, r.chain? reference m = some name) ∧
    ∀ aliases : OrderedMap String String,
      (∀ name, r.ruleSet? name = none → aliases.find? name = r.aliases.find? name) →
        { r with aliases }.lookup reference requestedBy = r.lookup reference requestedBy := by
  refine ⟨?_, fun e => ends_iff, ?_, fun aliases h => lookup_of_shadowed h requestedBy⟩
  · obtain ⟨e, hends, _⟩ := (walked_nil r reference).exists_ends requestedBy
    exact ⟨e, hends, fun other hother => hother.unique hends⟩
  · intro names hends name
    cases hends with
    | cycle hreturns hpart hlength => exact hreturns.mem_iff hpart hlength

/-- An alias outside a cycle of two others. -/
def looped : Registry where
  aliases := .ofList [("start", "a"), ("a", "b"), ("b", "a")]

/-- The reported names start where the cycle does, not at the reference. -/
example : looped.lookup "start" "fragments[0]" = .error (.cyclicExtends ["a", "b", "a"]) := by cbv

/-! ## Section 5: Registering a rule set -/

theorem next?_register_of_ne {added : RuleSet} (h : name ≠ added.name) :
    (r.register added).next? name = r.next? name := by
  rw [next?, next?, ruleSet?_register_of_ne r h, aliases_register]

/-- A chain that comes to the name of the new rule set stops there. -/
theorem ComesTo.ends_register {added : RuleSet} (h : r.ComesTo reference added.name) :
    (r.register added).Ends reference (.ruleSet added) := by
  classical
  -- before the first place with this name, nothing has changed
  have hname := Nat.find_spec h
  have hfirst : ∀ m < Nat.find h, ∀ other, r.chain? reference m = some other →
      other ≠ added.name := by
    rintro m hm other hother rfl
    exact Nat.find_min h hm hother
  have hsame : ∀ n ≤ Nat.find h, (r.register added).chain? reference n = r.chain? reference n := by
    intro n hn
    apply chain?_congr
    intro m hm other hother
    exact next?_register_of_ne (hfirst m (by omega) other hother)
  refine .ruleSet ((hsame _ (Nat.le_refl _)).trans hname) (ruleSet?_register_self r added) ?_
  intro m hm other hother
  rw [hsame m (Nat.le_of_lt hm)] at hother
  rw [ruleSet?_register_of_ne r (hfirst m hm other hother)]
  exact ruleSet?_of_chain?_lt hm hother hname

theorem agreesAlong_register {added : RuleSet} (h : ¬ r.ComesTo reference added.name) :
    r.AgreesAlong (r.register added) reference := by
  intro other hother
  have hne : other ≠ added.name := by
    rintro rfl
    exact h hother
  exact ⟨ruleSet?_register_of_ne r hne, next?_register_of_ne hne⟩

/-- The names where a chain ends. -/
def Ending.names : Ending → List String
  | .ruleSet s => [s.name]
  | .unknown name => [name]
  | .cycle names => names

theorem Ends.comesTo {e : Ending} (h : r.Ends reference e) (hname : name ∈ e.names) :
    r.ComesTo reference name := by
  cases h with
  | @ruleSet n found s hfound hset _ =>
    rw [Ending.names, List.mem_singleton, name_of_ruleSet? hset] at hname
    exact ⟨n, hname ▸ hfound⟩
  | @unknown n found hstops _ =>
    rw [Ending.names, List.mem_singleton] at hname
    exact ⟨n, hname ▸ hstops.last⟩
  | @cycle start _ names _ hpart _ =>
    obtain ⟨i, hi⟩ := List.mem_iff_getElem?.1 hname
    have hlt := (List.getElem?_eq_some_iff.1 hi).1
    exact ⟨start + i, (hpart i hlt).trans hi⟩

theorem lookup_register_of_comesTo {added : RuleSet} (h : r.ComesTo reference added.name)
    (requestedBy : String) : (r.register added).lookup reference requestedBy = .ok added :=
  ends_iff.1 h.ends_register

theorem lookup_register_of_not_comesTo {added : RuleSet} (h : ¬ r.ComesTo reference added.name)
    (requestedBy : String) :
    (r.register added).lookup reference requestedBy = r.lookup reference requestedBy :=
  (agreesAlong_register h).lookup requestedBy

/-- A reference that resolves goes on to do so when a rule set is registered. -/
theorem exists_lookup_register {requestedBy : String}
    (h : ∃ s, r.lookup reference requestedBy = .ok s) (added : RuleSet) :
    ∃ s, (r.register added).lookup reference requestedBy = .ok s := by
  by_cases hadded : r.ComesTo reference added.name
  · exact ⟨added, lookup_register_of_comesTo hadded requestedBy⟩
  · rw [lookup_register_of_not_comesTo hadded]
    exact h

/-- Registering a rule set catches the chains that come to its name, wherever on the chain that is,
    and leaves all other lookups as they were. -/
theorem lookup_after_register (r : Registry) (added : RuleSet) (reference requestedBy : String) :
    (r.ComesTo reference added.name →
      (r.register added).lookup reference requestedBy = .ok added) ∧
    (∀ e : Ending, r.lookup reference requestedBy = e.answer requestedBy →
      added.name ∈ e.names → r.ComesTo reference added.name) ∧
    (¬ r.ComesTo reference added.name →
      (r.register added).lookup reference requestedBy = r.lookup reference requestedBy) ∧
    ((∃ s, r.lookup reference requestedBy = .ok s) →
      ∃ s, (r.register added).lookup reference requestedBy = .ok s) ∧
    (r.register added).ruleSets.keys =
      (if added.name ∈ r.ruleSets.keys then r.ruleSets.keys
        else r.ruleSets.keys ++ [added.name]) ∧
    (r.register added).aliases = r.aliases := by
  refine ⟨fun h => lookup_register_of_comesTo h requestedBy, ?_,
    fun h => lookup_register_of_not_comesTo h requestedBy,
    fun h => exists_lookup_register h added, ?_, aliases_register r added⟩
  · intro e hanswer hname
    exact (ends_iff.2 hanswer).comesTo hname
  · exact OrderedMap.keys_insert r.ruleSets added.name added.fragments

/-- A rule set that is registered in the middle of the cycle takes the reference out of it. -/
example : (looped.register ⟨"b", []⟩).lookup "start" "fragments[0]" = .ok ⟨"b", []⟩ := by cbv

end RuleCascade.Registry
