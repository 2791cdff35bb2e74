import Mathlib.Data.List.Perm.Subperm
import Mathlib.Logic.Relation
import RuleCascade.Proofs.DepthFirst

/-! # The chain along a walk

    A walk knows the rule sets it is expanding in three ways: by the chain, by
    the set of active names, and by the `via` of each item that is waiting.
    They change at different moments. Entering a rule set changes the chain and
    the active names at once, while the items that it schedules carry a longer
    `via` from then on, and the items behind its `leave` keep the shorter one
    until they are due.

    So an item deep in the list fits a chain that the walk has yet to come back
    to. `Fits` says which one: every `leave` in front of the item takes one
    name off. Each turn of the walk keeps this.

    * A walk takes turns, each of which does the next item. It stops when nothing
      is left to do or the next item fails (`Stops`), and this is how a run ends
      (`run_eq_iff`).
    * Every state that a walk comes to is `Aligned`.

    Main statement: `keepsChain_along_walk`.
-/

namespace RuleCascade.Expansion

open Relation

variable {registry : Registry} {limit : Nat} {root : Fragment}

/-! ## Section 1: Walks -/

/-- The states that a walk comes to from a state, which is one of them. -/
def WalksTo (registry : Registry) (limit : Nat) (root : Fragment) : State → State → Prop :=
  ReflTransGen (Turn registry limit root)

/-- The walk goes no further, and this is its result. -/
inductive Stops (registry : Registry) (limit : Nat) (root : Fragment) (s : State) :
    Except CascadeError (Array Entry) → Prop where
  /-- Nothing is left to do. -/
  | done : s.work = [] → Stops registry limit root s (.ok s.output)
  /-- The next item fails. -/
  | failed {item : Work} {rest : List Work} {e : CascadeError} : s.work = item :: rest →
      step registry limit root { s with work := rest } item = .error e →
      Stops registry limit root s (.error e)

theorem Turn.run_eq {s next : State} (h : Turn registry limit root s next) :
    run registry limit root s = run registry limit root next := by
  obtain ⟨item, rest, hwork, hstep⟩ := h
  cases s
  subst hwork
  rw [run_cons, hstep]
  rfl

theorem Stops.run_eq {s : State} {result : Except CascadeError (Array Entry)}
    (h : Stops registry limit root s result) : run registry limit root s = result := by
  cases s
  cases h with
  | done hwork =>
    subst hwork
    exact run_nil _ _ _
  | failed hwork hstep =>
    subst hwork
    rw [run_cons, hstep]
    rfl

theorem exists_stops (s : State) :
    ∃ last, WalksTo registry limit root s last ∧
      Stops registry limit root last (run registry limit root s) := by
  fun_induction run registry limit root s with
  | case1 s hwork => exact ⟨s, .refl, .done hwork⟩
  | case2 s item rest hwork e hstep => exact ⟨s, .refl, .failed hwork hstep⟩
  | case3 s item rest hwork next hstep ih =>
    obtain ⟨last, hwalk, hstops⟩ := ih
    exact ⟨last, .head ⟨item, rest, hwork, hstep⟩ hwalk, hstops⟩

/-- A run has the result with which the walk stops. -/
theorem run_eq_iff {s : State} {result : Except CascadeError (Array Entry)} :
    run registry limit root s = result ↔
      ∃ last, WalksTo registry limit root s last ∧ Stops registry limit root last result := by
  constructor
  · rintro rfl
    exact exists_stops s
  · rintro ⟨last, hwalk, hstops⟩
    induction hwalk using ReflTransGen.head_induction_on with
    | refl => exact hstops.run_eq
    | head hturn _ ih => rw [hturn.run_eq, ih]

/-! ## Section 2: The chain of each item -/

/-- True for a `leave`. -/
def Work.isLeave : Work → Bool
  | .leave => true
  | _ => false

/-- The rule sets an item was reached through, innermost first. A `leave` was not reached. -/
def Work.via? : Work → Option (List String)
  | .visit _ _ via => some via
  | .enter _ _ _ via => some via
  | .emit e => some e.via
  | .leave => none

theorem Work.isLeave_of_via? {item : Work} {via : List String} (h : item.via? = some via) :
    item.isLeave = false := by
  cases item with
  | leave => cases h
  | _ => rfl

/-- Work that fits a chain. Each item was reached through the names that are on the chain when it
    is done, each `leave` takes one name off, and in the end none is left. -/
inductive Fits : List String → List Work → Prop where
  | nil : Fits [] []
  | item {chain : List String} {item : Work} {rest : List Work} :
      item.via? = some chain → Fits chain rest → Fits chain (item :: rest)
  | leave {name : String} {chain : List String} {rest : List Work} :
      Fits chain rest → Fits (name :: chain) (.leave :: rest)

section fits

variable {chain via : List String} {item : Work} {work rest : List Work}

theorem Fits.of_via? (h : Fits chain (item :: rest)) (hvia : item.via? = some via) :
    via = chain ∧ Fits chain rest := by
  cases h with
  | item hchain hrest =>
    rw [hvia] at hchain
    exact ⟨Option.some.inj hchain, hrest⟩
  | leave => cases hvia

theorem Fits.of_leave (h : Fits chain (.leave :: rest)) :
    ∃ name outer, chain = name :: outer ∧ Fits outer rest := by
  cases h with
  | item hchain => cases hchain
  | leave hrest => exact ⟨_, _, rfl, hrest⟩

theorem Fits.eq_nil (h : Fits chain []) : chain = [] := by
  cases h
  rfl

/-- As many names are still to be left as there are on the chain. -/
theorem Fits.countP_isLeave (h : Fits chain work) :
    work.countP Work.isLeave = chain.length := by
  induction h with
  | nil => rfl
  | item hvia _ ih =>
    rw [List.countP_cons_of_neg (by simp [Work.isLeave_of_via? hvia]), ih]
  | leave _ ih =>
    rw [List.countP_cons_of_pos rfl, ih, List.length_cons]

theorem Fits.append (h : Fits chain rest) (hwork : ∀ item ∈ work, item.via? = some chain) :
    Fits chain (work ++ rest) := by
  induction work with
  | nil => exact h
  | cons item others ih =>
    obtain ⟨hitem, hothers⟩ := List.forall_mem_cons.1 hwork
    exact .item hitem (ih hothers)

theorem Fits.visitWork (h : Fits via rest) (fragment : Fragment) (scope : List Fragment) :
    Fits via (visitWork fragment scope via ++ rest) := by
  apply h.append
  intro item hitem
  rcases List.mem_append.1 hitem with henter | hemit
  · obtain ⟨reference, _, rfl⟩ := List.mem_map.1 henter
    rfl
  · obtain rfl := List.mem_singleton.1 hemit
    rfl

/-- What a rule set schedules fits the longer chain, up to the `leave` that restores the old one. -/
theorem Fits.enterWork (h : Fits via rest) (set : RuleSet) (scope : List Fragment) :
    Fits (set.name :: via) (enterWork set scope via ++ rest) := by
  have hleave : Fits (set.name :: via) (.leave :: rest) := .leave h
  rw [Expansion.enterWork, List.append_assoc]
  apply hleave.append
  intro item hitem
  obtain ⟨fragment, _, rfl⟩ := List.mem_map.1 hitem
  rfl

end fits

/-! ## Section 3: What a turn keeps -/

/-- A state whose chain agrees with the active names, with the registry and with the work. -/
structure Aligned (registry : Registry) (s : State) : Prop where
  tracks : Tracks s.active s.chain
  registered : s.chain ⊆ registry.ruleSets.keys
  fits : Fits s.chain s.work

theorem aligned_start (registry : Registry) (root : Fragment) (output : Array Entry) :
    Aligned registry (.start root output) :=
  ⟨Tracks.empty, List.nil_subset _, .item rfl .nil⟩

theorem Aligned.turn {s next : State} (h : Aligned registry s)
    (hturn : Turn registry limit root s next) : Aligned registry next := by
  obtain ⟨item, rest, hwork, hstep⟩ := hturn
  obtain ⟨htracks, hregistered, hfits⟩ := h
  rw [hwork] at hfits
  cases item with
  | visit fragment scope via =>
    obtain ⟨rfl, hrest⟩ := hfits.of_via? rfl
    cases hstep
    exact ⟨htracks, hregistered, hrest.visitWork fragment scope⟩
  | enter reference requestedBy scope via =>
    obtain ⟨rfl, hrest⟩ := hfits.of_via? rfl
    obtain ⟨set, hset, hinactive, rfl⟩ := step_enter_eq_ok_iff.1 hstep
    have hkey := mem_keys_of_lookup hset
    -- the active names were asked, and they are those of the chain
    have hnew : set.name ∉ s.chain := by
      intro hmem
      have hactive := (htracks.contains_iff set.name).2 hmem
      exact Bool.false_ne_true (hinactive.symm.trans hactive)
    exact ⟨htracks.enter hnew, List.cons_subset.2 ⟨hkey, hregistered⟩,
      hrest.enterWork set scope⟩
  | emit e =>
    obtain ⟨_, hrest⟩ := hfits.of_via? rfl
    obtain ⟨_, rfl⟩ := step_emit_eq_ok_iff.1 hstep
    exact ⟨htracks, hregistered, hrest⟩
  | leave =>
    -- the work fits the chain, so there is a name for the `leave` to take off
    obtain ⟨name, outer, hchain, hrest⟩ := hfits.of_leave
    rw [hchain] at htracks hregistered
    simp only [step, hchain] at hstep
    cases hstep
    obtain ⟨_, houter⟩ := List.cons_subset.1 hregistered
    exact ⟨htracks.leave, houter, hrest⟩

/-- A walk over a fragment stays aligned, by induction on its turns. -/
theorem aligned_of_walksTo {output : Array Entry} {s : State}
    (h : WalksTo registry limit root (.start root output) s) : Aligned registry s := by
  induction h with
  | refl => exact aligned_start registry root output
  | tail _ hturn ih => exact ih.turn hturn

/-! ## Section 4: The chain is kept -/

/-- What the chain of a state has to do with all else that the state holds. -/
structure KeepsChain (registry : Registry) (s : State) : Prop where
  contains_iff : ∀ name, s.active.contains name = true ↔ name ∈ s.chain
  nodup : s.chain.Nodup
  length_le_size : s.chain.length ≤ registry.ruleSets.size
  countP_isLeave : s.work.countP Work.isLeave = s.chain.length
  /-- The item that is taken next was reached through the chain, read from the outermost name on
      in both. -/
  via_eq : ∀ item ∈ s.work.head?, ∀ via, item.via? = some via → via.reverse = s.chain.reverse

theorem Aligned.length_le_size {s : State} (h : Aligned registry s) :
    s.chain.length ≤ registry.ruleSets.size := by
  rw [← OrderedMap.length_keys]
  exact (h.tracks.nodup.subperm h.registered).length_le

theorem Aligned.keepsChain {s : State} (h : Aligned registry s) : KeepsChain registry s := by
  refine ⟨h.tracks.contains_iff, h.tracks.nodup, h.length_le_size, h.fits.countP_isLeave, ?_⟩
  intro item hitem via hvia
  obtain ⟨rest, hwork⟩ := List.head?_eq_some_iff.1 hitem
  have hfits := h.fits
  rw [hwork] at hfits
  rw [(hfits.of_via? hvia).1]

/-- Each state that the walk over a fragment comes to keeps its chain. The walk stops in one of
    these states, with the result of the expansion, and if it stops without an error then its chain
    is empty again. -/
theorem keepsChain_along_walk (registry : Registry) (limit : Nat) (root : Fragment)
    (output : Array Entry) :
    (∀ s, WalksTo registry limit root (.start root output) s → KeepsChain registry s) ∧
    (∀ result, expandInto registry limit output root = result ↔
      ∃ s, WalksTo registry limit root (.start root output) s ∧
        Stops registry limit root s result) ∧
    ∀ s cascade, WalksTo registry limit root (.start root output) s →
      Stops registry limit root s (.ok cascade) → s.chain = [] := by
  refine ⟨fun s hwalk => (aligned_of_walksTo hwalk).keepsChain, fun result => run_eq_iff, ?_⟩
  intro s cascade hwalk hstops
  have hfits := (aligned_of_walksTo hwalk).fits
  cases hstops with
  | done hwork =>
    rw [hwork] at hfits
    exact hfits.eq_nil

end RuleCascade.Expansion
