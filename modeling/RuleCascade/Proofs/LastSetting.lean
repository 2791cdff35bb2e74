import RuleCascade.Proofs.LayeredOptions
import RuleCascade.Proofs.LoadedFragments

/-! # The fragment that decides a rule

    Rules are layered whole. A key takes its place in the order from the first
    fragment that sets it and its setting from the last one, with severity and
    options together; what stood there before leaves no trace.

    Where the fragments are loaded from declarations, each of them has a rule
    for every declared one, in the declared order.

    Main statement: `rules_merge`.
-/

namespace RuleCascade

/-! ## Section 1: Maps that are filled entry by entry -/

theorem eraseDups_of_nodup {α : Type} [DecidableEq α] {keys : List α} (h : keys.Nodup) :
    keys.eraseDups = keys := by
  induction keys using List.reverseRecOn with
  | nil => rfl
  | append_singleton keys key ih =>
    obtain ⟨hkeys, _, hne⟩ := List.nodup_append.1 h
    have hnew : key ∉ keys := fun hmem => hne key hmem key (List.mem_singleton_self key) rfl
    rw [SharedOptions.eraseDups_concat, if_neg hnew, ih hkeys]

namespace OrderedMap

variable {α β : Type} [DecidableEq α]

/-- New keys go behind the old ones, in the order of their first appearance. -/
theorem keys_insertAll {keys : List α} {m : OrderedMap α β} (h : m.keys = keys.eraseDups)
    (entries : List (α × β)) :
    (m.insertAll entries).keys = (keys ++ Entries.keys entries).eraseDups := by
  induction entries generalizing keys m with
  | nil => rw [insertAll_nil, h, Entries.keys_nil, List.append_nil]
  | cons entry rest ih =>
    rw [insertAll_cons, Entries.keys_cons, List.append_cons]
    apply ih
    rw [keys_insert, h, SharedOptions.eraseDups_concat]
    simp only [List.mem_eraseDups]

/-- A key has the value that the entries have for it, or else keeps its own. -/
theorem find?_insertAll (m : OrderedMap α β) {entries : List (α × β)}
    (h : (Entries.keys entries).Nodup) (key : α) :
    (m.insertAll entries).find? key = (Entries.find? key entries).or (m.find? key) := by
  induction entries generalizing m with
  | nil => rfl
  | cons entry rest ih =>
    obtain ⟨hfirst, hrest⟩ := List.nodup_cons.1 h
    rw [insertAll_cons, ih _ hrest, Entries.find?]
    by_cases hkey : entry.1 = key
    · -- no later entry has the key again
      subst hkey
      rw [Entries.find?_eq_none_iff.2 hfirst, find?_insert_self, if_pos rfl]
      rfl
    · rw [find?_insert_of_ne m entry.2 (Ne.symm hkey), if_neg hkey]

end OrderedMap

/-! ## Section 2: Rules layered in order -/

namespace Configuration

theorem keys_rules_applyAll {keys : List RuleKey} {c : Configuration}
    (h : c.rules.keys = keys.eraseDups) (fragments : List Fragment) :
    (c.applyAll fragments).rules.keys =
      (keys ++ fragments.flatMap fun f => f.rules.keys).eraseDups := by
  induction fragments generalizing keys c with
  | nil => rw [applyAll_nil, h, List.flatMap_nil, List.append_nil]
  | cons f rest ih =>
    have hnext : (c.apply f).rules.keys = (keys ++ f.rules.keys).eraseDups :=
      OrderedMap.keys_insertAll h f.rules.entries
    rw [applyAll_cons, ih hnext, List.append_assoc, List.flatMap_cons]

/-- The settings that the fragments have for a rule, in order. -/
def settingsOf (key : RuleKey) (fragments : List Fragment) : List RuleSetting :=
  fragments.filterMap fun f => f.rules.find? key

theorem setting?_apply (c : Configuration) (f : Fragment) (key : RuleKey) :
    (c.apply f).setting? key = (f.rules.find? key).or (c.setting? key) :=
  OrderedMap.find?_insertAll c.rules f.rules.nodup_keys key

theorem setting?_applyAll (c : Configuration) (fragments : List Fragment) (key : RuleKey) :
    (c.applyAll fragments).setting? key =
      (settingsOf key fragments).getLast?.or (c.setting? key) := by
  induction fragments using List.reverseRecOn with
  | nil => rfl
  | append_singleton fragments f ih =>
    -- the last fragment is asked first, and the others only if it does not set the rule
    have hlast : (settingsOf key [f]).getLast? = f.rules.find? key := by
      rw [settingsOf, List.filterMap_cons]
      cases f.rules.find? key <;> rfl
    have hsettings : settingsOf key (fragments ++ [f]) =
        settingsOf key fragments ++ settingsOf key [f] := List.filterMap_append
    rw [applyAll_append, applyAll_cons, applyAll_nil, setting?_apply, ih, hsettings,
      List.getLast?_append, hlast, Option.or_assoc]

/-! ## Section 3: Declared rules -/

/-- The rules of merged fragments stand in the order in which their keys are first set, and each
    has the whole setting of the last fragment that sets it. Loaded fragments have the rules of
    their declarations, one for each and in the same order. -/
theorem rules_merge :
    (∀ fragments : List Fragment,
      (merge fragments).rules.keys = (fragments.flatMap fun f => f.rules.keys).eraseDups ∧
      ∀ key, (merge fragments).setting? key = (settingsOf key fragments).getLast?) ∧
    ∀ (position : Nat → String) (index : Nat) (declarations : List FragmentDeclaration)
      (fragments : List Fragment),
      Fragment.loadFrom position index declarations = .ok fragments →
      List.Forall₂ (fun d f => List.Forall₂ Fragment.LoadsRule d.declaredRules f.rules.entries)
        declarations fragments := by
  refine ⟨?_, ?_⟩
  · intro fragments
    have hempty : ({} : Configuration).rules.keys = ([] : List RuleKey).eraseDups := rfl
    refine ⟨keys_rules_applyAll hempty fragments, ?_⟩
    intro key
    rw [merge, setting?_applyAll]
    exact Option.or_none
  · intro position index declarations fragments h
    have hloads := Fragment.loads_of_loadFrom h
    exact hloads.imp fun d f ⟨_, hrules⟩ => hrules.rules

/-- The second declaration sets a rule of the first one anew, without the option. -/
def relaxed : List FragmentDeclaration :=
  [{ rules := some (.ofList [("quotes", .array [.string "ERROR", .string "double"]),
      ("@scope/no-var", .number (.int 1))]) },
    { rules := some (.ofList [("eqeqeq", .string "error"),
      ("quotes", .object [("severity", .string "warn")])]) }]

def relaxedFragments : List Fragment :=
  [{ origin := "fragments[0]"
     rules := .ofList [(⟨"quotes"⟩, ⟨.error, [.string "double"]⟩),
      (⟨"@scope/no-var"⟩, ⟨.warn, []⟩)] },
    { origin := "fragments[1]"
      rules := .ofList [(⟨"eqeqeq"⟩, ⟨.error, []⟩), (⟨"quotes"⟩, ⟨.warn, []⟩)] }]

/-- Its key stays in front, and nothing is left of the old setting. -/
theorem rules_merge_relaxed :
    Fragment.loadAll relaxed = .ok relaxedFragments ∧
    List.Forall₂ (fun d f => List.Forall₂ Fragment.LoadsRule d.declaredRules f.rules.entries)
      relaxed relaxedFragments ∧
    (merge relaxedFragments).rules.keys = [⟨"quotes"⟩, ⟨"@scope/no-var"⟩, ⟨"eqeqeq"⟩] ∧
    (merge relaxedFragments).setting? ⟨"quotes"⟩ = some ⟨.warn, []⟩ := by
  obtain ⟨hmerge, hloaded⟩ := rules_merge
  have h : Fragment.loadAll relaxed = .ok relaxedFragments := rfl
  obtain ⟨hkeys, hsettings⟩ := hmerge relaxedFragments
  refine ⟨h, hloaded _ _ _ _ h, ?_, ?_⟩
  · rw [hkeys]
    rfl
  · rw [hsettings]
    rfl

end Configuration

end RuleCascade
