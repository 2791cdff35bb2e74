import Mathlib.Data.List.Forall2
import Mathlib.Data.List.Nodup
import RuleCascade.Fragment.Load

/-! # Fragments as they were declared

    Loading checks a declaration field by field and keeps what it checks.
    `Loads` says what a fragment has in common with the declaration that it is
    loaded from, one field of it for each field of the declaration.

    Rules are kept apart. A key is the declared text itself, so the keys of one
    declaration stay different, and every declared rule has its own place among
    the loaded ones, in the same order.

    Main statement: `load_eq_ok_iff_loads`. A declaration loads to a fragment
    exactly if it passes all checks and the fragment has what it declares.
-/

namespace RuleCascade

/-! ## Section 1: Lists that are read item by item -/

/-- A list is read item by item. -/
theorem mapM_eq_ok_iff {ε α β : Type} {f : α → Except ε β} {items : List α} {results : List β} :
    items.mapM f = .ok results ↔ List.Forall₂ (fun item result => f item = .ok result)
      items results := by
  induction items generalizing results with
  | nil =>
    rw [List.mapM_nil, List.forall₂_nil_left_iff]
    constructor
    · intro h
      cases h
      rfl
    · rintro rfl
      rfl
  | cons item rest ih =>
    rw [List.mapM_cons]
    constructor
    · intro h
      obtain ⟨first, hfirst, h⟩ := exists_ok_of_bind_eq_ok h
      obtain ⟨others, hothers, h⟩ := exists_ok_of_bind_eq_ok h
      cases h
      exact .cons hfirst (ih.1 hothers)
    · intro h
      cases h with
      | cons hfirst hothers =>
        rw [bind_of_eq_ok hfirst, bind_of_eq_ok (ih.2 hothers)]
        rfl

/-- Patterns compile one by one. -/
theorem FileFilter.compileAll_eq_ok_iff {sources : List String} {patterns : List Pattern} :
    compileAll sources = .ok patterns ↔
      List.Forall₂ (fun source p => Pattern.compile source = .ok p) sources patterns := by
  rw [compileAll, mapM_eq_ok_iff]
  constructor
  · intro h
    refine h.imp fun source p hp => ?_
    split at hp
    · rename_i found hfound
      cases hp
      exact hfound
    · cases hp
  · intro h
    refine h.imp fun source p hp => ?_
    rw [hp]

namespace OrderedMap

variable {α β : Type} [DecidableEq α]

theorem entries_insertAll {m : OrderedMap α β} {entries : List (α × β)}
    (h : (m.keys ++ Entries.keys entries).Nodup) :
    (m.insertAll entries).entries = m.entries ++ entries := by
  induction entries generalizing m with
  | nil => exact (List.append_nil _).symm
  | cons entry rest ih =>
    rw [Entries.keys_cons, List.append_cons] at h
    obtain ⟨hkeys, _, _⟩ := List.nodup_append.1 h
    obtain ⟨_, _, hne⟩ := List.nodup_append.1 hkeys
    have hnew : entry.1 ∉ m.keys :=
      fun hmem => hne entry.1 hmem entry.1 (List.mem_singleton_self _) rfl
    have hinsert : (m.insert entry.1 entry.2).entries = m.entries ++ [entry] :=
      Entries.insert_of_notMem hnew entry.2
    have hnext : (m.insert entry.1 entry.2).keys = m.keys ++ [entry.1] := by
      rw [keys_insert, if_neg hnew]
    rw [insertAll_cons, ih (by rwa [hnext]), hinsert, List.append_assoc, List.singleton_append]

/-- Entries with different keys are the entries of their map. -/
theorem entries_ofList {entries : List (α × β)} (h : (Entries.keys entries).Nodup) :
    (ofList entries).entries = entries :=
  entries_insertAll h

end OrderedMap

/-! ## Section 2: Rules -/

theorem RuleKey.parse_eq_ok_iff {text : String} {key : RuleKey} :
    RuleKey.parse text = .ok key ↔ RuleKey.check text.toList = .ok () ∧ key.text = text := by
  unfold RuleKey.parse
  constructor
  · intro h
    split at h
    · rename_i hcheck
      cases h
      exact ⟨hcheck, rfl⟩
    · cases h
  · rintro ⟨hcheck, rfl⟩
    rw [hcheck]

/-- The declared rules, in their order. -/
def FragmentDeclaration.declaredRules (d : FragmentDeclaration) : List (String × Value) :=
  (d.rules.getD .empty).entries

namespace Fragment

/-- A loaded rule has the declared text for its key, and its setting is what the declared value
    is read as. -/
structure LoadsRule (declared : String × Value) (loaded : RuleKey × RuleSetting) : Prop where
  parse_eq : RuleKey.parse declared.1 = .ok loaded.1
  text_eq : loaded.1.text = declared.1
  setting_eq : RuleSetting.ofValue declared.2 = .ok loaded.2

theorem loadRule_eq_ok_iff {declared : String × Value} {loaded : RuleKey × RuleSetting} :
    loadRule declared.1 declared.2 = .ok loaded ↔ LoadsRule declared loaded := by
  unfold loadRule
  constructor
  · intro h
    split at h
    · cases h
    rename_i hkey
    split at h
    · cases h
    rename_i hsetting
    cases h
    exact ⟨hkey, (RuleKey.parse_eq_ok_iff.1 hkey).2, hsetting⟩
  · rintro ⟨hkey, _, hsetting⟩
    rw [hkey]
    simp only [hsetting]

theorem keys_of_loadsRule {declared : List (String × Value)}
    {loaded : List (RuleKey × RuleSetting)} (h : List.Forall₂ LoadsRule declared loaded) :
    (Entries.keys loaded).map RuleKey.text = Entries.keys declared := by
  induction h with
  | nil => rfl
  | cons hfirst _ ih => rw [Entries.keys_cons, List.map_cons, Entries.keys_cons, ih, hfirst.text_eq]

/-- The key of a loaded rule is accepted again. -/
theorem parse_of_loadsRule {declared : List (String × Value)}
    {loaded : List (RuleKey × RuleSetting)} (h : List.Forall₂ LoadsRule declared loaded) :
    ∀ entry ∈ loaded, RuleKey.parse entry.1.text = .ok entry.1 := by
  induction h with
  | nil => simp
  | cons hfirst _ ih =>
    refine List.forall_mem_cons.2 ⟨?_, ih⟩
    rw [hfirst.text_eq, hfirst.parse_eq]

/-- Declared rules load one by one. -/
theorem loadRules_eq_ok_iff {d : FragmentDeclaration} {rules : OrderedMap RuleKey RuleSetting} :
    loadRules d.rules = .ok rules ↔ List.Forall₂ LoadsRule d.declaredRules rules.entries := by
  unfold FragmentDeclaration.declaredRules
  cases hrules : d.rules with
  | none =>
    show Except.ok OrderedMap.empty = .ok rules ↔ List.Forall₂ LoadsRule [] rules.entries
    rw [List.forall₂_nil_left_iff]
    constructor
    · intro h
      cases h
      rfl
    · intro h
      rw [show rules = .empty from OrderedMap.ext h]
  | some declared =>
    have hload : ∀ loaded, (declared.entries.mapM fun entry => loadRule entry.1 entry.2) =
        .ok loaded ↔ List.Forall₂ LoadsRule declared.entries loaded := by
      intro loaded
      simp only [mapM_eq_ok_iff, loadRule_eq_ok_iff]
    -- the keys are the declared texts, which do not repeat
    have hnodup : ∀ loaded, List.Forall₂ LoadsRule declared.entries loaded →
        (Entries.keys loaded).Nodup := by
      intro loaded hloads
      apply List.Nodup.of_map RuleKey.text
      rw [keys_of_loadsRule hloads]
      exact declared.nodup_keys
    constructor
    · intro h
      obtain ⟨loaded, hloaded, h⟩ := exists_ok_of_bind_eq_ok h
      cases h
      have hloads := (hload loaded).1 hloaded
      show List.Forall₂ LoadsRule declared.entries (OrderedMap.ofList loaded).entries
      rwa [OrderedMap.entries_ofList (hnodup loaded hloads)]
    · intro h
      have hrules : OrderedMap.ofList rules.entries = rules :=
        OrderedMap.ext (OrderedMap.entries_ofList rules.nodup_keys)
      show (_ >>= fun loaded => Except.ok (OrderedMap.ofList loaded)) = Except.ok rules
      rw [bind_of_eq_ok ((hload rules.entries).2 h), hrules]

/-! ## Section 3: Whole declarations -/

/-- What a fragment has in common with the declaration that it is loaded from. -/
structure Loads (d : FragmentDeclaration) (origin : String) (f : Fragment) : Prop where
  declares : d.isEmpty = false
  name : checkName d.name = .ok () ∧ f.name = d.name
  filter : ∃ including excluding, patternList "files" d.files = .ok including ∧
    patternList "ignores" d.ignores = .ok excluding ∧
    loadFilter including excluding = .ok f.filter
  language : checkLanguage d.language = .ok () ∧ f.language = d.language
  bases : checkBases (d.bases.getD []) = .ok () ∧ f.bases = d.bases.getD []
  rules : List.Forall₂ LoadsRule d.declaredRules f.rules.entries
  sharedOptions : loadSharedOptions d.sharedOptions = .ok f.sharedOptions
  origin : f.origin = origin

theorem load_eq_ok_iff_loads {d : FragmentDeclaration} {origin : String} {f : Fragment} :
    load d origin = .ok f ↔ Loads d origin f := by
  have hvalidate : load d origin = .ok f ↔ validate d origin = .ok f := by
    unfold load
    cases validate d origin <;> simp
  rw [hvalidate]
  unfold validate
  constructor
  · intro h
    split at h
    · cases h
    rename_i hdeclares
    obtain ⟨⟨⟩, hname, h⟩ := exists_ok_of_bind_eq_ok h
    obtain ⟨including, hincluding, h⟩ := exists_ok_of_bind_eq_ok h
    obtain ⟨excluding, hexcluding, h⟩ := exists_ok_of_bind_eq_ok h
    obtain ⟨filter, hfilter, h⟩ := exists_ok_of_bind_eq_ok h
    obtain ⟨⟨⟩, hlanguage, h⟩ := exists_ok_of_bind_eq_ok h
    obtain ⟨⟨⟩, hbases, h⟩ := exists_ok_of_bind_eq_ok h
    obtain ⟨rules, hrules, h⟩ := exists_ok_of_bind_eq_ok h
    obtain ⟨sharedOptions, hshared, h⟩ := exists_ok_of_bind_eq_ok h
    cases h
    exact ⟨Bool.eq_false_iff.2 hdeclares, ⟨hname, rfl⟩,
      ⟨including, excluding, hincluding, hexcluding, hfilter⟩, ⟨hlanguage, rfl⟩, ⟨hbases, rfl⟩,
      loadRules_eq_ok_iff.1 hrules, hshared, rfl⟩
  · intro h
    obtain ⟨hdeclares, ⟨hname, hfname⟩, ⟨including, excluding, hincluding, hexcluding, hfilter⟩,
      ⟨hlanguage, hflanguage⟩, ⟨hbases, hfbases⟩, hrules, hshared, horigin⟩ := h
    rw [if_neg (Bool.eq_false_iff.1 hdeclares)]
    rw [bind_of_eq_ok hname, bind_of_eq_ok hincluding, bind_of_eq_ok hexcluding,
      bind_of_eq_ok hfilter, bind_of_eq_ok hlanguage, bind_of_eq_ok hbases,
      bind_of_eq_ok (loadRules_eq_ok_iff.2 hrules), bind_of_eq_ok hshared]
    rw [← hfname, ← hflanguage, ← hfbases, ← horigin]
    rfl

theorem loadFrom_eq_mapM (position : Nat → String) (index : Nat)
    (declarations : List FragmentDeclaration) :
    loadFrom position index declarations =
      (declarations.zipIdx index).mapM fun entry => load entry.1 (position entry.2) := by
  induction declarations generalizing index with
  | nil => rfl
  | cons d rest ih =>
    rw [loadFrom, ih, List.zipIdx_cons, List.mapM_cons]

/-- Declarations load one by one, each at its own position. -/
theorem loadFrom_eq_ok_iff {position : Nat → String} {index : Nat}
    {declarations : List FragmentDeclaration} {fragments : List Fragment} :
    loadFrom position index declarations = .ok fragments ↔
      List.Forall₂ (fun entry f => Loads entry.1 (position entry.2) f)
        (declarations.zipIdx index) fragments := by
  simp only [loadFrom_eq_mapM, mapM_eq_ok_iff, load_eq_ok_iff_loads]

theorem loads_of_loadFrom {position : Nat → String} {index : Nat}
    {declarations : List FragmentDeclaration} {fragments : List Fragment}
    (h : loadFrom position index declarations = .ok fragments) :
    List.Forall₂ (fun d f => ∃ origin, Loads d origin f) declarations fragments := by
  have hloads := loadFrom_eq_ok_iff.1 h
  rw [← List.zipIdx_map_fst index declarations, List.forall₂_map_left_iff]
  exact hloads.imp fun entry f hentry => ⟨position entry.2, hentry⟩

end Fragment

end RuleCascade
