import Mathlib.Data.List.Forall2
import Mathlib.Tactic.MkIffOfInductiveProp
import RuleCascade.Proofs.AliasTransparency
import RuleCascade.Proofs.LayeredOptions

/-! # The first violation

    Loading stops at the first thing that is wrong. `faults` lists all that is
    wrong with a declaration, in the order in which it counts: that nothing is
    declared, then the name, the lists of patterns, the patterns themselves,
    the language, the references, the rules one by one with the key of each
    before its setting, and the shared options.

    A computation that is put together from checks fails with the first error
    of the list that is put together from theirs (`error?_bind`,
    `error?_mapM`). So a declaration fails with the first of its faults, a
    sequence with the first fault of the first declaration that has one, and a
    document with the first rule set that does not load.

    Main statement: `loading_reports_first_violation`.
-/

namespace RuleCascade

/-! ## Section 1: Errors of checks that follow each other -/

section checks

variable {ε δ α β : Type}

/-- The error of a failure; a success has none. -/
def error? : Except ε α → Option ε
  | .ok _ => none
  | .error e => some e

theorem error?_eq_none_iff {check : Except ε α} : error? check = none ↔ ∃ a, check = .ok a := by
  cases check <;> simp [error?]

theorem error?_eq_some_iff {check : Except ε α} {e : ε} :
    error? check = some e ↔ check = .error e := by
  cases check <;> simp [error?]

/-- What follows a check is only looked at where the check succeeds. -/
theorem error?_bind {check : Except ε α} {rest : α → Except ε β} {later : Option ε}
    (h : ∀ a, check = .ok a → error? (rest a) = later) :
    error? (check >>= rest) = (error? check).or later := by
  cases check with
  | error e => rfl
  | ok a => exact h a rfl

/-- Putting a result together does not fail. -/
theorem error?_bind_pure (check : Except ε α) (f : α → β) :
    error? (check >>= fun a => pure (f a)) = error? check := by
  cases check <;> rfl

theorem forall_mem_zipIdx_iff {p : α → Prop} {items : List α} {index : Nat} :
    (∀ entry ∈ items.zipIdx index, p entry.1) ↔ ∀ item ∈ items, p item := by
  rw [← List.forall_mem_map, List.zipIdx_map_fst]

theorem error?_mapM (f : α → Except ε β) (items : List α) :
    error? (items.mapM f) = items.findSome? fun item => error? (f item) := by
  induction items with
  | nil => rfl
  | cons item rest ih =>
    have hrest : ∀ first, f item = .ok first →
        error? (rest.mapM f >>= fun others => pure (first :: others)) =
          rest.findSome? fun item => error? (f item) := by
      intro first _
      rw [error?_bind_pure, ih]
    rw [List.mapM_cons, error?_bind hrest, List.findSome?_cons]
    cases error? (f item) <;> rfl

end checks

/-! ## Section 2: The faults of a declaration -/

namespace FragmentDeclaration

/-- What is wrong with a pattern, if it does not compile. -/
def patternFault? (source : String) : Option FragmentFault :=
  (error? (Pattern.compile source)).map (.malformedPattern source)

/-- What is wrong with a rule, its key before its setting. -/
def ruleFaults (rule : String × Value) : List FragmentFault :=
  ((error? (RuleKey.parse rule.1)).map (.badRuleKey rule.1)).toList ++
  ((error? (RuleSetting.ofValue rule.2)).map (.badRuleSetting rule.1)).toList

/-- All that is wrong with a declaration, in the order in which it counts. -/
def faults (d : FragmentDeclaration) : List FragmentFault :=
  (if d.isEmpty then [.declaresNothing] else []) ++
  (if d.name.any Text.isBlankText then [.blankName] else []) ++
  (if d.files = some [] then [.emptyList "files"] else []) ++
  (if d.ignores = some [] then [.emptyList "ignores"] else []) ++
  (d.files.getD []).filterMap patternFault? ++
  (d.ignores.getD []).filterMap patternFault? ++
  (d.language.toList.filter fun tag => tag.isEmpty || tag.toList.any Text.isBlank).map
    .badLanguage ++
  ((d.bases.getD []).zipIdx.filter fun base => Text.isBlankText base.1).map
    (fun base => .blankReference base.2) ++
  d.declaredRules.flatMap ruleFaults ++
  (if d.sharedOptions.any fun value => value.fields?.isNone then [.sharedOptionsNotObject] else [])

/-- A declaration without faults. -/
@[mk_iff valid_iff_checks]
structure Valid (d : FragmentDeclaration) : Prop where
  declares : d.isEmpty = false
  name_shows : ∀ name, d.name = some name → Text.isBlankText name = false
  files_ne_nil : d.files ≠ some []
  ignores_ne_nil : d.ignores ≠ some []
  files_compile : ∀ source ∈ d.files.getD [], ∃ p, Pattern.compile source = .ok p
  ignores_compile : ∀ source ∈ d.ignores.getD [], ∃ p, Pattern.compile source = .ok p
  language_shows : ∀ tag, d.language = some tag →
    tag ≠ "" ∧ ∀ c ∈ tag.toList, Text.isBlank c = false
  bases_show : ∀ base ∈ d.bases.getD [], Text.isBlankText base = false
  rules_parse : ∀ rule ∈ d.declaredRules, (∃ key, RuleKey.parse rule.1 = .ok key) ∧
    ∃ setting, RuleSetting.ofValue rule.2 = .ok setting
  sharedOptions_object : ∀ value, d.sharedOptions = some value → ∃ fields, value = .object fields

end FragmentDeclaration

namespace Fragment

open FragmentDeclaration

theorem error?_checkName (name : Option String) :
    error? (checkName name) = (if name.any Text.isBlankText then [.blankName] else []).head? := by
  cases name with
  | none => rfl
  | some name =>
    by_cases hblank : Text.isBlankText name = true <;> simp [checkName, error?, hblank]

theorem error?_patternList (field : String) (patterns : Option (List String)) :
    error? (patternList field patterns) =
      (if patterns = some [] then [.emptyList field] else []).head? := by
  match patterns with
  | none => rfl
  | some [] => rfl
  | some (_ :: _) => rfl

theorem getD_of_patternList {field : String} {patterns : Option (List String)}
    {listed : List String} (h : patternList field patterns = .ok listed) :
    patterns.getD [] = listed := by
  match patterns with
  | none =>
    cases h
    rfl
  | some [] => cases h
  | some (_ :: _) =>
    cases h
    rfl

theorem error?_compileAll (sources : List String) :
    (error? (FileFilter.compileAll sources)).map (fun found => .malformedPattern found.1 found.2) =
      (sources.filterMap patternFault?).head? := by
  rw [FileFilter.compileAll, error?_mapM, List.head?_filterMap, List.map_findSome?]
  congr 1
  funext source
  simp only [patternFault?, Function.comp]
  cases Pattern.compile source <;> rfl

theorem error?_loadFilter (including excluding : List String) :
    error? (loadFilter including excluding) =
      ((including.filterMap patternFault?) ++ (excluding.filterMap patternFault?)).head? := by
  have hload : error? (loadFilter including excluding) =
      (error? (FileFilter.compile including excluding)).map
        fun found => .malformedPattern found.1 found.2 := by
    unfold loadFilter
    cases FileFilter.compile including excluding <;> rfl
  have hcompile : error? (FileFilter.compile including excluding) =
      (error? (FileFilter.compileAll including)).or (error? (FileFilter.compileAll excluding)) := by
    exact error?_bind fun included _ => error?_bind_pure _ _
  rw [hload, hcompile, Option.map_or, error?_compileAll, error?_compileAll, List.head?_append]

theorem error?_checkLanguage (language : Option String) :
    error? (checkLanguage language) =
      ((language.toList.filter fun tag => tag.isEmpty || tag.toList.any Text.isBlank).map
        .badLanguage).head? := by
  cases language with
  | none => rfl
  | some tag =>
    simp only [checkLanguage, Option.toList_some, List.filter_cons, List.filter_nil]
    cases tag.isEmpty || tag.toList.any Text.isBlank <;> rfl

theorem error?_checkBases (bases : List String) :
    error? (checkBases bases) =
      ((bases.zipIdx.filter fun base => Text.isBlankText base.1).map
        (fun base => .blankReference base.2)).head? := by
  have hfind : bases.findIdx? Text.isBlankText =
      (bases.zipIdx.find? fun base => Text.isBlankText base.1).map Prod.snd :=
    List.findIdx?_eq_fst_find?_zipIdx
  rw [checkBases, hfind, List.head?_map, List.head?_filter]
  cases bases.zipIdx.find? fun base => Text.isBlankText base.1 <;> rfl

theorem error?_loadRule (rule : String × Value) :
    error? (loadRule rule.1 rule.2) = (ruleFaults rule).head? := by
  unfold loadRule ruleFaults
  cases RuleKey.parse rule.1 with
  | error e => rfl
  | ok key => cases RuleSetting.ofValue rule.2 <;> rfl

theorem error?_loadRules (d : FragmentDeclaration) :
    error? (loadRules d.rules) = (d.declaredRules.flatMap ruleFaults).head? := by
  unfold declaredRules
  cases hrules : d.rules with
  | none => rfl
  | some declared =>
    show error? ((declared.entries.mapM fun entry => loadRule entry.1 entry.2) >>= fun loaded =>
      pure (OrderedMap.ofList loaded)) = (declared.entries.flatMap ruleFaults).head?
    rw [error?_bind_pure, error?_mapM, List.head?_flatMap]
    congr 1
    funext rule
    exact error?_loadRule rule

theorem error?_loadSharedOptions (value : Option Value) :
    error? (loadSharedOptions value) =
      (if value.any fun v => v.fields?.isNone then [.sharedOptionsNotObject] else []).head? := by
  cases value with
  | none => rfl
  | some value => cases value <;> rfl

/-- Validation finds the first fault. -/
theorem error?_validate (d : FragmentDeclaration) (origin : String) :
    error? (validate d origin) = d.faults.head? := by
  unfold validate faults
  simp only [List.append_assoc]
  by_cases hempty : d.isEmpty = true
  · rw [if_pos hempty, if_pos hempty]
    rfl
  rw [if_neg hempty, if_neg hempty, List.nil_append]
  -- the first group of faults is that of the first check, the others are those of what follows
  rw [List.head?_append, ← error?_checkName]
  refine error?_bind fun _ _ => ?_
  rw [List.head?_append, ← error?_patternList]
  refine error?_bind fun including hincluding => ?_
  rw [List.head?_append, ← error?_patternList]
  refine error?_bind fun excluding hexcluding => ?_
  -- what is compiled is what is declared, and both lists are one check
  rw [getD_of_patternList hincluding, getD_of_patternList hexcluding, ← List.append_assoc,
    List.head?_append, ← error?_loadFilter]
  refine error?_bind fun filter _ => ?_
  rw [List.head?_append, ← error?_checkLanguage]
  refine error?_bind fun _ _ => ?_
  rw [List.head?_append, ← error?_checkBases]
  refine error?_bind fun _ _ => ?_
  rw [List.head?_append, ← error?_loadRules]
  refine error?_bind fun rules _ => ?_
  rw [← error?_loadSharedOptions, error?_bind_pure]

end Fragment

namespace FragmentDeclaration

section groups

variable {d : FragmentDeclaration}

theorem filterMap_patternFault?_eq_nil_iff {sources : List String} :
    sources.filterMap patternFault? = [] ↔
      ∀ source ∈ sources, ∃ p, Pattern.compile source = .ok p := by
  simp only [List.filterMap_eq_nil_iff, patternFault?, Option.map_eq_none_iff,
    error?_eq_none_iff]

theorem any_name_iff : d.name.any Text.isBlankText = false ↔
    ∀ name, d.name = some name → Text.isBlankText name = false := by
  cases d.name <;> simp

theorem filter_language_eq_nil_iff :
    (d.language.toList.filter fun tag => tag.isEmpty || tag.toList.any Text.isBlank) = [] ↔
      ∀ tag, d.language = some tag → tag ≠ "" ∧ ∀ c ∈ tag.toList, Text.isBlank c = false := by
  simp [List.filter_eq_nil_iff]

theorem filter_bases_eq_nil_iff {bases : List String} :
    (bases.zipIdx.filter fun base => Text.isBlankText base.1) = [] ↔
      ∀ base ∈ bases, Text.isBlankText base = false := by
  rw [List.filter_eq_nil_iff]
  constructor
  · intro h base hbase
    obtain ⟨i, hi⟩ := List.mem_iff_getElem?.1 hbase
    exact Bool.eq_false_iff.2 (h (base, i) (List.mem_zipIdx_iff_getElem?.2 hi))
  · rintro h ⟨base, i⟩ hbase
    have hmem := List.mem_of_getElem? (List.mem_zipIdx_iff_getElem?.1 hbase)
    exact Bool.eq_false_iff.1 (h base hmem)

theorem flatMap_ruleFaults_eq_nil_iff {rules : List (String × Value)} :
    rules.flatMap ruleFaults = [] ↔
      ∀ rule ∈ rules, (∃ key, RuleKey.parse rule.1 = .ok key) ∧
        ∃ setting, RuleSetting.ofValue rule.2 = .ok setting := by
  simp [List.flatMap_eq_nil_iff, ruleFaults, error?_eq_none_iff]

theorem any_sharedOptions_iff :
    (d.sharedOptions.any fun value => value.fields?.isNone) = false ↔
      ∀ value, d.sharedOptions = some value → ∃ fields, value = .object fields := by
  cases d.sharedOptions with
  | none => simp
  | some value => cases value <;> simp [Value.fields?]

end groups

theorem valid_iff {d : FragmentDeclaration} : d.Valid ↔ d.faults = [] := by
  have hguard : ∀ (found : Bool) (fault : FragmentFault),
      (if found then [fault] else []) = [] ↔ found = false := by
    intro found fault
    cases found <;> simp
  have hlist : ∀ (patterns : Option (List String)) (fault : FragmentFault),
      (if patterns = some [] then [fault] else []) = [] ↔ patterns ≠ some [] := by
    intro patterns fault
    by_cases hempty : patterns = some [] <;> simp [hempty]
  -- one group of faults for each check, in the same order
  simp only [valid_iff_checks, faults, List.append_eq_nil_iff, List.map_eq_nil_iff, hguard, hlist,
    any_name_iff, filterMap_patternFault?_eq_nil_iff, filter_language_eq_nil_iff,
    filter_bases_eq_nil_iff, flatMap_ruleFaults_eq_nil_iff, any_sharedOptions_iff, and_assoc]

end FragmentDeclaration

/-! ## Section 3: What an error tells -/

/-- What an error of loading is about: a field of a declaration, or one of its patterns. -/
inductive Subject where
  | field (path : String)
  | pattern (source : String)
deriving DecidableEq, Repr

/-- The position that an error of loading gives, and what it is about there. -/
def CascadeError.subject? : CascadeError → Option (String × Subject)
  | .invalidFragment position field _ => some (position, .field field)
  | .malformedPattern pattern position _ => some (position, .pattern pattern)
  | _ => none

/-- The field or the pattern that is at fault. -/
def FragmentFault.subject : FragmentFault → Subject
  | .declaresNothing => .field "<fragment>"
  | .blankName => .field "name"
  | .emptyList field => .field field
  | .malformedPattern pattern _ => .pattern pattern
  | .badLanguage _ => .field "language"
  | .blankReference index => .field ("extends[" ++ toString index ++ "]")
  | .badRuleKey key _ => .field ("rules." ++ key)
  | .badRuleSetting key _ => .field ("rules." ++ key)
  | .sharedOptionsNotObject => .field "sharedOptions"

theorem FragmentFault.subject?_at (fault : FragmentFault) (position : String) :
    (fault.at position).subject? = some (position, fault.subject) := by
  cases fault <;> rfl

/-! ## Section 4: Sequences of declarations -/

namespace Fragment

/-- A fragment carries what is declared, and nothing else. -/
structure Carries (d : FragmentDeclaration) (origin : String) (f : Fragment) : Prop where
  origin : f.origin = origin
  name : f.name = d.name
  included : List.Forall₂ (fun source p => Pattern.compile source = .ok p)
    (d.files.getD []) f.filter.included
  excluded : List.Forall₂ (fun source p => Pattern.compile source = .ok p)
    (d.ignores.getD []) f.filter.excluded
  language : f.language = d.language
  bases : f.bases = d.bases.getD []
  rules : List.Forall₂ LoadsRule d.declaredRules f.rules.entries
  sharedOptions : f.sharedOptions = (d.sharedOptions.bind Value.fields?).getD []

section declarations

variable {d : FragmentDeclaration} {origin : String} {f g : Fragment}

theorem compiled_of_loadFilter {including excluding : List String} {filter : FileFilter}
    (h : loadFilter including excluding = .ok filter) :
    List.Forall₂ (fun source p => Pattern.compile source = .ok p) including filter.included ∧
      List.Forall₂ (fun source p => Pattern.compile source = .ok p) excluding filter.excluded := by
  unfold loadFilter at h
  split at h
  · rename_i compiled hcompiled
    cases h
    obtain ⟨included, hincluded, hcompiled⟩ := exists_ok_of_bind_eq_ok hcompiled
    obtain ⟨excluded, hexcluded, hcompiled⟩ := exists_ok_of_bind_eq_ok hcompiled
    cases hcompiled
    exact ⟨FileFilter.compileAll_eq_ok_iff.1 hincluded, FileFilter.compileAll_eq_ok_iff.1 hexcluded⟩
  · cases h

theorem getD_of_loadSharedOptions {value : Option Value} {fields : Fields}
    (h : loadSharedOptions value = .ok fields) : fields = (value.bind Value.fields?).getD [] := by
  unfold loadSharedOptions at h
  split at h
  · cases h
    rfl
  · cases h
    rfl
  · cases h

theorem Loads.carries (h : Loads d origin f) : Carries d origin f := by
  obtain ⟨including, excluding, hincluding, hexcluding, hfilter⟩ := h.filter
  obtain ⟨hincluded, hexcluded⟩ := compiled_of_loadFilter hfilter
  rw [← getD_of_patternList hincluding] at hincluded
  rw [← getD_of_patternList hexcluding] at hexcluded
  exact ⟨h.origin, h.name.2, hincluded, hexcluded, h.language.2, h.bases.2, h.rules,
    getD_of_loadSharedOptions h.sharedOptions⟩

theorem LoadsRule.rightUnique : Relator.RightUnique LoadsRule := by
  rintro declared ⟨key, setting⟩ ⟨key', setting'⟩ h h'
  have hkey : key = key' := Except.ok.inj (h.parse_eq.symm.trans h'.parse_eq)
  have hsetting : setting = setting' := Except.ok.inj (h.setting_eq.symm.trans h'.setting_eq)
  rw [hkey, hsetting]

/-- What is declared leaves no choice. -/
theorem Carries.unique (h : Carries d origin f) (h' : Carries d origin g) : f = g := by
  have hcompile : Relator.RightUnique fun source p => Pattern.compile source = .ok p :=
    fun source p q hp hq => Except.ok.inj (hp.symm.trans hq)
  have horigin : f.origin = g.origin := h.origin.trans h'.origin.symm
  have hname : f.name = g.name := h.name.trans h'.name.symm
  have hfilter : f.filter = g.filter := by
    have hincluded := List.right_unique_forall₂' hcompile h.included h'.included
    have hexcluded := List.right_unique_forall₂' hcompile h.excluded h'.excluded
    cases hf : f.filter
    cases hg : g.filter
    rw [hf, hg] at hincluded hexcluded
    rw [FileFilter.mk.injEq]
    exact ⟨hincluded, hexcluded⟩
  have hlanguage : f.language = g.language := h.language.trans h'.language.symm
  have hbases : f.bases = g.bases := h.bases.trans h'.bases.symm
  have hrules : f.rules = g.rules :=
    OrderedMap.ext (List.right_unique_forall₂' LoadsRule.rightUnique h.rules h'.rules)
  have hshared : f.sharedOptions = g.sharedOptions := h.sharedOptions.trans h'.sharedOptions.symm
  cases f
  cases g
  rw [Fragment.mk.injEq]
  exact ⟨horigin, hname, hfilter, hlanguage, hbases, hrules, hshared⟩

theorem error?_load (d : FragmentDeclaration) (origin : String) :
    error? (load d origin) = d.faults.head?.map (FragmentFault.at origin) := by
  rw [← error?_validate d origin]
  unfold load
  cases validate d origin <;> rfl

theorem error?_load_eq_none_iff : error? (load d origin) = none ↔ d.Valid := by
  rw [error?_load, Option.map_eq_none_iff, List.head?_eq_none_iff, FragmentDeclaration.valid_iff]

/-- A declaration loads if it is valid, and only to the fragment that carries it. -/
theorem load_eq_ok_iff_carries : load d origin = .ok f ↔ d.Valid ∧ Carries d origin f := by
  constructor
  · intro h
    exact ⟨error?_load_eq_none_iff.1 (error?_eq_none_iff.2 ⟨f, h⟩),
      (load_eq_ok_iff_loads.1 h).carries⟩
  · rintro ⟨hvalid, hcarries⟩
    -- whatever it loads to carries the same declaration
    obtain ⟨loaded, hloaded⟩ := error?_eq_none_iff.1 (error?_load_eq_none_iff.2 hvalid)
    have hsame : loaded = f := (load_eq_ok_iff_loads.1 hloaded).carries.unique hcarries
    rw [hloaded, hsame]

end declarations

/-- Declarations load all together, each to the fragment at its own number, or not at all: then
    the first fault of the first one that has any is the error. -/
structure LoadsInOrder (position : Nat → String) (declarations : List FragmentDeclaration)
    (result : Except CascadeError (List Fragment)) : Prop where
  succeeds_iff : (∃ fragments, result = .ok fragments) ↔ ∀ d ∈ declarations, d.Valid
  eq_ok_iff : ∀ fragments, result = .ok fragments ↔
    (∀ d ∈ declarations, d.Valid) ∧ declarations.length = fragments.length ∧
      ∀ (i : Nat) (hd : i < declarations.length) (hf : i < fragments.length),
        Carries declarations[i] (position i) fragments[i]
  reports : ∀ error, result = .error error →
    ∃ before d after fault others, declarations = before ++ d :: after ∧
      (∀ earlier ∈ before, earlier.Valid) ∧ d.faults = fault :: others ∧
      error = fault.at (position before.length) ∧
      error.subject? = some (position before.length, fault.subject)

/-- The fragments of a sequence are those that carry its declarations, each at its own number. -/
theorem loadFrom_eq_ok_iff_carries {position : Nat → String}
    {declarations : List FragmentDeclaration} {fragments : List Fragment} :
    loadFrom position 0 declarations = .ok fragments ↔
      (∀ d ∈ declarations, d.Valid) ∧ declarations.length = fragments.length ∧
        ∀ (i : Nat) (hd : i < declarations.length) (hf : i < fragments.length),
          Carries declarations[i] (position i) fragments[i] := by
  rw [loadFrom_eq_mapM, mapM_eq_ok_iff]
  simp only [load_eq_ok_iff_carries]
  -- validity is a matter of the declaration alone, the rest of where it stands
  have hsplit : List.Forall₂ (fun (entry : FragmentDeclaration × Nat) f =>
      entry.1.Valid ∧ Carries entry.1 (position entry.2) f) declarations.zipIdx fragments ↔
      (∀ entry ∈ declarations.zipIdx, entry.1.Valid) ∧ List.Forall₂
        (fun entry f => Carries entry.1 (position entry.2) f) declarations.zipIdx fragments :=
    List.forall₂_and_left _ _
  rw [hsplit, forall_mem_zipIdx_iff, List.forall₂_iff_get]
  simp only [List.length_zipIdx, List.get_eq_getElem, List.getElem_zipIdx, Nat.zero_add]

theorem error?_loadFrom (position : Nat → String) (index : Nat)
    (declarations : List FragmentDeclaration) :
    error? (loadFrom position index declarations) =
      (declarations.zipIdx index).findSome? fun entry =>
        error? (load entry.1 (position entry.2)) := by
  rw [loadFrom_eq_mapM, error?_mapM]

theorem loadsInOrder_loadFrom (position : Nat → String) (declarations : List FragmentDeclaration) :
    LoadsInOrder position declarations (loadFrom position 0 declarations) where
  succeeds_iff := by
    rw [← error?_eq_none_iff, error?_loadFrom, List.findSome?_eq_none_iff]
    simp only [error?_load_eq_none_iff]
    exact forall_mem_zipIdx_iff
  eq_ok_iff := fun _ => loadFrom_eq_ok_iff_carries
  reports := by
    intro error h
    have herror := error?_eq_some_iff.2 h
    rw [error?_loadFrom, List.findSome?_eq_some_iff] at herror
    obtain ⟨first, entry, last, hsplit, hentry, hfirst⟩ := herror
    -- where the numbered declarations are split, the declarations are, and the number of the one
    -- at fault is the length of what is before it
    obtain ⟨before, rest, rfl, rfl, hrest⟩ := List.zipIdx_eq_append_iff.1 hsplit
    obtain ⟨d, after, rfl, rfl, _⟩ := List.zipIdx_eq_cons_iff.1 hrest.symm
    rw [Nat.zero_add, error?_load, Option.map_eq_some_iff] at hentry
    obtain ⟨fault, hfault, rfl⟩ := hentry
    obtain ⟨others, hfaults⟩ := List.head?_eq_some_iff.1 hfault
    simp only [error?_load_eq_none_iff] at hfirst
    exact ⟨before, d, after, fault, others, rfl, forall_mem_zipIdx_iff.1 hfirst, hfaults, rfl,
      fault.subject?_at _⟩

end Fragment

/-! ## Section 5: Rule sets -/

/-- A rule set loads under its own name and by the same law, once the name shows. -/
structure RuleSet.LoadsInOrder (name : String) (declarations : List FragmentDeclaration) : Prop where
  blank : Text.isBlankText name = true →
    load name declarations = .error (.invalidFragment "ruleSets" "<name>" "rule set name is empty")
  shown : Text.isBlankText name = false →
    Fragment.LoadsInOrder (fun i => "ruleSets." ++ name ++ "[" ++ toString i ++ "]") declarations
      ((load name declarations).map RuleSet.fragments)
  name_eq : ∀ s, load name declarations = .ok s → s.name = name

theorem RuleSet.loadsInOrder (name : String) (declarations : List FragmentDeclaration) :
    LoadsInOrder name declarations where
  blank := by
    intro hblank
    rw [load, if_pos hblank]
  shown := by
    intro hshown
    have hload : (load name declarations).map RuleSet.fragments = Fragment.loadFrom
        (fun i => "ruleSets." ++ name ++ "[" ++ toString i ++ "]") 0 declarations := by
      rw [load, if_neg (Bool.eq_false_iff.1 hshown)]
      cases Fragment.loadFrom _ 0 declarations <;> rfl
    rw [hload]
    exact Fragment.loadsInOrder_loadFrom _ declarations
  name_eq := fun _ h => (RuleSet.name_of_load h).1

namespace Registry

/-- Rule sets are loaded one after another, whatever is registered already. -/
theorem error?_registerAll (r : Registry) (entries : List (String × List FragmentDeclaration)) :
    error? (registerAll r entries) =
      entries.findSome? fun entry => error? (RuleSet.load entry.1 entry.2) := by
  induction entries generalizing r with
  | nil => rfl
  | cons entry rest ih =>
    rw [registerAll, error?_bind fun s _ => ih (r.register s), List.findSome?_cons]
    cases error? (RuleSet.load entry.1 entry.2) <;> rfl

end Registry

/-- All declared rule sets of a document have to load, those that nothing refers to as well; the
    first that does not is the error. -/
structure Document.LoadsRuleSets (d : Document) : Prop where
  loads : ∀ s, Snapshot.ofDocument d = .ok s →
    ∀ entry ∈ d.ruleSets.entries, ∃ set, RuleSet.load entry.1 entry.2 = .ok set
  reports : ∀ ignores before name declarations after error,
    loadIgnores d.ignores = .ok ignores →
    d.ruleSets.entries = before ++ (name, declarations) :: after →
    (∀ earlier ∈ before, ∃ set, RuleSet.load earlier.1 earlier.2 = .ok set) →
    RuleSet.load name declarations = .error error → Snapshot.ofDocument d = .error error

theorem Document.loadsRuleSets (d : Document) : d.LoadsRuleSets where
  loads := by
    intro s h
    obtain ⟨ignores, registry, fragments, _, hregistry, _, _⟩ := Snapshot.ofDocument_eq_ok_iff.1 h
    obtain ⟨sets, hsets, _⟩ := exists_ok_of_bind_eq_ok hregistry
    have hnone := error?_eq_none_iff.2 ⟨sets, hsets⟩
    rw [Registry.error?_registerAll, List.findSome?_eq_none_iff] at hnone
    exact fun entry hentry => error?_eq_none_iff.1 (hnone entry hentry)
  reports := by
    intro ignores before name declarations after error hignores hsplit hbefore herror
    have hsets : Registry.registerAll {} d.ruleSets.entries = .error error := by
      rw [← error?_eq_some_iff, Registry.error?_registerAll, List.findSome?_eq_some_iff]
      exact ⟨before, _, after, hsplit, error?_eq_some_iff.2 herror,
        fun earlier hearlier => error?_eq_none_iff.2 (hbefore earlier hearlier)⟩
    rw [Snapshot.ofDocument, bind_of_eq_ok hignores, Registry.ofDeclarations, hsets]
    rfl

/-- Declarations are loaded in order, and the first violation of the first one that is not valid is
    reported at its position. Rule sets are loaded in the same way, and a document loads all that
    it declares. -/
theorem loading_reports_first_violation (declarations : List FragmentDeclaration) (name : String)
    (d : Document) :
    Fragment.LoadsInOrder (fun i => "fragments[" ++ toString i ++ "]") declarations
        (Fragment.loadAll declarations) ∧
      RuleSet.LoadsInOrder name declarations ∧ d.LoadsRuleSets :=
  ⟨Fragment.loadsInOrder_loadFrom _ declarations, RuleSet.loadsInOrder name declarations,
    d.loadsRuleSets⟩

/-- Two things are wrong with the second declaration and one with the third. -/
example : Fragment.loadAll
    [{ bases := some ["base"] }, { name := some " ", language := some "" }, { files := some [] }] =
      .error (.invalidFragment "fragments[1]" "name" "name is empty") := rfl

end RuleCascade
