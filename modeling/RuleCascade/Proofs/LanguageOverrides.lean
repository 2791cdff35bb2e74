import Mathlib.Data.List.TakeWhile
import RuleCascade.Language

/-! # The override that decides a language

    Overrides are applied in order on top of the standard table. Several of
    them may name one extension, by different spellings of it, and may set and
    remove it in turns. The last one decides, and the others leave no trace.

    A path and an override name an extension in different ways. A path has it
    behind the last dot of its last segment (`HasExtension`); an override is an
    extension with any number of dots in front (`Names`). Both are compared in
    lower case.

    Main statement: `languageOf_withOverrides`.
-/

namespace RuleCascade.LanguageMap

/-! ## Section 1: Extensions of paths -/

/-- The part of a path behind its last `/`, or all of it. -/
structure LastSegment (path segment : List Char) : Prop where
  slash_notMem : '/' ∉ segment
  isEnd : path = segment ∨ ∃ directory, path = directory ++ '/' :: segment

/-- Behind the last dot of the last segment stands the extension, in whatever case, and something
    stands before that dot. -/
def HasExtension (path extension : String) : Prop :=
  ∃ stem text, LastSegment path.toList (stem ++ '.' :: text) ∧ stem ≠ [] ∧ '.' ∉ text ∧
    extension = String.ofList (Text.lowerAscii text)

theorem lastSegment_iff {path segment : List Char} :
    LastSegment path segment ↔ Text.afterLast (· = '/') path = segment := by
  rw [Text.afterLast_eq_iff]
  constructor
  · intro ⟨hslash, hend⟩
    refine ⟨?_, hend.imp_right ?_⟩
    · intro c hc
      exact decide_eq_false fun heq => hslash (heq ▸ hc)
    · intro ⟨directory, hpath⟩
      exact ⟨directory, '/', decide_eq_true rfl, hpath⟩
  · intro ⟨hplain, hend⟩
    refine ⟨?_, hend.imp_right ?_⟩
    · intro hslash
      exact of_decide_eq_false (hplain '/' hslash) rfl
    · rintro ⟨directory, c, hc, hpath⟩
      obtain rfl := of_decide_eq_true hc
      exact ⟨directory, hpath⟩

theorem lastSegment_afterLast (path : List Char) :
    LastSegment path (Text.afterLast (· = '/') path) :=
  lastSegment_iff.2 rfl

theorem LastSegment.unique {path segment other : List Char} (h : LastSegment path segment)
    (h' : LastSegment path other) : segment = other :=
  (lastSegment_iff.1 h).symm.trans (lastSegment_iff.1 h')

theorem splitLast?_dot_eq_some_iff {segment stem text : List Char} :
    Text.splitLast? (· = '.') segment = some (stem, text) ↔
      segment = stem ++ '.' :: text ∧ '.' ∉ text := by
  rw [Text.splitLast?_eq_some_iff]
  constructor
  · rintro ⟨c, hc, hsegment, hplain⟩
    obtain rfl := of_decide_eq_true hc
    refine ⟨hsegment, ?_⟩
    intro hdot
    exact of_decide_eq_false (hplain '.' hdot) rfl
  · intro ⟨hsegment, hdot⟩
    refine ⟨'.', decide_eq_true rfl, hsegment, ?_⟩
    intro c hc
    exact decide_eq_false fun heq => hdot (heq ▸ hc)

theorem hasExtension_iff {path extension : String} :
    HasExtension path extension ↔ (extension? path.toList).map String.ofList = some extension := by
  constructor
  · rintro ⟨stem, text, hsegment, hstem, hdot, rfl⟩
    have hsplit : Text.splitLast? (· = '.') (stem ++ '.' :: text) = some (stem, text) :=
      splitLast?_dot_eq_some_iff.2 ⟨rfl, hdot⟩
    rw [extension?, lastSegment_iff.1 hsegment, hsplit]
    simp [hstem]
  · intro h
    unfold extension? at h
    split at h
    · cases h
    rename_i stem text hsplit
    split at h
    · cases h
    rename_i hstem
    obtain ⟨hsegment, hdot⟩ := splitLast?_dot_eq_some_iff.1 hsplit
    have hlast := lastSegment_afterLast path.toList
    rw [hsegment] at hlast
    exact ⟨stem, text, hlast, by simpa using hstem, hdot, (Option.some.inj h).symm⟩

theorem HasExtension.unique {path extension other : String} (h : HasExtension path extension)
    (h' : HasExtension path other) : extension = other :=
  Option.some.inj ((hasExtension_iff.1 h).symm.trans (hasExtension_iff.1 h'))

/-- A path is without extension if its last segment has no dot, or none but the first character. -/
theorem forall_not_hasExtension_iff {path : String} :
    (∀ extension, ¬ HasExtension path extension) ↔
      ∃ segment, LastSegment path.toList segment ∧
        ('.' ∉ segment ∨ ∃ text, segment = '.' :: text ∧ '.' ∉ text) := by
  constructor
  · intro hnone
    refine ⟨_, lastSegment_afterLast path.toList, ?_⟩
    -- by what a search from the right finds in the last segment
    cases hsplit : Text.splitLast? (· = '.') (Text.afterLast (· = '/') path.toList) with
    | none =>
      left
      intro hdot
      exact of_decide_eq_false (Text.splitLast?_eq_none_iff.1 hsplit '.' hdot) rfl
    | some parts =>
      obtain ⟨hsegment, hdot⟩ := splitLast?_dot_eq_some_iff.1 hsplit
      right
      refine ⟨parts.2, ?_, hdot⟩
      have hlast := lastSegment_afterLast path.toList
      by_cases hstem : parts.1 = []
      · rw [hsegment, hstem]
        rfl
      · -- something stands before the last dot, so there would be an extension
        rw [hsegment] at hlast
        exact absurd ⟨parts.1, parts.2, hlast, hstem, hdot, rfl⟩ (hnone _)
  · rintro ⟨segment, hsegment, hplain⟩ extension ⟨stem, text, hlast, hstem, hdot, _⟩
    obtain rfl := hsegment.unique hlast
    rcases hplain with hnone | ⟨other, hother, hdot'⟩
    · exact hnone (by simp)
    · -- the first character is a dot, and so is one behind it
      cases stem with
      | nil => exact hstem rfl
      | cons first rest =>
        rw [List.cons_append] at hother
        obtain ⟨_, rfl⟩ := List.cons_eq_cons.1 hother
        exact hdot' (by simp)

/-! ## Section 2: Extensions of overrides -/

/-- The key of an override is the extension, in whatever case, with any number of dots in front. -/
def Names (key extension : String) : Prop :=
  ∃ dots name, key.toList = dots ++ name ∧ (∀ c ∈ dots, c = '.') ∧ name.head? ≠ some '.' ∧
    extension = String.ofList (Text.lowerAscii name)

theorem dropWhile_dots_eq {dots name : List Char} (hdots : ∀ c ∈ dots, c = '.')
    (hname : name.head? ≠ some '.') : (dots ++ name).dropWhile (· = '.') = name := by
  rw [List.dropWhile_append_of_pos fun c hc => decide_eq_true (hdots c hc)]
  cases name with
  | nil => rfl
  | cons first rest =>
    refine List.dropWhile_cons_of_neg ?_
    intro hfirst
    exact hname (congrArg some (of_decide_eq_true hfirst))

theorem names_iff {key extension : String} : Names key extension ↔ overrideKey key = extension := by
  constructor
  · rintro ⟨dots, name, hkey, hdots, hname, rfl⟩
    rw [overrideKey, hkey, dropWhile_dots_eq hdots hname]
  · rintro rfl
    refine ⟨key.toList.takeWhile (· = '.'), key.toList.dropWhile (· = '.'),
      List.takeWhile_append_dropWhile.symm, ?_, ?_, rfl⟩
    · intro c hc
      have hdot := List.mem_takeWhile_imp hc
      simpa using hdot
    · intro hdot
      have hstop := List.head?_dropWhile_not (fun c => decide (c = '.')) key.toList
      rw [hdot] at hstop
      exact of_decide_eq_false hstop rfl

/-! ## Section 3: Overrides in order -/

theorem find?_override (m : LanguageMap) (entry : String × String) (extension : String) :
    (m.override entry).byExtension.find? extension =
      if overrideKey entry.1 = extension then (if entry.2 = "" then none else some entry.2)
      else m.byExtension.find? extension := by
  by_cases htag : entry.2 = ""
  · have hempty : entry.2.isEmpty = true := by rw [htag]; rfl
    rw [override, if_pos hempty, if_pos htag]
    split
    · rename_i hkey
      rw [hkey]
      exact OrderedMap.find?_erase_self _ _
    · rename_i hkey
      exact OrderedMap.find?_erase_of_ne _ (Ne.symm hkey)
  · have hempty : ¬ entry.2.isEmpty = true := by simpa using htag
    rw [override, if_neg hempty, if_neg htag]
    split
    · rename_i hkey
      rw [hkey]
      exact OrderedMap.find?_insert_self _ _ _
    · rename_i hkey
      exact OrderedMap.find?_insert_of_ne _ _ (Ne.symm hkey)

/-- Overrides of other extensions change nothing for this one. -/
theorem find?_foldl_override_of_forall_not (m : LanguageMap) {entries : List (String × String)}
    {extension : String} (h : ∀ entry ∈ entries, ¬ Names entry.1 extension) :
    (entries.foldl override m).byExtension.find? extension = m.byExtension.find? extension := by
  induction entries generalizing m with
  | nil => rfl
  | cons first rest ih =>
    obtain ⟨hfirst, hrest⟩ := List.forall_mem_cons.1 h
    rw [names_iff] at hfirst
    rw [List.foldl_cons, ih _ hrest, find?_override, if_neg hfirst]

/-- The last override of an extension decides, whatever was there before. -/
theorem find?_foldl_override (m : LanguageMap) (before : List (String × String))
    {key tag extension : String} {after : List (String × String)} (hkey : Names key extension)
    (hafter : ∀ later ∈ after, ¬ Names later.1 extension) :
    ((before ++ (key, tag) :: after).foldl override m).byExtension.find? extension =
      if tag = "" then none else some tag := by
  rw [List.foldl_append, List.foldl_cons, find?_foldl_override_of_forall_not _ hafter,
    find?_override, if_pos (names_iff.1 hkey)]

theorem find?_standard_eq_some_iff {extension tag : String} :
    standard.byExtension.find? extension = some tag ↔ (extension, tag) ∈ standardEntries :=
  Entries.find?_eq_some_iff standard.byExtension.nodup_keys

theorem languageOf_of_hasExtension (m : LanguageMap) {path extension : String}
    (h : HasExtension path extension) :
    m.languageOf path = m.byExtension.find? extension := by
  obtain ⟨text, htext, rfl⟩ := Option.map_eq_some_iff.1 (hasExtension_iff.1 h)
  rw [languageOf, htext]
  rfl

theorem languageOf_of_forall_not_hasExtension (m : LanguageMap) {path : String}
    (h : ∀ extension, ¬ HasExtension path extension) : m.languageOf path = none := by
  cases htext : extension? path.toList with
  | none => rw [languageOf, htext]; rfl
  | some text => exact absurd (hasExtension_iff.2 (by rw [htext]; rfl)) (h (String.ofList text))

/-- A path has at most one extension, and none if its last segment has no dot or only a leading
    one. Without an extension there is no language. Otherwise the last override that names the
    extension decides, by its tag or by the lack of one, and the standard table decides where no
    override names it. -/
theorem languageOf_withOverrides (overrides : OrderedMap String String) (path : String) :
    ((∀ extension, ¬ HasExtension path extension) ↔
      ∃ segment, LastSegment path.toList segment ∧
        ('.' ∉ segment ∨ ∃ text, segment = '.' :: text ∧ '.' ∉ text)) ∧
    ((∀ extension, ¬ HasExtension path extension) →
      (withOverrides overrides).languageOf path = none) ∧
    ∀ extension, HasExtension path extension →
      (∀ other, HasExtension path other → other = extension) ∧
      (∀ before key tag after, overrides.entries = before ++ (key, tag) :: after →
        Names key extension → (∀ later ∈ after, ¬ Names later.1 extension) →
        (withOverrides overrides).languageOf path = if tag = "" then none else some tag) ∧
      ((∀ entry ∈ overrides.entries, ¬ Names entry.1 extension) →
        ∀ tag, (withOverrides overrides).languageOf path = some tag ↔
          (extension, tag) ∈ standardEntries) := by
  refine ⟨forall_not_hasExtension_iff, languageOf_of_forall_not_hasExtension _, ?_⟩
  intro extension hextension
  rw [languageOf_of_hasExtension _ hextension, withOverrides]
  refine ⟨fun other hother => hother.unique hextension, ?_, ?_⟩
  · intro before key tag after hentries hkey hafter
    rw [hentries]
    exact find?_foldl_override standard before hkey hafter
  · intro hnone tag
    rw [find?_foldl_override_of_forall_not standard hnone]
    exact find?_standard_eq_some_iff

/-- One extension is set, removed and set again, and another one is removed. -/
def respelled : OrderedMap String String :=
  .ofList [(".TS", "typed"), ("ts", ""), ("Md", ""), ("..Ts", "late")]

/-- A hidden file may have an extension; a leading dot alone makes none. -/
theorem languageOf_withOverrides_respelled :
    (withOverrides respelled).languageOf "src/.a.tS" = some "late" ∧
    (withOverrides respelled).languageOf "README.MD" = none ∧
    (withOverrides respelled).languageOf "a/b.c/site.css" = some "css" ∧
    (withOverrides respelled).languageOf "a.ts/.ts" = none := by
  refine ⟨?_, ?_, ?_, ?_⟩
  · obtain ⟨_, _, hdecides⟩ := languageOf_withOverrides respelled "src/.a.tS"
    obtain ⟨_, hlast, _⟩ := hdecides "ts" (hasExtension_iff.2 (by decide +kernel))
    exact hlast [(".TS", "typed"), ("ts", ""), ("Md", "")] "..Ts" "late" [] rfl
      (names_iff.2 (by decide +kernel)) (List.forall_mem_nil _)
  · obtain ⟨_, _, hdecides⟩ := languageOf_withOverrides respelled "README.MD"
    obtain ⟨_, hlast, _⟩ := hdecides "md" (hasExtension_iff.2 (by decide +kernel))
    refine hlast [(".TS", "typed"), ("ts", "")] "Md" "" [("..Ts", "late")] rfl
      (names_iff.2 (by decide +kernel)) ?_
    simp only [names_iff]
    decide +kernel
  · obtain ⟨_, _, hdecides⟩ := languageOf_withOverrides respelled "a/b.c/site.css"
    obtain ⟨_, _, hstandard⟩ := hdecides "css" (hasExtension_iff.2 (by decide +kernel))
    refine (hstandard ?_ "css").2 (by decide)
    simp only [names_iff]
    decide +kernel
  · obtain ⟨hnone, habsent, _⟩ := languageOf_withOverrides respelled "a.ts/.ts"
    refine habsent (hnone.2 ⟨['.', 't', 's'], lastSegment_iff.2 (by decide +kernel), ?_⟩)
    exact Or.inr ⟨['t', 's'], rfl, by decide⟩

end RuleCascade.LanguageMap
