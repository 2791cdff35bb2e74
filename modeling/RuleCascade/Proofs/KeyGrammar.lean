import RuleCascade.Proofs.LoadedFragments

/-! # The grammar of rule keys

    A key is a segment, or a key followed by a separator and one more segment.
    The check of keys scans the whole text three times and knows no grammar;
    the namespace is cut off by a search from the right.

    Both agree with the grammar. The check accepts exactly its keys. The search
    undoes its last step, so what it cuts off leaves a key again.

    Main statement: `parse_namespace?`.
-/

namespace RuleCascade.RuleKey

/-! ## Section 1: The grammar -/

/-- One of the two characters that stand between segments. -/
def Separates (c : Char) : Prop := c = ':' ∨ c = '/'

/-- Characters that show and do not separate, and not just the mark of a scope. -/
structure IsSegment (segment : List Char) : Prop where
  ne_nil : segment ≠ []
  ne_scopeMark : segment ≠ ['@']
  unseparated : ∀ c ∈ segment, ¬ Separates c
  shown : ∀ c ∈ segment, Text.isBlank c = false ∧ Text.isControl c = false

/-- Segments with a separator between each two of them. -/
inductive IsKey : List Char → Prop where
  | segment {cs : List Char} : IsSegment cs → IsKey cs
  | qualified {namespaceText : List Char} {separator : Char} {last : List Char} :
      IsKey namespaceText → Separates separator → IsSegment last →
      IsKey (namespaceText ++ separator :: last)

theorem isSeparator_eq_true_iff {c : Char} : isSeparator c = true ↔ Separates c := by
  unfold isSeparator Separates
  rw [Bool.or_eq_true, decide_eq_true_eq, decide_eq_true_eq]

theorem isSeparator_eq_false_iff {c : Char} : isSeparator c = false ↔ ¬ Separates c := by
  rw [← isSeparator_eq_true_iff, Bool.not_eq_true]

/-! ## Section 2: Cutting into segments -/

theorem segments_ne_nil (cs : List Char) : segments cs ≠ [] := by
  cases cs with
  | nil => simp [segments]
  | cons c rest =>
    unfold segments
    split
    · simp
    · split <;> simp

theorem segments_of_unseparated {cs : List Char} (h : ∀ c ∈ cs, ¬ Separates c) :
    segments cs = [cs] := by
  induction cs with
  | nil => rfl
  | cons c rest ih =>
    obtain ⟨hc, hrest⟩ := List.forall_mem_cons.1 h
    rw [segments, isSeparator_eq_false_iff.2 hc, ih hrest]
    rfl

/-- What stands on the two sides of a separator is cut by itself. -/
theorem segments_append {c : Char} (hc : Separates c) (before after : List Char) :
    segments (before ++ c :: after) = segments before ++ segments after := by
  induction before with
  | nil =>
    show segments (c :: after) = [] :: segments after
    rw [segments, isSeparator_eq_true_iff.2 hc]
    rfl
  | cons d rest ih =>
    show segments (d :: (rest ++ c :: after)) = segments (d :: rest) ++ segments after
    rw [segments, segments, ih]
    cases hd : isSeparator d with
    | true => rfl
    | false =>
      -- the character goes to the first segment, which is one before the separator
      cases hsegments : segments rest with
      | nil => exact absurd hsegments (segments_ne_nil rest)
      | cons first others => rfl

/-! ## Section 3: The check -/

/-- What the three scans of the check ask for. -/
structure Passes (cs : List Char) : Prop where
  ne_nil : cs ≠ []
  shown : ∀ c ∈ cs, Text.isBlank c = false ∧ Text.isControl c = false
  solid : ∀ segment ∈ segments cs, segment ≠ [] ∧ segment ≠ ['@']

theorem check_eq_ok_iff_passes {cs : List Char} : check cs = .ok () ↔ Passes cs := by
  have hempty : cs.isEmpty = true ↔ ¬ cs ≠ [] := by simp
  have hbad : (cs.any fun c => Text.isBlank c || Text.isControl c) = true ↔
      ¬ ∀ c ∈ cs, Text.isBlank c = false ∧ Text.isControl c = false := by
    simp [or_iff_not_imp_left]
  have hhollow : (segments cs).any isHollow = true ↔
      ¬ ∀ segment ∈ segments cs, segment ≠ [] ∧ segment ≠ ['@'] := by
    simp [isHollow, or_iff_not_imp_left]
  unfold check
  constructor
  · intro h
    split at h
    · cases h
    rename_i hne
    split at h
    · cases h
    rename_i hshown
    split at h
    · cases h
    rename_i hsolid
    rw [hempty, Classical.not_not] at hne
    rw [hbad, Classical.not_not] at hshown
    rw [hhollow, Classical.not_not] at hsolid
    exact ⟨hne, hshown, hsolid⟩
  · intro ⟨hne, hshown, hsolid⟩
    rw [if_neg (fun h => hempty.1 h hne), if_neg (fun h => hbad.1 h hshown),
      if_neg (fun h => hhollow.1 h hsolid)]

theorem passes_of_isSegment {segment : List Char} (h : IsSegment segment) : Passes segment := by
  refine ⟨h.ne_nil, h.shown, ?_⟩
  rw [segments_of_unseparated h.unseparated, List.forall_mem_singleton]
  exact ⟨h.ne_nil, h.ne_scopeMark⟩

theorem Separates.shown {c : Char} (h : Separates c) :
    Text.isBlank c = false ∧ Text.isControl c = false := by
  rcases h with rfl | rfl <;> decide

theorem Passes.isSegment {cs : List Char} (h : Passes cs) (hplain : ∀ c ∈ cs, ¬ Separates c) :
    IsSegment cs := by
  have hsolid := h.solid
  rw [segments_of_unseparated hplain, List.forall_mem_singleton] at hsolid
  exact ⟨hsolid.1, hsolid.2, hplain, h.shown⟩

/-- The two sides of a separator pass each by itself. -/
theorem passes_append_iff {c : Char} (hc : Separates c) {before after : List Char} :
    Passes (before ++ c :: after) ↔ Passes before ∧ Passes after := by
  constructor
  · intro h
    have hshown := List.forall_mem_append.1 h.shown
    have hsolid := h.solid
    rw [segments_append hc, List.forall_mem_append] at hsolid
    -- an empty side would be an empty segment
    refine ⟨⟨?_, hshown.1, hsolid.1⟩, ⟨?_, (List.forall_mem_cons.1 hshown.2).2, hsolid.2⟩⟩
    · rintro rfl
      exact (hsolid.1 [] (List.mem_singleton_self [])).1 rfl
    · rintro rfl
      exact (hsolid.2 [] (List.mem_singleton_self [])).1 rfl
  · intro ⟨hbefore, hafter⟩
    refine ⟨by simp, ?_, ?_⟩
    · exact List.forall_mem_append.2 ⟨hbefore.shown,
        List.forall_mem_cons.2 ⟨hc.shown, hafter.shown⟩⟩
    · rw [segments_append hc]
      exact List.forall_mem_append.2 ⟨hbefore.solid, hafter.solid⟩

theorem IsKey.passes {cs : List Char} (h : IsKey cs) : Passes cs := by
  induction h with
  | segment hsegment => exact passes_of_isSegment hsegment
  | qualified _ hseparator hlast ih =>
    exact (passes_append_iff hseparator).2 ⟨ih, passes_of_isSegment hlast⟩

/-- By the last separator, if there is one. -/
theorem Passes.isKey {cs : List Char} (h : Passes cs) : IsKey cs := by
  cases hsplit : Text.splitLast? isSeparator cs with
  | none =>
    have hplain := Text.splitLast?_eq_none_iff.1 hsplit
    exact .segment (h.isSegment fun c hc => isSeparator_eq_false_iff.1 (hplain c hc))
  | some parts =>
    -- behind the last separator nothing separates, and before it stands a shorter text
    obtain ⟨separator, hseparator, hcs, hplain⟩ := Text.eq_of_splitLast? hsplit
    rw [isSeparator_eq_true_iff] at hseparator
    rw [hcs, passes_append_iff hseparator] at h
    have hlast := h.2.isSegment fun c hc => isSeparator_eq_false_iff.1 (hplain c hc)
    have hshorter : parts.1.length < cs.length := by
      rw [hcs, List.length_append, List.length_cons]
      omega
    rw [hcs]
    exact .qualified h.1.isKey hseparator hlast
termination_by cs.length

theorem parse_eq_ok_iff_isKey {text : String} {key : RuleKey} :
    parse text = .ok key ↔ IsKey text.toList ∧ key.text = text := by
  rw [parse_eq_ok_iff, check_eq_ok_iff_passes]
  exact and_congr_left fun _ => ⟨Passes.isKey, IsKey.passes⟩

/-! ## Section 4: The namespace -/

theorem namespace?_eq_none_iff {key : RuleKey} :
    key.namespace? = none ↔ ∀ c ∈ key.text.toList, ¬ Separates c := by
  unfold namespace?
  rw [Option.map_eq_none_iff, Text.splitLast?_eq_none_iff]
  exact forall₂_congr fun c _ => isSeparator_eq_false_iff

theorem namespace?_eq_some_iff {key : RuleKey} {namespaceText : String} :
    key.namespace? = some namespaceText ↔ ∃ separator last, Separates separator ∧
      key.text.toList = namespaceText.toList ++ separator :: last ∧ ∀ c ∈ last, ¬ Separates c := by
  unfold namespace?
  rw [Option.map_eq_some_iff]
  constructor
  · rintro ⟨parts, hsplit, rfl⟩
    obtain ⟨separator, hseparator, htext, hplain⟩ := Text.eq_of_splitLast? hsplit
    rw [String.toList_ofList]
    exact ⟨separator, parts.2, isSeparator_eq_true_iff.1 hseparator, htext,
      fun c hc => isSeparator_eq_false_iff.1 (hplain c hc)⟩
  · rintro ⟨separator, last, hseparator, htext, hplain⟩
    refine ⟨(namespaceText.toList, last), ?_, String.ofList_toList⟩
    rw [htext]
    exact Text.splitLast?_append _ (isSeparator_eq_true_iff.2 hseparator)
      fun c hc => isSeparator_eq_false_iff.2 (hplain c hc)

/-- The namespace of a key is a key, and the segment behind it is one. -/
theorem IsKey.of_namespace? {key : RuleKey} (h : IsKey key.text.toList) {namespaceText : String}
    (hnamespace : key.namespace? = some namespaceText) :
    IsKey namespaceText.toList ∧ ∃ separator last, Separates separator ∧ IsSegment last ∧
      key.text.toList = namespaceText.toList ++ separator :: last := by
  obtain ⟨separator, last, hseparator, htext, hplain⟩ := namespace?_eq_some_iff.1 hnamespace
  have hpasses := h.passes
  rw [htext, passes_append_iff hseparator] at hpasses
  obtain ⟨hbefore, hlast⟩ := hpasses
  exact ⟨hbefore.isKey, separator, last, hseparator, hlast.isSegment hplain, htext⟩

/-- A text is accepted exactly if it is a key of the grammar, and is kept as it is. An accepted key
    has no namespace exactly if no character of it separates; otherwise it is its namespace, which
    is accepted itself, a separator and one more segment. -/
theorem parse_namespace? :
    (∀ (text : String) (key : RuleKey),
      parse text = .ok key ↔ IsKey text.toList ∧ key.text = text) ∧
    ∀ (text : String) (key : RuleKey), parse text = .ok key →
      (key.namespace? = none ↔ ∀ c ∈ key.text.toList, ¬ Separates c) ∧
      ∀ namespaceText, key.namespace? = some namespaceText →
        parse namespaceText = .ok ⟨namespaceText⟩ ∧
        ∃ separator last, Separates separator ∧ IsSegment last ∧
          key.text.toList = namespaceText.toList ++ separator :: last := by
  refine ⟨fun text key => parse_eq_ok_iff_isKey, ?_⟩
  intro text key hparse
  refine ⟨namespace?_eq_none_iff, ?_⟩
  intro namespaceText hnamespace
  obtain ⟨hkey, rfl⟩ := parse_eq_ok_iff_isKey.1 hparse
  obtain ⟨hbefore, hlast⟩ := hkey.of_namespace? hnamespace
  exact ⟨parse_eq_ok_iff_isKey.2 ⟨hbefore, rfl⟩, hlast⟩

/-- Both separators, the mark of a scope, and a letter that is not ASCII. -/
theorem parse_namespace?_scoped :
    IsKey "@scope/é:rule".toList ∧
    RuleKey.namespace? ⟨"@scope/é:rule"⟩ = some "@scope/é" ∧
    parse "@scope/é" = .ok ⟨"@scope/é"⟩ ∧
    ¬ IsKey "@/rule".toList := by
  obtain ⟨haccepts, hsplits⟩ := parse_namespace?
  have hparse : parse "@scope/é:rule" = .ok ⟨"@scope/é:rule"⟩ := by decide +kernel
  have hnamespace : RuleKey.namespace? ⟨"@scope/é:rule"⟩ = some "@scope/é" := by decide +kernel
  refine ⟨((haccepts _ _).1 hparse).1, hnamespace, ((hsplits _ _ hparse).2 _ hnamespace).1, ?_⟩
  intro hkey
  have hhollow : parse "@/rule" = .error .emptySegment := by decide +kernel
  rw [(haccepts "@/rule" ⟨"@/rule"⟩).2 ⟨hkey, rfl⟩] at hhollow
  cases hhollow

end RuleCascade.RuleKey
