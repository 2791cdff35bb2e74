import RuleCascade.Proofs.RepeatedLayers
import RuleCascade.Proofs.SettingForms

/-! # Configurations that are written out

    A configuration can be declared itself: its rules and its shared options,
    written out, are a declaration. Such a declaration loads if every key of the
    configuration passes the check of keys, and it gives back the configuration
    if nothing in the shared options is left to be dropped.

    `Written` is the invariant. It holds of the empty configuration, and
    layering a validated fragment keeps it: a key comes in with a fragment that
    was checked, and options are made distinct before they are taken in.

    Main statement: `declaration_merge`.
-/

namespace RuleCascade

/-! ## Section 1: Keys and fragments -/

theorem RuleKey.text_injective : Function.Injective RuleKey.text := by
  intro key other h
  cases key
  cases other
  cases h
  rfl

/-- A fragment that has passed the checks of loading. Its values come from a document, in which no
    object repeats a key. -/
structure Fragment.Validated (f : Fragment) : Prop where
  loads : ∃ d origin, Fragment.load d origin = .ok f
  wellFormed : f.WellFormed

namespace Configuration

/-! ## Section 2: What a configuration can be written from -/

/-- The configuration can be declared: its keys are accepted, nothing in its shared options is left
    to be dropped, and it is not that of an ignored file. -/
structure Written (c : Configuration) : Prop where
  parse_eq : ∀ entry ∈ c.rules.entries, RuleKey.parse entry.1.text = .ok entry.1
  settled : SharedOptions.Settled (.object c.sharedOptions)
  ignored_eq : c.ignored = false

theorem written_empty : ({} : Configuration).Written :=
  ⟨by simp, SharedOptions.settled_object_nil, rfl⟩

/-- Layering a validated fragment keeps it. -/
theorem Written.apply {c : Configuration} (hc : c.Written) {f : Fragment} (hf : f.Validated) :
    (c.apply f).Written := by
  obtain ⟨d, origin, hload⟩ := hf.loads
  have hrules := Fragment.parse_of_loadsRule (Fragment.load_eq_ok_iff_loads.1 hload).rules
  refine ⟨?_, hc.settled.merge_of_wellFormed hf.wellFormed, hc.ignored_eq⟩
  -- a rule comes from the fragment or was there before
  intro entry hentry
  rcases OrderedMap.mem_insertAll hentry with hnew | hold
  · exact hrules entry hnew
  · exact hc.parse_eq entry hold

theorem Written.applyAll {c : Configuration} (hc : c.Written) {fragments : List Fragment}
    (h : ∀ f ∈ fragments, f.Validated) : (c.applyAll fragments).Written := by
  refine List.foldlRecOn (motive := Written) fragments Configuration.apply hc ?_
  intro accumulated haccumulated f hf
  exact haccumulated.apply (h f hf)

/-! ## Section 3: The declaration of a configuration -/

/-- The rules of a configuration as they are written. -/
def writtenRules (c : Configuration) : OrderedMap String Value where
  entries := c.rules.entries.map fun entry => (entry.1.text, entry.2.toValue)
  nodup_keys := by
    have htexts := c.rules.nodup_keys.map RuleKey.text_injective
    simpa [Entries.keys, Function.comp_def] using htexts

/-- The declaration that has the rules and the shared options of a configuration. -/
def declaration (c : Configuration) : FragmentDeclaration :=
  { rules := some c.writtenRules, sharedOptions := some (.object c.sharedOptions) }

/-- The fragment that has the rules and the shared options of a configuration. -/
def asFragment (c : Configuration) (origin : String) : Fragment :=
  { origin, rules := c.rules, sharedOptions := c.sharedOptions }

/-- The declaration is what the configuration is written as. -/
theorem toValue_declaration {c : Configuration} (h : c.ignored = false) :
    c.declaration.toValue = c.toValue := by
  unfold Configuration.toValue
  rw [h]
  rfl

theorem loadsRule_writtenRules {c : Configuration}
    (h : ∀ entry ∈ c.rules.entries, RuleKey.parse entry.1.text = .ok entry.1) :
    List.Forall₂ Fragment.LoadsRule c.writtenRules.entries c.rules.entries := by
  unfold writtenRules
  refine List.forall₂_map_left_iff.2 (List.forall₂_same.2 ?_)
  intro entry hentry
  exact ⟨h entry hentry, rfl, entry.2.ofValue_toValue⟩

variable {c : Configuration}

theorem Written.load_declaration (h : c.Written) (origin : String) :
    Fragment.load c.declaration origin = .ok (c.asFragment origin) := by
  rw [Fragment.load_eq_ok_iff_loads]
  exact ⟨rfl, ⟨rfl, rfl⟩, ⟨[], [], rfl, rfl, rfl⟩, ⟨rfl, rfl⟩, ⟨rfl, rfl⟩,
    loadsRule_writtenRules h.parse_eq, rfl, rfl⟩

theorem Written.merge_asFragment (h : c.Written) (origin : String) :
    merge [c.asFragment origin] = c := by
  apply ext_parts
  · exact OrderedMap.ext (OrderedMap.entries_ofList c.rules.nodup_keys)
  · exact h.settled.merge_nil
  · exact h.ignored_eq.symm

/-- What was merged from the fragment is what layering it again leaves. -/
theorem Written.apply_asFragment (h : c.Written) (origin : String) :
    c.apply (c.asFragment origin) = c := by
  have hempty : ({} : Configuration).WellFormed := written_empty.settled.wellFormed
  have hwf : ∀ f ∈ [c.asFragment origin], f.WellFormed :=
    List.forall_mem_singleton.2 h.settled.wellFormed
  have hmerge := h.merge_asFragment origin
  unfold merge at hmerge
  have hagain := applyAll_applyAll hempty hwf
  rw [hmerge] at hagain
  exact hagain

/-- The merge of validated fragments, written out as one declaration, loads and gives back the
    merge, on its own and layered on it. -/
theorem declaration_merge {fragments : List Fragment} (h : ∀ f ∈ fragments, f.Validated)
    (origin : String) :
    (merge fragments).declaration.toValue = (merge fragments).toValue ∧
    ∃ f, Fragment.load (merge fragments).declaration origin = .ok f ∧
      merge [f] = merge fragments ∧ (merge fragments).apply f = merge fragments := by
  have hwritten : (merge fragments).Written := written_empty.applyAll h
  refine ⟨toValue_declaration hwritten.ignored_eq, (merge fragments).asFragment origin, ?_⟩
  exact ⟨hwritten.load_declaration origin, hwritten.merge_asFragment origin,
    hwritten.apply_asFragment origin⟩

/-- Repeated items at two depths, and a zero that is written in two ways. -/
def drafted : List FragmentDeclaration :=
  [{ rules := some (.ofList [("quotes", .array [.string "ERROR", .string "double"])])
     sharedOptions := some (.object [("globals",
      .array [.array [.string "a", .string "a"], .number (.float 0)])]) },
    { rules := some (.ofList [("scope:no-var", .number (.int 1)),
        ("quotes", .object [("severity", .string "off"), ("options", .null)])])
      sharedOptions := some (.object [("globals",
        .array [.number (.float 0x8000000000000000), .array [.string "a"], .null])]) }]

def draftedFragments : List Fragment :=
  [{ origin := "fragments[0]"
     rules := .ofList [(⟨"quotes"⟩, ⟨.error, [.string "double"]⟩)]
     sharedOptions := [("globals", .array [.array [.string "a", .string "a"],
      .number (.float 0)])] },
    { origin := "fragments[1]"
      rules := .ofList [(⟨"scope:no-var"⟩, ⟨.warn, []⟩), (⟨"quotes"⟩, ⟨.off, []⟩)]
      sharedOptions := [("globals", .array [.number (.float 0x8000000000000000),
        .array [.string "a"], .null])] }]

def draftedMerge : Configuration where
  rules := .ofList [(⟨"quotes"⟩, ⟨.off, []⟩), (⟨"scope:no-var"⟩, ⟨.warn, []⟩)]
  sharedOptions := [("globals", .array [.array [.string "a"], .number (.float 0), .null])]

theorem declaration_merge_drafted :
    Fragment.loadAll drafted = .ok draftedFragments ∧
    merge draftedFragments = draftedMerge ∧
    draftedMerge.declaration.toValue = draftedMerge.toValue ∧
    ∃ f, Fragment.load draftedMerge.declaration "fragments[2]" = .ok f ∧
      merge [f] = draftedMerge ∧ draftedMerge.apply f = draftedMerge := by
  have hmerge : merge draftedFragments = draftedMerge := rfl
  have hvalidated : ∀ f ∈ draftedFragments, f.Validated := by
    unfold draftedFragments
    refine List.forall_mem_cons.2 ⟨⟨⟨drafted[0], "fragments[0]", rfl⟩, ?_⟩, ?_⟩
    · simp [Fragment.WellFormed, Value.WellFormed, Value.FieldsWellFormed, Value.ItemsWellFormed]
    · refine List.forall_mem_singleton.2 ⟨⟨drafted[1], "fragments[1]", rfl⟩, ?_⟩
      simp [Fragment.WellFormed, Value.WellFormed, Value.FieldsWellFormed, Value.ItemsWellFormed]
  have hdeclared := declaration_merge hvalidated "fragments[2]"
  rw [hmerge] at hdeclared
  exact ⟨rfl, hmerge, hdeclared⟩

end Configuration

end RuleCascade
