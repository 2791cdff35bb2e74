import Mathlib.Data.List.Nodup
import RuleCascade.CascadeError
import RuleCascade.Rule.Setting

/-! # The declared forms of a setting

    A setting is declared by a severity alone, by an array, or by an object
    with the two fields in either order. An object that declares no options
    leaves the field out, or has null or an empty array in it.

    Every form comes to the same as the array: the same setting, or the same
    complaint about a severity that is none. What is read in another form is
    refused, so the forms listed here are all that there are. A setting that is
    written out has the form of an object.

    Main statement: `ofValue_declared`.
-/

namespace RuleCascade.RuleSetting

/-! ## Section 1: The forms -/

/-- The fields by which an object declares options. -/
inductive DeclaresOptions : List Value → Fields → Prop where
  | listed (options : List Value) : DeclaresOptions options [("options", .array options)]
  | missing : DeclaresOptions [] []
  | null : DeclaresOptions [] [("options", .null)]

/-- The value declares a setting with this severity, be it one or not, and these options. -/
inductive Declares : Value → List Value → Value → Prop where
  | text (s : String) : Declares (.string s) [] (.string s)
  | number (n : Number) : Declares (.number n) [] (.number n)
  | array (severity : Value) (options : List Value) :
      Declares severity options (.array (severity :: options))
  | object {severity : Value} {options : List Value} {optionFields fields : Fields} :
      DeclaresOptions options optionFields →
      fields.Perm (("severity", severity) :: optionFields) →
      Declares severity options (.object fields)

theorem DeclaresOptions.keys_subset {options : List Value} {optionFields : Fields}
    (h : DeclaresOptions options optionFields) :
    ∀ key ∈ Entries.keys optionFields, key = "options" := by
  intro key hkey
  cases h with
  | listed => exact List.mem_singleton.1 hkey
  | missing => cases hkey
  | null => exact List.mem_singleton.1 hkey

theorem DeclaresOptions.nodup_keys {options : List Value} {optionFields : Fields}
    (h : DeclaresOptions options optionFields) (severity : Value) :
    (Entries.keys (("severity", severity) :: optionFields)).Nodup := by
  cases h <;> simp

theorem DeclaresOptions.optionsOf_find? {options : List Value} {optionFields : Fields}
    (h : DeclaresOptions options optionFields) :
    optionsOf (Entries.find? "options" optionFields) = .ok options := by
  cases h <;> rfl

/-- Whatever an object's field is read as has one of the forms. -/
theorem declaresOptions_of_optionsOf {field? : Option Value} {options : List Value}
    (h : optionsOf field? = .ok options) :
    DeclaresOptions options (field?.toList.map fun v => ("options", v)) := by
  unfold optionsOf at h
  split at h
  · cases h
    exact .missing
  · cases h
    exact .null
  · cases h
    exact .listed _
  · cases h

/-! ## Section 2: Reading an object -/

theorem find?_unknown_eq_none_iff {fields : Fields} :
    (Entries.keys fields).find? (fun key => key ≠ "severity" && key ≠ "options") = none ↔
      ∀ key ∈ Entries.keys fields, key = "severity" ∨ key = "options" := by
  rw [List.find?_eq_none]
  refine forall₂_congr fun key _ => ?_
  by_cases hkey : key = "severity" <;> simp [hkey]

theorem ofValue_array (severity : Value) (options : List Value) :
    ofValue (.array (severity :: options)) = (severityOf severity).map fun s => ⟨s, options⟩ := by
  show (severityOf severity >>= fun s => _) = _
  cases severityOf severity <;> rfl

/-- The order of an object's fields does not matter. -/
theorem ofFields_of_perm {severity : Value} {options : List Value} {optionFields fields : Fields}
    (hoptions : DeclaresOptions options optionFields)
    (hfields : fields.Perm (("severity", severity) :: optionFields)) :
    ofFields fields = (severityOf severity).map fun s => ⟨s, options⟩ := by
  have hnodup : (Entries.keys fields).Nodup :=
    (hfields.map Prod.fst).nodup_iff.2 (hoptions.nodup_keys severity)
  have hknown : ∀ key ∈ Entries.keys fields, key = "severity" ∨ key = "options" := by
    intro key hkey
    rcases List.mem_cons.1 ((hfields.map Prod.fst).mem_iff.1 hkey) with hfirst | hrest
    · exact Or.inl hfirst
    · exact Or.inr (hoptions.keys_subset key hrest)
  have hseverity : Entries.find? "severity" fields = some severity := by
    rw [Entries.find?_of_perm hfields hnodup, Entries.find?, if_pos rfl]
  have hlisted : optionsOf (Entries.find? "options" fields) = .ok options := by
    rw [Entries.find?_of_perm hfields hnodup, Entries.find?, if_neg (by decide)]
    exact hoptions.optionsOf_find?
  unfold ofFields
  rw [find?_unknown_eq_none_iff.2 hknown, hseverity, hlisted]
  show (severityOf severity >>= fun s => _) = _
  cases severityOf severity <;> rfl

theorem Declares.ofValue_eq {severity value : Value} {options : List Value}
    (h : Declares severity options value) :
    ofValue value = ofValue (.array (severity :: options)) := by
  cases h with
  | text s => rfl
  | number n => rfl
  | array => rfl
  | object hoptions hfields =>
    rw [ofValue_array]
    exact ofFields_of_perm hoptions hfields

theorem severityOf_eq_ok_iff {value : Value} {severity : Severity} :
    severityOf value = .ok severity ↔ Severity.ofValue? value = some severity := by
  unfold severityOf
  cases Severity.ofValue? value <;> simp

/-- An object that is read declares what it is read as. -/
theorem exists_declares_of_ofFields {fields : Fields} {r : RuleSetting}
    (hnodup : (Entries.keys fields).Nodup) (h : ofFields fields = .ok r) :
    ∃ severity, Declares severity r.options (.object fields) ∧
      Severity.ofValue? severity = some r.severity := by
  unfold ofFields at h
  split at h
  · cases h
  rename_i hunknown
  split at h
  · cases h
  rename_i severity hseverity
  obtain ⟨read, hread, h⟩ := exists_ok_of_bind_eq_ok h
  obtain ⟨options, hoptions, h⟩ := exists_ok_of_bind_eq_ok h
  cases h
  have hfields := declaresOptions_of_optionsOf hoptions
  refine ⟨severity, .object hfields ?_, severityOf_eq_ok_iff.1 hread⟩
  -- both lists repeat no key, so it is enough that they have the same entries
  have hleft : fields.Nodup := hnodup.of_map Prod.fst
  have hright := (hfields.nodup_keys severity).of_map Prod.fst
  rw [List.perm_ext_iff_of_nodup hleft hright]
  rintro ⟨key, value⟩
  rw [List.mem_cons]
  constructor
  · intro hmem
    have hvalue := (Entries.find?_eq_some_iff hnodup).2 hmem
    rcases find?_unknown_eq_none_iff.1 hunknown key (List.mem_map_of_mem (f := Prod.fst) hmem) with
      rfl | rfl
    · rw [hseverity] at hvalue
      cases hvalue
      exact Or.inl rfl
    · rw [hvalue]
      exact Or.inr (List.mem_singleton_self _)
  · intro hmem
    rcases hmem with heq | hoption
    · cases heq
      exact Entries.mem_of_find? hseverity
    · obtain ⟨found, hfound, heq⟩ := List.mem_map.1 hoption
      cases heq
      exact Entries.mem_of_find? (Option.mem_toList.1 hfound)

/-! ## Section 3: All forms -/

/-- The values that are read as settings, each of which declares what it is read as. -/
theorem ofValue_eq_ok_iff {value : Value} (hwf : value.WellFormed) {r : RuleSetting} :
    ofValue value = .ok r ↔ ∃ severity, Declares severity r.options value ∧
      Severity.ofValue? severity = some r.severity := by
  constructor
  · intro h
    cases value with
    | null => cases h
    | bool b => cases h
    | number n =>
      obtain ⟨severity, hseverity, h⟩ := exists_ok_of_bind_eq_ok h
      cases h
      exact ⟨.number n, .number n, severityOf_eq_ok_iff.1 hseverity⟩
    | string s =>
      obtain ⟨severity, hseverity, h⟩ := exists_ok_of_bind_eq_ok h
      cases h
      exact ⟨.string s, .text s, severityOf_eq_ok_iff.1 hseverity⟩
    | array items =>
      cases items with
      | nil => cases h
      | cons first options =>
        obtain ⟨severity, hseverity, h⟩ := exists_ok_of_bind_eq_ok h
        cases h
        exact ⟨first, .array first options, severityOf_eq_ok_iff.1 hseverity⟩
    | object fields => exact exists_declares_of_ofFields hwf.1 h
  · rintro ⟨severity, hdeclares, hseverity⟩
    rw [hdeclares.ofValue_eq, ofValue_array, severityOf_eq_ok_iff.2 hseverity]
    rfl

theorem declares_toValue (r : RuleSetting) :
    Declares (.string r.severity.name) r.options r.toValue := by
  obtain ⟨severity, options⟩ := r
  cases options with
  | nil => exact .object .missing (List.Perm.refl _)
  | cons option others => exact .object (.listed (option :: others)) (List.Perm.refl _)

theorem ofValue?_name (severity : Severity) :
    Severity.ofValue? (.string severity.name) = some severity := by
  cases severity <;> rfl

/-- A setting that is written out is read back, with and without options. -/
theorem ofValue_toValue (r : RuleSetting) : ofValue r.toValue = .ok r := by
  have hseverity : severityOf (.string r.severity.name) = .ok r.severity :=
    severityOf_eq_ok_iff.2 (ofValue?_name r.severity)
  rw [(declares_toValue r).ofValue_eq, ofValue_array, hseverity]
  rfl

/-- Two values that declare one severity with the same options are read alike, down to the error.
    What is read as a setting declares it in one of the forms. A setting that is written out
    declares itself, and is read back. -/
theorem ofValue_declared :
    (∀ (severity : Value) (options : List Value) (value other : Value),
      Declares severity options value → Declares severity options other →
      ofValue value = ofValue other) ∧
    (∀ (value : Value) (r : RuleSetting), value.WellFormed → (ofValue value = .ok r ↔
      ∃ severity, Declares severity r.options value ∧
        Severity.ofValue? severity = some r.severity)) ∧
    ∀ r : RuleSetting, ofValue r.toValue = .ok r := by
  refine ⟨?_, fun value r hwf => ofValue_eq_ok_iff hwf, ofValue_toValue⟩
  intro severity options value other hvalue hother
  rw [hvalue.ofValue_eq, hother.ofValue_eq]

/-- The options stand before the severity, once as null, beside a number that is no severity. -/
theorem ofValue_declared_reversed :
    ofValue (.object [("options", .null), ("severity", .number (.int 3))]) =
      ofValue (.number (.int 3)) ∧
    ofValue (.object [("options", .array [.null]), ("severity", .string "Error")]) =
      .ok ⟨.error, [.null]⟩ ∧
    ofValue (toValue ⟨.error, [.null]⟩) = .ok ⟨.error, [.null]⟩ := by
  obtain ⟨hagree, hread, hwritten⟩ := ofValue_declared
  refine ⟨?_, ?_, hwritten ⟨.error, [.null]⟩⟩
  · exact hagree (.number (.int 3)) [] _ _ (.object .null (List.Perm.swap _ _ _)) (.number _)
  · refine (hread _ ⟨.error, [.null]⟩ ?_).2 ⟨.string "Error", ?_, ?_⟩
    · simp [Value.WellFormed, Value.FieldsWellFormed, Value.ItemsWellFormed]
    · exact .object (.listed [.null]) (List.Perm.swap _ _ _)
    · decide +kernel

end RuleCascade.RuleSetting
