import RuleCascade.Proofs.ReadBack

/-! # Documents that are written out

    A document that was read from a value is written as a value that is read
    as the same document. Fields that are left out on writing are those that
    are absent, or empty where empty is the default; whatever is written is read
    as it was, with all keys in their order.

    Main statement: `ofValue?_toValue`.
-/

namespace RuleCascade

open Datum

/-! ## Section 1: Fields that may be left out -/

namespace Fields

variable {α : Type} {write : α → Value} {a? : Option α}

@[simp] theorem find?_optional {key name : String} :
    Entries.find? key (Fields.optional name write a?) =
      if name = key then a?.map write else none := by
  cases a? with
  | none => simp [Fields.optional]
  | some a => rfl

theorem keys_optional_sublist {name : String} :
    (Entries.keys (Fields.optional name write a?)).Sublist [name] := by
  cases a? with
  | none => exact List.nil_sublist _
  | some a => exact List.Sublist.refl _

end Fields

/-! ## Section 2: The records -/

variable {dialect : Dialect}

theorem readsBack_texts : ReadsBack (list? text?) Value.ofTexts :=
  readsBack_text.list

theorem readsBack_rules :
    ReadsBack (map? toValue?) (fun rules => Value.object rules.entries) := by
  simpa using readsBack_value.map

theorem FragmentDeclaration.readsBack :
    ReadsBack (FragmentDeclaration.read? dialect) FragmentDeclaration.toValue where
  read_write := by
    intro v d h
    obtain ⟨fields, hfields, h⟩ := Option.bind_eq_some_iff.1 h
    obtain ⟨name, hname, h⟩ := Option.bind_eq_some_iff.1 h
    obtain ⟨files, hfiles, h⟩ := Option.bind_eq_some_iff.1 h
    obtain ⟨ignores, hignores, h⟩ := Option.bind_eq_some_iff.1 h
    obtain ⟨language, hlanguage, h⟩ := Option.bind_eq_some_iff.1 h
    obtain ⟨bases, hbases, h⟩ := Option.bind_eq_some_iff.1 h
    obtain ⟨rules, hrules, h⟩ := Option.bind_eq_some_iff.1 h
    obtain ⟨sharedOptions, hshared, h⟩ := Option.bind_eq_some_iff.1 h
    cases h
    have hvalues := exists_of_mem_of_fields? hfields
    refine Option.bind_eq_some_iff.2 ⟨_, fields?_object (by decide) ?_, ?_⟩
    · simp only [Entries.keys_append]
      exact (((((Fields.keys_optional_sublist.append Fields.keys_optional_sublist).append
        Fields.keys_optional_sublist).append Fields.keys_optional_sublist).append
        Fields.keys_optional_sublist).append Fields.keys_optional_sublist).append
        Fields.keys_optional_sublist
    refine Option.bind_eq_some_iff.2 ⟨name, readsBack_text.optionalField? hvalues hname ?_, ?_⟩
    · simp [Entries.find?_append]
    refine Option.bind_eq_some_iff.2 ⟨files, readsBack_texts.optionalField? hvalues hfiles ?_, ?_⟩
    · simp [Entries.find?_append]
    refine Option.bind_eq_some_iff.2
      ⟨ignores, readsBack_texts.optionalField? hvalues hignores ?_, ?_⟩
    · simp [Entries.find?_append]
    refine Option.bind_eq_some_iff.2
      ⟨language, readsBack_text.optionalField? hvalues hlanguage ?_, ?_⟩
    · simp [Entries.find?_append]
    refine Option.bind_eq_some_iff.2 ⟨bases, readsBack_texts.optionalField? hvalues hbases ?_, ?_⟩
    · simp [Entries.find?_append]
    refine Option.bind_eq_some_iff.2 ⟨rules, readsBack_rules.optionalField? hvalues hrules ?_, ?_⟩
    · simp [Entries.find?_append]
    refine Option.bind_eq_some_iff.2
      ⟨sharedOptions, readsBack_value.optionalField? hvalues hshared ?_, rfl⟩
    · simp [Entries.find?_append]
  ne_null := fun _ _ => Value.noConfusion

theorem readsBack_declarations :
    ReadsBack (list? (FragmentDeclaration.read? dialect)) Value.ofDeclarations :=
  FragmentDeclaration.readsBack.list

theorem readsBack_ruleSets :
    ReadsBack (RuleSetDeclarations.read? dialect) RuleSetDeclarations.toValue :=
  readsBack_declarations.map

theorem readsBack_textMap : ReadsBack (map? text?) Value.ofTextMap :=
  readsBack_text.map

/-- All four options are written, those that have their defaults included. -/
theorem EngineOptions.readsBack :
    ReadsBack (EngineOptions.read? dialect) EngineOptions.toValue where
  read_write := by
    intro v o h
    obtain ⟨fields, hfields, h⟩ := Option.bind_eq_some_iff.1 h
    obtain ⟨languages, hlanguages, h⟩ := Option.bind_eq_some_iff.1 h
    obtain ⟨cache, hcache, h⟩ := Option.bind_eq_some_iff.1 h
    obtain ⟨cacheCapacity, hcapacity, h⟩ := Option.bind_eq_some_iff.1 h
    obtain ⟨maxCascadeEntries, hentries, h⟩ := Option.bind_eq_some_iff.1 h
    cases h
    have hvalues := exists_of_mem_of_fields? hfields
    have hlanguages := readsBack_textMap.read_of_field? hvalues rfl hlanguages
    have hcache := readsBack_flag.read_of_field? hvalues rfl hcache
    have hcapacity := readsBack_count.read_of_field? hvalues rfl hcapacity
    have hentries := readsBack_count.read_of_field? hvalues rfl hentries
    have hwritten : (ofValue (toValue ⟨languages, cache, cacheCapacity, maxCascadeEntries⟩)).fields?
        dialect shape = some _ := fields?_object (by decide) (List.Sublist.refl _)
    unfold read?
    rw [hwritten, Option.bind_eq_bind, Option.bind_some]
    refine Option.bind_eq_some_iff.2 ⟨languages, field?_written hlanguages rfl, ?_⟩
    refine Option.bind_eq_some_iff.2 ⟨cache, field?_written hcache rfl, ?_⟩
    refine Option.bind_eq_some_iff.2 ⟨cacheCapacity, field?_written hcapacity rfl, ?_⟩
    exact Option.bind_eq_some_iff.2 ⟨maxCascadeEntries, field?_written hentries rfl, rfl⟩
  ne_null := fun _ _ => Value.noConfusion

theorem Document.readsBack : ReadsBack (Document.read? dialect) Document.toValue where
  read_write := by
    intro v d h
    obtain ⟨fields, hfields, h⟩ := Option.bind_eq_some_iff.1 h
    obtain ⟨schema, hschema, h⟩ := Option.bind_eq_some_iff.1 h
    obtain ⟨fragments, hfragments, h⟩ := Option.bind_eq_some_iff.1 h
    obtain ⟨ruleSets, hruleSets, h⟩ := Option.bind_eq_some_iff.1 h
    obtain ⟨ignores, hignores, h⟩ := Option.bind_eq_some_iff.1 h
    obtain ⟨aliases, haliases, h⟩ := Option.bind_eq_some_iff.1 h
    obtain ⟨options, hoptions, h⟩ := Option.bind_eq_some_iff.1 h
    cases h
    have hvalues := exists_of_mem_of_fields? hfields
    have hfragments := readsBack_declarations.read_of_field? hvalues rfl hfragments
    have hruleSets := readsBack_ruleSets.read_of_field? hvalues rfl hruleSets
    have hignores := readsBack_texts.read_of_field? hvalues rfl hignores
    have haliases := readsBack_textMap.read_of_field? hvalues rfl haliases
    have hoptions := EngineOptions.readsBack.read_of_field? hvalues rfl hoptions
    refine Option.bind_eq_some_iff.2 ⟨_, fields?_object (by decide) ?_, ?_⟩
    · simp only [Entries.keys_append]
      exact ((Fields.keys_optional_sublist.append (List.Sublist.refl _)).append
        Fields.keys_optional_sublist).append (List.Sublist.refl _)
    refine Option.bind_eq_some_iff.2
      ⟨schema, readsBack_text.optionalField? hvalues hschema ?_, ?_⟩
    · simp [Entries.find?_append, Entries.find?]
    refine Option.bind_eq_some_iff.2 ⟨fragments, field?_written hfragments ?_, ?_⟩
    · simp [Entries.find?_append, Entries.find?]
    refine Option.bind_eq_some_iff.2 ⟨ruleSets, field?_written hruleSets ?_, ?_⟩
    · simp [Entries.find?_append, Entries.find?]
    refine Option.bind_eq_some_iff.2 ⟨ignores, ?_, ?_⟩
    -- no entries are not written, and are what a missing field is read as
    · cases ignores with
      | nil => exact field?_omitted (by simp [Entries.find?_append, Entries.find?])
      | cons first others =>
        exact field?_written hignores (by simp [Entries.find?_append, Entries.find?])
    refine Option.bind_eq_some_iff.2 ⟨aliases, field?_written haliases ?_, ?_⟩
    · simp [Entries.find?_append, Entries.find?]
    refine Option.bind_eq_some_iff.2 ⟨options, field?_written hoptions ?_, rfl⟩
    simp [Entries.find?_append, Entries.find?]
  ne_null := fun _ _ => Value.noConfusion

/-- A document that was read from a value, in whatever form, is written as a value that is read as
    the same document. Whatever that value is read as is written as it was. -/
theorem Document.ofValue?_toValue {v : Value} {d : Document} (h : Document.ofValue? v = some d) :
    Document.ofValue? d.toValue = some d ∧
    ∀ again, Document.ofValue? d.toValue = some again → again.toValue = d.toValue := by
  have hread : Document.ofValue? d.toValue = some d := Document.readsBack.read_write h
  refine ⟨hread, ?_⟩
  intro again hagain
  rw [hread] at hagain
  cases hagain
  rfl

/-- The document, its fragment and its options are written as lists of their fields, some of which
    are null and some missing. -/
def listedForm : Value :=
  .array [.null,
    .array [.array [.string "base", .null, .array [], .null, .array [.string "kit"],
      .object [("z", .array [.string "warn", .object [("b", .null), ("a", .number (.float 0))]]),
        ("a", .null)], .null]],
    .object [("kit", .array [.object [("sharedOptions", .object [("y", .null)])]])],
    .array [], .object [], .array [.object [(".ts", .string "")], .bool false]]

/-- The same document, as it is held. -/
def listedDocument : Document where
  fragments := [{ name := some "base", ignores := some [], bases := some ["kit"]
                  rules := some (.ofList [
                    ("z", .array [.string "warn",
                      .object [("b", .null), ("a", .number (.float 0))]]),
                    ("a", .null)]) }]
  ruleSets := .ofList [("kit", [{ sharedOptions := some (.object [("y", .null)]) }])]
  options := { languages := .ofList [(".ts", "")], cache := false }

theorem Document.ofValue?_toValue_listed :
    Document.ofValue? listedForm = some listedDocument ∧
    Document.ofValue? listedDocument.toValue = some listedDocument ∧
    ∀ again, Document.ofValue? listedDocument.toValue = some again →
      again.toValue = listedDocument.toValue := by
  have hlisted : Document.ofValue? listedForm = some listedDocument := rfl
  exact ⟨hlisted, Document.ofValue?_toValue hlisted⟩

end RuleCascade
