import RuleCascade.Proofs.LayeredOptions

/-! # Options that have settled

    What is taken into shared options is first made distinct. `Settled` is the
    invariant behind this: a value whose objects do not repeat a key, and in
    which nothing is left to be dropped. Every value that is put in is settled,
    layering on a settled value leaves a settled value, and so merged objects
    are settled at every depth.

    Items are compared with `Value.same`, under which a value is equal to
    itself only if its objects do not repeat a key. Settled values are.

    Main statement: `settled_mergeAll`.
-/

namespace RuleCascade

/-! ## Section 1: Values and themselves -/

namespace Value

theorem itemsWellFormed_iff {items : List Value} :
    ItemsWellFormed items ↔ ∀ v ∈ items, v.WellFormed := by
  induction items with
  | nil => simp [ItemsWellFormed]
  | cons v items ih => simp [ItemsWellFormed, ih]

/-- An object is well formed if its keys do not repeat and its values are well formed. -/
theorem wellFormed_object_iff {fields : Fields} :
    (Value.object fields).WellFormed ↔
      (Entries.keys fields).Nodup ∧ ∀ entry ∈ fields, entry.2.WellFormed := by
  rw [WellFormed, SharedOptions.fieldsWellFormed_iff]

theorem sameItems_self {items : List Value} (h : ∀ v ∈ items, v.same v = true) :
    sameItems items items = true := by
  induction items with
  | nil => rfl
  | cons v items ih =>
    obtain ⟨hv, hitems⟩ := List.forall_mem_cons.1 h
    rw [sameItems, hv, ih hitems]
    rfl

/-- Fields that are found among others are equal to what is found. -/
theorem sameFields_of_find? {fields others : Fields}
    (hfind : ∀ entry ∈ fields, Entries.find? entry.1 others = some entry.2)
    (h : ∀ entry ∈ fields, entry.2.same entry.2 = true) : sameFields fields others = true := by
  induction fields with
  | nil => rfl
  | cons entry fields ih =>
    obtain ⟨hentry, hfields⟩ := List.forall_mem_cons.1 h
    obtain ⟨hfound, hothers⟩ := List.forall_mem_cons.1 hfind
    rw [sameFields, hfound, ih hothers hfields]
    simpa using hentry

theorem same_self {v : Value} (h : v.WellFormed) : v.same v = true := by
  induction v using SharedOptions.unrepeated.induct with
  | case1 items ih =>
    rw [WellFormed, itemsWellFormed_iff] at h
    rw [same]
    exact sameItems_self fun v hv => ih v hv (h v hv)
  | case2 fields ih =>
    obtain ⟨hnodup, hvalues⟩ := wellFormed_object_iff.1 h
    rw [same, beq_self_eq_true, Bool.true_and]
    apply sameFields_of_find?
    · intro entry hentry
      exact (Entries.find?_eq_some_iff hnodup).2 hentry
    · intro entry hentry
      exact ih entry hentry (hvalues entry hentry)
  | case3 v harray hobject =>
    cases v with
    | array items => exact absurd rfl (harray items)
    | object fields => exact absurd rfl (hobject fields)
    | null => rfl
    | bool | number | string => simp [same]

end Value

/-! ## Section 2: The invariant -/

namespace SharedOptions

/-- The value has nothing left in it to be dropped. -/
structure Settled (v : Value) : Prop where
  wellFormed : v.WellFormed
  distinct_eq : distinct v = v

theorem settled_array_nil : Settled (.array []) := ⟨trivial, rfl⟩

theorem settled_of_not_collection {v : Value} (harray : v.items? = none)
    (hobject : v.fields? = none) : Settled v := by
  cases v with
  | array items => cases harray
  | object fields => cases hobject
  | null | bool | number | string => exact ⟨trivial, rfl⟩

/-- An item that an array does not hold yet can be put behind the others. -/
theorem Settled.concat {items : List Value} (h : Settled (.array items)) {v : Value}
    (hv : Settled v) (hnew : ¬ v.isIn items = true) : Settled (.array (items ++ [v])) := by
  refine ⟨?_, ?_⟩
  · have hitems := Value.itemsWellFormed_iff.1 h.wellFormed
    refine Value.itemsWellFormed_iff.2 (List.forall_mem_append.2 ⟨hitems, ?_⟩)
    exact List.forall_mem_singleton.2 hv.wellFormed
  · have hitems : append [] items = items := Value.array.inj h.distinct_eq
    rw [distinct, append_append, hitems, append, hv.distinct_eq, if_neg hnew]
    rfl

theorem Settled.append {done items : List Value} (h : Settled (.array done))
    (hitems : ∀ v ∈ items, Settled (distinct v)) : Settled (.array (append done items)) := by
  induction items generalizing done with
  | nil => exact h
  | cons v items ih =>
    obtain ⟨hv, hothers⟩ := List.forall_mem_cons.1 hitems
    rw [SharedOptions.append]
    refine ih ?_ hothers
    split
    · exact h
    · rename_i hnew
      exact h.concat hv hnew

theorem settled_object_iff {fields : Fields} :
    Settled (.object fields) ↔
      (Entries.keys fields).Nodup ∧ ∀ entry ∈ fields, Settled entry.2 := by
  have hdistinct : distinct (.object fields) = .object fields ↔
      ∀ entry ∈ fields, distinct entry.2 = entry.2 := by
    rw [distinct, Value.object.injEq]
    induction fields with
    | nil => simp [distinctFields]
    | cons entry fields ih =>
      rw [distinctFields, List.cons.injEq, ih, List.forall_mem_cons, Prod.ext_iff]
      simp
  constructor
  · intro h
    obtain ⟨hnodup, hvalues⟩ := Value.wellFormed_object_iff.1 h.wellFormed
    refine ⟨hnodup, ?_⟩
    intro entry hentry
    exact ⟨hvalues entry hentry, hdistinct.1 h.distinct_eq entry hentry⟩
  · rintro ⟨hnodup, hvalues⟩
    refine ⟨Value.wellFormed_object_iff.2 ⟨hnodup, ?_⟩, hdistinct.2 ?_⟩
    · intro entry hentry
      exact (hvalues entry hentry).wellFormed
    · intro entry hentry
      exact (hvalues entry hentry).distinct_eq

theorem settled_object_nil : Settled (.object []) :=
  settled_object_iff.2 ⟨List.nodup_nil, by simp⟩

theorem keys_distinctFields (fields : Fields) :
    Entries.keys (distinctFields fields) = Entries.keys fields := by
  rw [distinctFields_eq_map, Entries.keys, Entries.keys, List.map_map]
  rfl

/-- Whatever is taken in is settled. -/
theorem settled_distinct {v : Value} (h : v.WellFormed) : Settled (distinct v) := by
  induction v using unrepeated.induct with
  | case1 items ih =>
    rw [Value.WellFormed, Value.itemsWellFormed_iff] at h
    rw [distinct]
    exact settled_array_nil.append fun v hv => ih v hv (h v hv)
  | case2 fields ih =>
    obtain ⟨hnodup, hvalues⟩ := Value.wellFormed_object_iff.1 h
    rw [distinct, settled_object_iff, keys_distinctFields, distinctFields_eq_map]
    refine ⟨hnodup, ?_⟩
    intro entry hentry
    obtain ⟨old, hold, rfl⟩ := List.mem_map.1 hentry
    exact ih old hold (hvalues old hold)
  | case3 v harray hobject =>
    have hitems := Value.items?_eq_none harray
    have hfields := Value.fields?_eq_none hobject
    have hsame : distinct v = v := layer_other none hitems hfields
    rw [hsame]
    exact settled_of_not_collection hitems hfields

/-! ## Section 3: Merging keeps it -/

theorem settled_of_find? {fields : Fields} (h : Settled (.object fields)) (key : String) :
    ∀ v ∈ Entries.find? key fields, Settled v := by
  intro v hv
  exact (settled_object_iff.1 h).2 _ (Entries.mem_of_find? hv)

/-- Merging keeps the invariant if layering does so for the values that are merged in. -/
theorem Settled.merge {fields later : Fields} (h : Settled (.object fields))
    (hlayer : ∀ entry ∈ later, ∀ present : Option Value, (∀ v ∈ present, Settled v) →
      Settled (layer present entry.2)) : Settled (.object (merge fields later)) := by
  induction later generalizing fields with
  | nil =>
    rw [SharedOptions.merge]
    exact h
  | cons entry later ih =>
    obtain ⟨hentry, hothers⟩ := List.forall_mem_cons.1 hlayer
    have hvalue := hentry (Entries.find? entry.1 fields) (settled_of_find? h entry.1)
    obtain ⟨hnodup, hvalues⟩ := settled_object_iff.1 h
    rw [merge_cons]
    refine ih (settled_object_iff.2 ⟨Entries.nodup_keys_insert _ _ hnodup, ?_⟩) hothers
    intro other hother
    rcases Entries.mem_insert hother with rfl | hold
    · exact hvalue
    · exact hvalues other hold

/-- Layering on what is settled leaves something settled. -/
theorem settled_layer {present : Option Value} (hpresent : ∀ v ∈ present, Settled v) {v : Value}
    (h : v.WellFormed) : Settled (layer present v) := by
  induction v using unrepeated.induct generalizing present with
  | case1 items ih =>
    have hitems := Value.itemsWellFormed_iff.1 h
    have hstart : Settled (.array ((present.bind Value.items?).getD [])) := by
      cases present with
      | none => exact settled_array_nil
      | some found =>
        cases found with
        | array held => exact hpresent _ rfl
        | null | bool | number | string | object => exact settled_array_nil
    rw [layer_array]
    exact hstart.append fun v hv => settled_distinct (hitems v hv)
  | case2 fields ih =>
    obtain ⟨hnodup, hvalues⟩ := Value.wellFormed_object_iff.1 h
    have hstart : Settled (.object ((present.bind Value.fields?).getD [])) := by
      cases present with
      | none => exact settled_object_nil
      | some found =>
        cases found with
        | object held => exact hpresent _ rfl
        | null | bool | number | string | array => exact settled_object_nil
    rw [layer_object present hnodup]
    exact hstart.merge fun entry hentry _ hfound => ih entry hentry hfound (hvalues entry hentry)
  | case3 v harray hobject =>
    have hitems := Value.items?_eq_none harray
    have hfields := Value.fields?_eq_none hobject
    rw [layer_other present hitems hfields]
    exact settled_of_not_collection hitems hfields

/-- Merging an object into a settled one leaves a settled one. -/
theorem Settled.merge_of_wellFormed {fields later : Fields} (h : Settled (.object fields))
    (hlater : (Value.object later).WellFormed) :
    Settled (.object (SharedOptions.merge fields later)) := by
  obtain ⟨_, hvalues⟩ := Value.wellFormed_object_iff.1 hlater
  exact h.merge fun entry hentry _ hpresent => settled_layer hpresent (hvalues entry hentry)

/-- Objects that are merged from nothing are settled at every depth. -/
theorem settled_mergeAll {objects : List Fields}
    (h : ∀ fields ∈ objects, (Value.object fields).WellFormed) :
    Settled (.object (mergeAll objects)) := by
  refine List.foldlRecOn (motive := fun fields => Settled (.object fields)) objects merge
    settled_object_nil ?_
  intro fields hfields later hlater
  exact hfields.merge_of_wellFormed (h later hlater)

/-- Nothing is lost when a settled object is taken in again. -/
theorem Settled.merge_nil {fields : Fields} (h : Settled (.object fields)) :
    SharedOptions.merge [] fields = fields := by
  obtain ⟨hnodup, _⟩ := settled_object_iff.1 h
  have hfields : distinctFields fields = fields := Value.object.inj h.distinct_eq
  rw [merge_of_notMem hnodup (by simp), hfields, List.nil_append]

end SharedOptions

end RuleCascade
