import RuleCascade.Document
import RuleCascade.Proofs.LoadedFragments

/-! # What is written is read back

    A reader takes data apart, and a writer makes a value. They fit each other
    if whatever was read from a value comes out again when it is written and
    read once more (`ReadsBack`). The law holds of texts, counts and truth
    values, and passes from the items of a list to the list, from the entries of
    a map to the map, and from the fields of a record to the record.

    Reading any value is not the identity: a repeated key loses its earlier
    values. What is left repeats no key, at any depth, so a second reading
    leaves it alone (`readsItself_of_toValue?`).

    A field that may be absent takes null for its absence. The law therefore
    also says that nothing is written as null that was not read from it.
-/

namespace RuleCascade.Datum

/-! ## Section 1: Any value -/

theorem ofItems_eq_map (items : List Value) : ofItems items = items.map ofValue := by
  induction items with
  | nil => rfl
  | cons v items ih => rw [ofItems, ih]; rfl

theorem ofFields_eq_map (fields : Fields) :
    ofFields fields = fields.map fun entry => (some entry.1, ofValue entry.2) := by
  induction fields with
  | nil => rfl
  | cons entry fields ih => rw [ofFields, ih]; rfl

/-- The value is read as it is. -/
def ReadsItself (v : Value) : Prop := (ofValue v).toValue? = some v

theorem toItems?_cons_eq_some_iff {d : Datum} {items : List Datum} {read : List Value} :
    toItems? (d :: items) = some read ↔
      ∃ v rest, d.toValue? = some v ∧ toItems? items = some rest ∧ read = v :: rest := by
  rw [toItems?]
  cases d.toValue? with
  | none => simp
  | some v => cases toItems? items <;> simp [eq_comm]

theorem toFields?_cons_eq_some_iff {key : String} {d : Datum} {done read : Fields}
    {fields : List (Option String × Datum)} :
    toFields? done ((some key, d) :: fields) = some read ↔
      ∃ v, d.toValue? = some v ∧ toFields? (Entries.insert key v done) fields = some read := by
  cases hd : d.toValue? with
  | none => simp [toFields?, hd]
  | some v => simp [toFields?, hd]

theorem toItems?_of_readsItself {items : List Value} (h : ∀ v ∈ items, ReadsItself v) :
    toItems? (ofItems items) = some items := by
  induction items with
  | nil => rfl
  | cons v items ih =>
    obtain ⟨hv, hitems⟩ := List.forall_mem_cons.1 h
    exact toItems?_cons_eq_some_iff.2 ⟨v, items, hv, ih hitems, rfl⟩

/-- Fields with new keys go behind those that were read before. -/
theorem toFields?_of_readsItself {fields : Fields} (done : Fields)
    (h : ∀ entry ∈ fields, ReadsItself entry.2)
    (hnodup : (Entries.keys (done ++ fields)).Nodup) :
    toFields? done (ofFields fields) = some (done ++ fields) := by
  induction fields generalizing done with
  | nil => rw [List.append_nil]; rfl
  | cons entry fields ih =>
    obtain ⟨hentry, hfields⟩ := List.forall_mem_cons.1 h
    have hnew : entry.1 ∉ Entries.keys done := by
      intro hmem
      rw [Entries.keys_append] at hnodup
      exact (List.nodup_append.1 hnodup).2.2 _ hmem _ List.mem_cons_self rfl
    rw [List.append_cons] at hnodup ⊢
    refine toFields?_cons_eq_some_iff.2 ⟨entry.2, hentry, ?_⟩
    rw [Entries.insert_of_notMem hnew]
    exact ih _ hfields hnodup

mutual

/-- What was read repeats no key, so that it is read as it is from then on. -/
theorem readsItself_of_toValue? : ∀ {v w : Value}, (ofValue v).toValue? = some w → ReadsItself w
  | .null, _, h => by cases h; rfl
  | .bool b, _, h => by cases h; rfl
  | .number n, _, h => by cases h; rfl
  | .string s, _, h => by cases h; rfl
  | .array items, _, h => by
    obtain ⟨read, hread, rfl⟩ := Option.map_eq_some_iff.1 h
    have hitems := readsItself_of_toItems? hread
    show (toItems? (ofItems read)).map Value.array = some (.array read)
    rw [toItems?_of_readsItself hitems]
    rfl
  | .object fields, _, h => by
    obtain ⟨read, hread, rfl⟩ := Option.map_eq_some_iff.1 h
    obtain ⟨hnodup, hfields⟩ :=
      readsItself_of_toFields? (by simp) (List.forall_mem_nil _) hread
    show (toFields? [] (ofFields read)).map Value.object = some (.object read)
    rw [toFields?_of_readsItself [] hfields hnodup]
    rfl

theorem readsItself_of_toItems? : ∀ {items read : List Value},
    toItems? (ofItems items) = some read → ∀ w ∈ read, ReadsItself w
  | [], _, h => by cases h; exact List.forall_mem_nil _
  | v :: items, _, h => by
    obtain ⟨w, rest, hv, hitems, rfl⟩ := toItems?_cons_eq_some_iff.1 h
    exact List.forall_mem_cons.2 ⟨readsItself_of_toValue? hv, readsItself_of_toItems? hitems⟩

theorem readsItself_of_toFields? : ∀ {fields done read : Fields}, (Entries.keys done).Nodup →
    (∀ entry ∈ done, ReadsItself entry.2) → toFields? done (ofFields fields) = some read →
    (Entries.keys read).Nodup ∧ ∀ entry ∈ read, ReadsItself entry.2
  | [], _, _, hnodup, hdone, h => by cases h; exact ⟨hnodup, hdone⟩
  | (key, v) :: fields, _, _, hnodup, hdone, h => by
    obtain ⟨w, hv, hfields⟩ := toFields?_cons_eq_some_iff.1 h
    refine readsItself_of_toFields? (Entries.nodup_keys_insert _ _ hnodup) ?_ hfields
    intro entry hentry
    rcases Entries.mem_insert hentry with rfl | hold
    · exact readsItself_of_toValue? hv
    · exact hdone entry hold

end

/-! ## Section 2: Readers and writers -/

variable {α : Type} {read : Datum → Option α} {write : α → Value}

/-- Whatever was read from a value is read again from what it is written as, which is null only
    for what was read from null. -/
structure ReadsBack (read : Datum → Option α) (write : α → Value) : Prop where
  read_write : ∀ {v a}, read (ofValue v) = some a → read (ofValue (write a)) = some a
  ne_null : ∀ {v a}, read (ofValue v) = some a → v ≠ .null → write a ≠ .null

/-- A writer that is undone by the reader, and never writes null. -/
theorem readsBack_of_forall (h : ∀ a, read (ofValue (write a)) = some a)
    (hnull : ∀ a, write a ≠ .null) : ReadsBack read write :=
  ⟨fun _ => h _, fun _ _ => hnull _⟩

theorem readsBack_text : ReadsBack text? .string :=
  readsBack_of_forall (fun _ => rfl) (fun _ => Value.noConfusion)

theorem readsBack_flag : ReadsBack flag? .bool :=
  readsBack_of_forall (fun _ => rfl) (fun _ => Value.noConfusion)

theorem readsBack_count : ReadsBack count? .ofCount := by
  refine readsBack_of_forall ?_ (fun _ => Value.noConfusion)
  intro n
  show Number.toUInt64? (.int (.ofNat n.toNat)) = some n
  rw [Number.toUInt64?, if_pos n.toNat_lt_size, UInt64.ofNat_toNat]

theorem readsBack_value : ReadsBack toValue? id where
  read_write := readsItself_of_toValue?
  ne_null := by
    intro v w h hnull
    cases v with
    | null => exact absurd rfl hnull
    | bool | number | string =>
      cases h
      exact Value.noConfusion
    | array | object =>
      obtain ⟨_, _, rfl⟩ := Option.map_eq_some_iff.1 h
      exact Value.noConfusion

/-! ## Section 3: Lists and maps -/

theorem exists_of_mem_of_mapM {β : Type} {f : β → Option α} {items : List β} {results : List α}
    (h : items.mapM f = some results) : ∀ a ∈ results, ∃ item ∈ items, f item = some a := by
  induction items generalizing results with
  | nil =>
    rw [List.mapM_nil] at h
    cases h
    exact List.forall_mem_nil _
  | cons item rest ih =>
    rw [List.mapM_cons] at h
    obtain ⟨first, hfirst, h⟩ := Option.bind_eq_some_iff.1 h
    obtain ⟨others, hothers, h⟩ := Option.bind_eq_some_iff.1 h
    cases h
    refine List.forall_mem_cons.2 ⟨⟨item, List.mem_cons_self, hfirst⟩, ?_⟩
    intro a ha
    obtain ⟨found, hfound, hread⟩ := ih hothers a ha
    exact ⟨found, List.mem_cons_of_mem _ hfound, hread⟩

theorem mapM_map_eq_some {β : Type} {f : β → Option α} {g : α → β} {items : List α}
    (h : ∀ a ∈ items, f (g a) = some a) : (items.map g).mapM f = some items := by
  induction items with
  | nil => rfl
  | cons a items ih =>
    obtain ⟨ha, hitems⟩ := List.forall_mem_cons.1 h
    rw [List.map_cons, List.mapM_cons, ha, ih hitems]
    rfl

theorem exists_of_mem_of_list? {v : Value} {items : List α}
    (h : list? read (ofValue v) = some items) : ∀ a ∈ items, ∃ w, read (ofValue w) = some a := by
  cases v with
  | null | bool | number | string | object => cases h
  | array values =>
    change (ofItems values).mapM read = some items at h
    rw [ofItems_eq_map] at h
    intro a ha
    obtain ⟨d, hd, hread⟩ := exists_of_mem_of_mapM h a ha
    obtain ⟨w, _, rfl⟩ := List.mem_map.1 hd
    exact ⟨w, hread⟩

/-- A list reads back if its items do. -/
theorem ReadsBack.list (h : ReadsBack read write) :
    ReadsBack (list? read) fun items => .array (items.map write) where
  read_write := by
    intro v items hitems
    show (ofItems (items.map write)).mapM read = some items
    rw [ofItems_eq_map, List.map_map]
    apply mapM_map_eq_some
    intro a ha
    obtain ⟨w, hw⟩ := exists_of_mem_of_list? hitems a ha
    exact h.read_write hw
  ne_null := fun _ _ => Value.noConfusion

theorem exists_of_mem_of_map? {v : Value} {m : OrderedMap String α}
    (h : map? read (ofValue v) = some m) :
    ∀ entry ∈ m.entries, ∃ w, read (ofValue w) = some entry.2 := by
  cases v with
  | null | bool | number | string | array => cases h
  | object fields =>
    obtain ⟨pairs, hpairs, rfl⟩ := Option.map_eq_some_iff.1 h
    intro entry hentry
    -- an entry of the map is one of those that were read, be it the last with its key
    have hmem : entry ∈ pairs := (OrderedMap.mem_insertAll hentry).resolve_right List.not_mem_nil
    rw [ofFields_eq_map] at hpairs
    obtain ⟨field, hfield, hread⟩ := exists_of_mem_of_mapM hpairs entry hmem
    obtain ⟨source, _, rfl⟩ := List.mem_map.1 hfield
    unfold pair? at hread
    split at hread
    · rename_i key value _ hvalue
      cases hread
      exact ⟨source.2, hvalue⟩
    · cases hread

/-- A map reads back if its values do. -/
theorem ReadsBack.map (h : ReadsBack read write) :
    ReadsBack (map? read) fun m =>
      .object (m.entries.map fun entry => (entry.1, write entry.2)) where
  read_write := by
    intro v m hm
    show ((ofFields _).mapM (pair? read)).map OrderedMap.ofList = some m
    rw [ofFields_eq_map, List.map_map, mapM_map_eq_some]
    · exact congrArg some (OrderedMap.ext (OrderedMap.entries_ofList m.nodup_keys))
    · intro entry hentry
      obtain ⟨w, hw⟩ := exists_of_mem_of_map? hm entry hentry
      show pair? read (some entry.1, ofValue (write entry.2)) = some entry
      rw [pair?, h.read_write hw]
  ne_null := fun _ _ => Value.noConfusion

/-! ## Section 4: Records -/

variable {dialect : Dialect} {shape : Shape}

/-- The fields are read as they stand in an object. -/
theorem knownFields?_ofFields {fields : Fields} {seen : List String}
    (hnames : ∀ key ∈ Entries.keys fields, key ∈ shape.names)
    (hnodup : (Entries.keys fields).Nodup) (hseen : ∀ key ∈ Entries.keys fields, key ∉ seen) :
    knownFields? dialect shape seen (ofFields fields) =
      some (fields.map (Prod.map id ofValue)) := by
  induction fields generalizing seen with
  | nil => rfl
  | cons entry fields ih =>
    obtain ⟨hname, hnames⟩ := List.forall_mem_cons.1 hnames
    obtain ⟨hfresh, hseen⟩ := List.forall_mem_cons.1 hseen
    obtain ⟨hnew, hnodup⟩ := List.nodup_cons.1 hnodup
    have hlater : ∀ key ∈ Entries.keys fields, key ∉ entry.1 :: seen := by
      intro key hkey hmem
      rcases List.mem_cons.1 hmem with rfl | hold
      · exact hnew hkey
      · exact hseen key hkey hold
    rw [ofFields, knownFields?, if_pos hname, if_neg hfresh, ih hnames hnodup hlater]
    rfl

/-- An object whose keys come in the order of the shape, each at most once, is read field by
    field. -/
theorem fields?_object {fields : Fields} (hshape : shape.names.Nodup)
    (h : (Entries.keys fields).Sublist shape.names) :
    (ofValue (.object fields)).fields? dialect shape = some (fields.map (Prod.map id ofValue)) :=
  knownFields?_ofFields (fun _ hkey => h.subset hkey) (h.nodup hshape)
    fun _ _ => List.not_mem_nil

theorem mem_of_knownFields? {seen : List String} {fields : List (Option String × Datum)}
    {known : List (String × Datum)} (h : knownFields? dialect shape seen fields = some known) :
    ∀ entry ∈ known, (some entry.1, entry.2) ∈ fields := by
  fun_induction knownFields? dialect shape seen fields generalizing known with
  | case1 =>
    cases h
    exact List.forall_mem_nil _
  | case2 | case3 | case5 | case7 => cases h
  | case4 seen key d fields hname hfresh ih =>
    obtain ⟨rest, hrest, rfl⟩ := Option.map_eq_some_iff.1 h
    refine List.forall_mem_cons.2 ⟨List.mem_cons_self, ?_⟩
    intro entry hentry
    exact List.mem_cons_of_mem _ (ih hrest entry hentry)
  | case6 seen key d fields hname hclosed hpassed ih =>
    intro entry hentry
    exact List.mem_cons_of_mem _ (ih h entry hentry)

theorem mem_of_listFields? {items : List Datum} {known : List (String × Datum)}
    (h : listFields? dialect shape items = some known) : ∀ entry ∈ known, entry.2 ∈ items := by
  have hzip : known = shape.names.zip items := by
    unfold listFields? at h
    split at h
    · cases h
    split at h
    · cases h
    · split at h
      · cases h
      · exact (Option.some.inj h).symm
    · exact (Option.some.inj h).symm
  rw [hzip]
  rintro ⟨name, d⟩ hmem
  exact (List.of_mem_zip hmem).2

/-- The fields of a value are values, whether it is an object or an array. -/
theorem exists_of_mem_of_fields? {v : Value} {fields : List (String × Datum)}
    (h : (ofValue v).fields? dialect shape = some fields) :
    ∀ entry ∈ fields, ∃ w, entry.2 = ofValue w := by
  intro entry hentry
  cases v with
  | null | bool | number | string => cases h
  | array items =>
    have hmem := mem_of_listFields? h entry hentry
    rw [ofItems_eq_map] at hmem
    obtain ⟨w, _, hw⟩ := List.mem_map.1 hmem
    exact ⟨w, hw.symm⟩
  | object declared =>
    have hmem := mem_of_knownFields? h entry hentry
    rw [ofFields_eq_map] at hmem
    obtain ⟨source, _, heq⟩ := List.mem_map.1 hmem
    exact ⟨source.2, (congrArg Prod.snd heq).symm⟩

/-! ## Section 5: Fields -/

theorem optional?_of_ne_null {v : Value} (h : v ≠ .null) :
    optional? read (ofValue v) = (read (ofValue v)).map some := by
  cases v with
  | null => exact absurd rfl h
  | bool | number | string | array | object => rfl

section

variable {fields : List (String × Datum)} {written : Fields} {name : String}

/-- An optional field reads back if it is written when it is there, and left out when it is not. -/
theorem ReadsBack.optionalField? (h : ReadsBack read write)
    (hvalues : ∀ entry ∈ fields, ∃ w, entry.2 = ofValue w) {a? : Option α}
    (hread : Datum.optionalField? fields name read = some a?)
    (hwritten : Entries.find? name written = a?.map write) :
    Datum.optionalField? (written.map (Prod.map id ofValue)) name read = some a? := by
  unfold Datum.optionalField?
  rw [Entries.find?_map, hwritten]
  cases a? with
  | none => rfl
  | some a =>
    -- it was read from a value, and that was not null
    unfold Datum.optionalField? at hread
    split at hread
    · cases hread
    rename_i d hfind
    obtain ⟨w, rfl⟩ := hvalues _ (Entries.mem_of_find? hfind)
    have hnull : w ≠ .null := by
      rintro rfl
      cases hread
    rw [optional?_of_ne_null hnull] at hread
    obtain ⟨_, hread, heq⟩ := Option.map_eq_some_iff.1 hread
    cases heq
    show optional? read (ofValue (write a)) = some (some a)
    rw [optional?_of_ne_null (h.ne_null hread hnull), h.read_write hread]
    rfl

/-- What a field with a default was read as is read again, if the default is. -/
theorem ReadsBack.read_of_field? (h : ReadsBack read write)
    (hvalues : ∀ entry ∈ fields, ∃ w, entry.2 = ofValue w) {default a : α}
    (hdefault : read (ofValue (write default)) = some default)
    (hread : Datum.field? fields name read default = some a) :
    read (ofValue (write a)) = some a := by
  unfold Datum.field? at hread
  split at hread
  · cases hread
    exact hdefault
  · rename_i d hfind
    obtain ⟨w, rfl⟩ := hvalues _ (Entries.mem_of_find? hfind)
    exact h.read_write hread

theorem field?_written {default a : α} (hread : read (ofValue (write a)) = some a)
    (hwritten : Entries.find? name written = some (write a)) :
    Datum.field? (written.map (Prod.map id ofValue)) name read default = some a := by
  unfold Datum.field?
  rw [Entries.find?_map, hwritten]
  exact hread

theorem field?_omitted {default : α} (hwritten : Entries.find? name written = none) :
    Datum.field? (written.map (Prod.map id ofValue)) name read default = some default := by
  unfold Datum.field?
  rw [Entries.find?_map, hwritten]
  rfl

end

end RuleCascade.Datum
