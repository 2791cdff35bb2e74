import Mathlib.Data.List.DropRight
import RuleCascade.Configuration

/-! # What layered options come to

    Shared options are merged object by object into what is there already. What
    a key has in the end can be said of the values alone that it was given, in
    order, without the merging:

    * The last value decides the kind. A value of another kind before it starts
      everything anew, so only the final run of values of that kind counts.
    * Arrays of the run are joined. Items lose their own repetitions first, and
      of equal items the first one is kept.
    * Objects of the run are merged, and the same is said of each of their keys.

    Merging works on what is there and has three ways for it: to put a value in,
    to replace one and to add to one. They are brought into one step, `layer`,
    and the run is followed through the steps (`getD_layerAll`), once for arrays
    and objects alike. Below an object the law is used for shorter values, which
    weigh less than the object they are taken out of.

    Main statement: `mergeAll_endValue`.
-/

namespace RuleCascade

/-! ## Section 1: Runs and repetitions -/

/-- The items of an array. -/
def Value.items? : Value → Option (List Value)
  | .array items => some items
  | _ => none

/-- The fields of an object. -/
def Value.fields? : Value → Option Fields
  | .object fields => some fields
  | _ => none

theorem Value.items?_eq_none {v : Value} (h : ∀ items, v = .array items → False) :
    v.items? = none := by
  cases v with
  | array items => exact (h items rfl).elim
  | null | bool | number | string | object => rfl

theorem Value.fields?_eq_none {v : Value} (h : ∀ fields, v = .object fields → False) :
    v.fields? = none := by
  cases v with
  | object fields => exact (h fields rfl).elim
  | null | bool | number | string | array => rfl

namespace SharedOptions

/-- The objects merged one after another into an empty one. -/
def mergeAll (objects : List Fields) : Fields := objects.foldl merge []

/-- The values of a key in the objects that declare it. -/
def declared (key : String) (objects : List Fields) : List Value :=
  objects.filterMap (Entries.find? key)

theorem declared_cons (key : String) (fields : Fields) (objects : List Fields) :
    declared key (fields :: objects) =
      (Entries.find? key fields).toList ++ declared key objects := by
  rw [declared, List.filterMap_cons]
  cases Entries.find? key fields with
  | none => rfl
  | some v => rfl

/-- What the longest final run of values that can be read is read as. -/
def finalRun {α : Type} (read : Value → Option α) (values : List Value) : List α :=
  (values.rtakeWhile fun v => (read v).isSome).filterMap read

/-- The items without those that are equal to an earlier one. -/
def dropRepeats (items : List Value) : List Value :=
  items.eraseDupsBy fun later earlier => earlier.same later

/-- The value with the repeated items dropped from its arrays, from the inside out. -/
def unrepeated : Value → Value
  | .array items => .array (dropRepeats (items.map unrepeated))
  | .object fields => .object (fields.map fun entry => (entry.1, unrepeated entry.2))
  | v => v
decreasing_by
  · rename_i hmem
    have hlt := List.sizeOf_lt_of_mem hmem
    simp only [Value.array.sizeOf_spec]
    omega
  · rename_i hmem
    have hlt := List.sizeOf_lt_of_mem hmem
    have hentry : sizeOf entry = 1 + sizeOf entry.1 + sizeOf entry.2 := rfl
    simp only [Value.object.sizeOf_spec]
    omega

/-! ## Section 2: The law -/

section weights

variable {α β : Type} [SizeOf α] [SizeOf β]

/-- The sum of the sizes. -/
noncomputable def weight : List α → Nat
  | [] => 0
  | item :: items => sizeOf item + weight items

@[simp] theorem weight_nil : weight ([] : List α) = 0 := rfl

@[simp] theorem weight_cons (item : α) (items : List α) :
    weight (item :: items) = sizeOf item + weight items := rfl

@[simp] theorem weight_append (items others : List α) :
    weight (items ++ others) = weight items + weight others := by
  induction items with
  | nil => simp
  | cons item items ih =>
    rw [List.cons_append, weight_cons, weight_cons, ih]
    omega

/-- Taking something out of every item makes the list lighter. -/
theorem weight_filterMap_add_length_le {take : α → Option β}
    (h : ∀ item part, take item = some part → sizeOf part < sizeOf item) (items : List α) :
    weight (items.filterMap take) + (items.filterMap take).length ≤ weight items := by
  induction items with
  | nil => simp
  | cons item items ih =>
    cases htake : take item with
    | none =>
      rw [List.filterMap_cons_none htake, weight_cons]
      omega
    | some part =>
      have hlt := h item part htake
      rw [List.filterMap_cons_some htake, weight_cons, weight_cons, List.length_cons]
      omega

end weights

theorem weight_declared_le (key : String) (objects : List Fields) :
    weight (declared key objects) ≤ weight objects := by
  have hsmaller : ∀ (fields : Fields) (v : Value), Entries.find? key fields = some v →
      sizeOf v < sizeOf fields := by
    intro fields v hfind
    have hlt := List.sizeOf_lt_of_mem (Entries.mem_of_find? hfind)
    have hentry : sizeOf (key, v) = 1 + sizeOf key + sizeOf v := rfl
    omega
  have hweight := weight_filterMap_add_length_le hsmaller objects
  unfold declared
  omega

section running

variable {α : Type} {read : Value → Option α}

theorem finalRun_nil : finalRun read [] = [] := by simp [finalRun]

theorem finalRun_concat_none {v : Value} (h : read v = none) (values : List Value) :
    finalRun read (values ++ [v]) = [] := by
  simp [finalRun, h]

theorem finalRun_concat_some {v : Value} {found : α} (h : read v = some found)
    (values : List Value) : finalRun read (values ++ [v]) = finalRun read values ++ [found] := by
  simp [finalRun, h]

theorem weight_finalRun_le [SizeOf α]
    (h : ∀ v found, read v = some found → sizeOf found < sizeOf v) (values : List Value) :
    weight (finalRun read values) ≤ weight values := by
  have hread := weight_filterMap_add_length_le h (values.rtakeWhile fun v => (read v).isSome)
  obtain ⟨before, hbefore⟩ := List.rtakeWhile_suffix (fun v => (read v).isSome) values
  have hweight := congrArg weight hbefore
  rw [weight_append] at hweight
  unfold finalRun
  omega

end running

theorem weight_finalRun_fields?_lt {values : List Value} {fields : Fields}
    (h : values.getLast? = some (.object fields)) :
    weight (finalRun Value.fields? values) < weight values := by
  obtain ⟨init, rfl⟩ := List.getLast?_eq_some_iff.1 h
  have hsmaller : ∀ (v : Value) (found : Fields), v.fields? = some found →
      sizeOf found < sizeOf v := by
    intro v found hfound
    cases v with
    | object fields =>
      cases hfound
      simp only [Value.object.sizeOf_spec]
      omega
    | null | bool | number | string | array => cases hfound
  have hinit := weight_finalRun_le hsmaller init
  have hlast := hsmaller (.object fields) fields rfl
  have hobject : (Value.object fields).fields? = some fields := rfl
  rw [finalRun_concat_some hobject]
  simp only [weight_append, weight_cons, weight_nil]
  omega

/-- The fields with these keys. -/
def tabulate (keys : List String) (value? : String → Option Value) : Fields :=
  keys.filterMap fun key => (value? key).map (key, ·)

/-- What a key has in the end that was given these values, one after another. -/
def endValue (values : List Value) : Option Value :=
  match _ : values.getLast? with
  | none => none
  | some (.array _) =>
    some (.array (dropRepeats ((finalRun Value.items? values).flatten.map unrepeated)))
  | some (.object _) =>
    let run := finalRun Value.fields? values
    some (.object (tabulate (run.flatMap Entries.keys).eraseDups fun key =>
      endValue (declared key run)))
  | some v => some v
termination_by weight values
decreasing_by exact Nat.lt_of_le_of_lt (weight_declared_le key _) (weight_finalRun_fields?_lt ‹_›)

/-! ## Section 3: Distinct values -/

theorem append_append (done items others : List Value) :
    append done (items ++ others) = append (append done items) others := by
  induction items generalizing done with
  | nil => rfl
  | cons v items ih => exact ih _

theorem foldl_append (done : List Value) (arrays : List (List Value)) :
    arrays.foldl append done = append done arrays.flatten := by
  induction arrays generalizing done with
  | nil => rfl
  | cons items arrays ih => rw [List.foldl_cons, ih, List.flatten_cons, append_append]

theorem append_eq_loop (done items : List Value) :
    append done items = List.eraseDupsBy.loop (fun later earlier => earlier.same later)
      (items.map distinct) done.reverse := by
  induction items generalizing done with
  | nil => simp [append, List.eraseDupsBy.loop]
  | cons v items ih =>
    rw [append, ih, List.map_cons, List.eraseDupsBy.loop, List.any_reverse]
    cases hheld : done.any fun item => item.same (distinct v) with
    | true => simp [Value.isIn, hheld]
    | false => simp [Value.isIn, hheld]

theorem append_nil_eq_dropRepeats (items : List Value) :
    append [] items = dropRepeats (items.map distinct) :=
  append_eq_loop [] items

theorem distinctFields_eq_map (fields : Fields) :
    distinctFields fields = fields.map fun entry => (entry.1, distinct entry.2) := by
  induction fields with
  | nil => rfl
  | cons entry fields ih => rw [distinctFields, ih, List.map_cons]

theorem distinct_eq_unrepeated (v : Value) : distinct v = unrepeated v := by
  fun_induction unrepeated v with
  | case1 items ih => rw [distinct, append_nil_eq_dropRepeats, List.map_congr_left ih]
  | case2 fields ih =>
    rw [distinct, distinctFields_eq_map]
    congr 1
    apply List.map_congr_left
    intro entry hentry
    rw [ih entry hentry]
  | case3 v harray hobject =>
    rw [distinct]
    · exact harray
    · exact hobject

/-! ## Section 4: One value on another -/

/-- The value layered on what is there, if anything is. -/
def layer : Option Value → Value → Value
  | some present, later => mergeValue present later
  | none, later => distinct later

theorem merge_cons (fields : Fields) (key : String) (v : Value) (later : Fields) :
    merge fields ((key, v) :: later) =
      merge (Entries.insert key (layer (Entries.find? key fields) v) fields) later := by
  rw [merge]
  cases Entries.find? key fields with
  | none => rfl
  | some present => rfl

/-- Fields with new keys are put behind the others, in their distinct forms. -/
theorem merge_of_notMem {fields later : Fields} (hnodup : (Entries.keys later).Nodup)
    (h : ∀ key ∈ Entries.keys later, key ∉ Entries.keys fields) :
    merge fields later = fields ++ distinctFields later := by
  induction later generalizing fields with
  | nil => simp [merge, distinctFields]
  | cons entry later ih =>
    obtain ⟨hfirst, hrest⟩ := List.nodup_cons.1 hnodup
    have hkey := h entry.1 List.mem_cons_self
    rw [merge_cons, Entries.find?_eq_none_iff.2 hkey, Entries.insert_of_notMem hkey, ih hrest]
    · simp [distinctFields, layer]
    · intro key hmem hagain
      have hold := h key (List.mem_cons_of_mem _ hmem)
      have hne : key ≠ entry.1 := fun heq => hfirst (heq ▸ hmem)
      simp only [Entries.keys, List.map_append, List.mem_append] at hagain
      rcases hagain with hbefore | hhere
      · exact hold hbefore
      · exact hne (by simpa using hhere)

theorem layer_array (present : Option Value) (items : List Value) :
    layer present (.array items) = .array (append ((present.bind Value.items?).getD []) items) := by
  cases present with
  | none => rfl
  | some present => cases present <;> rfl

theorem layer_object (present : Option Value) {fields : Fields}
    (hnodup : (Entries.keys fields).Nodup) :
    layer present (.object fields) =
      .object (merge ((present.bind Value.fields?).getD []) fields) := by
  have hempty : distinct (.object fields) = .object (merge [] fields) := by
    rw [merge_of_notMem hnodup (by simp)]
    rfl
  cases present with
  | none => exact hempty
  | some present =>
    cases present with
    | object =>
      rw [layer, mergeValue]
      rfl
    | null | bool | number | string | array => exact hempty

theorem layer_other (present : Option Value) {v : Value} (harray : v.items? = none)
    (hobject : v.fields? = none) : layer present v = v := by
  cases v with
  | array items => cases harray
  | object fields => cases hobject
  | null | bool | number | string =>
    cases present with
    | none => rfl
    | some present => cases present <;> rfl

/-! ## Section 5: Values layered one after another -/

/-- The values layered in turn on what is there. -/
def layerAll (present : Option Value) (values : List Value) : Option Value :=
  values.foldl (fun found v => some (layer found v)) present

theorem layerAll_append (present : Option Value) (values others : List Value) :
    layerAll present (values ++ others) = layerAll (layerAll present values) others :=
  List.foldl_append

theorem layerAll_concat (present : Option Value) (values : List Value) (v : Value) :
    layerAll present (values ++ [v]) = some (layer (layerAll present values) v) :=
  layerAll_append present values [v]

theorem find?_merge (key : String) (fields : Fields) {later : Fields}
    (hnodup : (Entries.keys later).Nodup) : Entries.find? key (merge fields later) =
      layerAll (Entries.find? key fields) (Entries.find? key later).toList := by
  induction later generalizing fields with
  | nil =>
    rw [merge]
    rfl
  | cons entry later ih =>
    obtain ⟨hfirst, hrest⟩ := List.nodup_cons.1 hnodup
    rw [merge_cons, ih _ hrest, Entries.find?]
    by_cases hkey : entry.1 = key
    · -- the key does not come again, so this is all that is layered on it
      subst hkey
      rw [Entries.find?_insert_self, Entries.find?_eq_none_iff.2 hfirst, if_pos rfl]
      rfl
    · rw [Entries.find?_insert_of_ne _ _ (Ne.symm hkey), if_neg hkey]

theorem find?_foldl_merge (key : String) (fields : Fields) {objects : List Fields}
    (hnodup : ∀ later ∈ objects, (Entries.keys later).Nodup) :
    Entries.find? key (objects.foldl merge fields) =
      layerAll (Entries.find? key fields) (declared key objects) := by
  induction objects generalizing fields with
  | nil => rfl
  | cons later objects ih =>
    obtain ⟨hlater, hothers⟩ := List.forall_mem_cons.1 hnodup
    rw [List.foldl_cons, ih _ hothers, find?_merge key fields hlater, declared_cons,
      layerAll_append]

section kinds

variable {α : Type} {read : Value → Option (List α)} {join : List α → List α → List α}

/-- What the final run is joined to: what is there, if all the values are of the kind. -/
def runStart (read : Value → Option (List α)) (present : Option Value) (values : List Value) :
    List α :=
  if values.all fun v => (read v).isSome then (present.bind read).getD [] else []

theorem runStart_none (values : List Value) : runStart read none values = [] := ite_self _

theorem runStart_concat_none {v : Value} (h : read v = none) (present : Option Value)
    (values : List Value) : runStart read present (values ++ [v]) = [] := by
  simp [runStart, h]

theorem runStart_concat_some {v : Value} {found : List α} (h : read v = some found)
    (present : Option Value) (values : List Value) :
    runStart read present (values ++ [v]) = runStart read present values := by
  simp [runStart, h]

/-- What the values come to, read as one kind, is joined from the final run of that kind. -/
theorem getD_layerAll {values : List Value}
    (h : ∀ present, ∀ v ∈ values,
      read (layer present v) = (read v).map (join ((present.bind read).getD [])))
    (present : Option Value) :
    ((layerAll present values).bind read).getD [] =
      (finalRun read values).foldl join (runStart read present values) := by
  induction values using List.reverseRecOn with
  | nil =>
    rw [finalRun_nil]
    rfl
  | append_singleton values v ih =>
    have hv := h (layerAll present values) v (by simp)
    have hvalues := ih fun present w hw => h present w (List.mem_append_left _ hw)
    rw [layerAll_concat, Option.bind_some, hv, hvalues]
    cases hread : read v with
    | none =>
      -- a value of another kind ends the run, and nothing of it is left
      rw [finalRun_concat_none hread, runStart_concat_none hread]
      rfl
    | some found =>
      rw [finalRun_concat_some hread, runStart_concat_some hread, List.foldl_concat]
      rfl

/-- Where the last value is of the kind, nothing but the final run counts. -/
theorem layerAll_of_getLast? {make : List α → Value} {values : List Value} {last : List α}
    (hlast : values.getLast? = some (make last)) (hread : read (make last) = some last)
    (hmake : ∀ present, layer present (make last) = make (join ((present.bind read).getD []) last))
    (h : ∀ present, ∀ v ∈ values,
      read (layer present v) = (read v).map (join ((present.bind read).getD [])))
    (present : Option Value) :
    layerAll present values =
      some (make ((finalRun read values).foldl join (runStart read present values))) := by
  obtain ⟨init, rfl⟩ := List.getLast?_eq_some_iff.1 hlast
  have hinit := getD_layerAll (fun present v hv => h present v (List.mem_append_left _ hv)) present
  rw [layerAll_concat, hmake, hinit, finalRun_concat_some hread, runStart_concat_some hread,
    List.foldl_concat]

end kinds

theorem items?_layer (present : Option Value) (v : Value) :
    (layer present v).items? = v.items?.map (append ((present.bind Value.items?).getD [])) := by
  cases v with
  | array items =>
    rw [layer_array]
    rfl
  | object fields =>
    cases present with
    | none => rfl
    | some present => cases present <;> rfl
  | null | bool | number | string =>
    rw [layer_other present rfl rfl]
    rfl

theorem fields?_layer (present : Option Value) {v : Value} (h : v.WellFormed) :
    (layer present v).fields? = v.fields?.map (merge ((present.bind Value.fields?).getD [])) := by
  cases v with
  | object fields =>
    rw [layer_object present h.1]
    rfl
  | array items =>
    rw [layer_array]
    rfl
  | null | bool | number | string =>
    rw [layer_other present rfl rfl]
    rfl

theorem layerAll_array {values : List Value} {items : List Value}
    (h : values.getLast? = some (.array items)) (present : Option Value) :
    layerAll present values = some (.array ((finalRun Value.items? values).foldl append
      (runStart Value.items? present values))) := by
  apply layerAll_of_getLast? h rfl
  · intro present
    exact layer_array present items
  · intro present v _
    exact items?_layer present v

theorem layerAll_object {values : List Value} {fields : Fields}
    (h : values.getLast? = some (.object fields)) (hwf : ∀ v ∈ values, v.WellFormed)
    (present : Option Value) :
    layerAll present values = some (.object ((finalRun Value.fields? values).foldl merge
      (runStart Value.fields? present values))) := by
  have hlast := hwf _ (List.mem_of_getLast? h)
  apply layerAll_of_getLast? h rfl
  · intro present
    exact layer_object present hlast.1
  · intro present v hv
    exact fields?_layer present (hwf v hv)

theorem layerAll_other {values : List Value} {v : Value} (h : values.getLast? = some v)
    (harray : v.items? = none) (hobject : v.fields? = none) (present : Option Value) :
    layerAll present values = some v := by
  obtain ⟨init, rfl⟩ := List.getLast?_eq_some_iff.1 h
  rw [layerAll_concat, layer_other _ harray hobject]

/-! ## Section 6: Objects merged one after another -/

theorem eraseDups_concat {α : Type} [DecidableEq α] (keys : List α) (key : α) :
    (keys ++ [key]).eraseDups = if key ∈ keys then keys.eraseDups else keys.eraseDups ++ [key] := by
  rw [List.eraseDups_append]
  by_cases hkey : key ∈ keys
  · simp [List.removeAll, hkey]
  · simp [List.removeAll, hkey, List.eraseDups_cons]

theorem keys_merge {keys : List String} {fields : Fields}
    (h : Entries.keys fields = keys.eraseDups) (later : Fields) :
    Entries.keys (merge fields later) = (keys ++ Entries.keys later).eraseDups := by
  induction later generalizing keys fields with
  | nil => rw [merge, h, Entries.keys_nil, List.append_nil]
  | cons entry later ih =>
    rw [merge_cons, Entries.keys_cons, List.append_cons]
    apply ih
    rw [Entries.keys_insert, h, eraseDups_concat]
    simp only [List.mem_eraseDups]

theorem keys_foldl_merge {keys : List String} {fields : Fields}
    (h : Entries.keys fields = keys.eraseDups) (objects : List Fields) :
    Entries.keys (objects.foldl merge fields) =
      (keys ++ objects.flatMap Entries.keys).eraseDups := by
  induction objects generalizing keys fields with
  | nil => rw [List.foldl_nil, h, List.flatMap_nil, List.append_nil]
  | cons later objects ih =>
    rw [List.foldl_cons, ih (keys_merge h later), List.append_assoc, List.flatMap_cons]

theorem keys_mergeAll (objects : List Fields) :
    Entries.keys (mergeAll objects) = (objects.flatMap Entries.keys).eraseDups := by
  have hempty : Entries.keys ([] : Fields) = ([] : List String).eraseDups := rfl
  exact keys_foldl_merge hempty objects

theorem nodup_keys_merge {fields : Fields} (h : (Entries.keys fields).Nodup) (later : Fields) :
    (Entries.keys (merge fields later)).Nodup := by
  induction later generalizing fields with
  | nil => rwa [merge]
  | cons entry later ih =>
    rw [merge_cons]
    exact ih (Entries.nodup_keys_insert _ _ h)

theorem nodup_keys_mergeAll (objects : List Fields) :
    (Entries.keys (mergeAll objects)).Nodup :=
  List.foldlRecOn (motive := fun fields => (Entries.keys fields).Nodup) objects merge
    List.nodup_nil fun _ h later _ => nodup_keys_merge h later

/-- An object is told by its keys and what stands under them. -/
theorem tabulate_keys {fields : Fields} (h : (Entries.keys fields).Nodup) :
    tabulate (Entries.keys fields) (fun key => Entries.find? key fields) = fields := by
  induction fields with
  | nil => rfl
  | cons entry fields ih =>
    obtain ⟨name, v⟩ := entry
    obtain ⟨hfirst, hrest⟩ := List.nodup_cons.1 h
    have hname : Entries.find? name ((name, v) :: fields) = some v := if_pos rfl
    -- the other keys are looked up behind the first one
    have hothers : tabulate (Entries.keys fields)
        (fun key => Entries.find? key ((name, v) :: fields)) = fields := by
      refine Eq.trans (List.filterMap_congr ?_) (ih hrest)
      intro key hkey
      have hne : name ≠ key := fun heq => hfirst (heq ▸ hkey)
      simp [Entries.find?, hne]
    rw [tabulate, Entries.keys_cons, List.filterMap_cons, hname]
    exact congrArg _ hothers

/-! ## Section 7: The law holds -/

theorem fieldsWellFormed_iff {fields : Fields} :
    Value.FieldsWellFormed fields ↔ ∀ entry ∈ fields, entry.2.WellFormed := by
  induction fields with
  | nil => simp [Value.FieldsWellFormed]
  | cons entry fields ih => simp [Value.FieldsWellFormed, ih]

theorem wellFormed_of_mem_declared {key : String} {objects : List Fields}
    (h : ∀ fields ∈ objects, (Value.object fields).WellFormed) :
    ∀ v ∈ declared key objects, v.WellFormed := by
  intro v hv
  obtain ⟨fields, hfields, hfind⟩ := List.mem_filterMap.1 hv
  have hwf := (h fields hfields).2
  exact fieldsWellFormed_iff.1 hwf _ (Entries.mem_of_find? hfind)

theorem wellFormed_of_mem_finalRun {values : List Value} (h : ∀ v ∈ values, v.WellFormed) :
    ∀ fields ∈ finalRun Value.fields? values, (Value.object fields).WellFormed := by
  intro fields hfields
  obtain ⟨v, hv, hread⟩ := List.mem_filterMap.1 hfields
  have hmem := (List.rtakeWhile_suffix _ _).mem hv
  cases v with
  | object found =>
    cases hread
    exact h _ hmem
  | null | bool | number | string | array => cases hread

theorem find?_mergeAll {objects : List Fields}
    (h : ∀ fields ∈ objects, (Value.object fields).WellFormed) (key : String) :
    Entries.find? key (mergeAll objects) = layerAll none (declared key objects) :=
  find?_foldl_merge key [] fun fields hfields => (h fields hfields).1

theorem layerAll_eq_endValue {values : List Value} (h : ∀ v ∈ values, v.WellFormed) :
    layerAll none values = endValue values := by
  fun_induction endValue values with
  | case1 values hlast =>
    rw [List.getLast?_eq_none_iff.1 hlast]
    rfl
  | case2 values items hlast =>
    have hdistinct : distinct = unrepeated := funext distinct_eq_unrepeated
    rw [layerAll_array hlast, runStart_none, foldl_append, append_nil_eq_dropRepeats, hdistinct]
  | case3 values fields hlast run ih =>
    have hrun := wellFormed_of_mem_finalRun h
    -- under each key of the run the law is known already
    have hvalues : ∀ key, Entries.find? key (mergeAll run) = endValue (declared key run) := by
      intro key
      rw [find?_mergeAll hrun, ih key (wellFormed_of_mem_declared hrun)]
    have hobject := tabulate_keys (nodup_keys_mergeAll run)
    simp only [keys_mergeAll, hvalues] at hobject
    rw [layerAll_object hlast h, runStart_none, hobject]
    rfl
  | case4 values v harray hobject hlast =>
    exact layerAll_other hlast (Value.items?_eq_none harray) (Value.fields?_eq_none hobject) none

/-- The keys of merged objects stand in the order of their first appearance, and under each of
    them is what the law says of the values that the objects have for it. -/
theorem mergeAll_endValue {objects : List Fields}
    (h : ∀ fields ∈ objects, (Value.object fields).WellFormed) :
    Entries.keys (mergeAll objects) = (objects.flatMap Entries.keys).eraseDups ∧
    ∀ key, Entries.find? key (mergeAll objects) = endValue (declared key objects) := by
  refine ⟨keys_mergeAll objects, ?_⟩
  intro key
  rw [find?_mergeAll h, layerAll_eq_endValue (wellFormed_of_mem_declared h)]

/-- The parser is an object, then a name, and then an object again. -/
def parserLayers : List Fields :=
  [[("globals", .array [.string "a", .string "a"]), ("parser", .object [("strict", .bool true)])],
    [("parser", .string "none")],
    [("parser", .object [("features", .array [.array [.string "jsx", .string "jsx"]])])],
    [("parser", .object [("version", .number (.int 5)),
      ("features", .array [.array [.string "jsx"], .null])])]]

theorem mergeAll_endValue_parserLayers :
    (∀ fields ∈ parserLayers, (Value.object fields).WellFormed) ∧
    (parserLayers.flatMap Entries.keys).eraseDups = ["globals", "parser"] ∧
    endValue (declared "parser" parserLayers) = some (.object
      [("features", .array [.array [.string "jsx"], .null]), ("version", .number (.int 5))]) := by
  have hwf : ∀ fields ∈ parserLayers, (Value.object fields).WellFormed := by
    simp [parserLayers, Value.WellFormed, Value.FieldsWellFormed, Value.ItemsWellFormed]
  obtain ⟨hkeys, hvalues⟩ := mergeAll_endValue hwf
  refine ⟨hwf, ?_, ?_⟩
  · rw [← hkeys]
    rfl
  · rw [← hvalues]
    rfl

end SharedOptions

namespace Configuration

theorem sharedOptions_applyAll (c : Configuration) (fragments : List Fragment) :
    (c.applyAll fragments).sharedOptions =
      (fragments.map Fragment.sharedOptions).foldl SharedOptions.merge c.sharedOptions := by
  induction fragments generalizing c with
  | nil => rfl
  | cons f fragments ih => exact ih (c.apply f)

/-- The shared options of a configuration are those of its fragments, merged in turn. -/
theorem sharedOptions_merge (fragments : List Fragment) :
    (merge fragments).sharedOptions =
      SharedOptions.mergeAll (fragments.map Fragment.sharedOptions) :=
  sharedOptions_applyAll {} fragments

end Configuration

end RuleCascade
