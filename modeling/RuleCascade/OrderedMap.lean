/-! # Maps that remember insertion order

    A map is a list of entries whose keys do not repeat. Setting a key that is
    present keeps its position and replaces its value; a new key goes last.

    The list-level operations stand first, in the namespace `Entries`: nested
    objects of configuration values are plain entry lists and use them
    directly. `OrderedMap` adds the proof that keys do not repeat.
-/

namespace RuleCascade

variable {α β γ : Type}

/-! ## Section 1: Entry lists -/

namespace Entries

/-- The keys, in order. -/
def keys (entries : List (α × β)) : List α :=
  entries.map Prod.fst

/-- The value under a key, if there is one. -/
def find? [DecidableEq α] (key : α) : List (α × β) → Option β
  | [] => none
  | (k, v) :: rest => if k = key then some v else find? key rest

/-- Set a key: a present key keeps its place, a new one goes last. -/
def insert [DecidableEq α] (key : α) (value : β) : List (α × β) → List (α × β)
  | [] => [(key, value)]
  | (k, v) :: rest =>
    if k = key then (k, value) :: rest else (k, v) :: insert key value rest

/-- Drop a key. -/
def erase [DecidableEq α] (key : α) : List (α × β) → List (α × β)
  | [] => []
  | (k, v) :: rest => if k = key then erase key rest else (k, v) :: erase key rest

/-- Entries set one after another. -/
def ofList [DecidableEq α] (entries : List (α × β)) : List (α × β) :=
  entries.foldl (fun done entry => insert entry.1 entry.2 done) []

@[simp] theorem keys_nil : keys ([] : List (α × β)) = [] := rfl

@[simp] theorem keys_cons (entry : α × β) (rest : List (α × β)) :
    keys (entry :: rest) = entry.1 :: keys rest := rfl

theorem keys_append (entries others : List (α × β)) :
    keys (entries ++ others) = keys entries ++ keys others :=
  List.map_append

variable [DecidableEq α]

@[simp] theorem find?_nil (key : α) : find? key ([] : List (α × β)) = none := rfl

theorem find?_isSome_iff {key : α} {entries : List (α × β)} :
    (find? key entries).isSome = true ↔ key ∈ keys entries := by
  induction entries with
  | nil => simp
  | cons entry rest ih =>
    by_cases h : entry.1 = key
    · simp [find?, h]
    · simp [find?, h, ih, Ne.symm h]

theorem find?_eq_none_iff {key : α} {entries : List (α × β)} :
    find? key entries = none ↔ key ∉ keys entries := by
  rw [← find?_isSome_iff]
  cases find? key entries <;> simp

theorem mem_of_find? {key : α} {value : β} {entries : List (α × β)}
    (h : find? key entries = some value) : (key, value) ∈ entries := by
  induction entries with
  | nil => simp at h
  | cons entry rest ih =>
    by_cases hk : entry.1 = key
    · simp only [find?, hk, if_true, Option.some.injEq] at h
      rw [← hk, ← h]
      exact List.mem_cons_self
    · simp only [find?, hk, if_false] at h
      exact List.mem_cons_of_mem _ (ih h)

theorem find?_eq_some_iff {key : α} {value : β} {entries : List (α × β)}
    (hnodup : (keys entries).Nodup) : find? key entries = some value ↔ (key, value) ∈ entries := by
  refine ⟨mem_of_find?, ?_⟩
  intro h
  induction entries with
  | nil => cases h
  | cons entry rest ih =>
    obtain ⟨hfirst, hrest⟩ := List.nodup_cons.1 hnodup
    rcases List.mem_cons.1 h with rfl | hmem
    · rw [find?, if_pos rfl]
    · -- the key of an entry further back is not that of the first one
      have hne : entry.1 ≠ key := by
        intro heq
        have hkey : key ∈ keys rest := List.mem_map_of_mem (f := Prod.fst) hmem
        exact hfirst (heq ▸ hkey)
      rw [find?, if_neg hne]
      exact ih hrest hmem

/-- The order of entries does not matter as long as no key repeats. -/
theorem find?_of_perm {entries others : List (α × β)} (h : entries.Perm others)
    (hnodup : (keys entries).Nodup) (key : α) : find? key entries = find? key others := by
  have hothers : (keys others).Nodup := (h.map Prod.fst).nodup_iff.1 hnodup
  apply Option.ext
  intro value
  rw [find?_eq_some_iff hnodup, find?_eq_some_iff hothers, h.mem_iff]

theorem find?_append (key : α) (entries others : List (α × β)) :
    find? key (entries ++ others) = (find? key entries).or (find? key others) := by
  induction entries with
  | nil => rfl
  | cons entry rest ih =>
    rw [List.cons_append]
    by_cases h : entry.1 = key <;> simp [find?, h, ih]

theorem find?_map (f : β → γ) (key : α) (entries : List (α × β)) :
    find? key (entries.map (Prod.map id f)) = (find? key entries).map f := by
  induction entries with
  | nil => rfl
  | cons entry rest ih =>
    rw [List.map_cons]
    by_cases h : entry.1 = key <;> simp [find?, h, ih]

/-- A key that is present keeps the key list; a new key is appended to it. -/
theorem keys_insert (key : α) (value : β) (entries : List (α × β)) :
    keys (insert key value entries) =
      if key ∈ keys entries then keys entries else keys entries ++ [key] := by
  induction entries with
  | nil => simp [insert]
  | cons entry rest ih =>
    by_cases h : entry.1 = key
    · simp [insert, h]
    · by_cases hm : key ∈ keys rest <;> simp [insert, h, ih, hm, Ne.symm h]

theorem insert_of_notMem {key : α} {entries : List (α × β)} (h : key ∉ keys entries) (value : β) :
    insert key value entries = entries ++ [(key, value)] := by
  induction entries with
  | nil => rfl
  | cons entry rest ih =>
    have hne : entry.1 ≠ key := fun heq => h (heq ▸ List.mem_cons_self)
    have hrest : key ∉ keys rest := fun hmem => h (List.mem_cons_of_mem _ hmem)
    rw [insert, if_neg hne, ih hrest, List.cons_append]

/-- Setting a key adds no other entry. -/
theorem mem_insert {key : α} {value : β} {entries : List (α × β)} {entry : α × β}
    (h : entry ∈ insert key value entries) : entry = (key, value) ∨ entry ∈ entries := by
  induction entries with
  | nil => exact Or.inl (List.mem_singleton.1 h)
  | cons first rest ih =>
    by_cases hk : first.1 = key
    · simp only [insert, hk, if_true] at h
      rcases List.mem_cons.1 h with rfl | hrest
      · exact Or.inl rfl
      · exact Or.inr (List.mem_cons_of_mem _ hrest)
    · simp only [insert, hk, if_false] at h
      rcases List.mem_cons.1 h with rfl | hrest
      · exact Or.inr List.mem_cons_self
      · exact (ih hrest).imp_right (List.mem_cons_of_mem _)

theorem nodup_keys_insert {entries : List (α × β)} (key : α) (value : β)
    (h : (keys entries).Nodup) : (keys (insert key value entries)).Nodup := by
  rw [keys_insert]
  split
  · exact h
  · rename_i hm
    refine List.nodup_append.2 ⟨h, by simp, ?_⟩
    intro a ha b hb hab
    simp only [List.mem_singleton] at hb
    exact hm (hb ▸ hab ▸ ha)

@[simp] theorem find?_insert_self (key : α) (value : β) (entries : List (α × β)) :
    find? key (insert key value entries) = some value := by
  induction entries with
  | nil => simp [insert, find?]
  | cons entry rest ih =>
    by_cases h : entry.1 = key <;> simp [insert, find?, h, ih]

theorem find?_insert_of_ne {key other : α} (value : β) (entries : List (α × β))
    (h : other ≠ key) : find? other (insert key value entries) = find? other entries := by
  induction entries with
  | nil => simp [insert, find?, Ne.symm h]
  | cons entry rest ih =>
    by_cases hk : entry.1 = key
    · simp [insert, find?, hk, Ne.symm h]
    · by_cases ho : entry.1 = other
      · subst ho; simp [insert, find?, hk]
      · simp [insert, find?, hk, ho, ih]

theorem mem_keys_erase_iff {key other : α} {entries : List (α × β)} :
    other ∈ keys (erase key entries) ↔ other ∈ keys entries ∧ other ≠ key := by
  induction entries with
  | nil => simp [erase]
  | cons entry rest ih =>
    by_cases h : entry.1 = key
    · simp only [erase, h, if_true, ih, keys_cons, List.mem_cons]
      exact ⟨fun hm => ⟨.inr hm.1, hm.2⟩, fun hm => ⟨hm.1.resolve_left hm.2, hm.2⟩⟩
    · by_cases ho : other = entry.1
      · simp [erase, h, ho]
      · simp [erase, h, ih, ho]

theorem nodup_keys_erase {entries : List (α × β)} (key : α) (h : (keys entries).Nodup) :
    (keys (erase key entries)).Nodup := by
  induction entries with
  | nil => simp [erase]
  | cons entry rest ih =>
    rw [keys_cons, List.nodup_cons] at h
    by_cases hk : entry.1 = key
    · simpa [erase, hk] using ih h.2
    · simp [erase, hk, ih h.2, mem_keys_erase_iff, h.1]

theorem find?_erase_self (key : α) (entries : List (α × β)) :
    find? key (erase key entries) = none := by
  simp [find?_eq_none_iff, mem_keys_erase_iff]

theorem find?_erase_of_ne {key other : α} (entries : List (α × β)) (h : other ≠ key) :
    find? other (erase key entries) = find? other entries := by
  induction entries with
  | nil => rfl
  | cons entry rest ih =>
    by_cases hk : entry.1 = key
    · simp [erase, find?, hk, Ne.symm h, ih]
    · by_cases ho : entry.1 = other
      · subst ho; simp [erase, find?, hk]
      · simp [erase, find?, hk, ho, ih]

end Entries

/-! ## Section 2: Maps -/

/-- Entries whose keys do not repeat, in insertion order. -/
structure OrderedMap (α β : Type) where
  entries : List (α × β)
  nodup_keys : (Entries.keys entries).Nodup
deriving DecidableEq

namespace OrderedMap

/-- The map without entries. -/
def empty : OrderedMap α β := ⟨[], by simp⟩

instance : Inhabited (OrderedMap α β) := ⟨empty⟩

/-- The keys, in order. -/
def keys (m : OrderedMap α β) : List α := Entries.keys m.entries

/-- The number of entries. -/
def size (m : OrderedMap α β) : Nat := m.entries.length

/-- True when there is no entry. -/
def isEmpty (m : OrderedMap α β) : Bool := m.entries.isEmpty

@[ext] theorem ext {m n : OrderedMap α β} (h : m.entries = n.entries) : m = n := by
  cases m; cases n; cases h; rfl

@[simp] theorem entries_empty : (empty : OrderedMap α β).entries = [] := rfl

@[simp] theorem keys_empty : (empty : OrderedMap α β).keys = [] := rfl

@[simp] theorem size_empty : (empty : OrderedMap α β).size = 0 := rfl

theorem length_keys (m : OrderedMap α β) : m.keys.length = m.size :=
  List.length_map _

variable [DecidableEq α]

/-- The value under a key, if there is one. -/
def find? (m : OrderedMap α β) (key : α) : Option β := Entries.find? key m.entries

/-- True when the key has a value. -/
def contains (m : OrderedMap α β) (key : α) : Bool := (m.find? key).isSome

/-- Set a key: a present key keeps its place, a new one goes last. -/
def insert (m : OrderedMap α β) (key : α) (value : β) : OrderedMap α β :=
  ⟨Entries.insert key value m.entries, Entries.nodup_keys_insert key value m.nodup_keys⟩

/-- Drop a key. -/
def erase (m : OrderedMap α β) (key : α) : OrderedMap α β :=
  ⟨Entries.erase key m.entries, Entries.nodup_keys_erase key m.nodup_keys⟩

/-- Set every entry of a list in turn. -/
def insertAll (m : OrderedMap α β) (entries : List (α × β)) : OrderedMap α β :=
  entries.foldl (fun done entry => done.insert entry.1 entry.2) m

/-- The map of a list of entries: a repeated key keeps its first place and its last value. -/
def ofList (entries : List (α × β)) : OrderedMap α β :=
  empty.insertAll entries

@[simp] theorem find?_empty (key : α) : (empty : OrderedMap α β).find? key = none := rfl

@[simp] theorem find?_insert_self (m : OrderedMap α β) (key : α) (value : β) :
    (m.insert key value).find? key = some value :=
  Entries.find?_insert_self key value m.entries

theorem find?_insert_of_ne (m : OrderedMap α β) {key other : α} (value : β) (h : other ≠ key) :
    (m.insert key value).find? other = m.find? other :=
  Entries.find?_insert_of_ne value m.entries h

theorem find?_erase_self (m : OrderedMap α β) (key : α) : (m.erase key).find? key = none :=
  Entries.find?_erase_self key m.entries

theorem find?_erase_of_ne (m : OrderedMap α β) {key other : α} (h : other ≠ key) :
    (m.erase key).find? other = m.find? other :=
  Entries.find?_erase_of_ne m.entries h

theorem contains_iff {m : OrderedMap α β} {key : α} : m.contains key = true ↔ key ∈ m.keys :=
  Entries.find?_isSome_iff

/-- A key that is present keeps the key list; a new key is appended to it. -/
theorem keys_insert (m : OrderedMap α β) (key : α) (value : β) :
    (m.insert key value).keys = if key ∈ m.keys then m.keys else m.keys ++ [key] :=
  Entries.keys_insert key value m.entries

/-- Setting a key adds at most one entry. -/
theorem size_insert_le (m : OrderedMap α β) (key : α) (value : β) :
    (m.insert key value).size ≤ m.size + 1 := by
  rw [← length_keys, ← length_keys, keys_insert]
  split
  · exact Nat.le_succ _
  · exact Nat.le_of_eq List.length_append

@[simp] theorem insertAll_nil (m : OrderedMap α β) : m.insertAll [] = m := rfl

@[simp] theorem insertAll_cons (m : OrderedMap α β) (entry : α × β) (rest : List (α × β)) :
    m.insertAll (entry :: rest) = (m.insert entry.1 entry.2).insertAll rest := rfl

/-- Every entry is one that was set or one that was there. -/
theorem mem_insertAll {m : OrderedMap α β} {entries : List (α × β)} {entry : α × β}
    (h : entry ∈ (m.insertAll entries).entries) : entry ∈ entries ∨ entry ∈ m.entries := by
  induction entries generalizing m with
  | nil => exact Or.inr h
  | cons first rest ih =>
    rw [insertAll_cons] at h
    rcases ih h with hrest | hold
    · exact Or.inl (List.mem_cons_of_mem _ hrest)
    rcases Entries.mem_insert hold with rfl | hm
    · exact Or.inl List.mem_cons_self
    · exact Or.inr hm

end OrderedMap

end RuleCascade
