import RuleCascade.Proofs.HierarchicalResolution
import RuleCascade.Proofs.LastSetting
import RuleCascade.Proofs.SettledOptions

/-! # Layers that are put on twice

    Fragments that are layered a second time change nothing. In between they
    may well do: where a key goes from an array to a name and back to an array,
    the second pass first undoes what the first one left, and then builds it
    again.

    A key shows why. If its values are not all of the kind of the last one, the
    final run starts from nothing, in both passes. If they are, the run is added
    to what is there, and what it adds is there from the first pass on: every
    item of an array is found equal to an item held already, and below an object
    the same is said of shorter values.

    In a cascade the same rule set may be spliced in twice in a row. The walk
    that resolution is equal to shows that the two splices layer the same
    fragments where both apply, so the second can be left out.

    Main statement: `layered_twice`.
-/

namespace RuleCascade

open Expansion

/-! ## Section 1: Maps with the same keys and values -/

theorem eraseDups_append_of_subset {α : Type} [DecidableEq α] {keys others : List α}
    (h : others ⊆ keys) : (keys ++ others).eraseDups = keys.eraseDups := by
  have hnone : others.removeAll keys = [] := by
    simpa [List.removeAll] using fun key hkey => h hkey
  rw [List.eraseDups_append, hnone, List.eraseDups_nil, List.append_nil]

/-- Entry lists with the same keys, in order, and the same values under them. -/
theorem Entries.eq_of_find? {α β : Type} [DecidableEq α] {entries others : List (α × β)}
    (h : (keys entries).Nodup) (hkeys : keys others = keys entries)
    (hfind : ∀ key, find? key others = find? key entries) : others = entries := by
  have hothers : (keys others).Nodup := hkeys ▸ h
  apply List.ext_getElem
  · simpa [keys] using congrArg List.length hkeys
  · intro i hi hi'
    have hkey : others[i].1 = entries[i].1 := by
      have hget := congrArg (·[i]?) hkeys
      simpa [keys, hi, hi'] using hget
    have hother : find? others[i].1 others = some others[i].2 :=
      (find?_eq_some_iff hothers).2 (List.getElem_mem hi)
    have hentry : find? entries[i].1 entries = some entries[i].2 :=
      (find?_eq_some_iff h).2 (List.getElem_mem hi')
    have hvalue := hfind others[i].1
    rw [hother, hkey, hentry] at hvalue
    exact Prod.ext hkey (Option.some.inj hvalue)

namespace SharedOptions

/-! ## Section 2: Arrays -/

theorem isIn_append {v : Value} {done : List Value} (h : v.isIn done = true)
    (items : List Value) : v.isIn (append done items) = true := by
  induction items generalizing done with
  | nil => exact h
  | cons w items ih =>
    rw [append]
    apply ih
    split
    · exact h
    · rw [Value.isIn, List.any_append, Bool.or_eq_true]
      exact Or.inl h

/-- What is put into an array is found in it. -/
theorem isIn_append_of_mem {items : List Value} (h : ∀ v ∈ items, v.WellFormed)
    (done : List Value) : ∀ v ∈ items, (distinct v).isIn (append done items) = true := by
  induction items generalizing done with
  | nil => simp
  | cons w items ih =>
    obtain ⟨hw, hitems⟩ := List.forall_mem_cons.1 h
    rw [append]
    refine List.forall_mem_cons.2 ⟨isIn_append ?_ items, ih hitems _⟩
    split
    · assumption
    · -- the item is put behind the others, and it is equal to itself
      rw [Value.isIn, List.any_append, Bool.or_eq_true]
      have hself := Value.same_self (settled_distinct hw).wellFormed
      exact Or.inr (by simpa using hself)

theorem append_of_isIn {done items : List Value}
    (h : ∀ v ∈ items, (distinct v).isIn done = true) : append done items = done := by
  induction items with
  | nil => rfl
  | cons v items ih =>
    obtain ⟨hv, hitems⟩ := List.forall_mem_cons.1 h
    rw [append, if_pos hv, ih hitems]

theorem foldl_append_foldl_append {arrays : List (List Value)}
    (h : ∀ items ∈ arrays, ∀ v ∈ items, v.WellFormed) (done : List Value) :
    arrays.foldl append (arrays.foldl append done) = arrays.foldl append done := by
  have hitems : ∀ v ∈ arrays.flatten, v.WellFormed := by
    intro v hv
    obtain ⟨items, hmem, hv⟩ := List.mem_flatten.1 hv
    exact h items hmem v hv
  rw [foldl_append, foldl_append]
  exact append_of_isIn (isIn_append_of_mem hitems done)

theorem wellFormed_of_mem_arrays {values : List Value} (h : ∀ v ∈ values, v.WellFormed) :
    ∀ items ∈ finalRun Value.items? values, ∀ v ∈ items, v.WellFormed := by
  intro items hitems
  obtain ⟨v, hv, hread⟩ := List.mem_filterMap.1 hitems
  have hwf := h v ((List.rtakeWhile_suffix _ _).mem hv)
  cases v with
  | array found =>
    cases hread
    exact Value.itemsWellFormed_iff.1 hwf
  | null | bool | number | string | object => cases hread

/-! ## Section 3: Objects -/

/-- Merging objects again changes nothing if it changes nothing under any key. -/
theorem foldl_merge_foldl_merge {fields : Fields} {objects : List Fields}
    (hfields : (Entries.keys fields).Nodup)
    (hobjects : ∀ later ∈ objects, (Entries.keys later).Nodup)
    (h : ∀ key, layerAll (layerAll (Entries.find? key fields) (declared key objects))
      (declared key objects) = layerAll (Entries.find? key fields) (declared key objects)) :
    objects.foldl merge (objects.foldl merge fields) = objects.foldl merge fields := by
  have hkeys := keys_foldl_merge (eraseDups_of_nodup hfields).symm objects
  have hnodup : (Entries.keys (objects.foldl merge fields)).Nodup :=
    List.foldlRecOn (motive := fun fields => (Entries.keys fields).Nodup) objects merge
      hfields fun _ h later _ => nodup_keys_merge h later
  apply Entries.eq_of_find? hnodup
  · -- the second time no key is new
    rw [keys_foldl_merge hkeys, eraseDups_append_of_subset (List.subset_append_right _ _), hkeys]
  · intro key
    rw [find?_foldl_merge key _ hobjects, find?_foldl_merge key fields hobjects, h key]

/-! ## Section 4: Values -/

/-- Values of one kind at the end need only be followed through their final run: what is there
    counts for it if all values are of the kind, and not at all otherwise. -/
theorem layerAll_twice_of_run {α : Type} {read : Value → Option (List α)}
    {join : List α → List α → List α} {make : List α → Value} {values : List Value}
    (hread : ∀ made, read (make made) = some made)
    (hlayer : ∀ present, layerAll present values =
      some (make ((finalRun read values).foldl join (runStart read present values))))
    {present : Option Value}
    (h : (finalRun read values).foldl join ((finalRun read values).foldl join
        ((present.bind read).getD [])) =
      (finalRun read values).foldl join ((present.bind read).getD [])) :
    layerAll (layerAll present values) values = layerAll present values := by
  rw [hlayer present, hlayer]
  unfold runStart
  split
  · rw [Option.bind_some, hread, Option.getD_some, h]
  · rfl

/-- Layering the same values again changes nothing. -/
theorem layerAll_layerAll {values : List Value} (h : ∀ v ∈ values, v.WellFormed)
    {present : Option Value} (hpresent : ∀ v ∈ present, v.WellFormed) :
    layerAll (layerAll present values) values = layerAll present values := by
  fun_induction endValue values generalizing present with
  | case1 values hlast =>
    rw [List.getLast?_eq_none_iff.1 hlast]
    rfl
  | case2 values items hlast =>
    refine layerAll_twice_of_run (fun _ => rfl) (layerAll_array hlast) ?_
    exact foldl_append_foldl_append (wellFormed_of_mem_arrays h) _
  | case3 values fields hlast run ih =>
    have hrun := wellFormed_of_mem_finalRun h
    have hstart : (Value.object ((present.bind Value.fields?).getD [])).WellFormed := by
      cases present with
      | none => exact ⟨List.nodup_nil, trivial⟩
      | some found =>
        cases found with
        | object held => exact hpresent _ rfl
        | null | bool | number | string | array => exact ⟨List.nodup_nil, trivial⟩
    obtain ⟨hnodup, hvalues⟩ := Value.wellFormed_object_iff.1 hstart
    refine layerAll_twice_of_run (fun _ => rfl) (layerAll_object hlast h) ?_
    apply foldl_merge_foldl_merge hnodup fun later hlater => (hrun later hlater).1
    -- under each key the run has fewer values, which are shorter
    intro key
    apply ih key (wellFormed_of_mem_declared hrun)
    intro v hv
    exact hvalues _ (Entries.mem_of_find? hv)
  | case4 values v harray hobject hlast =>
    have hother := layerAll_other hlast (Value.items?_eq_none harray)
      (Value.fields?_eq_none hobject)
    rw [hother, hother]

end SharedOptions

/-! ## Section 5: Configurations -/

/-- No object in the shared options of the fragment repeats a key. -/
def Fragment.WellFormed (f : Fragment) : Prop := (Value.object f.sharedOptions).WellFormed

namespace Configuration

/-- No object in the shared options of the configuration repeats a key. -/
def WellFormed (c : Configuration) : Prop := (Value.object c.sharedOptions).WellFormed

theorem ignored_applyAll (c : Configuration) (fragments : List Fragment) :
    (c.applyAll fragments).ignored = c.ignored := by
  induction fragments generalizing c with
  | nil => rfl
  | cons f rest ih => exact ih (c.apply f)

theorem ext_parts {c d : Configuration} (hrules : c.rules = d.rules)
    (hshared : c.sharedOptions = d.sharedOptions) (hignored : c.ignored = d.ignored) : c = d := by
  cases c
  cases d
  cases hrules
  cases hshared
  cases hignored
  rfl

theorem rules_applyAll_applyAll (c : Configuration) (fragments : List Fragment) :
    ((c.applyAll fragments).applyAll fragments).rules = (c.applyAll fragments).rules := by
  have hkeys := keys_rules_applyAll (eraseDups_of_nodup c.rules.nodup_keys).symm fragments
  apply OrderedMap.ext
  apply Entries.eq_of_find? (c.applyAll fragments).rules.nodup_keys
  · have hagain := keys_rules_applyAll hkeys fragments
    rw [eraseDups_append_of_subset (List.subset_append_right _ _), ← hkeys] at hagain
    exact hagain
  · intro key
    have hsetting : ((c.applyAll fragments).applyAll fragments).setting? key =
        (c.applyAll fragments).setting? key := by
      rw [setting?_applyAll, setting?_applyAll, ← Option.or_assoc, Option.or_self]
    exact hsetting

/-- Layering the same fragments again changes nothing. -/
theorem applyAll_applyAll {c : Configuration} (hc : c.WellFormed) {fragments : List Fragment}
    (h : ∀ f ∈ fragments, f.WellFormed) :
    (c.applyAll fragments).applyAll fragments = c.applyAll fragments := by
  obtain ⟨hnodup, hvalues⟩ := Value.wellFormed_object_iff.1 hc
  have hobjects : ∀ later ∈ fragments.map Fragment.sharedOptions,
      (Value.object later).WellFormed := by
    intro later hlater
    obtain ⟨f, hf, rfl⟩ := List.mem_map.1 hlater
    exact h f hf
  apply ext_parts (rules_applyAll_applyAll c fragments)
  · rw [sharedOptions_applyAll, sharedOptions_applyAll]
    apply SharedOptions.foldl_merge_foldl_merge hnodup fun later hlater => (hobjects later hlater).1
    intro key
    apply SharedOptions.layerAll_layerAll (SharedOptions.wellFormed_of_mem_declared hobjects)
    intro v hv
    exact hvalues _ (Entries.mem_of_find? hv)
  · exact ignored_applyAll _ fragments

theorem wellFormed_merge {fragments : List Fragment} (h : ∀ f ∈ fragments, f.WellFormed) :
    (merge fragments).WellFormed := by
  rw [WellFormed, sharedOptions_merge]
  refine (SharedOptions.settled_mergeAll ?_).wellFormed
  intro later hlater
  obtain ⟨f, hf, rfl⟩ := List.mem_map.1 hlater
  exact h f hf

end Configuration

/-! ## Section 6: Splices -/

namespace Expansion

variable {registry : Registry}

/-- Entries unfold to one cascade at most. -/
theorem Unfolds.unique {entries cascade other : List Entry} (h : Unfolds registry entries cascade)
    (h' : Unfolds registry entries other) : cascade = other := by
  induction h generalizing other with
  | nil =>
    cases h'
    rfl
  | cons hsets _ _ _ ihbelow ihafter =>
    cases h' with
    | cons hothers _ hbelow hafter =>
      obtain rfl := hsets.unique hothers
      rw [ihbelow hbelow, ihafter hafter]

theorem Unfolds.of_append {entries others cascade : List Entry}
    (h : Unfolds registry (entries ++ others) cascade) :
    ∃ first second, cascade = first ++ second ∧ Unfolds registry entries first ∧
      Unfolds registry others second := by
  induction entries generalizing cascade with
  | nil => exact ⟨[], cascade, rfl, .nil, h⟩
  | cons e rest ih =>
    cases h with
    | @cons _ sets _ below after hsets hnew hbelow hafter =>
      obtain ⟨first, second, rfl, hfirst, hsecond⟩ := ih hafter
      refine ⟨below ++ e :: first, second, ?_, .cons hsets hnew hbelow hfirst, hsecond⟩
      rw [List.append_assoc, List.cons_append]

/-- What a rule set brings into the cascade below an entry that refers to it. -/
def Splice (registry : Registry) (e : Entry) (set : RuleSet) (spliced : List Entry) : Prop :=
  Unfolds registry (entriesBelow e set) spliced

/-- References to one rule set twice in a row splice it in twice in a row. -/
theorem Unfolds.exists_splices {entries cascade : List Entry}
    (h : Unfolds registry entries cascade) {e : Entry} (he : e ∈ cascade)
    {sets more : List RuleSet} {set : RuleSet}
    (hstands : e.fragment.StandsOn registry (sets ++ set :: set :: more)) :
    ∃ before once after, cascade = before ++ once ++ once ++ after ∧
      Splice registry e set once := by
  induction h with
  | nil => cases he
  | @cons x found rest below rested hsets _ hbelow _ ihbelow ihafter =>
    rcases List.mem_append.1 he with hmem | hmem
    · obtain ⟨before, once, after, rfl, honce⟩ := ihbelow hmem
      exact ⟨before, once, after ++ x :: rested, by simp, honce⟩
    rcases List.mem_cons.1 hmem with rfl | hmem
    · -- below the entry itself the two splices are the same listing
      obtain rfl := hsets.unique hstands
      rw [List.flatMap_append, List.flatMap_cons, List.flatMap_cons] at hbelow
      obtain ⟨before, tail, rfl, _, htail⟩ := hbelow.of_append
      obtain ⟨once, tail, rfl, honce, htail⟩ := htail.of_append
      obtain ⟨again, after, rfl, hagain, _⟩ := htail.of_append
      obtain rfl := honce.unique hagain
      exact ⟨before, once, after ++ e :: rested, by simp, honce⟩
    · obtain ⟨before, once, after, rfl, honce⟩ := ihafter hmem
      exact ⟨below ++ x :: before, once, after, by simp, honce⟩

variable {e later : Entry} {set : RuleSet} {once again : List Entry} {path : String}
  {language : Option String}

/-- Where the entry applies, its splice layers what the walk over the rule set layers. -/
theorem Splice.walks (h : Splice registry e set once) (he : e.appliesTo path language = true)
    (c : Configuration) :
    Walks registry path language set.fragments c (layerAll path language c once) := by
  have hscope : ∀ child ∈ entriesBelow e set, ScopeAdmits path language child := by
    intro child hchild
    have hmem : child ∈ [set].flatMap (entriesBelow e) := by simpa using hchild
    exact (scopeAdmits_iff_of_mem hmem).2 he
  have hfragments : (entriesBelow e set).map Entry.fragment = set.fragments := by
    simpa using map_fragment_entriesBelow e [set]
  rw [← hfragments]
  exact Unfolds.walks h hscope c

theorem Splice.layerAll_of_not_applies (h : Splice registry e set once)
    (he : ¬ e.appliesTo path language = true) (c : Configuration) :
    layerAll path language c once = c := by
  apply layerAll_of_forall_not
  apply Unfolds.not_appliesTo h
  intro child hchild hadmits
  have hmem : child ∈ [set].flatMap (entriesBelow e) := by simpa using hchild
  exact he ((scopeAdmits_iff_of_mem hmem).1 hadmits)

/-- Splicing in the same rule set again changes nothing, if it does not apply to more paths. -/
theorem Splice.layerAll_again (h : Splice registry e set once)
    (h' : Splice registry later set again) (hwf : ∀ x ∈ once, x.fragment.WellFormed)
    (happlies : later.appliesTo path language = true → e.appliesTo path language = true)
    {c : Configuration} (hc : c.WellFormed) :
    layerAll path language (layerAll path language c once) again =
      layerAll path language c once := by
  by_cases hlater : later.appliesTo path language = true
  · have hsame := fun d => (h'.walks hlater d).unique (h.walks (happlies hlater) d)
    rw [hsame, layerAll, layerAll]
    apply Configuration.applyAll_applyAll hc
    intro f hf
    obtain ⟨x, hx, rfl⟩ := List.mem_map.1 hf
    exact hwf x (List.mem_of_mem_filter hx)
  · exact h'.layerAll_of_not_applies hlater _

end Expansion

/-! ## Section 7: Cascades -/

/-- The fragment sets no rule and no shared option. -/
def Fragment.SetsNothing (f : Fragment) : Prop := f.rules = .empty ∧ f.sharedOptions = []

theorem layerAll_of_setsNothing {path : String} {language : Option String} {between : List Entry}
    (h : ∀ x ∈ between, x.fragment.SetsNothing) (c : Configuration) :
    layerAll path language c between = c := by
  have happly : ∀ f : Fragment, f.SetsNothing → c.apply f = c := by
    rintro f ⟨hrules, hshared⟩
    rw [Configuration.apply, hrules, hshared, SharedOptions.merge]
    rfl
  induction between with
  | nil => rfl
  | cons x rest ih =>
    obtain ⟨hx, hrest⟩ := List.forall_mem_cons.1 h
    by_cases happlies : x.appliesTo path language = true
    · rw [layerAll_cons_of_applies c rest happlies, happly x.fragment hx, ih hrest]
    · rw [layerAll_cons_of_not_applies c rest happlies, ih hrest]

/-- Snapshots that ignore the same paths and layer the same on a path agree about it. -/
theorem Snapshot.compute_congr {s t : Snapshot} {path : String} (hignores : s.ignores = t.ignores)
    (h : layerAll path (s.languages.languageOf path) {} s.cascade =
      layerAll path (t.languages.languageOf path) {} t.cascade) :
    s.compute path = t.compute path := by
  by_cases hignored : ∃ p ∈ s.ignores.excluded, p.isMatch path = true
  · rw [compute_of_ignored hignored, compute_of_ignored (hignores ▸ hignored)]
  · rw [compute_of_not_ignored hignored, compute_of_not_ignored (hignores ▸ hignored), h]

/-- The cascade has the rule set spliced in twice, and between the splices nothing is set. -/
structure SplicedTwice (registry : Registry) (set : RuleSet) (e later : Entry)
    (before once between again after : List Entry) (cascade : List Entry) : Prop where
  cascade_eq : cascade = before ++ once ++ between ++ again ++ after
  once : Splice registry e set once
  again : Splice registry later set again
  between : ∀ x ∈ between, x.fragment.SetsNothing

theorem SplicedTwice.compute_eq {registry : Registry} {set : RuleSet} {e later : Entry}
    {before once between again after : List Entry} {s : Snapshot}
    (h : SplicedTwice registry set e later before once between again after s.cascade)
    (hwf : ∀ x ∈ s.cascade, x.fragment.WellFormed) (path : String)
    (happlies : later.appliesTo path (s.languages.languageOf path) = true →
      e.appliesTo path (s.languages.languageOf path) = true) :
    s.compute path = { s with cascade := before ++ once ++ between ++ after }.compute path := by
  have hcascade := h.cascade_eq
  have hbefore : (layerAll path (s.languages.languageOf path) {} before).WellFormed := by
    apply Configuration.wellFormed_merge
    intro f hf
    obtain ⟨x, hx, rfl⟩ := List.mem_map.1 hf
    exact hwf x (by simp [hcascade, List.mem_of_mem_filter hx])
  have honce : ∀ x ∈ once, x.fragment.WellFormed := fun x hx => hwf x (by simp [hcascade, hx])
  refine Snapshot.compute_congr (by rfl) ?_
  rw [hcascade]
  simp only [layerAll_append, layerAll_of_setsNothing h.between]
  rw [h.once.layerAll_again h.again honce happlies hbefore]

/-- Layering fragments again changes nothing. So a rule set that is referred to twice in a row, or
    that comes in again along another way before anything is set, is spliced in twice but resolves
    as if the second splice were not there. -/
theorem layered_twice :
    (∀ (c : Configuration) (fragments : List Fragment), c.WellFormed →
      (∀ f ∈ fragments, f.WellFormed) →
      (c.applyAll fragments).applyAll fragments = c.applyAll fragments) ∧
    (∀ (fragments : List Fragment) (registry : Registry) (ignores : FileFilter)
      (options : EngineOptions) (s : Snapshot),
      Snapshot.ofFragments fragments registry ignores options = .ok s →
      (∀ x ∈ s.cascade, x.fragment.WellFormed) →
      ∀ e ∈ s.cascade, ∀ (sets more : List RuleSet) (set : RuleSet),
        e.fragment.StandsOn registry (sets ++ set :: set :: more) →
        ∃ before once after, s.cascade = before ++ once ++ once ++ after ∧
          Splice registry e set once ∧
          ∀ path, s.compute path = { s with cascade := before ++ once ++ after }.compute path) ∧
    ∀ (registry : Registry) (set : RuleSet) (e later : Entry)
      (before once between again after : List Entry) (s : Snapshot),
      SplicedTwice registry set e later before once between again after s.cascade →
      (∀ x ∈ s.cascade, x.fragment.WellFormed) →
      ∀ path, (later.appliesTo path (s.languages.languageOf path) = true →
          e.appliesTo path (s.languages.languageOf path) = true) →
        s.compute path = { s with cascade := before ++ once ++ between ++ after }.compute path := by
  refine ⟨?_, ?_, ?_⟩
  · intro c fragments hc h
    exact Configuration.applyAll_applyAll hc h
  · intro fragments registry ignores options s h hwf e he sets more set hstands
    obtain ⟨cascade, hunfolds, _, rfl⟩ := Snapshot.ofFragments_eq_ok_iff.1 h
    obtain ⟨before, once, after, rfl, honce⟩ := hunfolds.exists_splices he hstands
    refine ⟨before, once, after, rfl, honce, ?_⟩
    intro path
    have htwice : SplicedTwice registry set e e before once [] once after
        (before ++ once ++ once ++ after) := ⟨by simp, honce, honce, by simp⟩
    have hcompute := htwice.compute_eq hwf path id
    rwa [List.append_nil] at hcompute
  · intro registry set e later before once between again after s h hwf path happlies
    exact h.compute_eq hwf path happlies

/-- A configuration whose list holds an item twice. -/
def doubled : Configuration :=
  { sharedOptions := [("globals", .array [.string "x", .string "x"])] }

/-- The list is given up for a name and started again. -/
def detour : List Fragment :=
  [{ origin := "fragments[0]", sharedOptions := [("globals", .array [.string "v"])] },
    { origin := "fragments[1]", sharedOptions := [("globals", .string "none")] },
    { origin := "fragments[2]", sharedOptions := [("globals", .array [.string "y"])] }]

/-- A rule set that is referred to twice in a row, and then along two that set nothing. -/
def crossroads : RuleSet where
  name := "a"
  fragments := [
    { origin := "ruleSets.a[0]"
      sharedOptions := [("globals", .array [.string "x", .string "x"])] }]

def crossroadsWay (name : String) : Fragment :=
  { origin := "ruleSets." ++ name ++ "[0]", bases := ["a"] }

def crossroadsRegistry : Registry where
  ruleSets := .ofList [("a", crossroads.fragments), ("b", [crossroadsWay "b"]),
    ("c", [crossroadsWay "c"])]

def crossroadsRow : Fragment := { origin := "fragments[0]", bases := ["a", "a"] }

def crossroadsFork : Fragment := { origin := "fragments[1]", bases := ["b", "c"] }

def crossroadsAt (via : List String) : List Entry := crossroads.fragments.map (⟨·, [], via⟩)

def crossroadsWayAt (name : String) : Entry := ⟨crossroadsWay name, [], [name]⟩

def crossroadsSnapshot : Snapshot where
  cascade := (crossroadsAt ["a"] ++ crossroadsAt ["a"] ++ [topEntry crossroadsRow]) ++
    crossroadsAt ["a", "b"] ++ [crossroadsWayAt "b"] ++ crossroadsAt ["a", "c"] ++
    [crossroadsWayAt "c", topEntry crossroadsFork]
  ignores := {}
  languages := .withOverrides .empty
  cacheCapacity := some 65536

theorem lookup_crossroads (requestedBy : String) :
    crossroadsRegistry.lookup "a" requestedBy = .ok crossroads :=
  Registry.lookup_of_ruleSet? rfl

theorem splice_crossroads {e : Entry} (h : e.fragment.hasConstraints = false)
    (hscope : e.scope = []) :
    Splice crossroadsRegistry e crossroads (crossroadsAt ("a" :: e.via)) := by
  have hentries : entriesBelow e crossroads = crossroadsAt ("a" :: e.via) := by
    simp [entriesBelow, childScope, h, hscope, crossroadsAt, crossroads]
  rw [Splice, hentries]
  exact .refl_of_bases_eq_nil (by simp [crossroadsAt, crossroads])

theorem standsOn_crossroadsRow :
    crossroadsRow.StandsOn crossroadsRegistry [crossroads, crossroads] :=
  .cons (lookup_crossroads _) (.cons (lookup_crossroads _) .nil)

theorem unfolds_crossroadsWay {name : String} (h : "a" ≠ name) :
    Unfolds crossroadsRegistry [crossroadsWayAt name]
      (crossroadsAt ["a", name] ++ [crossroadsWayAt name]) := by
  have hstands : (crossroadsWay name).StandsOn crossroadsRegistry [crossroads] :=
    .cons (lookup_crossroads _) .nil
  have hbelow := splice_crossroads (e := crossroadsWayAt name) rfl rfl
  exact .cons hstands (by simpa [crossroads, crossroadsWayAt] using h) hbelow .nil

theorem unfolds_crossroads :
    Unfolds crossroadsRegistry ([crossroadsRow, crossroadsFork].map topEntry)
      crossroadsSnapshot.cascade := by
  have hfork : crossroadsFork.StandsOn crossroadsRegistry
      [⟨"b", [crossroadsWay "b"]⟩, ⟨"c", [crossroadsWay "c"]⟩] :=
    .cons (Registry.lookup_of_ruleSet? rfl) (.cons (Registry.lookup_of_ruleSet? rfl) .nil)
  have hsplice := splice_crossroads (e := topEntry crossroadsRow) rfl rfl
  have hrow : Unfolds crossroadsRegistry
      ([crossroads, crossroads].flatMap (entriesBelow (topEntry crossroadsRow))) _ :=
    hsplice.append (hsplice.append .nil)
  have hleft : Unfolds crossroadsRegistry [crossroadsWayAt "b"] _ :=
    unfolds_crossroadsWay (by decide)
  have hright : Unfolds crossroadsRegistry [crossroadsWayAt "c"] _ :=
    unfolds_crossroadsWay (by decide)
  have htop : ∀ sets : List RuleSet, ∀ set ∈ sets, set.name ∉ ([] : List String) := by simp
  have hrest : Unfolds crossroadsRegistry [topEntry crossroadsFork] _ :=
    .cons hfork (htop _) (hleft.append hright) .nil
  exact .cons standsOn_crossroadsRow (htop _) hrow hrest

theorem ofFragments_crossroads :
    Snapshot.ofFragments [crossroadsRow, crossroadsFork] crossroadsRegistry {} {} =
      .ok crossroadsSnapshot :=
  Snapshot.ofFragments_eq_ok_iff.2 ⟨_, unfolds_crossroads, by decide, rfl⟩

/-- The second pass takes the detour again; of the splices in a row and of those behind the fork
    one can go. -/
theorem layered_twice_crossroads :
    (doubled.applyAll detour).applyAll detour = doubled.applyAll detour ∧
    (doubled.applyAll detour).sharedOptions = [("globals", .array [.string "y"])] ∧
    (∃ before once after, crossroadsSnapshot.cascade = before ++ once ++ once ++ after ∧
      Splice crossroadsRegistry (topEntry crossroadsRow) crossroads once ∧
      ∀ path, crossroadsSnapshot.compute path =
        { crossroadsSnapshot with cascade := before ++ once ++ after }.compute path) ∧
    ∀ path, crossroadsSnapshot.compute path =
      { crossroadsSnapshot with
        cascade := (crossroadsAt ["a"] ++ crossroadsAt ["a"] ++ [topEntry crossroadsRow]) ++
          crossroadsAt ["a", "b"] ++ [crossroadsWayAt "b"] ++
          [crossroadsWayAt "c", topEntry crossroadsFork] }.compute path := by
  obtain ⟨hlayer, hrow, hfork⟩ := layered_twice
  have hdoubled : doubled.WellFormed := by
    simp [doubled, Configuration.WellFormed, Value.WellFormed, Value.FieldsWellFormed,
      Value.ItemsWellFormed]
  have hdetour : ∀ f ∈ detour, f.WellFormed := by
    simp [detour, Fragment.WellFormed, Value.WellFormed, Value.FieldsWellFormed,
      Value.ItemsWellFormed]
  have hfragments : ∀ f ∈ crossroadsSnapshot.cascade.map Entry.fragment, f.WellFormed := by
    simp [crossroadsSnapshot, crossroadsAt, crossroads, crossroadsWayAt, crossroadsWay, topEntry,
      crossroadsRow, crossroadsFork, Fragment.WellFormed, Value.WellFormed,
      Value.FieldsWellFormed, Value.ItemsWellFormed]
  have hwf : ∀ x ∈ crossroadsSnapshot.cascade, x.fragment.WellFormed :=
    fun x hx => hfragments _ (List.mem_map_of_mem hx)
  have htwice : SplicedTwice crossroadsRegistry crossroads (crossroadsWayAt "b")
      (crossroadsWayAt "c")
      (crossroadsAt ["a"] ++ crossroadsAt ["a"] ++ [topEntry crossroadsRow])
      (crossroadsAt ["a", "b"]) [crossroadsWayAt "b"] (crossroadsAt ["a", "c"])
      [crossroadsWayAt "c", topEntry crossroadsFork] crossroadsSnapshot.cascade := by
    refine ⟨rfl, splice_crossroads rfl rfl, splice_crossroads rfl rfl, ?_⟩
    exact List.forall_mem_singleton.2 ⟨rfl, rfl⟩
  have hmem : topEntry crossroadsRow ∈ crossroadsSnapshot.cascade := by simp [crossroadsSnapshot]
  refine ⟨hlayer _ _ hdoubled hdetour, rfl, ?_, ?_⟩
  · exact hrow _ _ _ _ _ ofFragments_crossroads hwf _ hmem [] [] _ standsOn_crossroadsRow
  · intro path
    exact hfork _ _ _ _ _ _ _ _ _ _ htwice hwf path fun _ => rfl

end RuleCascade
