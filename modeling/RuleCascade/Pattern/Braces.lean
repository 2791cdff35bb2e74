/-! # Brace expansion

    A pattern with braces stands for several patterns without. The leftmost
    outermost group is replaced by each of its alternatives in turn, and every
    result is expanded again, so the leftmost group varies slowest.

    The two scanners below tell class members from braces and commas by a flag:
    a bracket sets it, the next closing bracket clears it.
-/

namespace RuleCascade.Pattern

/-! ## Section 1: The first group -/

/-- A pattern split around its first group; the two braces are left out. -/
structure BraceGroup where
  before : List Char
  inside : List Char
  after : List Char
deriving DecidableEq, Repr

/-- The text up to the brace that closes the open group, and the text after it. `depth`
groups are open inside it. -/
def closeGroup? (depth : Nat) (inClass : Bool) : List Char → Option (List Char × List Char)
  | [] => none
  | c :: rest =>
    let keep := fun (found : List Char × List Char) => (c :: found.1, found.2)
    if c = '[' && !inClass then (closeGroup? depth true rest).map keep
    else if c = ']' && inClass then (closeGroup? depth false rest).map keep
    else if c = '\x7b' && !inClass then (closeGroup? (depth + 1) inClass rest).map keep
    else if c = '\x7d' && !inClass then
      match depth with
      | 0 => some ([], rest)
      | outer + 1 => (closeGroup? outer inClass rest).map keep
    else (closeGroup? depth inClass rest).map keep

/-- The first group outside all classes, if it closes. -/
def groupFrom? (inClass : Bool) : List Char → Option BraceGroup
  | [] => none
  | c :: rest =>
    let keep := fun (g : BraceGroup) => { g with before := c :: g.before }
    if c = '[' && !inClass then (groupFrom? true rest).map keep
    else if c = ']' && inClass then (groupFrom? false rest).map keep
    else if c = '\x7b' && !inClass then
      (closeGroup? 0 inClass rest).map fun found => ⟨[], found.1, found.2⟩
    else (groupFrom? inClass rest).map keep

/-- The first group of a pattern. -/
def firstGroup? (cs : List Char) : Option BraceGroup :=
  groupFrom? false cs

theorem length_of_closeGroup? {depth : Nat} {inClass : Bool} {cs inside after : List Char}
    (h : closeGroup? depth inClass cs = some (inside, after)) :
    inside.length + after.length < cs.length := by
  induction cs generalizing depth inClass inside after with
  | nil => simp [closeGroup?] at h
  | cons c rest ih =>
    have step : ∀ {d b}, (closeGroup? d b rest).map
        (fun found : List Char × List Char => (c :: found.1, found.2)) = some (inside, after) →
        inside.length + after.length < (c :: rest).length := by
      intro d b hmap
      obtain ⟨⟨i, a⟩, hfound, heq⟩ := Option.map_eq_some_iff.1 hmap
      have := ih hfound
      simp only [Prod.mk.injEq] at heq
      rw [← heq.1, ← heq.2, List.length_cons, List.length_cons]
      omega
    simp only [closeGroup?] at h
    split at h
    · exact step h
    split at h
    · exact step h
    split at h
    · exact step h
    split at h
    · split at h
      · simp only [Option.some.injEq, Prod.mk.injEq] at h
        rw [← h.1, ← h.2]
        simp
      · exact step h
    · exact step h

theorem length_of_groupFrom? {inClass : Bool} {cs : List Char} {g : BraceGroup}
    (h : groupFrom? inClass cs = some g) :
    g.before.length + g.inside.length + g.after.length < cs.length := by
  induction cs generalizing inClass g with
  | nil => simp [groupFrom?] at h
  | cons c rest ih =>
    have step : ∀ {b}, (groupFrom? b rest).map
        (fun g : BraceGroup => { g with before := c :: g.before }) = some g →
        g.before.length + g.inside.length + g.after.length < (c :: rest).length := by
      intro b hmap
      obtain ⟨inner, hfound, rfl⟩ := Option.map_eq_some_iff.1 hmap
      have := ih hfound
      simp only [List.length_cons]
      omega
    simp only [groupFrom?] at h
    split at h
    · exact step h
    split at h
    · exact step h
    split at h
    · obtain ⟨⟨inside, after⟩, hfound, rfl⟩ := Option.map_eq_some_iff.1 h
      have := length_of_closeGroup? hfound
      simp only [List.length_nil, List.length_cons]
      omega
    · exact step h

/-! ## Section 2: Alternatives -/

/-- Put a character in front of the first alternative. -/
def onFirst (c : Char) : List (List Char) → List (List Char)
  | [] => [[c]]
  | part :: parts => (c :: part) :: parts

/-- Split at the commas outside groups and classes. -/
def splitFrom (depth : Nat) (inClass : Bool) : List Char → List (List Char)
  | [] => [[]]
  | c :: rest =>
    if c = '[' && !inClass then onFirst c (splitFrom depth true rest)
    else if c = ']' && inClass then onFirst c (splitFrom depth false rest)
    else if c = '\x7b' && !inClass then onFirst c (splitFrom (depth + 1) inClass rest)
    else if c = '\x7d' && !inClass then onFirst c (splitFrom (depth - 1) inClass rest)
    else if c = ',' && depth = 0 && !inClass then [] :: splitFrom depth inClass rest
    else onFirst c (splitFrom depth inClass rest)

/-- The alternatives of a group, empty ones included. -/
def splitAlternatives (inside : List Char) : List (List Char) :=
  splitFrom 0 false inside

theorem length_of_mem_onFirst {c : Char} {parts : List (List Char)} {part : List Char} {n : Nat}
    (hparts : ∀ p ∈ parts, p.length ≤ n) (h : part ∈ onFirst c parts) :
    part.length ≤ n + 1 := by
  cases parts with
  | nil => simp_all [onFirst]
  | cons first rest =>
    simp only [onFirst, List.mem_cons] at h
    rcases h with rfl | h
    · simpa using hparts first (by simp)
    · exact Nat.le_succ_of_le (hparts part (by simp [h]))

theorem length_of_mem_splitFrom {depth : Nat} {inClass : Bool} {cs part : List Char}
    (h : part ∈ splitFrom depth inClass cs) : part.length ≤ cs.length := by
  induction cs generalizing depth inClass part with
  | nil => simp_all [splitFrom]
  | cons c rest ih =>
    have step : ∀ {d b}, part ∈ onFirst c (splitFrom d b rest) →
        part.length ≤ (c :: rest).length := by
      intro d b hmem
      exact length_of_mem_onFirst (fun p hp => ih hp) hmem
    simp only [splitFrom] at h
    split at h
    · exact step h
    split at h
    · exact step h
    split at h
    · exact step h
    split at h
    · exact step h
    split at h
    · rcases List.mem_cons.1 h with rfl | hrest
      · simp
      · exact Nat.le_succ_of_le (ih hrest)
    · exact step h

/-! ## Section 3: Expansion -/

/-- All patterns without braces that a pattern stands for, in order. -/
def expandBraces (cs : List Char) : List (List Char) :=
  match _h : firstGroup? cs with
  | none => [cs]
  | some g =>
    (splitAlternatives g.inside).attach.flatMap fun part =>
      expandBraces (g.before ++ part.1 ++ g.after)
termination_by cs.length
decreasing_by
  have hgroup := length_of_groupFrom? _h
  have hpart := length_of_mem_splitFrom part.2
  simp only [List.length_append]
  omega

end RuleCascade.Pattern
