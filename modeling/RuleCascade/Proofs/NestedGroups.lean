import Mathlib.Data.List.Basic
import Mathlib.Logic.Relation
import RuleCascade.Proofs.ClassScanning

/-! # Groups inside groups

    The expansion replaces the first group of a text by one alternative, and
    then scans the whole text again. What a pattern stands for has nothing to
    do with scanning: a piece stands for its own text, a group for what its
    alternatives stand for, one after another, and a sequence for the texts
    that are put together from one choice for each of its parts.

    The two agree wherever the scanners read classes as the check does. The
    text with an alternative in place of the group is the text of a sequence
    again, the alternative with the rest of the pattern behind it. Choosing
    first and going on behind the choice is choosing in all of that sequence.
    A text in front of the first group has no part in it: it goes in front of
    every result.

    Main statement: `expandBraces_eq_choices`.
-/

namespace RuleCascade.Pattern

/-! ## Section 1: Patterns as they nest -/

/-- The piece is no brace and, in an alternative of a group, no comma. -/
structure Piece.Literal (grouped : Bool) (p : Piece) : Prop where
  sound : p.Sound
  no_brace : ¬ p.IsBrace
  no_comma : grouped = true → p ≠ .comma

/-- An alternative can stand outside the group as well. -/
theorem Piece.Literal.loosen {p : Piece} (h : p.Literal true) (grouped : Bool) :
    p.Literal grouped :=
  ⟨h.sound, h.no_brace, fun _ => h.no_comma rfl⟩

theorem Piece.literal_plain {grouped : Bool} {c : Char}
    (h : c ≠ '[' ∧ c ≠ '\x7b' ∧ c ≠ '\x7d' ∧ c ≠ ',') : (Piece.plain c).Literal grouped := by
  obtain ⟨hbracket, hopen, hclose, hcomma⟩ := h
  exact ⟨hbracket, by simp [hopen, hclose], by simp [hcomma]⟩

/-- The parts of a pattern. -/
inductive Part where
  /-- Pieces and groups side by side: a whole pattern or an alternative of a group. -/
  | sequence (grouped : Bool)
  /-- All alternatives of a group. -/
  | alternatives

/-- A pattern as it nests. A group has at least one alternative. -/
inductive Nest : Part → Type where
  | empty {grouped : Bool} : Nest (.sequence grouped)
  | piece {grouped : Bool} (p : Piece) (h : p.Literal grouped) (rest : Nest (.sequence grouped)) :
      Nest (.sequence grouped)
  | group {grouped : Bool} (inside : Nest .alternatives) (rest : Nest (.sequence grouped)) :
      Nest (.sequence grouped)
  | last (only : Nest (.sequence true)) : Nest .alternatives
  | more (first : Nest (.sequence true)) (others : Nest .alternatives) : Nest .alternatives

namespace Nest

variable {part : Part} {grouped : Bool}

/-- The pieces that it is written with: braces around groups, commas between alternatives. -/
def pieces {part : Part} : Nest part → List Piece
  | .empty => []
  | .piece p _ rest => p :: rest.pieces
  | .group inside rest => .opening :: inside.pieces ++ .closing :: rest.pieces
  | .last only => only.pieces
  | .more first others => first.pieces ++ .comma :: others.pieces

/-- What it is written as. -/
def text (n : Nest part) : List Char := spell n.pieces

/-- The texts that it stands for. In a sequence the leftmost group varies slowest. -/
def choices {part : Part} : Nest part → List (List Char)
  | .empty => [[]]
  | .piece p _ rest => rest.choices.map (p.text ++ ·)
  | .group inside rest => inside.choices.flatMap fun chosen => rest.choices.map (chosen ++ ·)
  | .last only => only.choices
  | .more first others => first.choices ++ others.choices

/-- The alternatives, one by one. -/
def toList : Nest .alternatives → List (Nest (.sequence true))
  | .last only => [only]
  | .more first others => first :: others.toList

/-- The sequence with another behind it. -/
def append : Nest (.sequence true) → Nest (.sequence grouped) → Nest (.sequence grouped)
  | .empty, t => t
  | .piece p h rest, t => .piece p (h.loosen grouped) (rest.append t)
  | .group inside rest, t => .group inside (rest.append t)

/-- The alternatives, with something put in front of the first one. -/
def onFirst (f : Nest (.sequence true) → Nest (.sequence true)) :
    Nest .alternatives → Nest .alternatives
  | .last only => .last (f only)
  | .more first others => .more (f first) others

/-- Induction along a sequence that does not go into its groups. -/
@[elab_as_elim]
theorem sequence_induction {motive : Nest (.sequence grouped) → Prop} (empty : motive .empty)
    (piece : ∀ p h rest, motive rest → motive (.piece p h rest))
    (group : ∀ inside rest, motive rest → motive (.group inside rest)) : ∀ s, motive s
  | .empty => empty
  | .piece p h rest => piece p h rest (sequence_induction empty piece group rest)
  | .group inside rest => group inside rest (sequence_induction empty piece group rest)

/-! ## Section 2: The pieces -/

theorem balanced (n : Nest part) : Balanced n.pieces := by
  induction n with
  | empty => exact .nil
  | piece p h rest ih => exact .cons h.no_brace ih
  | group inside rest ihinside ihrest => exact .group ihinside ihrest
  | last only ih => exact ih
  | more first others ihfirst ihothers => exact ihfirst.append (.cons (by decide) ihothers)

theorem sound (n : Nest part) : ∀ p ∈ n.pieces, p.Sound := by
  -- braces and commas are plain characters
  have hmark : ∀ c : Char, c ≠ '[' → (Piece.plain c).Sound := fun c hc => hc
  induction n with
  | empty => exact List.forall_mem_nil _
  | piece p h rest ih => exact List.forall_mem_cons.2 ⟨h.sound, ih⟩
  | group inside rest ihinside ihrest =>
    have hrest := List.forall_mem_cons.2 ⟨hmark '\x7d' (by decide), ihrest⟩
    exact List.forall_mem_append.2
      ⟨List.forall_mem_cons.2 ⟨hmark '\x7b' (by decide), ihinside⟩, hrest⟩
  | last only ih => exact ih
  | more first others ihfirst ihothers =>
    have hothers := List.forall_mem_cons.2 ⟨hmark ',' (by decide), ihothers⟩
    exact List.forall_mem_append.2 ⟨ihfirst, hothers⟩

theorem reads (n : Nest part) : Reads n.text n.pieces :=
  reads_spell n.sound

theorem pieces_append (s : Nest (.sequence true)) (t : Nest (.sequence grouped)) :
    (s.append t).pieces = s.pieces ++ t.pieces := by
  fun_induction append s t with
  | case1 t => rfl
  | case2 p h rest t ih => simp [pieces, ih]
  | case3 inside rest t ih => simp [pieces, ih]

theorem pieces_onFirst {f : Nest (.sequence true) → Nest (.sequence true)} {ps : List Piece}
    (hf : ∀ s, (f s).pieces = ps ++ s.pieces) (a : Nest .alternatives) :
    (a.onFirst f).pieces = ps ++ a.pieces := by
  cases a with
  | last only => exact hf only
  | more first others => simp [onFirst, pieces, hf]

theorem pieces_sublist {s : Nest (.sequence true)} {a : Nest .alternatives} (h : s ∈ a.toList) :
    s.pieces.Sublist a.pieces := by
  fun_induction toList a with
  | case1 only =>
    obtain rfl := List.mem_singleton.1 h
    exact List.Sublist.refl _
  | case2 first others ih =>
    rcases List.mem_cons.1 h with rfl | hothers
    · exact List.sublist_append_left _ _
    · have hsub := (ih hothers).cons Piece.comma
      exact hsub.trans (List.sublist_append_right first.pieces _)

/-- With an alternative in place of the group, at least the braces are gone. -/
theorem pieces_append_sublist {s : Nest (.sequence true)} {inside : Nest .alternatives}
    (h : s ∈ inside.toList) (rest : Nest (.sequence grouped)) :
    (s.append rest).pieces.Sublist (inside.pieces ++ .closing :: rest.pieces) := by
  rw [pieces_append]
  exact (pieces_sublist h).append (List.sublist_cons_self .closing rest.pieces)

/-- Balanced pieces can be read as a sequence, and as alternatives too. -/
theorem exists_of_balanced {ps : List Piece} (h : Balanced ps) (hsound : ∀ p ∈ ps, p.Sound) :
    (∃ s : Nest (.sequence false), s.pieces = ps) ∧ ∃ a : Nest .alternatives, a.pieces = ps := by
  induction h with
  | nil => exact ⟨⟨.empty, rfl⟩, ⟨.last .empty, rfl⟩⟩
  | @cons p rest hbrace _ ih =>
    obtain ⟨hp, hrest⟩ := List.forall_mem_cons.1 hsound
    obtain ⟨⟨s, hs⟩, ⟨a, ha⟩⟩ := ih hrest
    have hliteral : p.Literal false := ⟨hp, hbrace, fun htrue => by cases htrue⟩
    refine ⟨⟨.piece p hliteral s, by rw [pieces, hs]⟩, ?_⟩
    by_cases hcomma : p = .comma
    · -- the comma ends an alternative that is empty so far
      subst hcomma
      exact ⟨.more .empty a, by simp [pieces, ha]⟩
    · have hgrouped : p.Literal true := ⟨hp, hbrace, fun _ => hcomma⟩
      have hfirst : ∀ s, (Nest.piece p hgrouped s).pieces = [p] ++ s.pieces := fun _ => rfl
      exact ⟨a.onFirst (.piece p hgrouped), by rw [pieces_onFirst hfirst, ha, List.singleton_append]⟩
  | @group inside rest _ _ ihinside ihrest =>
    obtain ⟨hinside, hrest⟩ := forall_mem_of_group hsound
    obtain ⟨_, ⟨inner, hinner⟩⟩ := ihinside hinside
    obtain ⟨⟨s, hs⟩, ⟨a, ha⟩⟩ := ihrest hrest
    have hfirst : ∀ s : Nest (.sequence true),
        (Nest.group inner s).pieces = (.opening :: inside ++ [.closing]) ++ s.pieces := by
      intro s
      simp [pieces, hinner]
    refine ⟨⟨.group inner s, by rw [pieces, hinner, hs]⟩, ⟨a.onFirst (.group inner), ?_⟩⟩
    rw [pieces_onFirst hfirst, ha]
    simp

theorem text_piece (p : Piece) (h : p.Literal grouped) (rest : Nest (.sequence grouped)) :
    (Nest.piece p h rest).text = p.text ++ rest.text :=
  rfl

theorem text_group (inside : Nest .alternatives) (rest : Nest (.sequence grouped)) :
    (Nest.group inside rest).text = '\x7b' :: (inside.text ++ '\x7d' :: rest.text) :=
  spell_group inside.pieces rest.pieces

theorem text_more (first : Nest (.sequence true)) (others : Nest .alternatives) :
    (Nest.more first others).text = first.text ++ ',' :: others.text := by
  simp [text, pieces, Piece.text]

theorem text_append (s : Nest (.sequence true)) (t : Nest (.sequence grouped)) :
    (s.append t).text = s.text ++ t.text := by
  rw [text, pieces_append, spell_append]
  rfl

/-! ## Section 3: The choices -/

theorem choices_eq_flatMap (a : Nest .alternatives) : a.choices = a.toList.flatMap choices := by
  fun_induction toList a with
  | case1 only => simp [choices]
  | case2 first others ih => simp [choices, ih]

/-- One choice for each of the two sequences. -/
theorem choices_append (s : Nest (.sequence true)) (t : Nest (.sequence grouped)) :
    (s.append t).choices = s.choices.flatMap fun chosen => t.choices.map (chosen ++ ·) := by
  fun_induction append s t with
  | case1 t => simp [choices]
  | case2 p h rest t ih => simp [choices, ih, List.map_flatMap, List.flatMap_map, Function.comp_def]
  | case3 inside rest t ih =>
    simp [choices, ih, List.map_flatMap, List.flatMap_map, List.flatMap_assoc, Function.comp_def]

end Nest

/-! ## Section 4: Scanning nested groups -/

variable {grouped : Bool}

/-- The commas in an alternative are those of its groups, so it is not split. -/
theorem splitFrom_sequence (s : Nest (.sequence true)) (hlegible : Legible s.pieces)
    {rest first : List Char} {others : List (List Char)}
    (hrest : splitFrom 0 false rest = first :: others) :
    splitFrom 0 false (s.text ++ rest) = (s.text ++ first) :: others := by
  induction s using Nest.sequence_induction with
  | empty => exact hrest
  | piece p h after ih =>
    obtain ⟨hp, hafter⟩ := List.forall_mem_cons.1 hlegible
    have hcomma : p = .comma → 0 < 0 := fun heq => absurd heq (h.no_comma rfl)
    rw [Nest.text_piece, List.append_assoc, List.append_assoc]
    exact splitFrom_text hp h.no_brace _ hcomma (ih hafter)
  | group inside after ih =>
    obtain ⟨hinside, hafter⟩ := forall_mem_of_group hlegible
    -- inside the braces nothing splits, so the alternative goes on behind them
    have hclosed := splitFrom_closing (ih hafter)
    have hinner := splitFrom_spell inside.balanced hinside (Nat.succ_pos 0) hclosed
    have hopened := splitFrom_opening hinner
    rw [Nest.text_group, Nest.text]
    simpa using hopened

/-- A group is split into its alternatives. -/
theorem splitAlternatives_text (a : Nest .alternatives) (hlegible : Legible a.pieces) :
    splitAlternatives a.text = a.toList.map Nest.text := by
  fun_induction Nest.toList a with
  | case1 only =>
    have hempty : splitFrom 0 false [] = [[]] := rfl
    have hsplit := splitFrom_sequence only hlegible hempty
    rw [List.append_nil] at hsplit
    exact hsplit
  | case2 first others ih =>
    obtain ⟨hfirst, hmore⟩ := List.forall_mem_append.1 hlegible
    obtain ⟨_, hothers⟩ := List.forall_mem_cons.1 hmore
    have hcomma : splitFrom 0 false (',' :: others.text) = [] :: others.toList.map Nest.text := by
      rw [← ih hothers]
      rfl
    have hsplit := splitFrom_sequence first hfirst hcomma
    rw [List.append_nil] at hsplit
    rw [Nest.text_more]
    exact hsplit

/-! ## Section 5: The expansion -/

/-- A step of the expansion puts an alternative in place of the first group. -/
theorem expandBraces_group {before : List Piece} (hbefore : ∀ p ∈ before, ¬ p.IsBrace)
    (inside : Nest .alternatives) (rest : Nest (.sequence false))
    (hlegible : Legible (before ++ (Nest.group inside rest).pieces)) :
    expandBraces (spell before ++ (Nest.group inside rest).text) =
      inside.toList.flatMap fun s => expandBraces (spell before ++ (s.append rest).text) := by
  have hinside : Legible inside.pieces :=
    (forall_mem_of_group (List.forall_mem_append.1 hlegible).2).1
  have hgroup : firstGroup? (spell before ++ (Nest.group inside rest).text) =
      some ⟨spell before, inside.text, rest.text⟩ := by
    rw [Nest.text, ← spell_append]
    exact firstGroup?_group hbefore inside.balanced hlegible
  rw [expandBraces_of_some hgroup, splitAlternatives_text inside hinside, List.flatMap_map]
  apply List.flatMap_congr
  intro s _
  rw [Nest.text_append, List.append_assoc]

/-- Pieces in front of a sequence go in front of everything that it stands for. -/
theorem expandBraces_spell_append {before : List Piece} (hbefore : ∀ p ∈ before, ¬ p.IsBrace)
    (s : Nest (.sequence false)) (hlegible : Legible (before ++ s.pieces)) :
    expandBraces (spell before ++ s.text) = s.choices.map (spell before ++ ·) := by
  -- a step makes the sequence shorter, since the braces of the group go away
  induction hlength : s.pieces.length using Nat.strong_induction_on generalizing before s with
  | _ n ih =>
  cases s with
  | empty =>
    have hbraces : ∀ p ∈ before ++ [], ¬ p.IsBrace := by
      rw [List.append_nil]
      exact hbefore
    have hnone := firstGroup?_eq_none hbraces hlegible
    rw [spell_append] at hnone
    exact expandBraces_of_none hnone
  | piece p h rest =>
    -- the piece joins those in front
    have hbraces : ∀ q ∈ before ++ [p], ¬ q.IsBrace :=
      List.forall_mem_append.2 ⟨hbefore, by simpa using h.no_brace⟩
    have hjoined : before ++ (Nest.piece p h rest).pieces = before ++ [p] ++ rest.pieces := by
      simp [Nest.pieces]
    have hlt : rest.pieces.length < n := by
      rw [← hlength, Nest.pieces, List.length_cons]
      exact Nat.lt_succ_self _
    have hrest := ih _ hlt hbraces rest (hjoined ▸ hlegible) rfl
    have hspell : spell (before ++ [p]) = spell before ++ p.text := by simp
    rw [hspell] at hrest
    rw [Nest.text_piece, ← List.append_assoc, hrest, Nest.choices, List.map_map]
    simp [Function.comp_def]
  | group inside rest =>
    have hstep : ∀ s ∈ inside.toList, expandBraces (spell before ++ (s.append rest).text) =
        (s.append rest).choices.map (spell before ++ ·) := by
      intro s hs
      have hsub := Nest.pieces_append_sublist hs rest
      have hlt : (s.append rest).pieces.length < n := by
        have hle := hsub.length_le
        rw [← hlength, Nest.pieces, List.cons_append, List.length_cons]
        omega
      have hgroup : (s.append rest).pieces.Sublist (Nest.group inside rest).pieces := by
        rw [Nest.pieces]
        exact hsub.cons Piece.opening
      have hlegible' : Legible (before ++ (s.append rest).pieces) :=
        hlegible.sublist ((List.Sublist.refl before).append hgroup)
      exact ih _ hlt hbefore (s.append rest) hlegible' rfl
    have hchoices : ∀ s ∈ inside.toList, (s.append rest).choices =
        s.choices.flatMap fun chosen => rest.choices.map (chosen ++ ·) :=
      fun s _ => Nest.choices_append s rest
    rw [expandBraces_group hbefore inside rest hlegible, List.flatMap_congr hstep,
      ← List.map_flatMap, List.flatMap_congr hchoices, ← List.flatMap_assoc,
      ← Nest.choices_eq_flatMap, Nest.choices]

/-! ## Section 6: One group at a time

    The expansion can be run without recursion, on a stack of patterns that may
    still have groups. Each turn takes the topmost one. -/

/-- The patterns on the stack, topmost first, and the results so far. -/
structure Worklist where
  pending : List (List Char)
  results : List (List Char)

/-- A pattern without a group is a result. In any other the first group is replaced by each of its
    alternatives, and all of these go on the stack. -/
inductive Turn : Worklist → Worklist → Prop where
  | result {cs : List Char} {pending results : List (List Char)} : firstGroup? cs = none →
      Turn ⟨cs :: pending, results⟩ ⟨pending, results ++ [cs]⟩
  | replace {cs : List Char} {g : BraceGroup} {pending results : List (List Char)} :
      firstGroup? cs = some g →
      Turn ⟨cs :: pending, results⟩
        ⟨(splitAlternatives g.inside).map (fun part => g.before ++ part ++ g.after) ++ pending,
          results⟩

theorem Turn.unique {w next other : Worklist} (h : Turn w next) (h' : Turn w other) :
    next = other := by
  cases h with
  | result hnone =>
    cases h' with
    | result _ => rfl
    | replace hsome =>
      rw [hnone] at hsome
      cases hsome
  | replace hsome =>
    cases h' with
    | result hnone =>
      rw [hsome] at hnone
      cases hnone
    | replace hother =>
      rw [hsome] at hother
      cases hother
      rfl

/-- What holds of each of the patterns on top of the stack holds of all of them together. -/
theorem turns_flatMap {tops : List (List Char)}
    (h : ∀ cs ∈ tops, ∀ pending results,
      Relation.ReflTransGen Turn ⟨cs :: pending, results⟩ ⟨pending, results ++ expandBraces cs⟩)
    (pending results : List (List Char)) :
    Relation.ReflTransGen Turn ⟨tops ++ pending, results⟩
      ⟨pending, results ++ tops.flatMap expandBraces⟩ := by
  induction tops generalizing results with
  | nil => simpa using Relation.ReflTransGen.refl
  | cons cs others ih =>
    obtain ⟨hfirst, hothers⟩ := List.forall_mem_cons.1 h
    have hrest := ih hothers (results ++ expandBraces cs)
    rw [List.append_assoc, ← List.flatMap_cons] at hrest
    exact (hfirst (others ++ pending) results).trans hrest

/-- After some turns a pattern is off the stack, and its expansion is with the results. What lies
    below it is not touched before. -/
theorem turns_expandBraces (cs : List Char) (pending results : List (List Char)) :
    Relation.ReflTransGen Turn ⟨cs :: pending, results⟩ ⟨pending, results ++ expandBraces cs⟩ := by
  induction cs using expandBraces.induct generalizing pending results with
  | case1 cs hnone =>
    rw [expandBraces_of_none hnone]
    exact .single (.result hnone)
  | case2 cs g hg ih =>
    have htops : ∀ next ∈ (splitAlternatives g.inside).map
        (fun part => g.before ++ part ++ g.after), ∀ pending results,
        Relation.ReflTransGen Turn ⟨next :: pending, results⟩
          ⟨pending, results ++ expandBraces next⟩ := by
      intro next hnext
      obtain ⟨part, hpart, rfl⟩ := List.mem_map.1 hnext
      exact ih ⟨part, hpart⟩
    have hturns := turns_flatMap htops pending results
    rw [List.flatMap_map, ← expandBraces_of_some hg] at hturns
    exact .head (.replace hg) hturns

theorem eq_of_turns_nil {results : List (List Char)} {w : Worklist}
    (h : Relation.ReflTransGen Turn ⟨[], results⟩ w) : w = ⟨[], results⟩ := by
  rcases h.cases_head with heq | ⟨next, hturn, _⟩
  · exact heq.symm
  · cases hturn

/-- The stack gets empty, and then the results are the expansion. -/
theorem turns_iff {cs : List Char} {results : List (List Char)} :
    Relation.ReflTransGen Turn ⟨[cs], []⟩ ⟨[], results⟩ ↔ results = expandBraces cs := by
  have hruns := turns_expandBraces cs [] []
  constructor
  · intro h
    -- each worklist has one turn at most, so one of the two runs goes on where the other ends
    have hunique : Relator.RightUnique Turn := fun _ _ _ => Turn.unique
    rcases Relation.ReflTransGen.total_of_right_unique hunique h hruns with hmore | hmore
    · have heq := eq_of_turns_nil hmore
      cases heq
      rfl
    · have heq := eq_of_turns_nil hmore
      cases heq
      rfl
  · intro h
    subst h
    exact hruns

/-! ## Section 7: Accepted patterns -/

/-- The flag is set for all members of a class that does not start with a closing bracket. -/
theorem Piece.shielded_cls {body : List Char} (h : (unmarked body).head? ≠ some ']') :
    (Piece.cls body).Shielded := by
  have hnone : exposed body = [] := by
    unfold exposed
    split
    · rename_i others hbody
      rw [hbody] at h
      exact absurd rfl h
    · rfl
  intro c hc
  rw [hnone] at hc
  cases hc

/-- An accepted pattern, in which no class has a closing bracket as its first member, nests in
    some way, and its expansion is the list of the texts that it stands for. It is also what comes
    out when one group is replaced at a time. -/
theorem expandBraces_eq_choices {cs : List Char} (h : checkBalance cs = .ok ())
    (hclasses : ∀ ps, Reads cs ps → ∀ body, .cls body ∈ ps → (unmarked body).head? ≠ some ']') :
    (∃ s : Nest (.sequence false), s.text = cs) ∧
      ∀ s : Nest (.sequence false), s.text = cs → expandBraces cs = s.choices ∧
        ∀ results, Relation.ReflTransGen Turn ⟨[cs], []⟩ ⟨[], results⟩ ↔ results = s.choices := by
  constructor
  · obtain ⟨ps, hreads, hbalanced⟩ := checkBalance_eq_ok_iff.1 h
    obtain ⟨⟨s, hs⟩, _⟩ := Nest.exists_of_balanced hbalanced hreads.sound
    exact ⟨s, by rw [Nest.text, hs, hreads.spell_eq]⟩
  · rintro s rfl
    have hlegible : Legible s.pieces := by
      intro p hp
      refine ⟨s.sound p hp, ?_⟩
      cases p with
      | plain c => trivial
      | cls body => exact Piece.shielded_cls (hclasses s.pieces s.reads body hp)
    have hexpand : expandBraces s.text = s.choices := by
      simpa using expandBraces_spell_append (List.forall_mem_nil _) s hlegible
    refine ⟨hexpand, ?_⟩
    intro results
    rw [turns_iff, hexpand]

/-- A group in a group, with an empty alternative and a class with a comma, and behind it a group
    with the same alternative twice. -/
def nestedGroups : Nest (.sequence false) :=
  .group
    (.more
      (.piece (.plain 'a') (Piece.literal_plain (by decide))
        (.group
          (.more (.piece (.plain 'b') (Piece.literal_plain (by decide)) .empty) (.last .empty))
          .empty))
      (.last (.piece (.cls [',']) ⟨⟨',', [], rfl, by decide⟩, by decide, by decide⟩ .empty)))
    (.group
      (.more (.piece (.plain 'c') (Piece.literal_plain (by decide)) .empty)
        (.last (.piece (.plain 'c') (Piece.literal_plain (by decide)) .empty)))
      .empty)

theorem expandBraces_eq_choices_nestedGroups :
    checkBalance "\x7ba\x7bb,\x7d,[,]\x7d\x7bc,c\x7d".toList = .ok () ∧
    expandBraces "\x7ba\x7bb,\x7d,[,]\x7d\x7bc,c\x7d".toList =
      ["abc".toList, "abc".toList, "ac".toList, "ac".toList, "[,]c".toList, "[,]c".toList] := by
  have htext : nestedGroups.text = "\x7ba\x7bb,\x7d,[,]\x7d\x7bc,c\x7d".toList := by decide
  have hbalance : checkBalance "\x7ba\x7bb,\x7d,[,]\x7d\x7bc,c\x7d".toList = .ok () := by
    decide +kernel
  have hclasses : ∀ ps, Reads "\x7ba\x7bb,\x7d,[,]\x7d\x7bc,c\x7d".toList ps →
      ∀ body, .cls body ∈ ps → (unmarked body).head? ≠ some ']' := by
    intro ps hps body hbody
    obtain rfl := hps.unique (htext ▸ nestedGroups.reads)
    simp [nestedGroups, Nest.pieces] at hbody
    simp [hbody, unmarked]
  obtain ⟨_, hexpand⟩ := expandBraces_eq_choices hbalance hclasses
  exact ⟨hbalance, (hexpand nestedGroups htext).1⟩

end RuleCascade.Pattern
