import RuleCascade.Pattern.Braces
import RuleCascade.Proofs.PatternReading

/-! # Classes under the brace scanners

    The scanners of the expansion keep a flag instead of reading classes. An
    opening bracket sets it, and the next closing bracket clears it, even one
    that is the first member of its class. The members after such a bracket are
    exposed, until another opening bracket sets the flag again.

    A brace or a comma among the exposed members is taken for one outside. As
    long as there is none, the scanners cut a pattern at pieces of its reading:
    at the braces of its first group, and at the commas between the
    alternatives of that group. Every pattern that comes up in the expansion is
    made of pieces of the one before it, so classes stay whole to the end.

    Main statement: `expandBraces_keepsClasses`. That the condition is needed
    shows `not_keepsClasses_exposedBrace`, an accepted pattern whose only group
    is never found.
-/

namespace RuleCascade.Pattern

/-! ## Section 1: The flag -/

/-- The members of a class for which the flag is not set. -/
def exposed (body : List Char) : List Char :=
  match unmarked body with
  | ']' :: others => others.takeWhile (· ≠ '[')
  | _ => []

/-- The flag hides all braces and commas of a class. -/
def Piece.Shielded : Piece → Prop
  | .plain _ => True
  | .cls body => ∀ c ∈ exposed body, c ≠ '\x7b' ∧ c ≠ '\x7d' ∧ c ≠ ','

/-- From the first state of the flag to the second, a scanner passes over the text. -/
inductive Passes : Bool → List Char → Bool → Prop where
  | done (flag : Bool) : Passes flag [] flag
  | set {cs : List Char} {last : Bool} : Passes true cs last → Passes false ('[' :: cs) last
  | clear {cs : List Char} {last : Bool} : Passes false cs last → Passes true (']' :: cs) last
  | hidden {c : Char} {cs : List Char} {last : Bool} :
      c ≠ ']' → Passes true cs last → Passes true (c :: cs) last
  | free {c : Char} {cs : List Char} {last : Bool} :
      c ≠ '[' → c ≠ '\x7b' → c ≠ '\x7d' → c ≠ ',' → Passes false cs last →
      Passes false (c :: cs) last

theorem passes_hidden {members : List Char} (h : ']' ∉ members) :
    Passes true (members ++ [']']) false := by
  induction members with
  | nil => exact .clear (.done false)
  | cons c rest ih =>
    obtain ⟨hc, hrest⟩ := not_or.1 (mt List.mem_cons.2 h)
    exact .hidden (Ne.symm hc) (ih hrest)

theorem passes_exposed {members : List Char} (h : ']' ∉ members)
    (hexposed : ∀ c ∈ members.takeWhile (· ≠ '['), c ≠ '\x7b' ∧ c ≠ '\x7d' ∧ c ≠ ',') :
    Passes false (members ++ [']']) false := by
  induction members with
  | nil => exact .free (by decide) (by decide) (by decide) (by decide) (.done false)
  | cons c rest ih =>
    obtain ⟨_, hrest⟩ := not_or.1 (mt List.mem_cons.2 h)
    by_cases hc : c = '['
    · -- from here on the class is hidden again
      subst hc
      exact .set (passes_hidden hrest)
    · rw [List.takeWhile_cons_of_pos (by simpa using hc)] at hexposed
      obtain ⟨⟨hopen, hclose, hcomma⟩, hothers⟩ := List.forall_mem_cons.1 hexposed
      exact .free hc hopen hclose hcomma (ih hrest hothers)

/-- A piece that the scanners read as the check does. -/
structure Piece.Legible (p : Piece) : Prop where
  sound : p.Sound
  shielded : p.Shielded

theorem passes_class {body : List Char} (h : (Piece.cls body).Legible) :
    Passes false (Piece.cls body).text false := by
  obtain ⟨⟨first, others, hbody, hothers⟩, hshielded⟩ := h
  have hmembers : Passes true (first :: others ++ [']']) false := by
    by_cases hfirst : first = ']'
    · -- the check takes the bracket for a member, but it clears the flag
      subst hfirst
      rw [Piece.Shielded, exposed, hbody] at hshielded
      exact .clear (passes_exposed hothers hshielded)
    · exact .hidden hfirst (passes_hidden hothers)
  refine .set ?_
  unfold unmarked at hbody
  split at hbody
  · rw [hbody]
    exact .hidden (by decide) hmembers
  · rw [hbody]
    exact hmembers

theorem Piece.Legible.passes {p : Piece} (h : p.Legible) (hbrace : ¬ p.IsBrace)
    (hcomma : p ≠ .comma) : Passes false p.text false := by
  cases p with
  | plain c =>
    obtain ⟨hopen, hclose⟩ := not_or.1 (mt Piece.isBrace_plain.2 hbrace)
    exact .free h.sound hopen hclose (fun heq => hcomma (by rw [heq])) (.done false)
  | cls body => exact passes_class h

/-! ## Section 2: Scanning over pieces -/

section passing

variable {flag last : Bool} {text : List Char} (h : Passes flag text last) (rest : List Char)

include h

-- The flag is all that a scanner knows of classes, so there is one case for each step of it.
theorem closeGroup?_passes (depth : Nat) :
    closeGroup? depth flag (text ++ rest) =
      (closeGroup? depth last rest).map fun found => (text ++ found.1, found.2) := by
  induction h with
  | done flag => simp
  | set _ ih => simp [closeGroup?, ih, Function.comp_def]
  | clear _ ih => simp [closeGroup?, ih, Function.comp_def]
  | hidden hc _ ih => simp [closeGroup?, ih, hc, Function.comp_def]
  | free hbracket hopen hclose _ _ ih =>
    simp [closeGroup?, ih, hbracket, hopen, hclose, Function.comp_def]

theorem groupFrom?_passes :
    groupFrom? flag (text ++ rest) =
      (groupFrom? last rest).map fun g => { g with before := text ++ g.before } := by
  induction h with
  | done flag => simp
  | set _ ih => simp [groupFrom?, ih, Function.comp_def]
  | clear _ ih => simp [groupFrom?, ih, Function.comp_def]
  | hidden hc _ ih => simp [groupFrom?, ih, hc, Function.comp_def]
  | free hbracket hopen _ _ _ ih => simp [groupFrom?, ih, hbracket, hopen, Function.comp_def]

theorem splitFrom_passes {depth : Nat} {first : List Char} {others : List (List Char)}
    (hrest : splitFrom depth last rest = first :: others) :
    splitFrom depth flag (text ++ rest) = (text ++ first) :: others := by
  induction h with
  | done flag => exact hrest
  | set _ ih => simp [splitFrom, ih hrest, onFirst]
  | clear _ ih => simp [splitFrom, ih hrest, onFirst]
  | hidden hc _ ih => simp [splitFrom, ih hrest, hc, onFirst]
  | free hbracket hopen hclose hcomma _ ih =>
    simp [splitFrom, ih hrest, hbracket, hopen, hclose, hcomma, onFirst]

end passing

section pieces

variable {p : Piece} (hp : p.Legible) (hbrace : ¬ p.IsBrace) (rest : List Char)

include hp hbrace

theorem closeGroup?_text (depth : Nat) :
    closeGroup? depth false (p.text ++ rest) =
      (closeGroup? depth false rest).map fun found => (p.text ++ found.1, found.2) := by
  by_cases hcomma : p = .comma
  · subst hcomma
    simp [Piece.text, closeGroup?]
  · exact closeGroup?_passes (hp.passes hbrace hcomma) rest depth

theorem groupFrom?_text :
    groupFrom? false (p.text ++ rest) =
      (groupFrom? false rest).map fun g => { g with before := p.text ++ g.before } := by
  by_cases hcomma : p = .comma
  · subst hcomma
    simp [Piece.text, groupFrom?]
  · exact groupFrom?_passes (hp.passes hbrace hcomma) rest

/-- Only a comma outside all groups splits. -/
theorem splitFrom_text {depth : Nat} (hcomma : p = .comma → 0 < depth) {first : List Char}
    {others : List (List Char)} (hrest : splitFrom depth false rest = first :: others) :
    splitFrom depth false (p.text ++ rest) = (p.text ++ first) :: others := by
  by_cases heq : p = .comma
  · have hdepth := hcomma heq
    subst heq
    simp [Piece.text, splitFrom, hrest, onFirst, Nat.ne_of_gt hdepth]
  · exact splitFrom_passes (hp.passes hbrace heq) rest hrest

end pieces

section braces

variable {depth : Nat} {rest first : List Char} {others : List (List Char)}

theorem splitFrom_opening (h : splitFrom (depth + 1) false rest = first :: others) :
    splitFrom depth false ('\x7b' :: rest) = ('\x7b' :: first) :: others := by
  simp [splitFrom, h, onFirst]

theorem splitFrom_closing (h : splitFrom depth false rest = first :: others) :
    splitFrom (depth + 1) false ('\x7d' :: rest) = ('\x7d' :: first) :: others := by
  simp [splitFrom, h, onFirst]

end braces

/-! ## Section 3: Joined parts -/

theorem intercalate_append_first (ps first : List Piece) (others : List (List Piece)) :
    [Piece.comma].intercalate ((ps ++ first) :: others) =
      ps ++ [Piece.comma].intercalate (first :: others) := by
  cases others with
  | nil => simp
  | cons second more => simp [List.intercalate_cons_cons]

theorem sublist_intercalate {part : List Piece} {parts : List (List Piece)} (h : part ∈ parts) :
    part.Sublist ([.comma].intercalate parts) := by
  induction parts with
  | nil => cases h
  | cons first others ih =>
    cases others with
    | nil =>
      obtain rfl := List.mem_singleton.1 h
      simp
    | cons second more =>
      rw [List.intercalate_cons_cons]
      rcases List.mem_cons.1 h with rfl | hothers
      · rw [List.append_assoc]
        exact List.sublist_append_left _ _
      · exact (ih hothers).trans (List.sublist_append_right _ _)

theorem mem_intercalate {p : Piece} {parts : List (List Piece)}
    (h : p ∈ [Piece.comma].intercalate parts) (hcomma : p ≠ .comma) : ∃ part ∈ parts, p ∈ part := by
  induction parts with
  | nil => simp at h
  | cons first others ih =>
    cases others with
    | nil =>
      rw [List.intercalate_singleton] at h
      exact ⟨first, List.mem_singleton_self first, h⟩
    | cons second more =>
      rw [List.intercalate_cons_cons, List.append_assoc] at h
      rcases List.mem_append.1 h with hfirst | h
      · exact ⟨first, List.mem_cons_self, hfirst⟩
      rcases List.mem_cons.1 h with hsep | hrest
      · exact absurd hsep hcomma
      · obtain ⟨part, hpart, hmem⟩ := ih hrest
        exact ⟨part, List.mem_cons_of_mem first hpart, hmem⟩

/-! ## Section 4: Scanning balanced patterns -/

/-- Balanced pieces with no comma outside their groups. -/
inductive Alternative : List Piece → Prop where
  | nil : Alternative []
  | cons {p : Piece} {rest : List Piece} : ¬ p.IsBrace → p ≠ .comma → Alternative rest →
      Alternative (p :: rest)
  | group {inside rest : List Piece} : Balanced inside → Alternative rest →
      Alternative (.opening :: inside ++ .closing :: rest)

theorem Alternative.balanced {ps : List Piece} (h : Alternative ps) : Balanced ps := by
  induction h with
  | nil => exact .nil
  | cons hbrace _ _ ih => exact .cons hbrace ih
  | group hinside _ ih => exact .group hinside ih

/-- Pieces, all of which the scanners read as the check does. -/
def Legible (ps : List Piece) : Prop := ∀ p ∈ ps, p.Legible

theorem Legible.sublist {ps qs : List Piece} (h : Legible ps) (hsub : qs.Sublist ps) : Legible qs :=
  fun p hp => h p (hsub.subset hp)

theorem Legible.reads {ps : List Piece} (h : Legible ps) : Reads (spell ps) ps :=
  reads_spell fun p hp => (h p hp).sound

/-- Balanced pieces neither close the open group nor open it further. -/
theorem closeGroup?_spell {ps : List Piece} (h : Balanced ps) (hlegible : Legible ps) (depth : Nat)
    (rest : List Char) :
    closeGroup? depth false (spell ps ++ rest) =
      (closeGroup? depth false rest).map fun found => (spell ps ++ found.1, found.2) := by
  induction h generalizing depth rest with
  | nil => simp
  | cons hbrace _ ih =>
    obtain ⟨hp, hothers⟩ := List.forall_mem_cons.1 hlegible
    rw [spell_cons, List.append_assoc, closeGroup?_text hp hbrace, ih hothers]
    simp [Function.comp_def]
  | group _ _ ihinside ihrest =>
    obtain ⟨hinside, hothers⟩ := forall_mem_of_group hlegible
    rw [spell_group]
    simp [closeGroup?, ihinside hinside, ihrest hothers, Function.comp_def]

theorem closeGroup?_closing {inside : List Piece} (h : Balanced inside) (hlegible : Legible inside)
    (rest : List Char) :
    closeGroup? 0 false (spell inside ++ '\x7d' :: rest) = some (spell inside, rest) := by
  rw [closeGroup?_spell h hlegible]
  simp [closeGroup?]

theorem groupFrom?_spell {ps : List Piece} (h : ∀ p ∈ ps, ¬ p.IsBrace) (hlegible : Legible ps)
    (rest : List Char) :
    groupFrom? false (spell ps ++ rest) =
      (groupFrom? false rest).map fun g => { g with before := spell ps ++ g.before } := by
  induction ps with
  | nil => simp
  | cons p others ih =>
    obtain ⟨hbrace, hbraces⟩ := List.forall_mem_cons.1 h
    obtain ⟨hp, hothers⟩ := List.forall_mem_cons.1 hlegible
    rw [spell_cons, List.append_assoc, groupFrom?_text hp hbrace, ih hbraces hothers]
    simp [Function.comp_def]

theorem firstGroup?_eq_none {ps : List Piece} (h : ∀ p ∈ ps, ¬ p.IsBrace) (hlegible : Legible ps) :
    firstGroup? (spell ps) = none := by
  have hscan := groupFrom?_spell h hlegible []
  rw [List.append_nil] at hscan
  rw [firstGroup?, hscan]
  rfl

theorem firstGroup?_group {before inside after : List Piece} (h : ∀ p ∈ before, ¬ p.IsBrace)
    (hinside : Balanced inside)
    (hlegible : Legible (before ++ (.opening :: inside ++ .closing :: after))) :
    firstGroup? (spell (before ++ (.opening :: inside ++ .closing :: after))) =
      some ⟨spell before, spell inside, spell after⟩ := by
  obtain ⟨hbefore, hgroup⟩ := List.forall_mem_append.1 hlegible
  have hlegible' := (forall_mem_of_group hgroup).1
  rw [firstGroup?, spell_append, groupFrom?_spell h hbefore, spell_group]
  simp [groupFrom?, closeGroup?_closing hinside hlegible']

/-- Nothing in balanced pieces splits a text around them where a group is open. -/
theorem splitFrom_spell {ps : List Piece} (h : Balanced ps) (hlegible : Legible ps) {depth : Nat}
    (hdepth : 0 < depth) {rest first : List Char} {others : List (List Char)}
    (hrest : splitFrom depth false rest = first :: others) :
    splitFrom depth false (spell ps ++ rest) = (spell ps ++ first) :: others := by
  induction h generalizing depth rest first with
  | nil => exact hrest
  | cons hbrace _ ih =>
    obtain ⟨hp, hothers⟩ := List.forall_mem_cons.1 hlegible
    rw [spell_cons, List.append_assoc, List.append_assoc]
    exact splitFrom_text hp hbrace _ (fun _ => hdepth) (ih hothers hdepth hrest)
  | group _ _ ihinside ihrest =>
    obtain ⟨hinside, hothers⟩ := forall_mem_of_group hlegible
    have hclosed := splitFrom_closing (ihrest hothers hdepth hrest)
    have hopened := splitFrom_opening (ihinside hinside (Nat.succ_pos depth) hclosed)
    rw [spell_group]
    simpa using hopened

/-- The alternatives of a group are those that its commas separate. -/
theorem exists_splitAlternatives {inside : List Piece} (h : Balanced inside)
    (hlegible : Legible inside) :
    ∃ first others, splitAlternatives (spell inside) = spell first :: others.map spell ∧
      inside = [.comma].intercalate (first :: others) ∧
      ∀ part ∈ first :: others, Alternative part := by
  induction h with
  | nil => exact ⟨[], [], rfl, rfl, by simpa using Alternative.nil⟩
  | @cons p rest hbrace _ ih =>
    obtain ⟨hp, hrest⟩ := List.forall_mem_cons.1 hlegible
    obtain ⟨first, others, hsplit, hjoin, hparts⟩ := ih hrest
    by_cases hcomma : p = .comma
    · -- the comma ends an alternative that is empty so far
      subst hcomma
      refine ⟨[], first :: others, ?_, ?_, List.forall_mem_cons.2 ⟨.nil, hparts⟩⟩
      · show [] :: splitAlternatives (spell rest) = _
        rw [hsplit]
        rfl
      · rw [List.intercalate_cons_cons, ← hjoin]
        rfl
    · obtain ⟨hfirst, hothers⟩ := List.forall_mem_cons.1 hparts
      refine ⟨p :: first, others, ?_, ?_,
        List.forall_mem_cons.2 ⟨.cons hbrace hcomma hfirst, hothers⟩⟩
      · exact splitFrom_text hp hbrace _ (fun heq => absurd heq hcomma) hsplit
      · rw [hjoin]
        exact (intercalate_append_first [p] first others).symm
  | @group inner rest hinner _ _ ihrest =>
    obtain ⟨hlegible', hrest⟩ := forall_mem_of_group hlegible
    obtain ⟨first, others, hsplit, hjoin, hparts⟩ := ihrest hrest
    obtain ⟨hfirst, hothers⟩ := List.forall_mem_cons.1 hparts
    -- no comma inside the group counts, so all of it goes to the first alternative
    refine ⟨.opening :: inner ++ .closing :: first, others, ?_, ?_,
      List.forall_mem_cons.2 ⟨.group hinner hfirst, hothers⟩⟩
    · have hclosed := splitFrom_closing hsplit
      have hopened := splitFrom_opening
        (splitFrom_spell hinner hlegible' (Nat.succ_pos 0) hclosed)
      rw [spell_group, spell_group]
      exact hopened
    · have hjoined := intercalate_append_first (.opening :: inner ++ [.closing]) first others
      rw [hjoin]
      simpa using hjoined.symm

/-- Balanced pieces have no braces, or a first group. -/
theorem Balanced.group_or_not {ps : List Piece} (h : Balanced ps) :
    (∀ p ∈ ps, ¬ p.IsBrace) ∨
      ∃ before inside after, ps = before ++ (.opening :: inside ++ .closing :: after) ∧
        (∀ p ∈ before, ¬ p.IsBrace) ∧ Balanced inside ∧ Balanced after := by
  induction h with
  | nil => exact Or.inl (List.forall_mem_nil _)
  | @cons p rest hbrace _ ih =>
    rcases ih with hnone | ⟨before, inside, after, rfl, hbefore, hinside, hafter⟩
    · exact Or.inl (List.forall_mem_cons.2 ⟨hbrace, hnone⟩)
    · exact Or.inr ⟨p :: before, inside, after, rfl, List.forall_mem_cons.2 ⟨hbrace, hbefore⟩,
        hinside, hafter⟩
  | @group inside rest hinside hrest _ _ =>
    exact Or.inr ⟨[], inside, rest, rfl, List.forall_mem_nil _, hinside, hrest⟩

/-- The scanners have cut the pieces at the braces of a group and at the commas between its
    alternatives. -/
structure BraceGroup.Delimits (g : BraceGroup) (ps before : List Piece) (parts : List (List Piece))
    (after : List Piece) : Prop where
  pieces_eq : ps = before ++ (.opening :: [.comma].intercalate parts ++ .closing :: after)
  reads_before : Reads g.before before
  reads_inside : Reads g.inside ([.comma].intercalate parts)
  reads_after : Reads g.after after
  split_eq : splitAlternatives g.inside = parts.map spell
  reads_part : ∀ part ∈ parts, Reads (spell part) part
  parts_ne_nil : parts ≠ []
  no_brace : ∀ p ∈ before, ¬ p.IsBrace
  alternative : ∀ part ∈ parts, Alternative part
  balanced_after : Balanced after

/-- The scanners see the groups of the pieces, and nothing else, in the text. -/
structure ScannedAs (cs : List Char) (ps : List Piece) : Prop where
  no_group : firstGroup? cs = none ↔ ∀ p ∈ ps, ¬ p.IsBrace
  group : ∀ g, firstGroup? cs = some g → ∃ before parts after, g.Delimits ps before parts after

theorem delimits_of_group {before inside after : List Piece} (hbefore : ∀ p ∈ before, ¬ p.IsBrace)
    (hinside : Balanced inside) (hafter : Balanced after)
    (hlegible : Legible (before ++ (.opening :: inside ++ .closing :: after))) :
    ∃ parts, BraceGroup.Delimits ⟨spell before, spell inside, spell after⟩
      (before ++ (.opening :: inside ++ .closing :: after)) before parts after := by
  obtain ⟨hlegibleBefore, hgroup⟩ := List.forall_mem_append.1 hlegible
  obtain ⟨hlegibleInside, hlegibleAfter⟩ := forall_mem_of_group hgroup
  obtain ⟨first, others, hsplit, hjoin, hparts⟩ := exists_splitAlternatives hinside hlegibleInside
  have hreads : ∀ part ∈ first :: others, Reads (spell part) part := by
    intro part hpart
    have hsub := sublist_intercalate hpart
    rw [← hjoin] at hsub
    exact (Legible.sublist hlegibleInside hsub).reads
  exact ⟨first :: others, {
    pieces_eq := by rw [hjoin]
    reads_before := Legible.reads hlegibleBefore
    reads_inside := hjoin ▸ Legible.reads hlegibleInside
    reads_after := Legible.reads hlegibleAfter
    split_eq := hsplit
    reads_part := hreads
    parts_ne_nil := List.cons_ne_nil first others
    no_brace := hbefore
    alternative := hparts
    balanced_after := hafter }⟩

theorem Balanced.scannedAs {ps : List Piece} (h : Balanced ps) (hlegible : Legible ps) :
    ScannedAs (spell ps) ps := by
  rcases h.group_or_not with hnone | ⟨before, inside, after, rfl, hbefore, hinside, hafter⟩
  · -- without braces there is nothing to cut
    have hfirst := firstGroup?_eq_none hnone hlegible
    refine ⟨⟨fun _ => hnone, fun _ => hfirst⟩, fun g hg => ?_⟩
    rw [hfirst] at hg
    cases hg
  · have hfirst := firstGroup?_group hbefore hinside hlegible
    refine ⟨⟨fun hnone => ?_, fun hbraces => ?_⟩, fun g hg => ?_⟩
    · rw [hfirst] at hnone
      cases hnone
    · exact absurd (Or.inl rfl) (hbraces .opening (by simp))
    · rw [hfirst] at hg
      cases hg
      obtain ⟨parts, hparts⟩ := delimits_of_group hbefore hinside hafter hlegible
      exact ⟨before, parts, after, hparts⟩

/-! ## Section 5: The expansion -/

/-- The pattern comes up when the first is expanded: it is that pattern, or has an alternative of
    a group in place of the group. -/
inductive ComesUp (cs : List Char) : List Char → Prop where
  | start : ComesUp cs cs
  | replace {current part : List Char} {g : BraceGroup} :
      ComesUp cs current → firstGroup? current = some g → part ∈ splitAlternatives g.inside →
      ComesUp cs (g.before ++ part ++ g.after)

theorem ComesUp.of_replace {cs part last : List Char} {g : BraceGroup}
    (hg : firstGroup? cs = some g) (hpart : part ∈ splitAlternatives g.inside)
    (h : ComesUp (g.before ++ part ++ g.after) last) : ComesUp cs last := by
  induction h with
  | start => exact .replace .start hg hpart
  | replace _ hgroup hmem ih => exact .replace ih hgroup hmem

theorem expandBraces_of_none {cs : List Char} (h : firstGroup? cs = none) :
    expandBraces cs = [cs] := by
  rw [expandBraces]
  split
  · rfl
  · rename_i g hg
    rw [h] at hg
    cases hg

theorem expandBraces_of_some {cs : List Char} {g : BraceGroup} (h : firstGroup? cs = some g) :
    expandBraces cs =
      (splitAlternatives g.inside).flatMap fun part => expandBraces (g.before ++ part ++ g.after) := by
  rw [expandBraces]
  split
  · rename_i hnone
    rw [h] at hnone
    cases hnone
  · rename_i found hfound
    rw [h] at hfound
    cases hfound
    simp

theorem mem_expandBraces_of_some {cs last : List Char} {g : BraceGroup}
    (h : firstGroup? cs = some g) :
    last ∈ expandBraces cs ↔
      ∃ part ∈ splitAlternatives g.inside, last ∈ expandBraces (g.before ++ part ++ g.after) := by
  rw [expandBraces_of_some h, List.mem_flatMap]

theorem comesUp_of_mem_expandBraces {cs last : List Char} (h : last ∈ expandBraces cs) :
    ComesUp cs last ∧ firstGroup? last = none := by
  induction cs using expandBraces.induct with
  | case1 cs hnone =>
    rw [expandBraces_of_none hnone] at h
    rw [List.mem_singleton.1 h]
    exact ⟨.start, hnone⟩
  | case2 cs g hg ih =>
    obtain ⟨part, hpart, hmem⟩ := (mem_expandBraces_of_some hg).1 h
    obtain ⟨hup, hnone⟩ := ih ⟨part, hpart⟩ hmem
    exact ⟨.of_replace hg hpart hup, hnone⟩

/-- The text is read as balanced pieces, all of which are left of the given ones. -/
structure Remains (ps : List Piece) (cs : List Char) (qs : List Piece) : Prop where
  reads : Reads cs qs
  balanced : Balanced qs
  sublist : qs.Sublist ps

section replacing

variable {g : BraceGroup} {ps before after : List Piece} {parts : List (List Piece)}

theorem balanced_of_forall_not_isBrace {ps : List Piece} (h : ∀ p ∈ ps, ¬ p.IsBrace) :
    Balanced ps := by
  induction ps with
  | nil => exact .nil
  | cons p rest ih =>
    obtain ⟨hp, hrest⟩ := List.forall_mem_cons.1 h
    exact .cons hp (ih hrest)

/-- With one of its alternatives in place of a group, a pattern is balanced again. -/
theorem BraceGroup.Delimits.remains (h : g.Delimits ps before parts after) {part : List Piece}
    (hpart : part ∈ parts) :
    Remains ps (g.before ++ spell part ++ g.after) (before ++ part ++ after) := by
  refine ⟨(h.reads_before.append (h.reads_part part hpart)).append h.reads_after, ?_, ?_⟩
  · have hbefore := balanced_of_forall_not_isBrace h.no_brace
    exact (hbefore.append (h.alternative part hpart).balanced).append h.balanced_after
  · rw [h.pieces_eq, List.append_assoc]
    refine List.Sublist.append (List.Sublist.refl before) ?_
    have hafter : after.Sublist (.closing :: after) := List.sublist_cons_self _ _
    exact ((sublist_intercalate hpart).append hafter).cons _

/-- All but the braces and the commas of a group stays in the pattern with some alternative. -/
theorem BraceGroup.Delimits.exists_part (h : g.Delimits ps before parts after) {p : Piece}
    (hp : p ∈ ps) (hbrace : ¬ p.IsBrace) (hcomma : p ≠ .comma) :
    ∃ part ∈ parts, p ∈ before ++ part ++ after := by
  obtain ⟨hopening, hclosing⟩ := not_or.1 hbrace
  have hplace : p ∈ before ∨ p ∈ [Piece.comma].intercalate parts ∨ p ∈ after := by
    simpa [h.pieces_eq, hopening, hclosing] using hp
  obtain ⟨spare, hspare⟩ := List.exists_mem_of_ne_nil parts h.parts_ne_nil
  -- beside the group it stays with every alternative
  rcases hplace with hbefore | hinside | hafter
  · exact ⟨spare, hspare, by simp [hbefore]⟩
  · obtain ⟨part, hpart, hmem⟩ := mem_intercalate hinside hcomma
    exact ⟨part, hpart, by simp [hmem]⟩
  · exact ⟨spare, hspare, by simp [hafter]⟩

end replacing

section runs

variable {cs : List Char} {ps : List Piece} (hlegible : Legible ps)

include hlegible

theorem Remains.scannedAs {qs : List Piece} (h : Remains ps cs qs) : ScannedAs cs qs := by
  have hscanned := h.balanced.scannedAs (hlegible.sublist h.sublist)
  rwa [h.reads.spell_eq] at hscanned

/-- A step of the expansion leaves balanced pieces. -/
theorem Remains.replace {qs : List Piece} (h : Remains ps cs qs) {g : BraceGroup}
    (hg : firstGroup? cs = some g) {part : List Char} (hpart : part ∈ splitAlternatives g.inside) :
    ∃ rs, Remains ps (g.before ++ part ++ g.after) rs := by
  obtain ⟨before, parts, after, hdelimits⟩ := (h.scannedAs hlegible).group g hg
  rw [hdelimits.split_eq] at hpart
  obtain ⟨chosen, hchosen, rfl⟩ := List.mem_map.1 hpart
  have hnext := hdelimits.remains hchosen
  exact ⟨before ++ chosen ++ after, hnext.reads, hnext.balanced, hnext.sublist.trans h.sublist⟩

theorem ComesUp.remains {current : List Char} (h : ComesUp cs current) (hreads : Reads cs ps)
    (hbalanced : Balanced ps) : ∃ qs, Remains ps current qs := by
  induction h with
  | start => exact ⟨ps, hreads, hbalanced, List.Sublist.refl ps⟩
  | replace _ hg hpart ih =>
    obtain ⟨qs, hqs⟩ := ih
    exact hqs.replace hlegible hg hpart

/-- Nothing but braces and commas gets lost. -/
theorem exists_mem_expandBraces (hreads : Reads cs ps) (hbalanced : Balanced ps) {p : Piece}
    (hp : p ∈ ps) (hbrace : ¬ p.IsBrace) (hcomma : p ≠ .comma) :
    ∃ last ∈ expandBraces cs, ∃ kept, Reads last kept ∧ p ∈ kept := by
  induction cs using expandBraces.induct generalizing ps with
  | case1 cs hnone =>
    rw [expandBraces_of_none hnone]
    exact ⟨cs, List.mem_singleton_self cs, ps, hreads, hp⟩
  | case2 cs g hg ih =>
    have hstart : Remains ps cs ps := ⟨hreads, hbalanced, List.Sublist.refl ps⟩
    -- follow an alternative that the piece stays with
    obtain ⟨before, parts, after, hdelimits⟩ := (hstart.scannedAs hlegible).group g hg
    obtain ⟨part, hpart, hmem⟩ := hdelimits.exists_part hp hbrace hcomma
    have hnext := hdelimits.remains hpart
    have hin : spell part ∈ splitAlternatives g.inside := by
      rw [hdelimits.split_eq]
      exact List.mem_map_of_mem hpart
    obtain ⟨last, hlast, hkept⟩ :=
      ih ⟨spell part, hin⟩ (hlegible.sublist hnext.sublist) hnext.reads hnext.balanced hmem
    exact ⟨last, (mem_expandBraces_of_some hg).2 ⟨spell part, hin, hlast⟩, hkept⟩

end runs

/-! ## Section 6: Accepted patterns -/

/-- The scanners read every class of a pattern as the check does, from the pattern to the end of
    its expansion. -/
structure KeepsClasses (cs : List Char) (ps : List Piece) : Prop where
  reads : Reads cs ps
  /-- In each pattern that comes up, groups open, close and split at braces and commas outside
  the classes. -/
  scanned : ∀ current, ComesUp cs current → ∃ qs, Reads current qs ∧ ScannedAs current qs
  /-- No group outside the classes is left, and classes are left as they are. -/
  expanded : ∀ last ∈ expandBraces cs, ComesUp cs last ∧
    ∃ kept, Reads last kept ∧ (∀ p ∈ kept, ¬ p.IsBrace) ∧ kept.Sublist ps
  /-- Every class gets to the end. -/
  reached : ∀ body, .cls body ∈ ps →
    ∃ last ∈ expandBraces cs, ∃ kept, Reads last kept ∧ .cls body ∈ kept

/-- All classes of an accepted pattern are kept if the flag hides their braces and commas. -/
theorem expandBraces_keepsClasses {cs : List Char} (h : checkBalance cs = .ok ())
    (hshielded : ∀ ps, Reads cs ps → ∀ p ∈ ps, p.Shielded) : ∃ ps, KeepsClasses cs ps := by
  obtain ⟨ps, hreads, hbalanced⟩ := checkBalance_eq_ok_iff.1 h
  have hlegible : Legible ps := fun p hp => ⟨hreads.sound p hp, hshielded ps hreads p hp⟩
  refine ⟨ps, hreads, ?_, ?_, ?_⟩
  · intro current hup
    obtain ⟨qs, hqs⟩ := hup.remains hlegible hreads hbalanced
    exact ⟨qs, hqs.reads, hqs.scannedAs hlegible⟩
  · intro last hlast
    obtain ⟨hup, hnone⟩ := comesUp_of_mem_expandBraces hlast
    obtain ⟨kept, hkept⟩ := hup.remains hlegible hreads hbalanced
    exact ⟨hup, kept, hkept.reads, (hkept.scannedAs hlegible).no_group.1 hnone, hkept.sublist⟩
  · intro body hbody
    exact exists_mem_expandBraces hlegible hreads hbalanced hbody (Piece.not_isBrace_cls body)
      (by simp)

/-- The first class starts with a closing bracket, and the mark behind it is neither a brace nor
    a comma; the second class has one of each. -/
def hiddenMarks : List Char := "\x7b[]!],a[,\x7b]\x7d".toList

theorem reads_hiddenMarks :
    Reads hiddenMarks [.opening, .cls [']', '!'], .comma, .plain 'a', .cls [',', '\x7b'],
      .closing] :=
  .plain (by decide) (.cls rfl (.plain (by decide) (.plain (by decide) (.cls rfl
    (.plain (by decide) .done)))))

theorem expandBraces_keepsClasses_hiddenMarks :
    checkBalance hiddenMarks = .ok () ∧ (∃ ps, KeepsClasses hiddenMarks ps) ∧
      expandBraces hiddenMarks = ["[]!]".toList, "a[,\x7b]".toList] := by
  have hbalance : checkBalance hiddenMarks = .ok () := by decide +kernel
  have hshielded : ∀ ps, Reads hiddenMarks ps → ∀ p ∈ ps, p.Shielded := by
    intro ps hps
    obtain rfl := hps.unique reads_hiddenMarks
    simp [Piece.Shielded, exposed, unmarked]
  exact ⟨hbalance, expandBraces_keepsClasses hbalance hshielded, by decide +kernel⟩

/-- A class with an exposed brace, as the first of two alternatives. -/
def exposedBrace : List Char := "\x7b[]\x7b],b\x7d".toList

theorem reads_exposedBrace :
    Reads exposedBrace [.opening, .cls [']', '\x7b'], .comma, .plain 'b', .closing] :=
  .plain (by decide) (.cls rfl (.plain (by decide) (.plain (by decide) (.plain (by decide) .done))))

/-- The check accepts it, yet the group is not found and stays in the only result. -/
theorem not_keepsClasses_exposedBrace :
    checkBalance exposedBrace = .ok () ∧ expandBraces exposedBrace = [exposedBrace] ∧
      ¬ ∃ ps, KeepsClasses exposedBrace ps := by
  have hexpand : expandBraces exposedBrace = [exposedBrace] := by decide +kernel
  refine ⟨by decide +kernel, hexpand, ?_⟩
  rintro ⟨ps, hps⟩
  -- the result has one reading only, and that has a brace
  obtain ⟨_, kept, hkept, hbraces, _⟩ := hps.expanded exposedBrace (by simp [hexpand])
  obtain rfl := hkept.unique reads_exposedBrace
  exact absurd (Or.inl rfl) (hbraces .opening (by simp))

end RuleCascade.Pattern
