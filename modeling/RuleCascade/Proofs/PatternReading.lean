import Mathlib.Data.List.TakeWhile
import RuleCascade.Pattern.Balance

/-! # Reading a pattern

    A pattern is read as a list of pieces: whole classes, and characters that
    stand outside of them. The check for balance reads it so, from left to
    right. At an opening bracket it goes on behind the end of the class.

    Whether a pattern is balanced is a question about its pieces. A brace that
    is a piece opens or closes a group; a brace inside a class is no piece.

    Main statement: `checkBalance_eq_ok_iff`. A pattern passes the check
    exactly if its reading is balanced.
-/

namespace RuleCascade.Pattern

/-! ## Section 1: Class bodies -/

/-- The members of a class, without the mark that negates it. -/
def unmarked : List Char → List Char
  | '!' :: members => members
  | members => members

/-- What can stand between the brackets of a class. The first member may be any character, a
    closing bracket included; the others are no closing brackets. -/
def IsClassBody (body : List Char) : Prop :=
  ∃ first others, unmarked body = first :: others ∧ ']' ∉ others

theorem notMem_takeWhile (cs : List Char) : ']' ∉ cs.takeWhile (· ≠ ']') := by
  intro h
  simpa using List.mem_takeWhile_imp h

theorem isClassBody_of_classSplit? {cs body after : List Char}
    (h : classSplit? cs = some (body, after)) : IsClassBody body := by
  have hcs := eq_of_classSplit? h
  have hbody : body = cs.take (classHead cs) ++ (cs.drop (classHead cs)).takeWhile (· ≠ ']') := by
    simp only [classSplit?] at h
    split at h
    · cases h
    · cases h
      rfl
  fun_cases classHead cs with
  | case1 rest => exact ⟨']', rest.takeWhile (· ≠ ']'), by rw [hbody]; rfl, notMem_takeWhile rest⟩
  | case2 rest hplain =>
    -- a mark with nothing behind it closes no class
    rw [hbody] at hcs ⊢
    cases rest with
    | nil => simp [classHead] at hcs
    | cons c rest =>
      have hc : c ≠ ']' := fun heq => hplain rest (by rw [heq])
      exact ⟨c, rest.takeWhile (· ≠ ']'), by simp [classHead, hc, unmarked], notMem_takeWhile rest⟩
  | case3 rest => exact ⟨']', rest.takeWhile (· ≠ ']'), by rw [hbody]; rfl, notMem_takeWhile rest⟩
  | case4 cs _ hmark hbracket =>
    rw [hbody] at hcs ⊢
    cases cs with
    | nil => simp [classHead] at hcs
    | cons c rest =>
      have hm : c ≠ '!' := fun heq => hmark rest (by rw [heq])
      have hc : c ≠ ']' := fun heq => hbracket rest (by rw [heq])
      exact ⟨c, rest.takeWhile (· ≠ ']'), by simp [classHead, hm, hc, unmarked],
        notMem_takeWhile rest⟩

theorem classSplit?_append {members after : List Char} (head : List Char)
    (hhead : classHead (head ++ members ++ ']' :: after) = head.length) (h : ']' ∉ members) :
    classSplit? (head ++ members ++ ']' :: after) = some (head ++ members, after) := by
  have hmembers : ∀ c ∈ members, decide (c ≠ ']') = true := by
    intro c hc
    rw [decide_eq_true_eq]
    rintro rfl
    exact h hc
  have hdrop : (head ++ members ++ ']' :: after).drop head.length = members ++ ']' :: after := by
    simp
  have htake : (head ++ members ++ ']' :: after).take head.length = head := by simp
  simp only [classSplit?, hhead, hdrop, htake, List.dropWhile_append_of_pos hmembers,
    List.takeWhile_append_of_pos hmembers]
  simp

theorem classSplit?_of_isClassBody {body : List Char} (h : IsClassBody body) (after : List Char) :
    classSplit? (body ++ ']' :: after) = some (body, after) := by
  obtain ⟨first, others, hbody, hothers⟩ := h
  by_cases hfirst : first = ']'
  · -- the first member cannot close the class, so it belongs to the head
    subst hfirst
    unfold unmarked at hbody
    split at hbody
    · subst hbody
      exact classSplit?_append ['!', ']'] rfl hothers
    · subst hbody
      exact classSplit?_append [']'] rfl hothers
  · have hmembers : ']' ∉ first :: others := by simp [Ne.symm hfirst, hothers]
    unfold unmarked at hbody
    split at hbody
    · subst hbody
      exact classSplit?_append ['!'] (by simp [classHead, hfirst]) hmembers
    · rename_i hmark
      subst hbody
      have hne : first ≠ '!' := fun heq => hmark others (by rw [heq])
      exact classSplit?_append [] (by simp [classHead, hfirst, hne]) hmembers

theorem classSplit?_eq_some_iff {cs body after : List Char} :
    classSplit? cs = some (body, after) ↔ cs = body ++ ']' :: after ∧ IsClassBody body := by
  constructor
  · intro h
    exact ⟨eq_of_classSplit? h, isClassBody_of_classSplit? h⟩
  · rintro ⟨rfl, hbody⟩
    exact classSplit?_of_isClassBody hbody after

/-! ## Section 2: Pieces -/

/-- A piece of a pattern. -/
inductive Piece where
  /-- A character outside all classes. -/
  | plain (c : Char)
  /-- A class, with the text between its brackets. -/
  | cls (body : List Char)
deriving DecidableEq

namespace Piece

/-- The brace that opens a group. -/
abbrev opening : Piece := .plain '\x7b'

/-- The brace that closes a group. -/
abbrev closing : Piece := .plain '\x7d'

/-- The comma between two alternatives of a group. -/
abbrev comma : Piece := .plain ','

/-- True of the two braces. -/
def IsBrace (p : Piece) : Prop := p = opening ∨ p = closing

instance : DecidablePred IsBrace := fun p => inferInstanceAs (Decidable (p = opening ∨ p = closing))

@[simp] theorem isBrace_plain {c : Char} : (plain c).IsBrace ↔ c = '\x7b' ∨ c = '\x7d' := by
  simp [IsBrace]

@[simp] theorem not_isBrace_cls (body : List Char) : ¬ (cls body).IsBrace := by
  simp [IsBrace]

/-- The text of a piece. -/
def text : Piece → List Char
  | .plain c => [c]
  | .cls body => '[' :: (body ++ [']'])

/-- The piece can come up when a pattern is read. -/
def Sound : Piece → Prop
  | .plain c => c ≠ '['
  | .cls body => IsClassBody body

end Piece

/-- The text of pieces that stand side by side. -/
def spell (ps : List Piece) : List Char := ps.flatMap Piece.text

@[simp] theorem spell_nil : spell [] = [] := rfl

@[simp] theorem spell_cons (p : Piece) (ps : List Piece) : spell (p :: ps) = p.text ++ spell ps :=
  rfl

@[simp] theorem spell_append (ps qs : List Piece) : spell (ps ++ qs) = spell ps ++ spell qs :=
  List.flatMap_append

/-- From left to right, the pattern is read as these pieces: where a bracket opens a class, the
    class is read to its end, and all other characters are pieces of their own. -/
inductive Reads : List Char → List Piece → Prop where
  | done : Reads [] []
  | cls {rest body after : List Char} {ps : List Piece} :
      classSplit? rest = some (body, after) → Reads after ps → Reads ('[' :: rest) (.cls body :: ps)
  | plain {c : Char} {rest : List Char} {ps : List Piece} :
      c ≠ '[' → Reads rest ps → Reads (c :: rest) (.plain c :: ps)

theorem Reads.unique {cs : List Char} {ps qs : List Piece} (h : Reads cs ps) (h' : Reads cs qs) :
    ps = qs := by
  induction h generalizing qs with
  | done =>
    cases h'
    rfl
  | cls hsplit _ ih =>
    cases h' with
    | cls hother hrest =>
      rw [hsplit] at hother
      cases hother
      rw [ih hrest]
    | plain hne _ => exact absurd rfl hne
  | plain hne _ ih =>
    cases h' with
    | cls _ _ => exact absurd rfl hne
    | plain _ hrest => rw [ih hrest]

theorem Reads.spell_eq {cs : List Char} {ps : List Piece} (h : Reads cs ps) : spell ps = cs := by
  induction h with
  | done => rfl
  | cls hsplit _ ih => rw [spell_cons, ih, eq_of_classSplit? hsplit, Piece.text]; simp
  | plain _ _ ih =>
    rw [spell_cons, ih]
    rfl

theorem Reads.sound {cs : List Char} {ps : List Piece} (h : Reads cs ps) : ∀ p ∈ ps, p.Sound := by
  induction h with
  | done => exact List.forall_mem_nil _
  | cls hsplit _ ih => exact List.forall_mem_cons.2 ⟨isClassBody_of_classSplit? hsplit, ih⟩
  | plain hne _ ih => exact List.forall_mem_cons.2 ⟨hne, ih⟩

theorem reads_spell {ps : List Piece} (h : ∀ p ∈ ps, p.Sound) : Reads (spell ps) ps := by
  induction ps with
  | nil => exact .done
  | cons p rest ih =>
    obtain ⟨hp, hrest⟩ := List.forall_mem_cons.1 h
    cases p with
    | plain c => exact .plain hp (ih hrest)
    | cls body =>
      refine .cls ?_ (ih hrest)
      show classSplit? (body ++ [']'] ++ spell rest) = _
      rw [List.append_assoc]
      exact classSplit?_of_isClassBody hp _

/-- Sound pieces are read again as they were spelled. -/
theorem reads_iff {cs : List Char} {ps : List Piece} :
    Reads cs ps ↔ spell ps = cs ∧ ∀ p ∈ ps, p.Sound := by
  constructor
  · intro h
    exact ⟨h.spell_eq, h.sound⟩
  · rintro ⟨rfl, hsound⟩
    exact reads_spell hsound

theorem Reads.append {cs ds : List Char} {ps qs : List Piece} (h : Reads cs ps) (h' : Reads ds qs) :
    Reads (cs ++ ds) (ps ++ qs) := by
  obtain ⟨rfl, hps⟩ := reads_iff.1 h
  obtain ⟨rfl, hqs⟩ := reads_iff.1 h'
  exact reads_iff.2 ⟨spell_append ps qs, List.forall_mem_append.2 ⟨hps, hqs⟩⟩

/-- Text that spells sound pieces is read as these pieces, whatever follows. -/
theorem reads_spell_append_iff {ps : List Piece} (h : ∀ p ∈ ps, p.Sound) {cs : List Char}
    {rs : List Piece} : Reads (spell ps ++ cs) rs ↔ ∃ qs, rs = ps ++ qs ∧ Reads cs qs := by
  constructor
  · intro hreads
    induction ps generalizing rs with
    | nil => exact ⟨rs, rfl, hreads⟩
    | cons p ps ih =>
      obtain ⟨hp, hps⟩ := List.forall_mem_cons.1 h
      cases p with
      | plain c =>
        cases hreads with
        | cls _ _ => exact absurd rfl hp
        | plain _ hrest =>
          obtain ⟨qs, rfl, hqs⟩ := ih hps hrest
          exact ⟨qs, rfl, hqs⟩
      | cls body =>
        rw [spell_cons, List.append_assoc] at hreads
        have hsplit := classSplit?_of_isClassBody hp (spell ps ++ cs)
        have htext : (Piece.cls body).text ++ (spell ps ++ cs) =
            '[' :: (body ++ ']' :: (spell ps ++ cs)) := by simp [Piece.text]
        rw [htext] at hreads
        cases hreads with
        | cls hother hrest =>
          rw [hsplit] at hother
          cases hother
          obtain ⟨qs, rfl, hqs⟩ := ih hps hrest
          exact ⟨qs, rfl, hqs⟩
        | plain hne _ => exact absurd rfl hne
  · rintro ⟨qs, rfl, hqs⟩
    exact (reads_spell h).append hqs

/-! ## Section 3: Balance -/

/-- Every brace among the pieces has its partner. -/
inductive Balanced : List Piece → Prop where
  | nil : Balanced []
  | cons {p : Piece} {rest : List Piece} : ¬ p.IsBrace → Balanced rest → Balanced (p :: rest)
  | group {inside rest : List Piece} : Balanced inside → Balanced rest →
      Balanced (.opening :: inside ++ .closing :: rest)

theorem spell_group (inside rest : List Piece) :
    spell (.opening :: inside ++ .closing :: rest) =
      '\x7b' :: (spell inside ++ '\x7d' :: spell rest) := by
  simp [Piece.text]

/-- What holds of all pieces holds of those inside a group and of those behind it. -/
theorem forall_mem_of_group {P : Piece → Prop} {inside rest : List Piece}
    (h : ∀ p ∈ Piece.opening :: inside ++ .closing :: rest, P p) :
    (∀ p ∈ inside, P p) ∧ ∀ p ∈ rest, P p :=
  ⟨fun p hp => h p (by simp [hp]), fun p hp => h p (by simp [hp])⟩

theorem Balanced.append {ps qs : List Piece} (h : Balanced ps) (h' : Balanced qs) :
    Balanced (ps ++ qs) := by
  induction h with
  | nil => exact h'
  | cons hp _ ih => exact .cons hp ih
  | @group inside rest hinside _ _ ih =>
    rw [List.append_assoc, List.cons_append]
    exact .group hinside ih

/-- The pieces are balanced but for the braces that close so many groups opened before. -/
def Closes : Nat → List Piece → Prop
  | 0, ps => Balanced ps
  | outer + 1, ps => ∃ inside rest, Balanced inside ∧ ps = inside ++ .closing :: rest ∧
      Closes outer rest

theorem Closes.cons {depth : Nat} {p : Piece} {ps : List Piece} (hp : ¬ p.IsBrace)
    (h : Closes depth ps) : Closes depth (p :: ps) := by
  cases depth with
  | zero => exact Balanced.cons hp h
  | succ outer =>
    obtain ⟨inside, rest, hinside, rfl, hrest⟩ := h
    exact ⟨p :: inside, rest, hinside.cons hp, rfl, hrest⟩

theorem Closes.group {depth : Nat} {ps : List Piece} (h : Closes (depth + 1) ps) :
    Closes depth (.opening :: ps) := by
  obtain ⟨inside, rest, hinside, rfl, hrest⟩ := h
  cases depth with
  | zero => exact Balanced.group hinside hrest
  | succ outer =>
    obtain ⟨next, others, hnext, rfl, hothers⟩ := hrest
    exact ⟨.opening :: inside ++ .closing :: next, others, .group hinside hnext, by simp, hothers⟩

/-- What the scan accepts is read as pieces that close the groups that are open. -/
theorem exists_reads_of_balanceFrom {offset : Nat} {openBraces : List Nat} {cs : List Char}
    (h : balanceFrom offset openBraces cs = .ok ()) :
    ∃ ps, Reads cs ps ∧ Closes openBraces.length ps := by
  fun_induction balanceFrom offset openBraces cs with
  | case1 offset openBraces hlast =>
    rw [List.getLast?_eq_none_iff.1 hlast]
    exact ⟨[], .done, Balanced.nil⟩
  | case2 => cases h
  | case3 => cases h
  | case4 offset openBraces rest body after hsplit ih =>
    obtain ⟨ps, hreads, hcloses⟩ := ih h
    exact ⟨.cls body :: ps, .cls hsplit hreads, hcloses.cons (Piece.not_isBrace_cls body)⟩
  | case5 offset openBraces rest ih =>
    obtain ⟨ps, hreads, hcloses⟩ := ih h
    exact ⟨.opening :: ps, .plain (by decide) hreads, hcloses.group⟩
  | case6 => cases h
  | case7 offset rest innermost outer ih =>
    -- nothing stands between the last piece that was read and the brace
    obtain ⟨ps, hreads, hcloses⟩ := ih h
    exact ⟨.closing :: ps, .plain (by decide) hreads, [], ps, .nil, rfl, hcloses⟩
  | case8 offset openBraces c rest hbracket hopen hclose ih =>
    obtain ⟨ps, hreads, hcloses⟩ := ih h
    have hplain : ¬ (Piece.plain c).IsBrace :=
      fun hbrace => (Piece.isBrace_plain.1 hbrace).elim hopen hclose
    exact ⟨.plain c :: ps, .plain hbracket hreads, hcloses.cons hplain⟩

theorem balanceFrom_text_append {p : Piece} (hp : ¬ p.IsBrace) (hsound : p.Sound) (offset : Nat)
    (openBraces : List Nat) (rest : List Char) :
    balanceFrom offset openBraces (p.text ++ rest) =
      balanceFrom (offset + p.text.length) openBraces rest := by
  cases p with
  | plain c =>
    obtain ⟨hopen, hclose⟩ := not_or.1 (mt Piece.isBrace_plain.2 hp)
    show balanceFrom offset openBraces (c :: rest) = _
    -- none of the characters that the scan tells apart
    rw [balanceFrom]
    · rfl
    · exact hsound
    · exact hopen
    · exact hclose
  | cls body =>
    have hsplit := classSplit?_of_isClassBody hsound rest
    show balanceFrom offset openBraces ('[' :: (body ++ [']'] ++ rest)) = _
    rw [List.append_assoc, balanceFrom]
    split
    · rename_i hnone
      exact absurd (hsplit.symm.trans hnone) (by simp)
    · rename_i found after hfound
      cases hsplit.symm.trans hfound
      simp [Piece.text, Nat.add_assoc]

/-- Balanced pieces do not show in a scan that goes on behind them. -/
theorem balanceFrom_spell_append {ps : List Piece} (h : Balanced ps) (hsound : ∀ p ∈ ps, p.Sound)
    (offset : Nat) (openBraces : List Nat) (rest : List Char) :
    balanceFrom offset openBraces (spell ps ++ rest) =
      balanceFrom (offset + (spell ps).length) openBraces rest := by
  induction h generalizing offset openBraces rest with
  | nil => rfl
  | @cons p ps hp _ ih =>
    obtain ⟨hfirst, hothers⟩ := List.forall_mem_cons.1 hsound
    rw [spell_cons, List.append_assoc, balanceFrom_text_append hp hfirst, ih hothers,
      List.length_append, Nat.add_assoc]
  | @group inside others _ _ ihinside ihothers =>
    obtain ⟨hinside, hothers⟩ := forall_mem_of_group hsound
    have htext : spell (.opening :: inside ++ .closing :: others) ++ rest =
        '\x7b' :: (spell inside ++ '\x7d' :: (spell others ++ rest)) := by
      rw [spell_group]
      simp
    -- the brace that the group opens with is the one that its last brace takes off
    rw [htext, balanceFrom, ihinside hinside, balanceFrom, ihothers hothers]
    congr 1
    rw [spell_group]
    simp
    omega

/-- A pattern passes the check for balance exactly if it is read as balanced pieces. -/
theorem checkBalance_eq_ok_iff {cs : List Char} :
    checkBalance cs = .ok () ↔ ∃ ps, Reads cs ps ∧ Balanced ps := by
  constructor
  · intro h
    exact exists_reads_of_balanceFrom h
  · rintro ⟨ps, hreads, hbalanced⟩
    have hscan := balanceFrom_spell_append hbalanced hreads.sound 0 [] []
    rw [List.append_nil, hreads.spell_eq] at hscan
    rw [checkBalance, hscan, balanceFrom]
    rfl

end RuleCascade.Pattern
