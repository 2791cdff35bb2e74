import Mathlib.Data.List.Induction
import RuleCascade.Proofs.PatternReading

/-! # Faults of unbalanced patterns

    The strings that the check for balance accepts are those of a grammar: any
    number of plain characters, classes and groups, where a group has such a
    string between its braces (`Formed`).

    Three things can be wrong. A class does not close, a brace closes no group,
    or a group stays open. The first two stop the scan where they are met; the
    last one shows at the end only, and the outermost group is to blame. Each
    fault is said here of a place in the pattern, without the scan.

    A list of pieces from the front of a pattern is overdrawn if it closes more
    groups than it opens. As long as that has not come up, the pieces fall into
    balanced stretches between the braces that are still open (`Opened`), and
    these are the braces whose offsets the scan keeps.

    Main statement: `checkBalance_eq_error_iff`.
-/

namespace RuleCascade.Pattern

/-! ## Section 1: The grammar -/

/-- Plain characters, classes and groups, side by side. -/
inductive Formed : List Char → Prop where
  | nil : Formed []
  | plain {c : Char} {rest : List Char} : c ≠ '[' → c ≠ '\x7b' → c ≠ '\x7d' → Formed rest →
      Formed (c :: rest)
  | cls {body rest : List Char} : IsClassBody body → Formed rest →
      Formed ('[' :: (body ++ ']' :: rest))
  | group {inside rest : List Char} : Formed inside → Formed rest →
      Formed ('\x7b' :: (inside ++ '\x7d' :: rest))

theorem formed_spell {ps : List Piece} (h : Balanced ps) (hsound : ∀ p ∈ ps, p.Sound) :
    Formed (spell ps) := by
  induction h with
  | nil => exact .nil
  | @cons p rest hp _ ih =>
    obtain ⟨hfirst, hrest⟩ := List.forall_mem_cons.1 hsound
    cases p with
    | plain c =>
      obtain ⟨hopen, hclose⟩ := not_or.1 (mt Piece.isBrace_plain.2 hp)
      exact .plain hfirst hopen hclose (ih hrest)
    | cls body =>
      have htext : spell (.cls body :: rest) = '[' :: (body ++ ']' :: spell rest) := by
        simp [Piece.text]
      rw [htext]
      exact .cls hfirst (ih hrest)
  | group _ _ ihinside ihrest =>
    obtain ⟨hinside, hrest⟩ := forall_mem_of_group hsound
    rw [spell_group]
    exact .group (ihinside hinside) (ihrest hrest)

theorem Formed.exists_reads {cs : List Char} (h : Formed cs) : ∃ ps, Reads cs ps ∧ Balanced ps := by
  induction h with
  | nil => exact ⟨[], .done, .nil⟩
  | @plain c rest hclass hopen hclose _ ih =>
    obtain ⟨ps, hreads, hbalanced⟩ := ih
    have hplain : ¬ (Piece.plain c).IsBrace :=
      fun hbrace => (Piece.isBrace_plain.1 hbrace).elim hopen hclose
    exact ⟨.plain c :: ps, .plain hclass hreads, hbalanced.cons hplain⟩
  | @cls body rest hbody _ ih =>
    obtain ⟨ps, hreads, hbalanced⟩ := ih
    exact ⟨.cls body :: ps, .cls (classSplit?_of_isClassBody hbody rest) hreads,
      hbalanced.cons (Piece.not_isBrace_cls body)⟩
  | group _ _ ihinside ihrest =>
    obtain ⟨inside, hinside, hbalanced⟩ := ihinside
    obtain ⟨rest, hrest, hbehind⟩ := ihrest
    exact ⟨.opening :: inside ++ .closing :: rest,
      .plain (by decide) (hinside.append (.plain (by decide) hrest)), .group hbalanced hbehind⟩

theorem formed_iff {cs : List Char} : Formed cs ↔ ∃ ps, Reads cs ps ∧ Balanced ps := by
  constructor
  · intro h
    exact h.exists_reads
  · rintro ⟨ps, hreads, hbalanced⟩
    rw [← hreads.spell_eq]
    exact formed_spell hbalanced hreads.sound

/-! ## Section 2: Faults and their places -/

/-- Reading comes to a character at this offset, with these pieces before it. -/
def ComesTo (cs : List Char) (offset : Nat) (before : List Piece) (c : Char)
    (after : List Char) : Prop :=
  ∃ text, Reads text before ∧ cs = text ++ c :: after ∧ text.length = offset

/-- A group whose brace stands right before these pieces is closed among them. -/
def ClosedIn (ps : List Piece) : Prop :=
  ∃ inside rest, Balanced inside ∧ ps = inside ++ .closing :: rest

/-- Some group that was opened among the pieces is open behind them. -/
def GroupOpen (ps : List Piece) : Prop :=
  ∃ before inside, ps = before ++ .opening :: inside ∧ ¬ ClosedIn inside

/-- A bracket stands here that opens a class, but no bracket closes it. -/
def UnclosedClassAt (cs : List Char) (offset : Nat) : Prop :=
  ∃ before after, ComesTo cs offset before '[' after ∧
    ∀ body rest, IsClassBody body → after ≠ body ++ ']' :: rest

/-- A closing brace stands here, but no group is open. -/
def StrayBraceAt (cs : List Char) (offset : Nat) : Prop :=
  ∃ before after, ComesTo cs offset before '\x7d' after ∧ ¬ GroupOpen before

/-- An opening brace stands here, and its group is open at the end. -/
def OpenBraceAt (cs : List Char) (offset : Nat) : Prop :=
  ∃ before after behind, ComesTo cs offset before '\x7b' after ∧ Reads after behind ∧
    ¬ ClosedIn behind

/-- A fault that shows where it stands. -/
def EarlyFaultAt (cs : List Char) (offset : Nat) : Prop :=
  UnclosedClassAt cs offset ∨ StrayBraceAt cs offset

/-- The error names the leftmost fault: the first one that shows where it stands and, if there is
    none, the first brace whose group is open at the end. -/
inductive NamesFault (cs : List Char) : PatternError → Prop where
  | unclosedClass {offset : Nat} : UnclosedClassAt cs offset →
      (∀ other, EarlyFaultAt cs other → offset ≤ other) → NamesFault cs (.unbalancedBracket offset)
  | strayBrace {offset : Nat} : StrayBraceAt cs offset →
      (∀ other, EarlyFaultAt cs other → offset ≤ other) → NamesFault cs (.unbalancedBrace offset)
  | openBrace {offset : Nat} : (∀ other, ¬ EarlyFaultAt cs other) → OpenBraceAt cs offset →
      (∀ other, OpenBraceAt cs other → offset ≤ other) → NamesFault cs (.unbalancedBrace offset)

/-! ## Section 3: Counting braces -/

/-- No front part of the pieces closes more groups than it opens. -/
def Covered (ps : List Piece) : Prop :=
  ∀ front rest, ps = front ++ rest → front.count .closing ≤ front.count .opening

theorem Balanced.count_eq {ps : List Piece} (h : Balanced ps) :
    ps.count .closing = ps.count .opening := by
  induction h with
  | nil => rfl
  | @cons p rest hp _ ih =>
    obtain ⟨hopen, hclose⟩ := not_or.1 hp
    rw [List.count_cons_of_ne hclose, List.count_cons_of_ne hopen, ih]
  | group _ _ ihinside ihrest =>
    simp [ihinside, ihrest]
    omega

theorem Covered.of_append {ps qs : List Piece} (h : Covered (ps ++ qs)) : Covered ps := by
  rintro front rest rfl
  exact h front (rest ++ qs) (List.append_assoc _ _ _)

theorem Covered.append {ps qs : List Piece} (hps : Covered ps) (hqs : Covered qs) :
    Covered (ps ++ qs) := by
  intro front rest heq
  rcases List.append_eq_append_iff.1 heq with ⟨more, rfl, hrest⟩ | ⟨more, rfl, hrest⟩
  · -- the front part takes in all of the first list
    have hfirst := hps ps [] (List.append_nil ps).symm
    have hsecond := hqs more rest hrest
    rw [List.count_append, List.count_append]
    omega
  · exact hps front more rfl

theorem Covered.cons {p : Piece} {ps : List Piece} (hp : p ≠ .closing) (h : Covered ps) :
    Covered (p :: ps) := by
  intro front rest heq
  cases front with
  | nil => exact Nat.le_refl _
  | cons q front =>
    obtain ⟨rfl, hps⟩ := List.cons_eq_cons.1 heq
    have hfront := h front rest hps
    rw [List.count_cons_of_ne hp, List.count_cons]
    omega

theorem Balanced.covered {ps : List Piece} (h : Balanced ps) : Covered ps := by
  induction h with
  | nil =>
    intro front rest heq
    rw [(List.append_eq_nil_iff.1 heq.symm).1]
    exact Nat.le_refl _
  | cons hp _ ih => exact ih.cons (not_or.1 hp).2
  | @group inside others hinside _ ihinside ihothers =>
    intro front rest heq
    cases front with
    | nil => exact Nat.le_refl _
    | cons q front =>
      obtain ⟨rfl, htail⟩ := List.cons_eq_cons.1 heq
      rw [List.count_cons_of_ne (by decide), List.count_cons_self]
      rcases List.append_eq_append_iff.1 htail with ⟨more, rfl, hmore⟩ | ⟨more, rfl, _⟩
      · -- the front part goes up to the closing brace at least
        have hcount := hinside.count_eq
        cases more with
        | nil =>
          rw [List.append_nil]
          omega
        | cons r more =>
          obtain ⟨rfl, hothers⟩ := List.cons_eq_cons.1 hmore
          have hbehind := ihothers more rest hothers
          rw [List.count_append, List.count_append, List.count_cons_self,
            List.count_cons_of_ne (by decide)]
          omega
      · have hfront := ihinside front more rfl
        omega

/-- A group that closes takes one closing brace more than it has inside. -/
theorem Covered.not_closedIn {ps : List Piece} (h : Covered ps) : ¬ ClosedIn ps := by
  rintro ⟨inside, rest, hinside, rfl⟩
  have hfront := h (inside ++ [.closing]) rest (by simp)
  have hcount := hinside.count_eq
  rw [List.count_append, List.count_append, List.count_singleton_self,
    List.count_singleton, if_neg (by decide)] at hfront
  omega

theorem ClosedIn.append {ps : List Piece} (h : ClosedIn ps) (qs : List Piece) :
    ClosedIn (ps ++ qs) := by
  obtain ⟨inside, rest, hinside, rfl⟩ := h
  exact ⟨inside, rest ++ qs, hinside, by simp⟩

/-- Among balanced pieces every group closes. -/
theorem Balanced.closedIn {ps : List Piece} (h : Balanced ps) {before inside : List Piece}
    (heq : ps = before ++ .opening :: inside) : ClosedIn inside := by
  induction h generalizing before inside with
  | nil => simp at heq
  | cons hp _ ih =>
    cases before with
    | nil =>
      obtain ⟨rfl, _⟩ := List.cons_eq_cons.1 heq
      exact absurd (Or.inl rfl) hp
    | cons q before => exact ih (List.cons_eq_cons.1 heq).2
  | @group body others hbody _ ihbody ihothers =>
    cases before with
    | nil =>
      obtain ⟨_, rfl⟩ := List.cons_eq_cons.1 heq
      exact ⟨body, others, hbody, rfl⟩
    | cons q before =>
      obtain ⟨_, htail⟩ := List.cons_eq_cons.1 heq
      rcases List.append_eq_append_iff.1 htail with ⟨more, rfl, hmore⟩ | ⟨more, rfl, hmore⟩
      · -- the brace stands behind the group
        cases more with
        | nil => cases hmore
        | cons r more => exact ihothers (List.cons_eq_cons.1 hmore).2
      · cases more with
        | nil => cases hmore
        | cons r more =>
          obtain ⟨rfl, rfl⟩ := List.cons_eq_cons.1 hmore
          exact (ihbody rfl).append _

/-! ## Section 4: Braces that are open -/

/-- Behind these pieces the groups are open whose braces stand at these offsets, innermost first;
    between the braces all is balanced. -/
inductive Opened : List Piece → List Nat → Prop where
  | closed {ps : List Piece} : Balanced ps → Opened ps []
  | opening {ps inside : List Piece} {offsets : List Nat} : Opened ps offsets → Balanced inside →
      Opened (ps ++ .opening :: inside) ((spell ps).length :: offsets)

theorem Opened.balanced {ps : List Piece} (h : Opened ps []) : Balanced ps := by
  cases h with
  | closed hbalanced => exact hbalanced

theorem Opened.append {ps more : List Piece} {offsets : List Nat} (h : Opened ps offsets)
    (hmore : Balanced more) : Opened (ps ++ more) offsets := by
  cases h with
  | closed hbalanced => exact .closed (hbalanced.append hmore)
  | opening houter hinside =>
    rw [List.append_assoc]
    exact .opening houter (hinside.append hmore)

theorem Opened.close {ps : List Piece} {offset : Nat} {outer : List Nat}
    (h : Opened ps (offset :: outer)) : Opened (ps ++ [.closing]) outer := by
  cases h with
  | opening houter hinside =>
    rw [List.append_assoc]
    exact houter.append (.group hinside .nil)

theorem Opened.covered {ps : List Piece} {offsets : List Nat} (h : Opened ps offsets) :
    Covered ps := by
  induction h with
  | closed hbalanced => exact hbalanced.covered
  | opening _ hinside ih => exact ih.append (hinside.covered.cons (by decide))

theorem Covered.not_closing {ps rest : List Piece} (h : Covered (ps ++ .closing :: rest)) :
    ¬ Balanced ps := by
  intro hbalanced
  exact h.not_closedIn ⟨ps, rest, hbalanced, rfl⟩

theorem Covered.exists_opened {ps : List Piece} (h : Covered ps) :
    ∃ offsets, Opened ps offsets := by
  induction ps using List.reverseRecOn with
  | nil => exact ⟨[], .closed .nil⟩
  | append_singleton ps p ih =>
    obtain ⟨offsets, hopened⟩ := ih h.of_append
    by_cases hopen : p = .opening
    · subst hopen
      exact ⟨_, hopened.opening .nil⟩
    by_cases hclose : p = .closing
    · subst hclose
      cases offsets with
      | nil => exact absurd hopened.balanced h.not_closing
      | cons offset outer => exact ⟨outer, hopened.close⟩
    · exact ⟨offsets, hopened.append (.cons (not_or.2 ⟨hopen, hclose⟩) .nil)⟩

/-- The last of the offsets is that of the outermost group, the first one that stays open. -/
theorem Opened.outermost {ps : List Piece} {offsets : List Nat} (h : Opened ps offsets)
    {offset : Nat} (hlast : offsets.getLast? = some offset) :
    ∃ before inside, ps = before ++ .opening :: inside ∧ Balanced before ∧ Covered inside ∧
      (spell before).length = offset := by
  induction h with
  | closed => cases hlast
  | @opening ps inside outer houter hinside ih =>
    cases outer with
    | nil =>
      cases hlast
      exact ⟨ps, inside, rfl, houter.balanced, hinside.covered, rfl⟩
    | cons next others =>
      rw [List.getLast?_cons_cons] at hlast
      obtain ⟨before, between, rfl, hbefore, hbetween, hoffset⟩ := ih hlast
      refine ⟨before, between ++ .opening :: inside, by simp, hbefore, ?_, hoffset⟩
      exact hbetween.append (hinside.covered.cons (by decide))

theorem Opened.groupOpen_iff {ps : List Piece} {offsets : List Nat} (h : Opened ps offsets) :
    GroupOpen ps ↔ offsets ≠ [] := by
  constructor
  · rintro ⟨before, inside, heq, hnot⟩ rfl
    exact hnot (h.balanced.closedIn heq)
  · intro hne
    obtain ⟨before, inside, heq, _, hinside, _⟩ :=
      h.outermost (List.getLast?_eq_some_getLast hne)
    exact ⟨before, inside, heq, hinside.not_closedIn⟩

/-- As long as the pieces are covered, every closing brace has a group to close. -/
theorem Covered.groupOpen {before rest : List Piece} (h : Covered (before ++ .closing :: rest)) :
    GroupOpen before := by
  obtain ⟨offsets, hopened⟩ := h.of_append.exists_opened
  rw [hopened.groupOpen_iff]
  rintro rfl
  exact h.not_closing hopened.balanced

/-! ## Section 5: The scan -/

theorem Reads.append_iff {text rest : List Char} {ps rs : List Piece} (h : Reads text ps) :
    Reads (text ++ rest) rs ↔ ∃ qs, rs = ps ++ qs ∧ Reads rest qs := by
  rw [← reads_spell_append_iff h.sound, h.spell_eq]

theorem Reads.concat {text : List Char} {ps : List Piece} (h : Reads text ps) {p : Piece}
    (hp : p.Sound) : Reads (text ++ p.text) (ps ++ [p]) := by
  have hpiece := reads_spell (List.forall_mem_singleton.2 hp)
  rw [spell_cons, spell_nil, List.append_nil] at hpiece
  exact h.append hpiece

theorem ComesTo.lt_length {cs : List Char} {offset : Nat} {before : List Piece} {c : Char}
    {after : List Char} (h : ComesTo cs offset before c after) : offset < cs.length := by
  obtain ⟨text, _, rfl, rfl⟩ := h
  rw [List.length_append, List.length_cons]
  omega

theorem ComesTo.getElem?_eq {cs : List Char} {offset : Nat} {before : List Piece} {c : Char}
    {after : List Char} (h : ComesTo cs offset before c after) : cs[offset]? = some c := by
  obtain ⟨text, _, rfl, rfl⟩ := h
  simp

/-- An opening brace that reading comes to is one of the pieces of the whole pattern. -/
theorem Reads.eq_of_comesTo {cs after : List Char} {ps before behind : List Piece} {offset : Nat}
    (h : Reads cs ps) (hcomes : ComesTo cs offset before '\x7b' after)
    (hbehind : Reads after behind) :
    ps = before ++ .opening :: behind ∧ (spell before).length = offset := by
  obtain ⟨text, htext, rfl, rfl⟩ := hcomes
  refine ⟨h.unique (htext.append (.plain (by decide) hbehind)), ?_⟩
  rw [htext.spell_eq]

theorem EarlyFaultAt.lt_length {cs : List Char} {offset : Nat} (h : EarlyFaultAt cs offset) :
    offset < cs.length := by
  rcases h with ⟨_, _, hcomes, _⟩ | ⟨_, _, hcomes, _⟩
  · exact hcomes.lt_length
  · exact hcomes.lt_length

/-- A character in the front part of a text leaves the rest of that part behind it. -/
theorem exists_more_of_length_lt {text rest front after : List Char} {c : Char}
    (heq : text ++ rest = front ++ c :: after) (hlt : front.length < text.length) :
    ∃ more, text = front ++ c :: more ∧ after = more ++ rest := by
  rcases List.append_eq_append_iff.1 heq with ⟨more, rfl, _⟩ | ⟨more, rfl, hmore⟩
  · rw [List.length_append] at hlt
    omega
  · cases more with
    | nil => simp at hlt
    | cons d more =>
      obtain ⟨rfl, rfl⟩ := List.cons_eq_cons.1 hmore
      exact ⟨more, rfl, rfl⟩

/-- What was read without being overdrawn has no early fault in it. -/
theorem EarlyFaultAt.length_le {text rest : List Char} {ps : List Piece} {offset : Nat}
    (h : EarlyFaultAt (text ++ rest) offset) (hreads : Reads text ps) (hcovered : Covered ps) :
    text.length ≤ offset := by
  by_contra hlt
  rw [Nat.not_le] at hlt
  rcases h with ⟨before, after, ⟨front, hfront, heq, rfl⟩, hnever⟩ |
    ⟨before, after, ⟨front, hfront, heq, rfl⟩, hnone⟩
  · obtain ⟨more, rfl, rfl⟩ := exists_more_of_length_lt heq hlt
    obtain ⟨qs, _, hqs⟩ := hfront.append_iff.1 hreads
    cases hqs with
    | @cls _ body behind _ hsplit _ =>
      refine hnever body (behind ++ rest) (isClassBody_of_classSplit? hsplit) ?_
      rw [eq_of_classSplit? hsplit, List.append_assoc]
      rfl
    | plain hne _ => exact hne rfl
  · obtain ⟨more, rfl, rfl⟩ := exists_more_of_length_lt heq hlt
    obtain ⟨qs, rfl, hqs⟩ := hfront.append_iff.1 hreads
    cases hqs with
    | plain _ _ => exact hnone hcovered.groupOpen

theorem Reads.not_earlyFaultAt {cs : List Char} {ps : List Piece} (h : Reads cs ps)
    (hcovered : Covered ps) (offset : Nat) : ¬ EarlyFaultAt cs offset := by
  intro hfault
  have hlt := hfault.lt_length
  rw [← List.append_nil cs] at hfault
  have hle := hfault.length_le h hcovered
  omega

/-- At the end, the outermost group that is open is named. -/
theorem Reads.namesFault {cs : List Char} {ps : List Piece} (h : Reads cs ps)
    {offsets : List Nat} (hopened : Opened ps offsets) {offset : Nat}
    (hlast : offsets.getLast? = some offset) : NamesFault cs (.unbalancedBrace offset) := by
  have hearly := h.not_earlyFaultAt hopened.covered
  obtain ⟨before, inside, rfl, hbefore, hinside, rfl⟩ := hopened.outermost hlast
  obtain ⟨rfl, hsound⟩ := reads_iff.1 h
  obtain ⟨hsoundBefore, hsoundRest⟩ := List.forall_mem_append.1 hsound
  have hsoundInside := (List.forall_mem_cons.1 hsoundRest).2
  refine .openBrace hearly ⟨before, spell inside, inside, ?_, reads_spell hsoundInside,
    hinside.not_closedIn⟩ ?_
  · exact ⟨spell before, reads_spell hsoundBefore, spell_append _ _, rfl⟩
  · rintro other ⟨front, after, behind, hcomes, hbehind, hnot⟩
    obtain ⟨hpieces, rfl⟩ := h.eq_of_comesTo hcomes hbehind
    rcases List.append_eq_append_iff.1 hpieces with ⟨more, rfl, _⟩ | ⟨more, rfl, hmore⟩
    · rw [spell_append, List.length_append]
      omega
    · cases more with
      | nil => rw [List.append_nil]
      | cons r more =>
        -- a brace before the outermost one stands among balanced pieces
        obtain ⟨rfl, rfl⟩ := List.cons_eq_cons.1 hmore
        exact absurd ((hbefore.closedIn rfl).append _) hnot

/-- Where the scan has come, the pieces behind it open the groups whose offsets it keeps. What it
    reports from there is the leftmost fault. -/
theorem namesFault_of_balanceFrom {text rest : List Char} {ps : List Piece} {offsets : List Nat}
    {e : PatternError} (hreads : Reads text ps) (hopened : Opened ps offsets)
    (h : balanceFrom text.length offsets rest = .error e) : NamesFault (text ++ rest) e := by
  generalize hoffset : text.length = offset at h
  fun_induction balanceFrom offset offsets rest generalizing text ps with
  -- at the end, with no group open and with some
  | case1 => cases h
  | case2 offset openBraces leftmost hlast =>
    cases h
    rw [List.append_nil]
    exact hreads.namesFault hopened hlast
  -- a bracket that opens no class, and one that does
  | case3 offset openBraces rest hsplit =>
    cases h
    subst hoffset
    refine .unclosedClass ⟨ps, rest, ⟨text, hreads, rfl, rfl⟩, ?_⟩ ?_
    · rintro body after hbody rfl
      rw [classSplit?_of_isClassBody hbody] at hsplit
      cases hsplit
    · intro other hother
      exact hother.length_le hreads hopened.covered
  | case4 offset openBraces rest body after hsplit ih =>
    have hsound : (Piece.cls body).Sound := isClassBody_of_classSplit? hsplit
    have htext : text ++ '[' :: rest = text ++ (Piece.cls body).text ++ after := by
      rw [eq_of_classSplit? hsplit]
      simp [Piece.text]
    have hlength : (text ++ (Piece.cls body).text).length = offset + body.length + 2 := by
      simp [Piece.text, hoffset, Nat.add_assoc]
    rw [htext]
    exact ih (hreads.concat hsound) (hopened.append (.cons (Piece.not_isBrace_cls body) .nil))
      hlength h
  -- an opening brace
  | case5 offset openBraces rest ih =>
    have hsound : Piece.opening.Sound := show '\x7b' ≠ '[' by decide
    have hlength : (text ++ Piece.opening.text).length = offset + 1 := by
      simp [Piece.text, hoffset]
    -- the brace stands behind the text that was read
    have hnext := hopened.opening .nil
    rw [hreads.spell_eq, hoffset] at hnext
    rw [List.append_cons]
    exact ih (hreads.concat hsound) hnext hlength h
  -- a closing brace, with no group open and with some
  | case6 offset rest =>
    cases h
    subst hoffset
    refine .strayBrace ⟨ps, rest, ⟨text, hreads, rfl, rfl⟩, ?_⟩ ?_
    · rw [hopened.groupOpen_iff]
      exact fun hne => hne rfl
    · intro other hother
      exact hother.length_le hreads hopened.covered
  | case7 offset rest innermost outer ih =>
    have hsound : Piece.closing.Sound := show '\x7d' ≠ '[' by decide
    have hlength : (text ++ Piece.closing.text).length = offset + 1 := by
      simp [Piece.text, hoffset]
    rw [List.append_cons]
    exact ih (hreads.concat hsound) hopened.close hlength h
  -- any other character
  | case8 offset openBraces c rest hbracket hopen hclose ih =>
    have hsound : (Piece.plain c).Sound := hbracket
    have hplain : ¬ (Piece.plain c).IsBrace :=
      fun hbrace => (Piece.isBrace_plain.1 hbrace).elim hopen hclose
    have hlength : (text ++ (Piece.plain c).text).length = offset + 1 := by
      simp [Piece.text, hoffset]
    rw [List.append_cons]
    exact ih (hreads.concat hsound) (hopened.append (.cons hplain .nil)) hlength h

/-! ## Section 6: The answer of the check -/

theorem Reads.not_namesFault {cs : List Char} {ps : List Piece} (h : Reads cs ps)
    (hbalanced : Balanced ps) (e : PatternError) : ¬ NamesFault cs e := by
  intro hnames
  have hearly := h.not_earlyFaultAt hbalanced.covered
  cases hnames with
  | unclosedClass hfault _ => exact hearly _ (Or.inl hfault)
  | strayBrace hfault _ => exact hearly _ (Or.inr hfault)
  | openBrace _ hfault _ =>
    obtain ⟨before, after, behind, hcomes, hbehind, hnot⟩ := hfault
    obtain ⟨heq, _⟩ := h.eq_of_comesTo hcomes hbehind
    exact hnot (hbalanced.closedIn heq)

theorem UnclosedClassAt.not_strayBraceAt {cs : List Char} {offset : Nat}
    (h : UnclosedClassAt cs offset) : ¬ StrayBraceAt cs offset := by
  rintro ⟨_, _, hbrace, _⟩
  obtain ⟨_, _, hbracket, _⟩ := h
  have hsame := hbracket.getElem?_eq.symm.trans hbrace.getElem?_eq
  cases hsame

/-- A pattern has at most one leftmost fault. -/
theorem NamesFault.unique {cs : List Char} {e e' : PatternError} (h : NamesFault cs e)
    (h' : NamesFault cs e') : e = e' := by
  cases h with
  | unclosedClass hfault hfirst =>
    cases h' with
    | unclosedClass hother hleast =>
      rw [Nat.le_antisymm (hfirst _ (Or.inl hother)) (hleast _ (Or.inl hfault))]
    | strayBrace hother hleast =>
      rw [Nat.le_antisymm (hfirst _ (Or.inr hother)) (hleast _ (Or.inl hfault))] at hfault
      exact absurd hother hfault.not_strayBraceAt
    | openBrace hnone _ _ => exact absurd (Or.inl hfault) (hnone _)
  | strayBrace hfault hfirst =>
    cases h' with
    | unclosedClass hother hleast =>
      rw [Nat.le_antisymm (hfirst _ (Or.inl hother)) (hleast _ (Or.inr hfault))] at hfault
      exact absurd hfault hother.not_strayBraceAt
    | strayBrace hother hleast =>
      rw [Nat.le_antisymm (hfirst _ (Or.inr hother)) (hleast _ (Or.inr hfault))]
    | openBrace hnone _ _ => exact absurd (Or.inr hfault) (hnone _)
  | openBrace hnone hfault hfirst =>
    cases h' with
    | unclosedClass hother _ => exact absurd (Or.inl hother) (hnone _)
    | strayBrace hother _ => exact absurd (Or.inr hother) (hnone _)
    | openBrace _ hother hleast =>
      rw [Nat.le_antisymm (hfirst _ hother) (hleast _ hfault)]

theorem namesFault_of_checkBalance {cs : List Char} {e : PatternError}
    (h : checkBalance cs = .error e) : NamesFault cs e :=
  namesFault_of_balanceFrom .done (.closed .nil) h

/-- The check accepts the strings of the grammar, and of any other string it names the leftmost
    fault. -/
theorem checkBalance_eq_error_iff (cs : List Char) :
    (checkBalance cs = .ok () ↔ Formed cs) ∧
    ∀ e, checkBalance cs = .error e ↔ NamesFault cs e := by
  refine ⟨by rw [checkBalance_eq_ok_iff, formed_iff], ?_⟩
  intro e
  constructor
  · exact namesFault_of_checkBalance
  · intro hnames
    cases hcheck : checkBalance cs with
    | ok =>
      obtain ⟨ps, hreads, hbalanced⟩ := checkBalance_eq_ok_iff.1 hcheck
      exact absurd hnames (hreads.not_namesFault hbalanced e)
    | error e' => rw [(namesFault_of_checkBalance hcheck).unique hnames]

/-- A stray brace comes before a group that stays open and a class that does not close; the brace
    in the first class closes nothing. -/
example : checkBalance "\x7b[\x7d]\x7d\x7d\x7b[!]".toList = .error (.unbalancedBrace 5) := by
  decide +kernel

end RuleCascade.Pattern
