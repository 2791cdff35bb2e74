import RuleCascade.Proofs.AnyDepth

/-! # Which patterns compile

    A pattern without braces is looked at three times: by the check for balance,
    by anchoring, and by the compiler of globs. Each has its own idea of where a
    class ends and where a segment starts, and anchoring adds text at both ends
    in between. What they accept together can be said of the pattern alone:

    * Something is left of it when its root mark is taken off.
    * It is read as pieces, that is, every bracket outside a class opens one.
    * Stars outside the classes stand alone, or two of them are a segment.

    The compiler reads a glob from left to right and looks at two stars at a
    time, so the last condition is first brought into that form. A separator
    then splits it into one for each side (`pairsInPlace_append_slash`), and
    anchoring puts nothing but separators, and stars between them, at the ends.

    Main statement: `exists_compile_iff_starsInPlace`.
-/

namespace RuleCascade

open Glob

namespace Pattern

/-! ## Section 1: Stars in place -/

/-- A star outside all classes. -/
abbrev Piece.star : Piece := .plain '*'

/-- A separator outside all classes. -/
abbrev Piece.slash : Piece := .plain '/'

/-- So many stars stand between these pieces, and neither of their neighbours is one more. -/
structure IsStarRun (ps before : List Piece) (n : Nat) (after : List Piece) : Prop where
  pieces_eq : ps = before ++ List.replicate n .star ++ after
  pos : 0 < n
  starts : before.getLast? ≠ some .star
  ends : after.head? ≠ some .star

/-- Every maximal run of stars is a single star, or two stars that are a whole segment. -/
def StarsInPlace (ps : List Piece) : Prop :=
  ∀ before n after, IsStarRun ps before n after →
    n = 1 ∨ (n = 2 ∧ (before = [] ∨ before.getLast? = some .slash) ∧
      (after = [] ∨ after.head? = some .slash))

/-- Two stars side by side are a whole segment. The flag says that one starts in front of the
    pieces. -/
def PairsInPlace : Bool → List Piece → Prop
  | _, [] => True
  | start, p :: rest =>
    (p = .star → ∀ after, rest = .star :: after →
      start = true ∧ (after = [] ∨ after.head? = some .slash)) ∧ PairsInPlace (p = .slash) rest

@[simp] theorem pairsInPlace_nil (start : Bool) : PairsInPlace start [] := trivial

theorem pairsInPlace_cons_of_ne {start : Bool} {p : Piece} {rest : List Piece} (h : p ≠ .star) :
    PairsInPlace start (p :: rest) ↔ PairsInPlace (p = .slash) rest := by
  simp [PairsInPlace, h]

theorem pairsInPlace_star_cons_of_ne {start : Bool} {p : Piece} {rest : List Piece}
    (h : p ≠ .star) :
    PairsInPlace start (.star :: p :: rest) ↔ PairsInPlace false (p :: rest) := by
  simp [PairsInPlace, h]

/-- The flag is only asked where two stars stand at the very beginning. -/
theorem pairsInPlace_iff {start : Bool} {ps : List Piece} :
    PairsInPlace start ps ↔ ∀ before after, ps = before ++ .star :: .star :: after →
      ((before = [] ∧ start = true) ∨ before.getLast? = some .slash) ∧
        (after = [] ∨ after.head? = some .slash) := by
  induction ps generalizing start with
  | nil => simp [PairsInPlace]
  | cons p rest ih =>
    constructor
    · rintro ⟨hhere, hrest⟩ before after heq
      cases before with
      | nil =>
        obtain ⟨rfl, rfl⟩ := List.cons.inj heq
        obtain ⟨hstart, hafter⟩ := hhere rfl after rfl
        exact ⟨Or.inl ⟨rfl, hstart⟩, hafter⟩
      | cons q before =>
        obtain ⟨rfl, rfl⟩ := List.cons.inj heq
        obtain ⟨hbefore, hafter⟩ := ih.1 hrest before after rfl
        refine ⟨Or.inr ?_, hafter⟩
        rcases hbefore with ⟨rfl, hslash⟩ | hlast
        · simpa using hslash
        · simp [List.getLast?_cons, hlast]
    · intro h
      refine ⟨?_, ih.2 ?_⟩
      · rintro rfl after rfl
        obtain ⟨hbefore, hafter⟩ := h [] after rfl
        exact ⟨by simpa using hbefore, hafter⟩
      · rintro before after rfl
        obtain ⟨hbefore, hafter⟩ := h (p :: before) after rfl
        refine ⟨?_, hafter⟩
        cases before with
        | nil => exact Or.inl ⟨rfl, by simpa using hbefore⟩
        | cons q before => exact Or.inr (by simpa using hbefore)

/-- A list starts with a maximal run of any given item. -/
theorem exists_replicate_append (p : Piece) (ps : List Piece) :
    ∃ n rest, ps = List.replicate n p ++ rest ∧ rest.head? ≠ some p := by
  induction ps with
  | nil => exact ⟨0, [], rfl, by simp⟩
  | cons q ps ih =>
    by_cases hq : q = p
    · obtain ⟨n, rest, rfl, hrest⟩ := ih
      exact ⟨n + 1, rest, by rw [hq]; rfl, hrest⟩
    · exact ⟨0, q :: ps, rfl, by simpa using hq⟩

/-- A list ends with a maximal run of any given item. -/
theorem exists_append_replicate (p : Piece) (ps : List Piece) :
    ∃ rest n, ps = rest ++ List.replicate n p ∧ rest.getLast? ≠ some p := by
  obtain ⟨n, rest, hreverse, hrest⟩ := exists_replicate_append p ps.reverse
  refine ⟨rest.reverse, n, ?_, by simpa using hrest⟩
  rw [← List.reverse_reverse ps, hreverse]
  simp

/-- Looking at two stars at a time is enough. -/
theorem starsInPlace_iff {ps : List Piece} : StarsInPlace ps ↔ PairsInPlace true ps := by
  rw [pairsInPlace_iff]
  constructor
  · intro h before after heq
    -- the two stars lie in a maximal run, which cannot be longer
    obtain ⟨left, i, rfl, hleft⟩ := exists_append_replicate .star before
    obtain ⟨j, right, rfl, hright⟩ := exists_replicate_append .star after
    have hrun : IsStarRun ps left (i + (j + 2)) right := by
      refine ⟨?_, by omega, hleft, hright⟩
      rw [heq, ← List.replicate_append_replicate, List.replicate_succ, List.replicate_succ]
      simp
    rcases h left (i + (j + 2)) right hrun with hone | ⟨htwo, hbefore, hafter⟩
    · omega
    · obtain rfl : i = 0 := by omega
      obtain rfl : j = 0 := by omega
      simpa using ⟨hbefore, hafter⟩
  · rintro h before n after ⟨heq, hpos, hstarts, hends⟩
    match n, hpos with
    | 1, _ => exact Or.inl rfl
    | n + 2, _ =>
      obtain ⟨hbefore, hafter⟩ := h before (List.replicate n .star ++ after) (by
        rw [heq, List.replicate_succ, List.replicate_succ]
        simp)
      cases n with
      | zero => exact Or.inr ⟨rfl, by simpa using hbefore, by simpa using hafter⟩
      | succ n => simp [List.replicate_succ] at hafter

/-- A separator splits the condition. -/
theorem pairsInPlace_append_slash {start : Bool} {ps qs : List Piece} :
    PairsInPlace start (ps ++ .slash :: qs) ↔ PairsInPlace start ps ∧ PairsInPlace true qs := by
  induction ps generalizing start with
  | nil => simp [PairsInPlace]
  | cons p ps ih =>
    cases ps with
    | nil => simp [PairsInPlace]
    | cons q ps =>
      show (p = .star → _) ∧ PairsInPlace _ (q :: ps ++ .slash :: qs) ↔
        ((p = .star → _) ∧ PairsInPlace _ (q :: ps)) ∧ PairsInPlace true qs
      rw [ih, and_assoc, and_congr_left_iff]
      intro _
      cases ps with
      | nil => simp
      | cons r ps => simp

/-! ## Section 2: Text around what is read -/

/-- At the end of a pattern, only a closing bracket can belong to a class. -/
theorem reads_concat_iff {c : Char} (hopen : c ≠ '[') (hclose : c ≠ ']') {cs : List Char}
    {rs : List Piece} : Reads (cs ++ [c]) rs ↔ ∃ ps, rs = ps ++ [.plain c] ∧ Reads cs ps := by
  constructor
  · intro hreads
    obtain ⟨hspell, hsound⟩ := reads_iff.1 hreads
    rcases List.eq_nil_or_concat rs with rfl | ⟨ps, p, rfl⟩
    · simp at hspell
    · rw [List.concat_eq_append] at hspell hsound ⊢
      obtain ⟨hps, _⟩ := List.forall_mem_append.1 hsound
      have hlast : (spell ps ++ p.text).getLast? = some c := by
        simpa using congrArg List.getLast? hspell
      cases p with
      | plain d =>
        obtain rfl : d = c := by simpa [Piece.text] using hlast
        refine ⟨ps, rfl, reads_iff.2 ⟨?_, hps⟩⟩
        simpa [Piece.text] using hspell
      | cls body =>
        have hbracket : ']' = c := by simpa [Piece.text, List.getLast?_cons] using hlast
        exact absurd hbracket.symm hclose
  · rintro ⟨ps, rfl, hps⟩
    exact hps.append (.plain hopen .done)

/-! ## Section 3: The compiler -/

theorem classBody?_eq_some_iff {cs body after : List Char} :
    classBody? cs = some (body, after) ↔ cs = body ++ ']' :: after ∧
      ∃ first others, body = first :: others ∧ ']' ∉ others := by
  constructor
  · intro h
    cases cs with
    | nil => cases h
    | cons c rest =>
      have hrest := List.takeWhile_append_dropWhile (p := (· ≠ ']')) (l := rest)
      have hhead := List.head?_dropWhile_not (· ≠ ']') rest
      simp only [classBody?] at h
      split at h
      · cases h
      · rename_i d tail hdrop
        cases h
        rw [hdrop] at hrest hhead
        obtain rfl : d = ']' := by simpa using hhead
        exact ⟨by rw [List.cons_append, hrest], c, _, rfl, notMem_takeWhile rest⟩
  · rintro ⟨rfl, first, others, rfl, hothers⟩
    have hmembers : ∀ c ∈ others, decide (c ≠ ']') = true := by
      intro c hc
      rw [decide_eq_true_eq]
      rintro rfl
      exact hothers hc
    simp only [List.cons_append, classBody?, List.dropWhile_append_of_pos hmembers,
      List.takeWhile_append_of_pos hmembers]
    simp

/-- A class with a mark has the members that the compiler finds behind the mark. -/
theorem classSplit?_mark (rest : List Char) :
    classSplit? ('!' :: rest) =
      (classBody? rest).map fun found => ('!' :: found.1, found.2) := by
  apply Option.ext
  rintro ⟨body, after⟩
  simp only [classSplit?_eq_some_iff, Option.map_eq_some_iff, Prod.exists, classBody?_eq_some_iff]
  constructor
  · rintro ⟨hrest, first, others, hbody, hothers⟩
    cases body with
    | nil => cases hrest
    | cons c members =>
      obtain ⟨rfl, rfl⟩ := List.cons.inj hrest
      exact ⟨members, after, ⟨rfl, first, others, hbody, hothers⟩, rfl⟩
  · rintro ⟨members, after, ⟨rfl, hmembers⟩, heq⟩
    cases heq
    exact ⟨rfl, hmembers⟩

/-- The members of a class without a mark are those that the compiler finds. -/
theorem classSplit?_of_not_mark {rest : List Char}
    (hmark : ∀ members, rest = '!' :: members → False) : classSplit? rest = classBody? rest := by
  apply Option.ext
  rintro ⟨body, after⟩
  rw [classSplit?_eq_some_iff, classBody?_eq_some_iff]
  apply and_congr_right
  rintro rfl
  have hbody : unmarked body = body := by
    unfold unmarked
    split
    · exact absurd rfl (hmark _)
    · rfl
  rw [IsClassBody, hbody]

/-! ## Section 4: What the compiler accepts -/

/-- The text is read as pieces, and their stars are in place. -/
def InPlace (start : Bool) (cs : List Char) : Prop :=
  ∃ ps, Reads cs ps ∧ PairsInPlace start ps

theorem inPlace_nil (start : Bool) : InPlace start [] := ⟨[], .done, trivial⟩

theorem inPlace_plain {start : Bool} {c : Char} {rest : List Char} (hopen : c ≠ '[')
    (hstar : c ≠ '*') : InPlace start (c :: rest) ↔ InPlace (c = '/') rest := by
  have hpairs : ∀ ps, PairsInPlace start (.plain c :: ps) ↔ PairsInPlace (c = '/') ps := by
    intro ps
    have hne : Piece.plain c ≠ .star := by simpa using hstar
    have hcons : PairsInPlace start (.plain c :: ps) ↔ PairsInPlace (Piece.plain c = .slash) ps :=
      pairsInPlace_cons_of_ne hne
    simpa using hcons
  constructor
  · rintro ⟨ps, hreads, hplace⟩
    cases hreads with
    | cls _ _ => exact absurd rfl hopen
    | plain _ hrest => exact ⟨_, hrest, (hpairs _).1 hplace⟩
  · rintro ⟨ps, hreads, hplace⟩
    exact ⟨.plain c :: ps, .plain hopen hreads, (hpairs ps).2 hplace⟩

/-- A star stands alone if no other one follows. -/
theorem inPlace_star {start : Bool} {rest : List Char} (h : rest.head? ≠ some '*') :
    InPlace start ('*' :: rest) ↔ InPlace false rest := by
  have hpairs : ∀ ps, Reads rest ps →
      (PairsInPlace start (.star :: ps) ↔ PairsInPlace false ps) := by
    intro ps hreads
    cases hreads with
    | done => simp [PairsInPlace]
    | cls _ _ => exact pairsInPlace_star_cons_of_ne (by simp)
    | plain _ _ => exact pairsInPlace_star_cons_of_ne (by simpa using h)
  constructor
  · rintro ⟨ps, hreads, hplace⟩
    cases hreads with
    | plain _ hrest => exact ⟨_, hrest, (hpairs _ hrest).1 hplace⟩
  · rintro ⟨ps, hreads, hplace⟩
    exact ⟨.star :: ps, .plain (by decide) hreads, (hpairs ps hreads).2 hplace⟩

/-- Two stars fill a segment. -/
theorem inPlace_pair {start : Bool} {rest : List Char} :
    InPlace start ('*' :: '*' :: rest) ↔
      start = true ∧ (rest = [] ∨ ∃ below, rest = '/' :: below ∧ InPlace true below) := by
  constructor
  · rintro ⟨ps, hreads, hplace⟩
    cases hreads with
    | plain _ hreads =>
      cases hreads with
      | plain _ hreads =>
        obtain ⟨hhere, hplace⟩ := hplace
        obtain ⟨hstart, hafter⟩ := hhere rfl _ rfl
        refine ⟨hstart, ?_⟩
        cases hreads with
        | done => exact Or.inl rfl
        | cls _ _ => simp at hafter
        | @plain c below qs _ hbelow =>
          obtain rfl : c = '/' := by simpa using hafter
          have hsplit : PairsInPlace false ([.star] ++ .slash :: qs) := hplace
          exact Or.inr ⟨below, rfl, qs, hbelow, (pairsInPlace_append_slash.1 hsplit).2⟩
  · rintro ⟨rfl, rfl | ⟨below, rfl, ps, hreads, hplace⟩⟩
    · exact ⟨[.star, .star], .plain (by decide) (.plain (by decide) .done), by simp [PairsInPlace]⟩
    · refine ⟨[.star, .star] ++ .slash :: ps, .plain (by decide) (.plain (by decide)
        (.plain (by decide) hreads)), pairsInPlace_append_slash.2 ⟨by simp [PairsInPlace], hplace⟩⟩

theorem inPlace_class {start : Bool} {rest body after : List Char}
    (h : classSplit? rest = some (body, after)) :
    InPlace start ('[' :: rest) ↔ InPlace false after := by
  have hpairs : ∀ ps, PairsInPlace start (.cls body :: ps) ↔ PairsInPlace false ps := by
    intro ps
    exact pairsInPlace_cons_of_ne (by simp)
  constructor
  · rintro ⟨ps, hreads, hplace⟩
    cases hreads with
    | cls hsplit hrest =>
      rw [h] at hsplit
      cases hsplit
      exact ⟨_, hrest, (hpairs _).1 hplace⟩
    | plain hopen _ => exact absurd rfl hopen
  · rintro ⟨ps, hreads, hplace⟩
    exact ⟨.cls body :: ps, .cls h hreads, (hpairs ps).2 hplace⟩

/-- A bracket that opens no class cannot be read. -/
theorem not_reads_open {rest : List Char} (h : classSplit? rest = none) (ps : List Piece) :
    ¬ Reads ('[' :: rest) ps := by
  intro hreads
  cases hreads with
  | cls hsplit _ =>
    rw [h] at hsplit
    cases hsplit
  | plain hopen _ => exact hopen rfl

theorem not_inPlace_open {start : Bool} {rest : List Char} (h : classSplit? rest = none) :
    ¬ InPlace start ('[' :: rest) :=
  fun ⟨ps, hreads, _⟩ => not_reads_open h ps hreads

/-- The compiler accepts what is read as pieces with their stars in place. -/
theorem exists_compileFrom_iff {done : List Token} {start : Bool} {cs : List Char} :
    (∃ tokens, compileFrom done start cs = .ok tokens) ↔ InPlace start cs := by
  fun_induction compileFrom done start cs with
  | case1 done start => exact ⟨fun _ => inPlace_nil start, fun _ => ⟨_, rfl⟩⟩
  | case2 done start rest ih => rw [ih, inPlace_plain (by decide) (by decide)]; rfl
  | case3 done start rest => simp [inPlace_pair]
  | case4 done => simp [inPlace_pair]
  | case5 done start hstart => simp [inPlace_pair, hstart]
  | case6 done rest ih => simp [ih, inPlace_pair]
  | case7 done start rest hstart => simp [inPlace_pair, hstart]
  | case8 done start head tail hstar hsep =>
    have hne : head ≠ '/' := hsep
    simp [inPlace_pair, hne]
  | case9 done start rest hlong hend hsep hpair ih =>
    rw [ih, inPlace_star (head?_ne_star hend hpair)]
  | case10 done start rest hnone =>
    have hopen : classSplit? ('!' :: rest) = none := by rw [classSplit?_mark, hnone]; rfl
    simp [not_inPlace_open hopen]
  | case11 done start rest body after hclass ih =>
    have hsplit : classSplit? ('!' :: rest) = some ('!' :: body, after) := by
      rw [classSplit?_mark, hclass]
      rfl
    rw [ih, inPlace_class hsplit]
  | case12 done start rest hmark hnone =>
    have hopen : classSplit? rest = none := by rw [classSplit?_of_not_mark hmark, hnone]
    simp [not_inPlace_open hopen]
  | case13 done start rest hmark body after hclass ih =>
    have hsplit : classSplit? rest = some (body, after) := by
      rw [classSplit?_of_not_mark hmark, hclass]
    rw [ih, inPlace_class hsplit]
  | case14 done start c rest _ _ _ _ _ hstar _ hopen ih => rw [ih, inPlace_plain hopen hstar]

/-- Behind the check for balance the compiler finds no class open. -/
theorem compileFrom_ne_openClass {done : List Token} {start : Bool} {cs : List Char}
    {ps : List Piece} (h : Reads cs ps) : compileFrom done start cs ≠ .error .openClass := by
  fun_induction compileFrom done start cs generalizing ps with
  | case1 | case3 | case4 | case5 | case7 | case8 => simp
  | case2 done start rest ih =>
    cases h with
    | plain _ hrest => exact ih hrest
  | case6 done rest ih =>
    cases h with
    | plain _ h =>
      cases h with
      | plain _ h =>
        cases h with
        | plain _ hrest => exact ih hrest
  | case9 done start rest _ _ _ _ ih =>
    cases h with
    | plain _ hrest => exact ih hrest
  | case10 done start rest hnone =>
    have hopen : classSplit? ('!' :: rest) = none := by rw [classSplit?_mark, hnone]; rfl
    exact absurd h (not_reads_open hopen ps)
  | case11 done start rest body after hclass ih =>
    cases h with
    | cls hsplit hrest =>
      rw [classSplit?_mark, hclass] at hsplit
      cases hsplit
      exact ih hrest
    | plain hopen _ => exact absurd rfl hopen
  | case12 done start rest hmark hnone =>
    have hopen : classSplit? rest = none := by rw [classSplit?_of_not_mark hmark, hnone]
    exact absurd h (not_reads_open hopen ps)
  | case13 done start rest hmark body after hclass ih =>
    cases h with
    | cls hsplit hrest =>
      rw [classSplit?_of_not_mark hmark, hclass] at hsplit
      cases hsplit
      exact ih hrest
    | plain hopen _ => exact absurd rfl hopen
  | case14 done start c rest _ _ _ _ _ _ _ hopen ih =>
    cases h with
    | cls _ _ => exact absurd rfl hopen
    | plain _ hrest => exact ih hrest

/-! ## Section 5: What anchoring adds -/

/-- Pieces with a separator behind them can stand in front of any text. -/
theorem inPlace_spell_append {ps : List Piece} (hsound : ∀ p ∈ ps, p.Sound)
    (hplace : PairsInPlace true ps) {cs : List Char} :
    InPlace true (spell ps ++ '/' :: cs) ↔ InPlace true cs := by
  have hslash : ('/' : Char) ≠ '[' := by decide
  constructor
  · rintro ⟨rs, hreads, hrs⟩
    obtain ⟨qs, rfl, hqs⟩ := (reads_spell_append_iff hsound).1 hreads
    cases hqs with
    | plain _ hrest => exact ⟨_, hrest, (pairsInPlace_append_slash.1 hrs).2⟩
  · rintro ⟨qs, hreads, hqs⟩
    exact ⟨ps ++ .slash :: qs, (reads_spell_append_iff hsound).2 ⟨_, rfl, .plain hslash hreads⟩,
      pairsInPlace_append_slash.2 ⟨hplace, hqs⟩⟩

theorem inPlace_append_slash {cs : List Char} : InPlace true (cs ++ ['/']) ↔ InPlace true cs := by
  constructor
  · rintro ⟨rs, hreads, hrs⟩
    obtain ⟨ps, rfl, hps⟩ := (reads_concat_iff (by decide) (by decide)).1 hreads
    exact ⟨ps, hps, (pairsInPlace_append_slash.1 hrs).1⟩
  · rintro ⟨ps, hreads, hps⟩
    exact ⟨ps ++ [.slash], (reads_concat_iff (by decide) (by decide)).2 ⟨ps, rfl, hreads⟩,
      pairsInPlace_append_slash.2 ⟨hps, pairsInPlace_nil true⟩⟩

/-- The double star behind a directory fills its segment. -/
theorem inPlace_append_below {cs : List Char} :
    InPlace true (cs ++ ['/', '*', '*']) ↔ InPlace true cs := by
  have hreads : ∀ rs, Reads (cs ++ ['/', '*', '*']) rs ↔
      ∃ ps, rs = ps ++ .slash :: [.star, .star] ∧ Reads cs ps := by
    intro rs
    have htext : cs ++ ['/', '*', '*'] = cs ++ ['/'] ++ ['*'] ++ ['*'] := by simp
    rw [htext, reads_concat_iff (by decide) (by decide)]
    simp only [reads_concat_iff (show ('*' : Char) ≠ '[' by decide) (by decide),
      reads_concat_iff (show ('/' : Char) ≠ '[' by decide) (by decide)]
    constructor
    · rintro ⟨_, rfl, _, rfl, ps, rfl, hps⟩
      exact ⟨ps, by simp, hps⟩
    · rintro ⟨ps, rfl, hps⟩
      exact ⟨_, by simp, _, rfl, ps, rfl, hps⟩
  constructor
  · rintro ⟨rs, hrs, hplace⟩
    obtain ⟨ps, rfl, hps⟩ := (hreads rs).1 hrs
    exact ⟨ps, hps, (pairsInPlace_append_slash.1 hplace).1⟩
  · rintro ⟨ps, hps, hplace⟩
    exact ⟨_, (hreads _).2 ⟨ps, rfl, hps⟩,
      pairsInPlace_append_slash.2 ⟨hplace, by simp [PairsInPlace]⟩⟩

theorem expandDirectory_slash (directory : List Char) :
    expandDirectory (directory ++ ['/']) = directory ++ ['/', '*', '*'] := by
  simp [expandDirectory, directory?]

theorem expandDirectory_of_getLast?_ne {body : List Char} (h : body.getLast? ≠ some '/') :
    expandDirectory body = body := by
  simp [expandDirectory, directory?, h]

/-- A body ends with a separator, and then has a directory in front of it, or does not. -/
theorem eq_directory_or_getLast?_ne (body : List Char) :
    (∃ directory, body = directory ++ ['/']) ∨ body.getLast? ≠ some '/' := by
  by_cases hlast : body.getLast? = some '/'
  · exact Or.inl (List.getLast?_eq_some_iff.1 hlast)
  · exact Or.inr hlast

theorem expandDirectory_eq_nil_iff {body : List Char} : expandDirectory body = [] ↔ body = [] := by
  rcases eq_directory_or_getLast?_ne body with ⟨directory, rfl⟩ | hlast
  · simp [expandDirectory_slash]
  · rw [expandDirectory_of_getLast?_ne hlast]

theorem inPlace_expandDirectory {body : List Char} :
    InPlace true (expandDirectory body) ↔ InPlace true body := by
  rcases eq_directory_or_getLast?_ne body with ⟨directory, rfl⟩ | hlast
  · rw [expandDirectory_slash, inPlace_append_below, inPlace_append_slash]
  · rw [expandDirectory_of_getLast?_ne hlast]

theorem inPlace_splitRoot {cs : List Char} : InPlace true (splitRoot cs).2 ↔ InPlace true cs := by
  fun_cases splitRoot cs with
  | case1 body =>
    have hdot : InPlace true (spell [.plain '.'] ++ '/' :: body) ↔ InPlace true body :=
      inPlace_spell_append (by simp [Piece.Sound]) (by simp [PairsInPlace])
    exact hdot.symm
  | case2 body =>
    have hslash : InPlace true (spell [] ++ '/' :: body) ↔ InPlace true body :=
      inPlace_spell_append (by simp) (pairsInPlace_nil true)
    exact hslash.symm
  | case3 => exact Iff.rfl

/-- A double star in front fills its segment, too. -/
theorem inPlace_anchored {body : List Char} (bare : Bool) :
    InPlace true (if bare then body else '*' :: '*' :: '/' :: body) ↔ InPlace true body := by
  cases bare with
  | true => exact Iff.rfl
  | false =>
    have hstars : InPlace true (spell [.star, .star] ++ '/' :: body) ↔ InPlace true body :=
      inPlace_spell_append (by simp [Piece.Sound]) (by simp [PairsInPlace])
    exact hstars

theorem exists_compileAlternative_iff {cs : List Char} :
    (∃ tokens, compileAlternative cs = .ok tokens) ↔ (splitRoot cs).2 ≠ [] ∧ InPlace true cs := by
  rw [← inPlace_splitRoot]
  cases hroot : splitRoot cs with
  | mk rooted body =>
    constructor
    · rintro ⟨tokens, htokens⟩
      obtain ⟨glob, hanchor, hcompile⟩ := compileAlternative_eq_ok_iff.1 htokens
      obtain ⟨hbody, rfl⟩ := (anchor_eq_ok_iff hroot).1 hanchor
      have hplace := exists_compileFrom_iff.1 ⟨tokens, hcompile⟩
      rw [inPlace_anchored, inPlace_expandDirectory] at hplace
      exact ⟨mt expandDirectory_eq_nil_iff.2 hbody, hplace⟩
    · rintro ⟨hbody, hplace⟩
      have hanchor := (anchor_eq_ok_iff hroot).2 ⟨mt expandDirectory_eq_nil_iff.1 hbody, rfl⟩
      rw [← inPlace_expandDirectory, ← inPlace_anchored (rooted || floats (expandDirectory body))]
        at hplace
      obtain ⟨tokens, hcompile⟩ := exists_compileFrom_iff.2 hplace
      exact ⟨tokens, compileAlternative_eq_ok_iff.2 ⟨_, hanchor, hcompile⟩⟩

theorem exists_reads_splitRoot {cs : List Char} {ps : List Piece} (h : Reads cs ps) :
    ∃ qs, Reads (splitRoot cs).2 qs := by
  fun_cases splitRoot cs with
  | case1 body =>
    cases h with
    | plain _ h =>
      cases h with
      | plain _ hrest => exact ⟨_, hrest⟩
  | case2 body =>
    cases h with
    | plain _ hrest => exact ⟨_, hrest⟩
  | case3 => exact ⟨ps, h⟩

theorem reads_stars : Reads ['*', '*'] [.star, .star] :=
  .plain (by decide) (.plain (by decide) .done)

theorem exists_reads_expandDirectory {body : List Char} {ps : List Piece} (h : Reads body ps) :
    ∃ qs, Reads (expandDirectory body) qs := by
  rcases eq_directory_or_getLast?_ne body with ⟨directory, rfl⟩ | hlast
  · have hbelow := h.append reads_stars
    rw [List.append_assoc] at hbelow
    rw [expandDirectory_slash]
    exact ⟨_, hbelow⟩
  · rw [expandDirectory_of_getLast?_ne hlast]
    exact ⟨ps, h⟩

/-- Anchoring opens no class. -/
theorem exists_reads_anchor {cs glob : List Char} {ps : List Piece} (h : Reads cs ps)
    (hanchor : anchor cs = .ok glob) : ∃ qs, Reads glob qs := by
  obtain ⟨rs, hrs⟩ := exists_reads_splitRoot h
  obtain ⟨qs, hqs⟩ := exists_reads_expandDirectory hrs
  cases hroot : splitRoot cs with
  | mk rooted body =>
    obtain ⟨_, rfl⟩ := (anchor_eq_ok_iff hroot).1 hanchor
    rw [hroot] at hqs
    split
    · exact ⟨qs, hqs⟩
    · exact ⟨_, reads_stars.append (.plain (by decide) hqs)⟩

/-- Anchoring refuses nothing but what is empty. -/
theorem eq_empty_of_anchor {cs : List Char} {e : PatternError} (h : anchor cs = .error e) :
    e = .empty := by
  unfold anchor at h
  cases hroot : splitRoot cs with
  | mk rooted body =>
    by_cases hbody : expandDirectory body = []
    · simpa [hroot, hbody, eq_comm] using h
    · by_cases hplace : (rooted || floats (expandDirectory body)) = true
      · simp [hroot, hbody, hplace] at h
      · simp [hroot, hbody, hplace] at h

theorem compileAlternative_ne_openClass {cs : List Char} {ps : List Piece} (h : Reads cs ps)
    (glob : String) : compileAlternative cs ≠ .error (.invalid .openClass glob) := by
  cases hanchor : anchor cs with
  | error e =>
    have hrest : compileAlternative cs = .error e := by
      rw [compileAlternative, hanchor]
      rfl
    rw [hrest, eq_empty_of_anchor hanchor]
    simp
  | ok found =>
    obtain ⟨qs, hqs⟩ := exists_reads_anchor h hanchor
    rw [compileAlternative, bind_of_eq_ok hanchor]
    cases hcompile : Glob.compile found with
    | ok tokens => simp
    | error fault =>
      have hfault : fault ≠ .openClass := by
        rintro rfl
        exact compileFrom_ne_openClass hqs hcompile
      simp [hfault]

/-! ## Section 6: Patterns without braces -/

theorem Reads.balanced_of_notMem {cs : List Char} {ps : List Piece} (h : Reads cs ps)
    (hopen : '\x7b' ∉ cs) (hclose : '\x7d' ∉ cs) : Balanced ps := by
  apply balanced_of_forall_not_isBrace
  rintro p hp hbrace
  -- a brace among the pieces stands in the text
  have htext : ∀ c, p = .plain c → c ∈ cs := by
    rintro c rfl
    rw [← h.spell_eq]
    exact List.mem_flatMap.2 ⟨.plain c, hp, List.mem_singleton_self c⟩
  rcases hbrace with hp | hp
  · exact hopen (htext _ hp)
  · exact hclose (htext _ hp)

/-- The check for balance leaves globs to the compiler. -/
theorem balanceFrom_ne_invalid {offset : Nat} {openBraces : List Nat} {cs : List Char}
    (fault : Fault) (glob : String) :
    balanceFrom offset openBraces cs ≠ .error (.invalid fault glob) := by
  fun_induction balanceFrom offset openBraces cs with
  | case1 | case2 | case3 | case6 => simp
  | case4 offset openBraces rest body after hsplit ih => exact ih
  | case5 offset openBraces rest ih => exact ih
  | case7 offset rest innermost outer ih => exact ih
  | case8 offset openBraces c rest _ _ _ ih => exact ih

/-- A class that the check accepts is not refused later. -/
theorem compile_ne_openClass {source : String} (hplain : firstGroup? source.toList = none)
    (glob : String) : compile source ≠ .error (.invalid .openClass glob) := by
  intro h
  unfold compile at h
  by_cases hempty : source.toList = []
  · simp [hempty] at h
  · simp only [List.isEmpty_iff, hempty, if_false, expandBraces_of_none hplain, List.mapM_cons,
      List.mapM_nil] at h
    cases hbalance : checkBalance source.toList with
    | error e =>
      rw [hbalance] at h
      obtain rfl : e = _ := Except.error.inj h
      exact balanceFrom_ne_invalid _ _ hbalance
    | ok u =>
      rw [bind_of_eq_ok hbalance] at h
      obtain ⟨ps, hreads, _⟩ := checkBalance_eq_ok_iff.1 hbalance
      cases hfound : compileAlternative source.toList with
      | error e =>
        rw [hfound] at h
        obtain rfl : e = _ := Except.error.inj h
        exact compileAlternative_ne_openClass hreads glob hfound
      | ok tokens =>
        rw [hfound] at h
        cases h

theorem splitRoot_eq_nil_iff {cs : List Char} :
    (splitRoot cs).2 = [] ↔ cs = [] ∨ cs = ['/'] ∨ cs = ['.', '/'] := by
  fun_cases splitRoot cs with
  | case1 body => simp
  | case2 body => simp
  | case3 _ hdot hslash =>
    have hneslash : cs ≠ ['/'] := fun heq => hslash [] heq
    have hnedot : cs ≠ ['.', '/'] := fun heq => hdot [] heq
    simp [hneslash, hnedot]

/-- Nothing is left of a pattern without its root mark exactly if it is one or is empty. -/
theorem mem_rootMarks_iff {source : String} :
    source ∈ ["", "/", "./"] ↔ (splitRoot source.toList).2 = [] := by
  have htext : ∀ text : String, source = text ↔ source.toList = text.toList :=
    fun _ => String.toList_inj.symm
  simp only [List.mem_cons, List.not_mem_nil, or_false, htext, splitRoot_eq_nil_iff]
  rfl

theorem exists_compile_iff_inPlace {source : String} (hopen : '\x7b' ∉ source.toList)
    (hclose : '\x7d' ∉ source.toList) :
    (∃ p, compile source = .ok p) ↔
      (splitRoot source.toList).2 ≠ [] ∧ InPlace true source.toList := by
  have hplain := firstGroup?_of_notMem hopen
  rw [← exists_compileAlternative_iff]
  constructor
  · intro ⟨p, hp⟩
    obtain ⟨_, _, tokens, htokens, _⟩ := (compile_eq_ok_iff hplain).1 hp
    exact ⟨tokens, htokens⟩
  · intro ⟨tokens, htokens⟩
    obtain ⟨hbody, ps, hreads, _⟩ := exists_compileAlternative_iff.1 ⟨tokens, htokens⟩
    have hne : source.toList ≠ [] := by
      intro hnil
      rw [hnil] at hbody
      exact hbody rfl
    have hbalance := checkBalance_eq_ok_iff.2 ⟨ps, hreads, hreads.balanced_of_notMem hopen hclose⟩
    exact ⟨_, (compile_eq_ok_iff hplain).2 ⟨hne, hbalance, tokens, htokens, rfl⟩⟩

/-- A pattern without braces compiles exactly if it is more than a root mark, every bracket
    outside a class opens a class that is closed, and every maximal run of stars outside the
    classes is a single star or a segment of two. No class that the check for balance accepts is
    ever refused by the compiler of globs. -/
theorem exists_compile_iff_starsInPlace {source : String} (hopen : '\x7b' ∉ source.toList)
    (hclose : '\x7d' ∉ source.toList) :
    ((∃ p, compile source = .ok p) ↔ source ∉ ["", "/", "./"] ∧
      ∃ ps, spell ps = source.toList ∧ (∀ p ∈ ps, p.Sound) ∧ StarsInPlace ps) ∧
    ∀ glob, compile source ≠ .error (.invalid .openClass glob) := by
  refine ⟨?_, compile_ne_openClass (firstGroup?_of_notMem hopen)⟩
  rw [exists_compile_iff_inPlace hopen hclose, ne_eq, mem_rootMarks_iff]
  simp only [InPlace, reads_iff, starsInPlace_iff, and_assoc]

/-- The class holds a closing bracket and a star; the other stars are a segment and a single one. -/
def starredClass : String := "./[!]*]/**/x*"

theorem exists_compile_iff_starsInPlace_starredClass :
    '\x7b' ∉ starredClass.toList ∧ '\x7d' ∉ starredClass.toList ∧
      (∃ p, compile starredClass = .ok p) ∧
      ∀ glob, compile starredClass ≠ .error (.invalid .openClass glob) := by
  have hopen : '\x7b' ∉ starredClass.toList := by decide +kernel
  have hclose : '\x7d' ∉ starredClass.toList := by decide +kernel
  obtain ⟨hcompile, hclasses⟩ := exists_compile_iff_starsInPlace hopen hclose
  have hbody : starredClass ∉ ["", "/", "./"] := by decide +kernel
  have hsound : IsClassBody ['!', ']', '*'] := ⟨']', ['*'], rfl, by decide⟩
  have hreading : ∃ ps, spell ps = starredClass.toList ∧ (∀ p ∈ ps, p.Sound) ∧ StarsInPlace ps := by
    refine ⟨[.plain '.', .slash, .cls ['!', ']', '*'], .slash, .star, .star, .slash, .plain 'x',
      .star], by decide +kernel, by simp [Piece.Sound, hsound], ?_⟩
    exact starsInPlace_iff.2 (by simp [PairsInPlace])
  exact ⟨hopen, hclose, hcompile.2 ⟨hbody, hreading⟩, hclasses⟩

end Pattern

end RuleCascade
