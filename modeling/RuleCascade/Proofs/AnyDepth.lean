import RuleCascade.CascadeError
import RuleCascade.Pattern
import RuleCascade.Proofs.ClassScanning
import RuleCascade.Proofs.GlobSearch

/-! # Patterns at every depth

    Anchoring gives a pattern without a root mark a double star in front, unless
    it starts with one already or is one. What it matches can be said with the
    rooted pattern alone: its glob matches what is left of the path where some
    segment starts.

    Two things have to be shown. Compiling a glob with a double star in front
    gives the tokens of the glob behind one more, although the compiler looks at
    the tokens so far and leaves some double stars out. And the double star also
    tries the very end of the path, where no segment need start. A glob that
    matches nothing there is made of stars, and they match any last segment too.

    Main statement: `isMatch_iff_exists_segmentSuffix`.
-/

namespace RuleCascade

open Glob

namespace Glob

/-! ## Section 1: What is left of a path -/

/-- The suffix is the path or starts right behind one of its separators. -/
def SegmentSuffix (path suffix : List Char) : Prop :=
  suffix = path ∨ ∃ directory, path = directory ++ '/' :: suffix

theorem SegmentSuffix.trans {path middle suffix : List Char} (h : SegmentSuffix path middle)
    (h' : SegmentSuffix middle suffix) : SegmentSuffix path suffix := by
  rcases h with rfl | ⟨directory, rfl⟩
  · exact h'
  · rcases h' with rfl | ⟨inner, rfl⟩
    · exact Or.inr ⟨directory, rfl⟩
    · exact Or.inr ⟨directory ++ '/' :: inner, by simp⟩

theorem SegmentSuffix.below {path suffix : List Char} (h : SegmentSuffix path suffix) :
    Below true path suffix := by
  rcases h with rfl | ⟨directory, rfl⟩
  · exact .here
  · exact below_append true directory suffix

/-- Where a double star ends there is the end of the path or the start of a segment. -/
theorem Below.eq_or_segmentSuffix {start : Bool} {path rest : List Char}
    (h : Below start path rest) :
    (start = true ∧ rest = path) ∨ rest = [] ∨ ∃ directory, path = directory ++ '/' :: rest := by
  induction h with
  | here => exact Or.inl ⟨rfl, rfl⟩
  | done => exact Or.inr (Or.inl rfl)
  | @later start c path rest _ ih =>
    rcases ih with ⟨hsep, rfl⟩ | rfl | ⟨directory, rfl⟩
    · have hc : c = '/' := of_decide_eq_true hsep
      exact Or.inr (Or.inr ⟨[], by rw [hc]; rfl⟩)
    · exact Or.inr (Or.inl rfl)
    · exact Or.inr (Or.inr ⟨c :: directory, rfl⟩)

/-- Every path has a last segment. -/
theorem exists_last_segment (path : List Char) :
    ∃ segment, SegmentSuffix path segment ∧ '/' ∉ segment := by
  induction path with
  | nil => exact ⟨[], Or.inl rfl, List.not_mem_nil⟩
  | cons c path ih =>
    obtain ⟨segment, hsuffix, hsegment⟩ := ih
    rcases hsuffix with rfl | ⟨directory, rfl⟩
    · by_cases hc : c = '/'
      · subst hc
        exact ⟨segment, Or.inr ⟨[], rfl⟩, hsegment⟩
      · refine ⟨c :: segment, Or.inl rfl, ?_⟩
        intro hmem
        rcases List.mem_cons.1 hmem with heq | hmem
        · exact hc heq.symm
        · exact hsegment hmem
    · exact ⟨segment, Or.inr ⟨c :: directory, rfl⟩, hsegment⟩

/-! ## Section 2: A double star in front -/

/-- Tokens that match nothing at all match every segment: the first of them is a star. -/
theorem matches_segment {tokens : List Token} (h : Matches tokens []) (hne : tokens ≠ [])
    {segment : List Char} (hsegment : '/' ∉ segment) : Matches tokens segment := by
  -- the path has to be a variable for the case split
  generalize hpath : ([] : List Char) = path at h
  cases h with
  | nil => exact absurd rfl hne
  | one _ _ => cases hpath
  | sequence hwithin hrest =>
    subst hpath
    obtain rfl := within_nil_iff.1 hwithin
    exact .sequence ⟨segment, by simp, hsegment⟩ hrest
  | recursive hbelow hrest =>
    subst hpath
    obtain rfl := below_nil_iff.1 hbelow
    exact .recursive (below_nil true segment) hrest

/-- A double star in front of a glob leaves it to match where some segment starts. -/
theorem matches_recursive_iff_exists {tokens : List Token} (hne : tokens ≠ []) {path : List Char} :
    Matches (.anyRecursive :: tokens) path ↔
      ∃ suffix, SegmentSuffix path suffix ∧ Matches tokens suffix := by
  rw [matches_recursive_iff]
  constructor
  · rintro ⟨rest, hbelow, hrest⟩
    rcases hbelow.eq_or_segmentSuffix with ⟨_, rfl⟩ | rfl | hsuffix
    · exact ⟨rest, Or.inl rfl, hrest⟩
    · -- the end of the path need not start a segment, but the last segment will do
      obtain ⟨segment, hsuffix, hsegment⟩ := exists_last_segment path
      exact ⟨segment, hsuffix, matches_segment hrest hne hsegment⟩
    · exact ⟨rest, Or.inr hsuffix, hrest⟩
  · rintro ⟨suffix, hsuffix, hmatches⟩
    exact ⟨suffix, hsuffix.below, hmatches⟩

/-- A second double star adds nothing. -/
theorem matches_recursive_recursive_iff {tokens : List Token} {path : List Char} :
    Matches (.anyRecursive :: .anyRecursive :: tokens) path ↔
      Matches (.anyRecursive :: tokens) path := by
  rw [matches_recursive_iff]
  constructor
  · rintro ⟨middle, hmiddle, hmatches⟩
    obtain ⟨rest, hrest, htokens⟩ := matches_recursive_iff.1 hmatches
    exact .recursive (hmiddle.trans hrest) htokens
  · intro hmatches
    exact ⟨path, .here, hmatches⟩

/-! ## Section 3: Compiling behind a double star -/

/-- To the compiler it makes no difference whether a double star stands in front of the tokens so
    far: it would leave out the same ones. -/
structure FrontBlind (done : List Token) (cs : List Char) : Prop where
  /-- A double star behind the only token could be left out. -/
  not_recursive : done ≠ [.anyRecursive]
  not_floats : done = [] → Pattern.floats cs = false

theorem FrontBlind.of_single {token : Token} (h : token ≠ .anyRecursive) (done : List Token)
    (cs : List Char) : FrontBlind (token :: done) cs := by
  refine ⟨?_, fun hnil => absurd hnil (List.cons_ne_nil _ _)⟩
  intro heq
  cases heq
  exact h rfl

section compiling

variable {done : List Token}

theorem FrontBlind.ne_nil {cs : List Char} (h : FrontBlind done cs)
    (hfloats : Pattern.floats cs = true) : done ≠ [] := by
  intro hnil
  rw [h.not_floats hnil] at hfloats
  cases hfloats

theorem addRecursive_append (hne : done ≠ []) (hother : done ≠ [.anyRecursive]) :
    addRecursive (done ++ [.anyRecursive]) = addRecursive done ++ [.anyRecursive] := by
  cases done with
  | nil => exact absurd rfl hne
  | cons token before =>
    cases before with
    | nil =>
      by_cases hrecursive : token = .anyRecursive
      · subst hrecursive
        exact absurd rfl hother
      · simp [addRecursive, hrecursive]
    | cons second before =>
      by_cases hrecursive : token = .anyRecursive
      · subst hrecursive
        rfl
      · simp [addRecursive, hrecursive]

theorem frontBlind_addRecursive (hne : done ≠ []) (cs : List Char) :
    FrontBlind (addRecursive done) cs := by
  cases done with
  | nil => exact absurd rfl hne
  | cons token before =>
    have hlong : ∀ first second others, FrontBlind (first :: second :: others) cs := by
      intro first second others
      exact ⟨by simp, fun hnil => absurd hnil (List.cons_ne_nil _ _)⟩
    unfold addRecursive
    split
    · exact hlong _ _ _
    · exact hlong _ _ _

/-- Compiling with a double star in front. -/
theorem compileFrom_append {start : Bool} {cs : List Char} (h : FrontBlind done cs) :
    compileFrom (done ++ [.anyRecursive]) start cs =
      (compileFrom done start cs).map (.anyRecursive :: ·) := by
  fun_induction compileFrom done start cs with
  | case1 done =>
    rw [compileFrom]
    simp [Except.map]
  | case2 done start rest ih =>
    rw [compileFrom]
    exact ih (.of_single (by decide) done rest)
  | case3 done start =>
    rw [compileFrom]
    rfl
  | case4 done =>
    -- the tokens so far are more than a double star, so the same one is left out
    have hsame := addRecursive_append (h.ne_nil rfl) h.not_recursive
    rw [compileFrom, if_pos rfl, hsame]
    simp [Except.map]
  | case5 done start hstart =>
    rw [compileFrom, if_neg hstart]
    rfl
  | case6 done rest ih =>
    have hsame := addRecursive_append (h.ne_nil rfl) h.not_recursive
    rw [compileFrom, if_pos rfl, hsame]
    exact ih (frontBlind_addRecursive (h.ne_nil rfl) rest)
  | case7 done start rest hstart =>
    rw [compileFrom, if_neg hstart]
    rfl
  | case8 done start head tail hstar hsep =>
    rw [compileFrom]
    · rfl
    · exact hstar
    · exact hsep
  | case9 done start rest _ _ _ _ ih =>
    rw [compileFrom]
    · exact ih (.of_single (by decide) done rest)
    all_goals assumption
  | case10 done start rest hnone =>
    rw [compileFrom_except_open _ start hnone]
    rfl
  | case11 done start rest body after hclass ih =>
    rw [compileFrom_except _ start hclass]
    exact ih (.of_single (by simp) done after)
  | case12 done start rest hmark hnone =>
    rw [compileFrom_within_open _ start hmark hnone]
    rfl
  | case13 done start rest hmark body after hclass ih =>
    rw [compileFrom_within _ start hmark hclass]
    exact ih (.of_single (by simp) done after)
  | case14 done start c rest _ _ _ _ _ _ _ _ ih =>
    rw [compileFrom]
    · exact ih (.of_single (by simp) done rest)
    all_goals assumption

end compiling

theorem compile_recursive {cs : List Char} (h : Pattern.floats cs = false) :
    compile ('*' :: '*' :: '/' :: cs) = (compile cs).map (.anyRecursive :: ·) := by
  have hblind : FrontBlind [] cs := ⟨by simp, fun _ => h⟩
  rw [compile, compileFrom, if_pos rfl]
  exact compileFrom_append hblind

/-- A glob that starts at any depth is compiled to a double star and something behind it. -/
theorem exists_of_compile_floats {cs : List Char} {tokens : List Token}
    (hfloats : Pattern.floats cs = true) (h : compile cs = .ok tokens) :
    ∃ rest, tokens = .anyRecursive :: rest := by
  unfold Pattern.floats at hfloats
  split at hfloats
  · rw [compile, compileFrom, if_pos rfl] at h
    cases h
    exact ⟨[], rfl⟩
  · rw [compile, compileFrom, if_pos rfl] at h
    obtain ⟨others, htokens, _⟩ := continues_of_compileFrom h
    exact ⟨others, htokens⟩
  · cases hfloats

theorem addRecursive_reverse_ne_nil (done : List Token) : (addRecursive done).reverse ≠ [] := by
  unfold addRecursive
  split
  · simp
  · simp

theorem ne_nil_of_compileFrom {done tokens : List Token} {start : Bool} {cs : List Char}
    (hcs : cs ≠ []) (h : compileFrom done start cs = .ok tokens) : tokens ≠ [] := by
  -- there is a first step, and the tokens so far are kept from there on
  fun_induction compileFrom done start cs with
  | case1 => exact absurd rfl hcs
  | case4 done =>
    cases h
    exact addRecursive_reverse_ne_nil done
  | case6 done =>
    obtain ⟨rest, rfl, _⟩ := continues_of_compileFrom h
    exact List.append_ne_nil_of_left_ne_nil (addRecursive_reverse_ne_nil done) rest
  | case2 | case9 | case11 | case13 | case14 =>
    obtain ⟨rest, rfl, _⟩ := continues_of_compileFrom h
    simp
  | case3 | case5 | case7 | case8 | case10 | case12 => cases h

end Glob

namespace Pattern

/-! ## Section 4: Anchoring -/

theorem splitRoot_of_not_rooted {cs : List Char} (hslash : ¬ ['/'] <+: cs)
    (hdot : ¬ ['.', '/'] <+: cs) : splitRoot cs = (false, cs) := by
  fun_cases splitRoot cs with
  | case1 body => exact absurd ⟨body, rfl⟩ hdot
  | case2 body => exact absurd ⟨body, rfl⟩ hslash
  | case3 => rfl

theorem splitRoot_suffix (cs : List Char) : (splitRoot cs).2 <:+ cs := by
  fun_cases splitRoot cs with
  | case1 body => exact ⟨['.', '/'], rfl⟩
  | case2 body => exact ⟨['/'], rfl⟩
  | case3 => exact List.suffix_refl cs

theorem anchor_eq_ok_iff {cs glob : List Char} {rooted : Bool} {body : List Char}
    (h : splitRoot cs = (rooted, body)) :
    anchor cs = .ok glob ↔ expandDirectory body ≠ [] ∧
      (if rooted || floats (expandDirectory body) then expandDirectory body
        else '*' :: '*' :: '/' :: expandDirectory body) = glob := by
  unfold anchor
  by_cases hbody : expandDirectory body = []
  · simp [h, hbody]
  · by_cases hplace : (rooted || floats (expandDirectory body)) = true
    · simp [h, hbody, hplace]
    · simp [h, hbody, hplace]

theorem anchor_rooted_eq_ok_iff {cs glob : List Char} :
    anchor ('/' :: cs) = .ok glob ↔ expandDirectory cs ≠ [] ∧ expandDirectory cs = glob := by
  have hroot : splitRoot ('/' :: cs) = (true, cs) := rfl
  rw [anchor_eq_ok_iff hroot, Bool.true_or, if_pos rfl]

theorem anchor_unrooted_eq_ok_iff {cs glob : List Char} (h : splitRoot cs = (false, cs)) :
    anchor cs = .ok glob ↔ expandDirectory cs ≠ [] ∧
      (if floats (expandDirectory cs) then expandDirectory cs
        else '*' :: '*' :: '/' :: expandDirectory cs) = glob := by
  rw [anchor_eq_ok_iff h, Bool.false_or]

theorem compileAlternative_eq_ok_iff {cs : List Char} {tokens : List Token} :
    compileAlternative cs = .ok tokens ↔
      ∃ glob, anchor cs = .ok glob ∧ Glob.compile glob = .ok tokens := by
  constructor
  · intro h
    obtain ⟨glob, hanchor, hcompile⟩ := exists_ok_of_bind_eq_ok h
    refine ⟨glob, hanchor, ?_⟩
    cases hglob : Glob.compile glob with
    | ok found =>
      rw [hglob] at hcompile
      cases hcompile
      rfl
    | error fault =>
      rw [hglob] at hcompile
      cases hcompile
  · rintro ⟨glob, hanchor, hcompile⟩
    rw [compileAlternative, bind_of_eq_ok hanchor, hcompile]

theorem compile_floating_eq_ok_iff {body : List Char} {tokens : List Token} :
    Glob.compile (if floats body then body else '*' :: '*' :: '/' :: body) = .ok tokens ↔
      ∃ rooted, Glob.compile body = .ok rooted ∧
        tokens = if floats body then rooted else .anyRecursive :: rooted := by
  cases hfloats : floats body with
  | true => simp
  | false =>
    simp only [Bool.false_eq_true, if_false, compile_recursive hfloats]
    cases Glob.compile body with
    | error fault => simp [Except.map]
    | ok rooted => simp [Except.map, eq_comm]

/-- A pattern without a root mark is compiled like the rooted one, with a double star in front
    unless it has one already. -/
theorem compileAlternative_unrooted_eq_ok_iff {cs : List Char} {tokens : List Token}
    (h : splitRoot cs = (false, cs)) :
    compileAlternative cs = .ok tokens ↔ ∃ rooted,
      compileAlternative ('/' :: cs) = .ok rooted ∧
      tokens = if floats (expandDirectory cs) then rooted else .anyRecursive :: rooted := by
  simp only [compileAlternative_eq_ok_iff, anchor_unrooted_eq_ok_iff h, anchor_rooted_eq_ok_iff]
  constructor
  · rintro ⟨glob, ⟨hbody, rfl⟩, hcompile⟩
    obtain ⟨rooted, hrooted, htokens⟩ := compile_floating_eq_ok_iff.1 hcompile
    exact ⟨rooted, ⟨_, ⟨hbody, rfl⟩, hrooted⟩, htokens⟩
  · rintro ⟨rooted, ⟨glob, ⟨hbody, rfl⟩, hrooted⟩, htokens⟩
    exact ⟨_, ⟨hbody, rfl⟩, compile_floating_eq_ok_iff.2 ⟨rooted, hrooted, htokens⟩⟩

/-! ## Section 5: Patterns without groups -/

theorem groupFrom?_of_notMem {inClass : Bool} {cs : List Char} (h : '\x7b' ∉ cs) :
    groupFrom? inClass cs = none := by
  induction cs generalizing inClass with
  | nil => rfl
  | cons c rest ih =>
    obtain ⟨hc, hrest⟩ := not_or.1 (mt List.mem_cons.2 h)
    simp [groupFrom?, ih hrest, Ne.symm hc]

/-- Without an opening brace there is no group. -/
theorem firstGroup?_of_notMem {cs : List Char} (h : '\x7b' ∉ cs) : firstGroup? cs = none :=
  groupFrom?_of_notMem h

theorem firstGroup?_cons_slash {cs : List Char} (h : firstGroup? cs = none) :
    firstGroup? ('/' :: cs) = none := by
  rw [firstGroup?] at h
  simp [firstGroup?, groupFrom?, h]

theorem checkBalance_cons_slash {cs : List Char} :
    checkBalance ('/' :: cs) = .ok () ↔ checkBalance cs = .ok () := by
  have hslash : ¬ (Piece.plain '/').IsBrace := by decide
  have hsound : (Piece.plain '/').Sound := by simp [Piece.Sound]
  constructor
  · intro h
    -- the scan goes on behind the slash, and offsets do not matter
    have hscan : balanceFrom 0 [] ('/' :: cs) = balanceFrom 1 [] cs :=
      balanceFrom_text_append hslash hsound 0 [] cs
    rw [checkBalance, hscan] at h
    exact checkBalance_eq_ok_iff.2 (exists_reads_of_balanceFrom h)
  · intro h
    obtain ⟨ps, hreads, hbalanced⟩ := checkBalance_eq_ok_iff.1 h
    exact checkBalance_eq_ok_iff.2 ⟨.plain '/' :: ps, .plain hsound hreads, hbalanced.cons hslash⟩

theorem mapM_singleton_eq_ok_iff {ε α β : Type} {f : α → Except ε β} {a : α} {results : List β} :
    [a].mapM f = .ok results ↔ ∃ b, f a = .ok b ∧ results = [b] := by
  rw [List.mapM_cons, List.mapM_nil]
  cases f a with
  | error e =>
    constructor
    · intro h
      cases h
    · rintro ⟨_, h, _⟩
      cases h
  | ok b =>
    constructor
    · intro h
      cases h
      exact ⟨b, rfl, rfl⟩
    · rintro ⟨_, h, rfl⟩
      cases h
      rfl

/-- A pattern without groups is its own only alternative. -/
theorem compile_eq_ok_iff {source : String} {p : Pattern}
    (h : firstGroup? source.toList = none) :
    compile source = .ok p ↔ source.toList ≠ [] ∧ checkBalance source.toList = .ok () ∧
      ∃ tokens, compileAlternative source.toList = .ok tokens ∧ p = ⟨source, [tokens]⟩ := by
  unfold compile
  by_cases hempty : source.toList = []
  · simp [hempty]
  · simp only [List.isEmpty_iff, hempty, if_false, expandBraces_of_none h]
    constructor
    · intro hcompile
      obtain ⟨_, hbalance, hrest⟩ := exists_ok_of_bind_eq_ok hcompile
      obtain ⟨alternatives, halternatives, hp⟩ := exists_ok_of_bind_eq_ok hrest
      obtain ⟨tokens, htokens, rfl⟩ := mapM_singleton_eq_ok_iff.1 halternatives
      cases hp
      exact ⟨hempty, hbalance, tokens, htokens, rfl⟩
    · rintro ⟨_, hbalance, tokens, htokens, rfl⟩
      rw [bind_of_eq_ok hbalance, bind_of_eq_ok (mapM_singleton_eq_ok_iff.2 ⟨tokens, htokens, rfl⟩)]
      rfl

/-- A pattern without groups matches what the tokens of its one glob stand for. -/
theorem exists_matches_of_compile {source : String} {p : Pattern}
    (h : firstGroup? source.toList = none) (hp : compile source = .ok p) :
    ∃ tokens, compileAlternative source.toList = .ok tokens ∧
      ∀ path, p.isMatch path = true ↔ Matches tokens (normalizePath path.toList) := by
  obtain ⟨_, _, tokens, htokens, rfl⟩ := (compile_eq_ok_iff h).1 hp
  obtain ⟨glob, _, hglob⟩ := compileAlternative_eq_ok_iff.1 htokens
  refine ⟨tokens, htokens, ?_⟩
  intro path
  rw [isMatch, List.any_cons, List.any_nil, Bool.or_false, isMatch_iff_matches hglob]

theorem compile_rooted_eq_ok_iff {source : String} {rooted : Pattern}
    (h : firstGroup? source.toList = none) :
    compile ("/" ++ source) = .ok rooted ↔ checkBalance source.toList = .ok () ∧
      ∃ tokens, compileAlternative ('/' :: source.toList) = .ok tokens ∧
        rooted = ⟨"/" ++ source, [tokens]⟩ := by
  have htext : ("/" ++ source).toList = '/' :: source.toList := by simp
  have hplain : firstGroup? ("/" ++ source).toList = none := by
    rw [htext]
    exact firstGroup?_cons_slash h
  rw [compile_eq_ok_iff hplain, htext, checkBalance_cons_slash]
  constructor
  · rintro ⟨_, hrest⟩
    exact hrest
  · intro hrest
    exact ⟨List.cons_ne_nil _ _, hrest⟩

theorem exists_compile_iff_rooted {source : String} (hplain : firstGroup? source.toList = none)
    (hroot : splitRoot source.toList = (false, source.toList)) :
    (∃ p, compile source = .ok p) ↔ ∃ rooted, compile ("/" ++ source) = .ok rooted := by
  constructor
  · rintro ⟨p, hp⟩
    obtain ⟨_, hbalance, found, hfound, _⟩ := (compile_eq_ok_iff hplain).1 hp
    obtain ⟨tokens, htokens, _⟩ := (compileAlternative_unrooted_eq_ok_iff hroot).1 hfound
    exact ⟨_, (compile_rooted_eq_ok_iff hplain).2 ⟨hbalance, tokens, htokens, rfl⟩⟩
  · rintro ⟨rooted, hrooted⟩
    obtain ⟨hbalance, tokens, htokens, _⟩ := (compile_rooted_eq_ok_iff hplain).1 hrooted
    have hne : source.toList ≠ [] := by
      intro hnil
      -- the slash alone is an empty pattern
      rw [hnil] at htokens
      cases htokens
    have hfound := (compileAlternative_unrooted_eq_ok_iff hroot).2 ⟨tokens, htokens, rfl⟩
    exact ⟨_, (compile_eq_ok_iff hplain).2 ⟨hne, hbalance, _, hfound, rfl⟩⟩

/-! ## Section 6: Matching at every depth -/

theorem normalizePath_of_ne {path : List Char} (h : ∀ rest, path ≠ '.' :: '/' :: rest) :
    normalizePath path = path := by
  unfold normalizePath
  split
  · rename_i rest
    exact absurd rfl (h rest)
  · rfl

theorem normalizePath_ne_dotSlash (path rest : List Char) :
    normalizePath path ≠ '.' :: '/' :: rest := by
  fun_induction normalizePath path with
  | case1 path ih => exact ih
  | case2 path h => exact h rest

theorem segmentSuffix_normalizePath (path : List Char) :
    SegmentSuffix path (normalizePath path) := by
  fun_induction normalizePath path with
  | case1 rest ih =>
    have hstep : SegmentSuffix ('.' :: '/' :: rest) rest := Or.inr ⟨['.'], rfl⟩
    exact hstep.trans ih
  | case2 path => exact Or.inl rfl

/-- With a separator and more behind it, only a single dot becomes a path that starts with a dot
    and a separator. -/
theorem append_ne_dotSlash {directory : List Char} (hdot : directory ≠ ['.'])
    (h : ∀ rest, directory ≠ '.' :: '/' :: rest) (path rest : List Char) :
    directory ++ '/' :: path ≠ '.' :: '/' :: rest := by
  intro heq
  cases directory with
  | nil => simp at heq
  | cons c more =>
    cases more with
    | nil =>
      obtain ⟨rfl, _⟩ := List.cons.inj heq
      exact hdot rfl
    | cons d more =>
      obtain ⟨rfl, htail⟩ := List.cons.inj heq
      obtain ⟨rfl, _⟩ := List.cons.inj htail
      exact h more rfl

/-- A path is still left behind a separator when a directory stands in front of it. -/
theorem segmentSuffix_under (directory path : List Char) :
    SegmentSuffix (normalizePath (directory ++ '/' :: path)) (normalizePath path) := by
  fun_induction normalizePath directory with
  | case1 rest ih => exact ih
  | case2 directory hdot =>
    by_cases hhere : directory = ['.']
    · subst hhere
      exact Or.inl rfl
    · rw [normalizePath_of_ne (append_ne_dotSlash hhere hdot path)]
      have hbehind : SegmentSuffix (directory ++ '/' :: path) path := Or.inr ⟨directory, rfl⟩
      exact hbehind.trans (segmentSuffix_normalizePath path)

theorem matches_floating_iff {body path : List Char} {tokens : List Token}
    (h : Glob.compile body = .ok tokens) :
    Matches (if floats body then tokens else .anyRecursive :: tokens) path ↔
      Matches (.anyRecursive :: tokens) path := by
  cases hfloats : floats body with
  | false => exact Iff.rfl
  | true =>
    obtain ⟨rest, rfl⟩ := exists_of_compile_floats hfloats h
    exact matches_recursive_recursive_iff.symm

/-- A rooted pattern is compiled from its body, to at least one token. -/
theorem compile_of_compileAlternative_rooted {cs : List Char} {tokens : List Token}
    (h : compileAlternative ('/' :: cs) = .ok tokens) :
    Glob.compile (expandDirectory cs) = .ok tokens ∧ tokens ≠ [] := by
  obtain ⟨glob, hanchor, hcompile⟩ := compileAlternative_eq_ok_iff.1 h
  obtain ⟨hbody, rfl⟩ := anchor_rooted_eq_ok_iff.1 hanchor
  exact ⟨hcompile, ne_nil_of_compileFrom hbody hcompile⟩

/-- An unrooted pattern matches a path exactly if the glob of the rooted one matches what is left
    of the path at its beginning or behind some separator. -/
theorem isMatch_iff_of_rooted {source : String} {p rooted : Pattern}
    (hplain : firstGroup? source.toList = none)
    (hroot : splitRoot source.toList = (false, source.toList)) (hp : compile source = .ok p)
    (hrooted : compile ("/" ++ source) = .ok rooted) :
    ∃ tokens, rooted.alternatives = [tokens] ∧ ∀ path, p.isMatch path = true ↔
      ∃ suffix, SegmentSuffix (normalizePath path.toList) suffix ∧
        Glob.isMatch tokens suffix = true := by
  obtain ⟨_, _, found, hfound, rfl⟩ := (compile_eq_ok_iff hplain).1 hp
  obtain ⟨_, tokens, htokens, rfl⟩ := (compile_rooted_eq_ok_iff hplain).1 hrooted
  obtain ⟨other, hother, rfl⟩ := (compileAlternative_unrooted_eq_ok_iff hroot).1 hfound
  -- both times it is the same rooted glob
  obtain rfl : tokens = other := by
    rw [htokens] at hother
    exact Except.ok.inj hother
  obtain ⟨glob, _, hglob⟩ := compileAlternative_eq_ok_iff.1 hfound
  obtain ⟨hcompile, hne⟩ := compile_of_compileAlternative_rooted htokens
  refine ⟨tokens, rfl, ?_⟩
  intro path
  rw [isMatch, List.any_cons, List.any_nil, Bool.or_false, isMatch_iff_matches hglob,
    matches_floating_iff hcompile, matches_recursive_iff_exists hne]
  simp only [isMatch_iff_matches hcompile]

/-- For a pattern without groups, such as one without braces, and without a root mark: it compiles
    exactly if the rooted one does, and then it matches a path exactly if the glob of the rooted
    one matches what is left of the normalized path at its beginning or behind some separator. In
    particular it goes on matching below every directory. -/
theorem isMatch_iff_exists_segmentSuffix {source : String}
    (hplain : firstGroup? source.toList = none) (hslash : ¬ ['/'] <+: source.toList)
    (hdot : ¬ ['.', '/'] <+: source.toList) :
    ((∃ p, compile source = .ok p) ↔ ∃ rooted, compile ("/" ++ source) = .ok rooted) ∧
    ∀ p rooted, compile source = .ok p → compile ("/" ++ source) = .ok rooted →
      ∃ tokens, rooted.alternatives = [tokens] ∧
        (∀ path, p.isMatch path = true ↔
          ∃ suffix, SegmentSuffix (normalizePath path.toList) suffix ∧
            Glob.isMatch tokens suffix = true) ∧
        ∀ directory path, p.isMatch path = true →
          p.isMatch (directory ++ "/" ++ path) = true := by
  have hroot := splitRoot_of_not_rooted hslash hdot
  refine ⟨exists_compile_iff_rooted hplain hroot, ?_⟩
  intro p rooted hp hrooted
  obtain ⟨tokens, htokens, hmatch⟩ := isMatch_iff_of_rooted hplain hroot hp hrooted
  refine ⟨tokens, htokens, hmatch, ?_⟩
  intro directory path hpath
  obtain ⟨suffix, hsuffix, hglob⟩ := (hmatch path).1 hpath
  have hunder := segmentSuffix_under directory.toList path.toList
  have htext : (directory ++ "/" ++ path).toList = directory.toList ++ '/' :: path.toList := by
    simp
  refine (hmatch _).2 ⟨suffix, ?_, hglob⟩
  rw [htext]
  exact hunder.trans hsuffix

/-- Scripts below a directory of sources, but for those whose names start with an `a`. -/
def sourceTokens : List Token :=
  [.char 's', .char 'r', .char 'c', .char '/', .anyRecursive, .anyExcept [.single 'a'],
    .anySequence, .char '.', .char 't', .char 's']

theorem compile_sources :
    compile "src/**/[!a]*.ts" = .ok ⟨"src/**/[!a]*.ts", [.anyRecursive :: sourceTokens]⟩ ∧
    compile ("/" ++ "src/**/[!a]*.ts") = .ok ⟨"/src/**/[!a]*.ts", [sourceTokens]⟩ := by
  constructor
  · decide +kernel
  · decide +kernel

theorem isMatch_iff_exists_segmentSuffix_sources :
    Glob.isMatch sourceTokens "src/b.ts".toList = true ∧
    Pattern.isMatch ⟨"src/**/[!a]*.ts", [.anyRecursive :: sourceTokens]⟩ "./lib/src/b.ts" = true ∧
    Pattern.isMatch ⟨"src/**/[!a]*.ts", [.anyRecursive :: sourceTokens]⟩ "old/./lib/src/b.ts" =
      true := by
  have hplain : firstGroup? "src/**/[!a]*.ts".toList = none := firstGroup?_of_notMem (by decide)
  obtain ⟨_, hrooted⟩ := isMatch_iff_exists_segmentSuffix hplain (by decide) (by decide)
  obtain ⟨tokens, htokens, hmatch, hunder⟩ :=
    hrooted _ _ compile_sources.1 compile_sources.2
  cases htokens
  have hglob : Glob.isMatch sourceTokens "src/b.ts".toList = true := by decide +kernel
  have hpath := (hmatch "./lib/src/b.ts").2
    ⟨"src/b.ts".toList, Or.inr ⟨"lib".toList, by decide +kernel⟩, hglob⟩
  exact ⟨hglob, hpath, hunder "old" "./lib/src/b.ts" hpath⟩

end Pattern

end RuleCascade
