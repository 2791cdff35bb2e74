import RuleCascade.Proofs.WellFormedPatterns

/-! # Patterns for directories

    A pattern with a separator at its end stands for all that is below the
    directories that the pattern without it matches. Anchoring writes a double
    star behind the separator, so the glob is that of the directory, and the
    tokens of these two come last.

    A match of the longer glob is cut at the separator that the last but one
    token stands for. The way back is where a double star matters: it may have
    skipped the directory to its very end, which is no start of a segment once
    more of the path follows. What is left of the glob then matches the last
    segment as well, unless the double star was the last token. That is why a
    directory must not end with one.

    Main statement: `isMatch_directory_iff`.
-/

namespace RuleCascade

open Glob

namespace Glob

/-! ## Section 1: Matching below a directory -/

/-- Everything below a directory. -/
def belowTokens : List Token := [.char '/', .anyRecursive]

theorem SegmentSuffix.append {path suffix : List Char} (h : SegmentSuffix path suffix)
    (more : List Char) : SegmentSuffix (path ++ more) (suffix ++ more) := by
  rcases h with rfl | ⟨directory, rfl⟩
  · exact Or.inl rfl
  · exact Or.inr ⟨directory, by simp⟩

/-- A path that the longer glob matches has a directory that the shorter one matches. -/
theorem exists_directory_of_matches {tokens : List Token} {path : List Char}
    (h : Matches (tokens ++ belowTokens) path) :
    ∃ directory rest, path = directory ++ '/' :: rest ∧ Matches tokens directory := by
  induction tokens generalizing path with
  | nil =>
    cases h with
    | @one _ _ c rest haccepts _ =>
      have hc : c = '/' := by simpa [Token.accepts] using haccepts
      exact ⟨[], rest, by rw [hc]; rfl, .nil⟩
  | cons token tokens ih =>
    rw [List.cons_append] at h
    by_cases hrecursive : token = .anyRecursive
    · subst hrecursive
      have hne : tokens ++ belowTokens ≠ [] := by simp [belowTokens]
      obtain ⟨suffix, hsuffix, hmatches⟩ := (matches_recursive_iff_exists hne).1 h
      obtain ⟨directory, rest, rfl, hdirectory⟩ := ih hmatches
      rcases hsuffix with rfl | ⟨above, rfl⟩
      · exact ⟨directory, rest, rfl, .recursive .here hdirectory⟩
      · exact ⟨above ++ '/' :: directory, rest, by simp,
          .recursive (below_append true above directory) hdirectory⟩
    · cases h with
      | one haccepts hmatches =>
        obtain ⟨directory, rest, rfl, hdirectory⟩ := ih hmatches
        exact ⟨_ :: directory, rest, rfl, .one haccepts hdirectory⟩
      | sequence hwithin hmatches =>
        obtain ⟨directory, rest, rfl, hdirectory⟩ := ih hmatches
        obtain ⟨run, rfl, hrun⟩ := hwithin
        exact ⟨run ++ directory, rest, by simp, .sequence ⟨run, rfl, hrun⟩ hdirectory⟩
      | recursive _ _ => exact absurd rfl hrecursive

/-- All that is below a directory that the shorter glob matches is matched by the longer one. -/
theorem matches_below {tokens : List Token} {directory : List Char}
    (h : Matches tokens directory) (hlast : tokens.getLast? ≠ some .anyRecursive)
    (rest : List Char) : Matches (tokens ++ belowTokens) (directory ++ '/' :: rest) := by
  induction tokens generalizing directory with
  | nil =>
    rw [matches_nil_iff.1 h]
    have hslash : (Token.char '/').accepts '/' = true := by decide
    exact .one hslash (.recursive (below_nil true rest) .nil)
  | cons token tokens ih =>
    have hnext : tokens.getLast? ≠ some .anyRecursive := by
      intro heq
      exact hlast (by simp [List.getLast?_cons, heq])
    rw [List.cons_append]
    by_cases hrecursive : token = .anyRecursive
    · subst hrecursive
      have hne : tokens ≠ [] := by
        rintro rfl
        exact hlast rfl
      -- what is left of the glob matches where some segment starts, and there it does so still
      obtain ⟨suffix, hsuffix, hmatches⟩ := (matches_recursive_iff_exists hne).1 h
      exact .recursive (hsuffix.append ('/' :: rest)).below (ih hmatches hnext)
    · cases h with
      | one haccepts hmatches => exact .one haccepts (ih hmatches hnext)
      | sequence hwithin hmatches =>
        obtain ⟨run, rfl, hrun⟩ := hwithin
        rw [List.append_assoc]
        exact .sequence ⟨run, rfl, hrun⟩ (ih hmatches hnext)
      | recursive _ _ => exact absurd rfl hrecursive

theorem matches_below_iff {tokens : List Token} (hlast : tokens.getLast? ≠ some .anyRecursive)
    {path : List Char} : Matches (tokens ++ belowTokens) path ↔
      ∃ directory rest, path = directory ++ '/' :: rest ∧ Matches tokens directory := by
  constructor
  · exact exists_directory_of_matches
  · rintro ⟨directory, rest, rfl, h⟩
    exact matches_below h hlast rest

/-! ## Section 2: Compiling behind a directory -/

/-- The text ends with neither a separator nor a double star. -/
structure EndsPlain (cs : List Char) : Prop where
  not_slash : ¬ ['/'] <:+ cs
  not_stars : ¬ ['*', '*'] <:+ cs

theorem EndsPlain.of_suffix {cs rest : List Char} (h : EndsPlain cs) (hrest : rest <:+ cs) :
    EndsPlain rest :=
  ⟨fun hslash => h.not_slash (hslash.trans hrest), fun hstars => h.not_stars (hstars.trans hrest)⟩

theorem EndsPlain.of_cons {c : Char} {rest : List Char} (h : EndsPlain (c :: rest)) :
    EndsPlain rest :=
  h.of_suffix (List.suffix_cons c rest)

theorem EndsPlain.anyDepth {body : List Char} (h : EndsPlain body) (hne : body ≠ []) :
    EndsPlain ('*' :: '*' :: '/' :: body) := by
  constructor
  · intro hslash
    simp only [List.suffix_cons_iff, List.cons.injEq] at hslash
    rcases hslash with ⟨hstar, _⟩ | ⟨hstar, _⟩ | ⟨_, hnil⟩ | hslash
    · simp at hstar
    · simp at hstar
    · exact hne hnil.symm
    · exact h.not_slash hslash
  · intro hstars
    simp only [List.suffix_cons_iff, List.cons.injEq] at hstars
    rcases hstars with ⟨_, _, hnil⟩ | ⟨_, hslash, _⟩ | ⟨hslash, _⟩ | hstars
    · cases hnil
    · simp at hslash
    · simp at hslash
    · exact h.not_stars hstars

theorem EndsPlain.of_classBody? {rest body after : List Char} (h : EndsPlain rest)
    (hclass : classBody? rest = some (body, after)) : EndsPlain after := by
  obtain ⟨rfl, _⟩ := Pattern.classBody?_eq_some_iff.1 hclass
  exact h.of_suffix ⟨body ++ [']'], by simp⟩

theorem classBody?_append {cs body after : List Char} (h : classBody? cs = some (body, after))
    (more : List Char) : classBody? (cs ++ more) = some (body, after ++ more) := by
  obtain ⟨rfl, hbody⟩ := Pattern.classBody?_eq_some_iff.1 h
  exact Pattern.classBody?_eq_some_iff.2 ⟨by simp, hbody⟩

section compiling

variable {done tokens : List Token} {start : Bool} {cs : List Char}

/-- Behind a separator, compiling goes on as it would have without what stands in front. -/
theorem compileFrom_append_slash (h : compileFrom done start cs = .ok tokens) (hcs : EndsPlain cs)
    (more : List Char) : compileFrom done start (cs ++ '/' :: more) =
      compileFrom (.char '/' :: tokens.reverse) true more := by
  fun_induction compileFrom done start cs with
  | case1 done start =>
    cases h
    rw [List.nil_append, compileFrom_char (by decide) (by decide) (by decide), List.reverse_reverse]
    rfl
  | case2 done start rest ih =>
    rw [List.cons_append, compileFrom]
    exact ih h hcs.of_cons
  | case4 done => exact absurd (List.suffix_refl _) hcs.not_stars
  | case6 done rest ih =>
    show compileFrom done true ('*' :: '*' :: '/' :: (rest ++ '/' :: more)) = _
    rw [compileFrom, if_pos rfl]
    exact ih h hcs.of_cons.of_cons.of_cons
  | case9 done start rest hlong hend hsep hpair ih =>
    have hhead : (rest ++ '/' :: more).head? ≠ some '*' := by
      have hrest := head?_ne_star hend hpair
      cases rest with
      | nil => simp
      | cons c rest => exact hrest
    rw [List.cons_append, compileFrom_star hhead]
    exact ih h hcs.of_cons
  | case11 done start rest body after hclass ih =>
    show compileFrom done start ('[' :: '!' :: (rest ++ '/' :: more)) = _
    rw [compileFrom_except done start (classBody?_append hclass _)]
    exact ih h (hcs.of_cons.of_cons.of_classBody? hclass)
  | case13 done start rest hmark body after hclass ih =>
    have hstill : ∀ members, rest ++ '/' :: more = '!' :: members → False := by
      intro members heq
      cases rest with
      | nil => cases hclass
      | cons c rest => exact hmark rest (by rw [(List.cons.inj heq).1])
    rw [List.cons_append, compileFrom_within done start hstill (classBody?_append hclass _)]
    exact ih h (hcs.of_cons.of_classBody? hclass)
  | case14 done start c rest hany _ _ _ _ hstar _ hopen ih =>
    rw [List.cons_append, compileFrom_char hany hstar hopen]
    exact ih h hcs.of_cons
  | case3 | case5 | case7 | case8 | case10 | case12 => cases h

/-- Text that ends plainly is not compiled to a double star at the end. -/
theorem getLast?_ne_of_compileFrom (h : compileFrom done start cs = .ok tokens)
    (hcs : EndsPlain cs) (hdone : cs = [] → done.head? ≠ some .anyRecursive) :
    tokens.getLast? ≠ some .anyRecursive := by
  fun_induction compileFrom done start cs with
  | case1 done start =>
    cases h
    rw [List.getLast?_reverse]
    exact hdone rfl
  | case4 done => exact absurd (List.suffix_refl _) hcs.not_stars
  | case6 done rest ih =>
    have hne : rest ≠ [] := by
      rintro rfl
      exact hcs.not_slash ⟨['*', '*'], rfl⟩
    exact ih h hcs.of_cons.of_cons.of_cons (fun hnil => absurd hnil hne)
  | case11 done start rest body after hclass ih =>
    exact ih h (hcs.of_cons.of_cons.of_classBody? hclass) (by simp)
  | case13 done start rest hmark body after hclass ih =>
    exact ih h (hcs.of_cons.of_classBody? hclass) (by simp)
  | case2 done start rest ih => exact ih h hcs.of_cons (by simp)
  | case9 done start rest _ _ _ _ ih => exact ih h hcs.of_cons (by simp)
  | case14 done start c rest _ _ _ _ _ _ _ _ ih => exact ih h hcs.of_cons (by simp)
  | case3 | case5 | case7 | case8 | case10 | case12 => cases h

end compiling

/-- The glob of all that is below a directory has the tokens of the directory first. -/
theorem compile_below {cs : List Char} {tokens : List Token} (h : compile cs = .ok tokens)
    (hcs : EndsPlain cs) : compile (cs ++ ['/', '*', '*']) = .ok (tokens ++ belowTokens) := by
  rw [compile, compileFrom_append_slash h hcs, compileFrom, if_pos rfl]
  simp [addRecursive, belowTokens]

end Glob

namespace Pattern

/-! ## Section 3: Anchoring a directory -/

/-- A separator at the end does not change where the body of a pattern starts, but for the two
    patterns that it makes a root mark. -/
theorem splitRoot_append_slash {cs : List Char} (hne : cs ≠ []) (hdot : cs ≠ ['.']) :
    splitRoot (cs ++ ['/']) = ((splitRoot cs).1, (splitRoot cs).2 ++ ['/']) := by
  fun_cases splitRoot cs with
  | case1 body => rfl
  | case2 body => rfl
  | case3 _ hnotdot hnotslash =>
    apply splitRoot_of_not_rooted
    · rintro ⟨body, hbody⟩
      cases cs with
      | nil => exact hne rfl
      | cons c rest =>
        obtain ⟨rfl, _⟩ := List.cons.inj hbody
        exact hnotslash rest rfl
    · rintro ⟨body, hbody⟩
      cases cs with
      | nil => exact hne rfl
      | cons c rest =>
        obtain ⟨rfl, htail⟩ := List.cons.inj hbody
        cases rest with
        | nil => exact hdot rfl
        | cons d rest =>
          obtain ⟨rfl, _⟩ := List.cons.inj htail
          exact hnotdot rest rfl

theorem floats_append_slash (body more : List Char) :
    floats (body ++ '/' :: more) = floats body := by
  fun_cases floats body with
  | case1 => rfl
  | case2 rest => rfl
  | case3 _ hstars hbelow =>
    -- the separator is not among the first two characters, and as the third it has stars in front
    unfold floats
    split
    · rename_i heq
      have hmem : '/' ∈ ['*', '*'] := by simp [← heq]
      simp at hmem
    · rename_i rest heq
      match body with
      | [] => simp at heq
      | [a] => simp at heq
      | [a, b] =>
        obtain ⟨rfl, htail⟩ := List.cons.inj heq
        obtain ⟨rfl, _⟩ := List.cons.inj htail
        exact absurd rfl hstars
      | a :: b :: c :: tail =>
        obtain ⟨rfl, htail⟩ := List.cons.inj heq
        obtain ⟨rfl, hrest⟩ := List.cons.inj htail
        obtain ⟨rfl, _⟩ := List.cons.inj hrest
        exact absurd rfl (hbelow tail)
    · rfl

/-- A directory with a separator behind it has the glob of the directory, with a double star
    below it. -/
theorem anchor_append_slash {cs glob below : List Char} (hcs : EndsPlain cs)
    (h : anchor cs = .ok glob) (hbelow : anchor (cs ++ ['/']) = .ok below) :
    below = glob ++ ['/', '*', '*'] ∧ EndsPlain glob := by
  have hne : cs ≠ [] := by
    rintro rfl
    cases h
  have hdot : cs ≠ ['.'] := by
    rintro rfl
    cases hbelow
  have hroot := splitRoot_append_slash hne hdot
  have hbody := hcs.of_suffix (splitRoot_suffix cs)
  cases hsplit : splitRoot cs with
  | mk rooted body =>
    rw [hsplit] at hroot hbody
    have hplain : body.getLast? ≠ some '/' :=
      mt List.singleton_suffix_iff_getLast?_eq_some.2 hbody.not_slash
    obtain ⟨_, rfl⟩ := (anchor_eq_ok_iff hroot).1 hbelow
    obtain ⟨hbodyne, rfl⟩ := (anchor_eq_ok_iff hsplit).1 h
    rw [expandDirectory_of_getLast?_ne hplain] at hbodyne ⊢
    rw [expandDirectory_slash, floats_append_slash]
    cases rooted || floats body with
    | true => exact ⟨rfl, hbody⟩
    | false => exact ⟨rfl, hbody.anyDepth hbodyne⟩

theorem compileAlternative_append_slash {cs : List Char} {tokens below : List Token}
    (hcs : EndsPlain cs) (h : compileAlternative cs = .ok tokens)
    (hbelow : compileAlternative (cs ++ ['/']) = .ok below) :
    below = tokens ++ belowTokens ∧ tokens.getLast? ≠ some .anyRecursive := by
  obtain ⟨glob, hanchor, hcompile⟩ := compileAlternative_eq_ok_iff.1 h
  obtain ⟨_, hanchorbelow, hcompilebelow⟩ := compileAlternative_eq_ok_iff.1 hbelow
  obtain ⟨rfl, hglob⟩ := anchor_append_slash hcs hanchor hanchorbelow
  rw [compile_below hcompile hglob] at hcompilebelow
  cases hcompilebelow
  exact ⟨rfl, getLast?_ne_of_compileFrom hcompile hglob (by simp)⟩

/-! ## Section 4: Paths below a directory -/

/-- The directories above a normalized path are normalized. -/
theorem normalizePath_directory {path directory rest : List Char}
    (h : normalizePath path = directory ++ '/' :: rest) : normalizePath directory = directory := by
  apply normalizePath_of_ne
  rintro more rfl
  exact normalizePath_ne_dotSlash path _ h

/-- Only the directory with the name of a single dot gets lost. -/
theorem normalizePath_under {directory : List Char} (h : normalizePath directory ≠ ['.'])
    (path : List Char) :
    normalizePath (directory ++ '/' :: path) = normalizePath directory ++ '/' :: path := by
  fun_induction normalizePath directory with
  | case1 rest ih => exact ih h
  | case2 directory hdot => exact normalizePath_of_ne (append_ne_dotSlash h hdot path)

/-- A pattern with a separator at its end matches a path exactly if the pattern without it matches
    a directory above the path, which is what stands in front of some separator of the normalized
    path. So it matches no name that stands alone, and it does match all that is below a
    directory; only a directory with the name of a single dot is lost in normalizing. -/
theorem isMatch_directory_iff {source : String} {p below : Pattern}
    (hopen : '\x7b' ∉ source.toList) (hslash : ¬ ['/'] <:+ source.toList)
    (hstars : ¬ ['*', '*'] <:+ source.toList) (hp : compile source = .ok p)
    (hbelow : compile (source ++ "/") = .ok below) :
    (∀ path, below.isMatch path = true ↔ ∃ directory rest,
      normalizePath path.toList = directory ++ '/' :: rest ∧
        p.isMatch (String.ofList directory) = true) ∧
    (∀ path, '/' ∉ normalizePath path.toList → below.isMatch path = false) ∧
    ∀ directory path, p.isMatch directory = true → normalizePath directory.toList ≠ ['.'] →
      below.isMatch (directory ++ "/" ++ path) = true := by
  have hopenbelow : '\x7b' ∉ (source ++ "/").toList := by simpa using hopen
  have htext : (source ++ "/").toList = source.toList ++ ['/'] := by simp
  obtain ⟨tokens, htokens, hmatch⟩ := exists_matches_of_compile (firstGroup?_of_notMem hopen) hp
  obtain ⟨others, hothers, hmatchbelow⟩ :=
    exists_matches_of_compile (firstGroup?_of_notMem hopenbelow) hbelow
  rw [htext] at hothers
  obtain ⟨rfl, hlast⟩ := compileAlternative_append_slash ⟨hslash, hstars⟩ htokens hothers
  simp only [matches_below_iff hlast] at hmatchbelow
  refine ⟨?_, ?_, ?_⟩
  · intro path
    rw [hmatchbelow]
    have hdirectory : ∀ directory rest, normalizePath path.toList = directory ++ '/' :: rest →
        (p.isMatch (String.ofList directory) = true ↔ Matches tokens directory) := by
      intro directory rest hpath
      rw [hmatch, String.toList_ofList, normalizePath_directory hpath]
    constructor
    · intro ⟨directory, rest, hpath, hmatches⟩
      exact ⟨directory, rest, hpath, (hdirectory directory rest hpath).2 hmatches⟩
    · intro ⟨directory, rest, hpath, hmatches⟩
      exact ⟨directory, rest, hpath, (hdirectory directory rest hpath).1 hmatches⟩
  · intro path hname
    rw [Bool.eq_false_iff, ne_eq, hmatchbelow]
    intro ⟨directory, rest, hpath, _⟩
    rw [hpath] at hname
    simp at hname
  · intro directory path hdirectory hdot
    have hunder := normalizePath_under hdot path.toList
    refine (hmatchbelow _).2
      ⟨normalizePath directory.toList, path.toList, ?_, (hmatch _).1 hdirectory⟩
    simpa using hunder

/-- Any name of four characters such as dist, at any depth below the libraries. -/
def distTokens : List Token :=
  [.char 'l', .char 'i', .char 'b', .char '/', .anyRecursive, .char 'd', .anyChar, .char 's',
    .char 't']

theorem compile_dist :
    compile "./lib/**/d?st" = .ok ⟨"./lib/**/d?st", [distTokens]⟩ ∧
    compile ("./lib/**/d?st" ++ "/") = .ok ⟨"./lib/**/d?st/", [distTokens ++ belowTokens]⟩ := by
  constructor
  · decide +kernel
  · decide +kernel

theorem isMatch_directory_iff_dist :
    Pattern.isMatch ⟨"./lib/**/d?st", [distTokens]⟩ "./lib/x/dist" = true ∧
    Pattern.isMatch ⟨"./lib/**/d?st/", [distTokens ++ belowTokens]⟩ "./lib/x/dist/a.js" = true ∧
    Pattern.isMatch ⟨"./lib/**/d?st/", [distTokens ++ belowTokens]⟩ "./dist" = false := by
  have hopen : '\x7b' ∉ "./lib/**/d?st".toList := by decide +kernel
  have hslash : ¬ ['/'] <:+ "./lib/**/d?st".toList := by decide +kernel
  have hstars : ¬ ['*', '*'] <:+ "./lib/**/d?st".toList := by decide +kernel
  obtain ⟨_, hname, hunder⟩ :=
    isMatch_directory_iff hopen hslash hstars compile_dist.1 compile_dist.2
  have hdirectory : Pattern.isMatch ⟨"./lib/**/d?st", [distTokens]⟩ "./lib/x/dist" = true := by
    decide +kernel
  exact ⟨hdirectory, hunder "./lib/x/dist" "a.js" hdirectory (by decide +kernel),
    hname "./dist" (by decide +kernel)⟩

end Pattern

end RuleCascade
