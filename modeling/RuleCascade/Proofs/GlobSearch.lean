import RuleCascade.Pattern.Glob

/-! # The search for a match

    Which paths a glob matches can be said without a search: a star stands for
    some run of characters inside a segment, a double star for what lies before
    some later start of a segment, and any other token for one character.

    The search tries the runs one after another, and it gives up altogether as
    soon as some try has run out of path. That this loses no match rests on
    which rests of the path can still come up:

    * Inside a segment every later rest can. Where the tokens ran out of path
      on one rest, they run out of it on all shorter ones.
    * Where a segment starts, only later starts and the end of the path can.
      A double star skips what lies between, so there the tokens need not fail.
      It has to stand where a segment starts, and compiling sees to that.

    Main statement: `isMatch_iff_matches`.
-/

namespace RuleCascade.Glob

/-! ## Section 1: Rests of a path -/

/-- The second text is left of the first after a run of characters inside the first segment. -/
def Within (path rest : List Char) : Prop :=
  ∃ run, path = run ++ rest ∧ '/' ∉ run

theorem within_nil_iff {rest : List Char} : Within [] rest ↔ rest = [] := by
  constructor
  · rintro ⟨run, hpath, _⟩
    exact (List.append_eq_nil_iff.1 hpath.symm).2
  · rintro rfl
    exact ⟨[], rfl, List.not_mem_nil⟩

theorem within_cons_iff {c : Char} {path rest : List Char} :
    Within (c :: path) rest ↔ rest = c :: path ∨ (c ≠ '/' ∧ Within path rest) := by
  constructor
  · rintro ⟨run, hpath, hrun⟩
    cases run with
    | nil => exact Or.inl hpath.symm
    | cons d run =>
      cases hpath
      obtain ⟨hc, hothers⟩ := not_or.1 (mt List.mem_cons.2 hrun)
      exact Or.inr ⟨Ne.symm hc, run, rfl, hothers⟩
  · rintro (rfl | ⟨hc, run, rfl, hrun⟩)
    · exact ⟨[], rfl, List.not_mem_nil⟩
    · refine ⟨c :: run, rfl, ?_⟩
      intro hmem
      rcases List.mem_cons.1 hmem with heq | hmem
      · exact hc heq.symm
      · exact hrun hmem

theorem Within.suffix {path rest : List Char} (h : Within path rest) : rest <:+ path := by
  obtain ⟨run, hpath, _⟩ := h
  exact ⟨run, hpath.symm⟩

/-- The second text is left of the first at its end or where a segment starts. The flag says that
    one starts at the beginning. -/
inductive Below : Bool → List Char → List Char → Prop where
  | here {path : List Char} : Below true path path
  | done {start : Bool} : Below start [] []
  | later {start : Bool} {c : Char} {path rest : List Char} :
      Below (c = '/') path rest → Below start (c :: path) rest

theorem below_nil (start : Bool) (path : List Char) : Below start path [] := by
  induction path generalizing start with
  | nil => exact .done
  | cons c path ih => exact .later (ih _)

theorem Below.trans {start : Bool} {path middle rest : List Char} (h : Below start path middle)
    (h' : Below true middle rest) : Below start path rest := by
  induction h with
  | here => exact h'
  | done =>
    cases h' with
    | here => exact .done
    | done => exact .done
  | later _ ih => exact .later (ih h')

theorem Below.suffix {start : Bool} {path rest : List Char} (h : Below start path rest) :
    rest <:+ path := by
  induction h with
  | here => exact List.suffix_refl _
  | done => exact List.suffix_refl _
  | later _ ih => exact ih.trans (List.suffix_cons _ _)

/-- Behind a separator a segment starts. -/
theorem below_append (start : Bool) (before rest : List Char) :
    Below start (before ++ '/' :: rest) rest := by
  induction before generalizing start with
  | nil => exact .later .here
  | cons c before ih => exact .later (ih _)

theorem below_nil_iff {start : Bool} {rest : List Char} : Below start [] rest ↔ rest = [] := by
  constructor
  · intro h
    cases h with
    | here => rfl
    | done => rfl
  · rintro rfl
    exact .done

theorem below_cons_iff {start : Bool} {c : Char} {path rest : List Char} :
    Below start (c :: path) rest ↔
      (start = true ∧ rest = c :: path) ∨ Below (c = '/') path rest := by
  constructor
  · intro h
    cases h with
    | here => exact Or.inl ⟨rfl, rfl⟩
    | later hrest => exact Or.inr hrest
  · rintro (⟨rfl, rfl⟩ | hrest)
    · exact .here
    · exact .later hrest

/-! ## Section 2: What a glob matches -/

/-- The tokens stand for the path. -/
inductive Matches : List Token → List Char → Prop where
  | nil : Matches [] []
  | one {token : Token} {tokens : List Token} {c : Char} {path : List Char} :
      token.accepts c = true → Matches tokens path → Matches (token :: tokens) (c :: path)
  | sequence {tokens : List Token} {path rest : List Char} :
      Within path rest → Matches tokens rest → Matches (.anySequence :: tokens) path
  | recursive {tokens : List Token} {path rest : List Char} :
      Below true path rest → Matches tokens rest → Matches (.anyRecursive :: tokens) path

theorem matches_nil_iff {path : List Char} : Matches [] path ↔ path = [] := by
  constructor
  · intro h
    cases h
    rfl
  · rintro rfl
    exact .nil

theorem matches_sequence_iff {tokens : List Token} {path : List Char} :
    Matches (.anySequence :: tokens) path ↔ ∃ rest, Within path rest ∧ Matches tokens rest := by
  constructor
  · intro h
    cases h with
    | one haccepts _ => cases haccepts
    | sequence hwithin hrest => exact ⟨_, hwithin, hrest⟩
  · rintro ⟨rest, hwithin, hrest⟩
    exact .sequence hwithin hrest

theorem matches_recursive_iff {tokens : List Token} {path : List Char} :
    Matches (.anyRecursive :: tokens) path ↔ ∃ rest, Below true path rest ∧ Matches tokens rest := by
  constructor
  · intro h
    cases h with
    | one haccepts _ => cases haccepts
    | recursive hbelow hrest => exact ⟨_, hbelow, hrest⟩
  · rintro ⟨rest, hbelow, hrest⟩
    exact .recursive hbelow hrest

/-- The token stands for exactly one character. -/
def Token.Single (token : Token) : Prop := token ≠ .anySequence ∧ token ≠ .anyRecursive

theorem not_matches_nil {token : Token} (h : token.Single) (tokens : List Token) :
    ¬ Matches (token :: tokens) [] := by
  intro hmatches
  cases hmatches with
  | sequence _ _ => exact h.1 rfl
  | recursive _ _ => exact h.2 rfl

theorem matches_cons_iff {token : Token} (h : token.Single) {tokens : List Token} {c : Char}
    {path : List Char} :
    Matches (token :: tokens) (c :: path) ↔ token.accepts c = true ∧ Matches tokens path := by
  constructor
  · intro hmatches
    cases hmatches with
    | one haccepts hrest => exact ⟨haccepts, hrest⟩
    | sequence _ _ => exact absurd rfl h.1
    | recursive _ _ => exact absurd rfl h.2
  · rintro ⟨haccepts, hrest⟩
    exact .one haccepts hrest

/-! ## Section 3: Giving up -/

/-- The rests of the path that can still come up, where a segment starts and inside of it. -/
def Later : Bool → List Char → List Char → Prop
  | true, path, rest => Below true path rest
  | false, path, rest => rest <:+ path

theorem Later.suffix {start : Bool} {path rest : List Char} (h : Later start path rest) :
    rest <:+ path := by
  cases start with
  | false => exact h
  | true => exact Below.suffix h

/-- The search decides the property. Where it gives up, the property holds of no rest that can
    still come up. -/
structure Decides (start : Bool) (search : List Char → Outcome) (P : List Char → Prop) : Prop where
  matched_iff : ∀ path, search path = .matched ↔ P path
  impossible : ∀ path, search path = .impossible → ∀ rest, Later start path rest → ¬ P rest

section seeking

variable {next : List Char → Outcome} {P : List Char → Prop}

theorem Decides.not_of_retry {start : Bool} (h : Decides start next P) {path : List Char}
    (hretry : next path = .retry) : ¬ P path := by
  intro hP
  rw [(h.matched_iff path).2 hP] at hretry
  cases hretry

/-- As long as the property holds of a rest to come, the search does not give up. -/
theorem Decides.matched_of_later {start : Bool} (h : Decides start next P) {path rest : List Char}
    (hnext : next path = .retry → False) (hlater : Later start path rest) (hP : P rest) :
    next path = .matched := by
  cases houtcome : next path with
  | matched => rfl
  | retry => exact absurd houtcome hnext
  | impossible => exact absurd hP (h.impossible path houtcome rest hlater)

/-- What fails on all shorter rests fails on those that start a segment. -/
theorem Decides.of_within (h : Decides false next P) (start : Bool) : Decides start next P where
  matched_iff := h.matched_iff
  impossible := fun path hnext rest hlater => h.impossible path hnext rest hlater.suffix

theorem seekWithin_eq_matched_iff (h : Decides false next P) (path : List Char) :
    seekWithin next path = .matched ↔ ∃ rest, Within path rest ∧ P rest := by
  fun_induction seekWithin next path with
  | case1 =>
    rw [h.matched_iff]
    constructor
    · intro hP
      exact ⟨[], within_nil_iff.2 rfl, hP⟩
    · rintro ⟨rest, hwithin, hP⟩
      rw [within_nil_iff.1 hwithin] at hP
      exact hP
  | case2 path hretry =>
    -- the star cannot go on behind a separator
    constructor
    · intro hmatched
      cases hmatched
    · rintro ⟨rest, hwithin, hP⟩
      rcases within_cons_iff.1 hwithin with rfl | ⟨hsep, _⟩
      · exact absurd hP (h.not_of_retry hretry)
      · exact absurd rfl hsep
  | case3 c path hretry hsep ih =>
    rw [ih]
    constructor
    · rintro ⟨rest, hwithin, hP⟩
      exact ⟨rest, within_cons_iff.2 (Or.inr ⟨hsep, hwithin⟩), hP⟩
    · rintro ⟨rest, hwithin, hP⟩
      rcases within_cons_iff.1 hwithin with rfl | ⟨_, hlater⟩
      · exact absurd hP (h.not_of_retry hretry)
      · exact ⟨rest, hlater, hP⟩
  | case4 c path houtcome =>
    constructor
    · intro hmatched
      exact ⟨c :: path, within_cons_iff.2 (Or.inl rfl), (h.matched_iff _).1 hmatched⟩
    · rintro ⟨rest, hwithin, hP⟩
      exact h.matched_of_later houtcome hwithin.suffix hP

theorem not_of_seekWithin (h : Decides false next P) {path : List Char}
    (himpossible : seekWithin next path = .impossible) {rest : List Char} (hsuffix : rest <:+ path) :
    ¬ P rest := by
  fun_induction seekWithin next path with
  | case1 => exact h.impossible [] himpossible rest hsuffix
  -- at a separator the star only fails, it does not give up
  | case2 path hretry => cases himpossible
  | case3 c path hretry hsep ih =>
    -- this rest was tried and failed; the shorter ones are left to the rest of the search
    rcases List.suffix_cons_iff.1 hsuffix with rfl | hlater
    · exact h.not_of_retry hretry
    · exact ih himpossible hlater
  | case4 c path houtcome => exact h.impossible (c :: path) himpossible rest hsuffix

theorem decides_seekWithin (h : Decides false next P) :
    Decides false (seekWithin next) (fun path => ∃ rest, Within path rest ∧ P rest) where
  matched_iff := seekWithin_eq_matched_iff h
  impossible := by
    intro path himpossible middle hmiddle hP
    -- a run from a later rest ends at a later rest of the whole path
    obtain ⟨rest, hwithin, hrest⟩ := hP
    exact not_of_seekWithin h himpossible (hwithin.suffix.trans hmiddle) hrest

theorem seekBelow_eq_matched_iff (h : Decides true next P) (start : Bool) (path : List Char) :
    seekBelow next start path = .matched ↔ ∃ rest, Below start path rest ∧ P rest := by
  fun_induction seekBelow next start path with
  | case1 start =>
    rw [h.matched_iff]
    constructor
    · intro hP
      exact ⟨[], below_nil_iff.2 rfl, hP⟩
    · rintro ⟨rest, hbelow, hP⟩
      rw [below_nil_iff.1 hbelow] at hP
      exact hP
  | case2 c path ih =>
    -- no segment starts here, so nothing is tried
    rw [ih]
    constructor
    · rintro ⟨rest, hbelow, hP⟩
      exact ⟨rest, .later hbelow, hP⟩
    · rintro ⟨rest, hbelow, hP⟩
      rcases below_cons_iff.1 hbelow with ⟨hstart, _⟩ | hlater
      · cases hstart
      · exact ⟨rest, hlater, hP⟩
  | case3 c path hretry ih =>
    rw [ih]
    constructor
    · rintro ⟨rest, hbelow, hP⟩
      exact ⟨rest, .later hbelow, hP⟩
    · rintro ⟨rest, hbelow, hP⟩
      rcases below_cons_iff.1 hbelow with ⟨_, rfl⟩ | hlater
      · exact absurd hP (h.not_of_retry hretry)
      · exact ⟨rest, hlater, hP⟩
  | case4 c path houtcome =>
    constructor
    · intro hmatched
      exact ⟨c :: path, .here, (h.matched_iff _).1 hmatched⟩
    · rintro ⟨rest, hbelow, hP⟩
      exact h.matched_of_later houtcome hbelow hP

theorem not_of_seekBelow (h : Decides true next P) {start : Bool} {path : List Char}
    (himpossible : seekBelow next start path = .impossible) {rest : List Char}
    (hbelow : Below start path rest) : ¬ P rest := by
  fun_induction seekBelow next start path with
  | case1 start => exact h.impossible [] himpossible rest (below_nil_iff.2 (below_nil_iff.1 hbelow))
  | case2 c path ih =>
    rcases below_cons_iff.1 hbelow with ⟨hstart, _⟩ | hlater
    · cases hstart
    · exact ih himpossible hlater
  | case3 c path hretry ih =>
    rcases below_cons_iff.1 hbelow with ⟨_, rfl⟩ | hlater
    · exact h.not_of_retry hretry
    · exact ih himpossible hlater
  | case4 c path houtcome => exact h.impossible (c :: path) himpossible rest hbelow

theorem decides_seekBelow (h : Decides true next P) :
    Decides true (seekBelow next true) (fun path => ∃ rest, Below true path rest ∧ P rest) where
  matched_iff := seekBelow_eq_matched_iff h true
  impossible := by
    intro path himpossible middle hmiddle hP
    obtain ⟨rest, hbelow, hrest⟩ := hP
    exact not_of_seekBelow h himpossible (hmiddle.trans hbelow) hrest

end seeking

/-! ## Section 4: Tokens in place -/

/-- A segment starts behind whatever the token stands for. -/
def Token.endsSegment : Token → Bool
  | .char c => c = '/'
  | .anyRecursive => true
  | _ => false

/-- Every double star stands where a segment starts. The flag says that one starts in front of
    the tokens. -/
def Aligned : Bool → List Token → Prop
  | _, [] => True
  | start, token :: tokens =>
    (token = .anyRecursive → start = true) ∧ Aligned token.endsSegment tokens

theorem eq_of_endsSegment {token : Token} (hends : token.endsSegment = true) {c : Char}
    (haccepts : token.accepts c = true) : c = '/' := by
  cases token with
  | char d =>
    have hc : c = d := by simpa [Token.accepts] using haccepts
    have hd : d = '/' := of_decide_eq_true hends
    exact hc.trans hd
  | anyRecursive => cases haccepts
  | anyChar => cases hends
  | anyWithin members => cases hends
  | anyExcept members => cases hends
  | anySequence => cases hends

/-- Behind a later character that the token accepts stands a rest that can come up behind an
    earlier one. -/
theorem later_of_accepts {token : Token} {c d : Char} {path rest : List Char}
    (haccepts : token.accepts d = true) (hlater : d :: rest <:+ c :: path) :
    Later token.endsSegment path rest := by
  rcases List.suffix_cons_iff.1 hlater with heq | hsuffix
  · cases heq
    cases token.endsSegment with
    | false => exact List.suffix_refl path
    | true => exact Below.here
  · cases hends : token.endsSegment with
    | false => exact (List.suffix_cons d rest).trans hsuffix
    | true =>
      -- the character is a separator, so a segment starts behind it
      obtain rfl := eq_of_endsSegment hends haccepts
      obtain ⟨before, rfl⟩ := hsuffix
      exact below_append true before rest

section single

variable {token : Token} {tokens : List Token} (hsingle : token.Single)

include hsingle

theorem matchFrom_nil : matchFrom (token :: tokens) [] = .impossible := by
  obtain ⟨hsequence, hrecursive⟩ := hsingle
  cases token with
  | anySequence => exact absurd rfl hsequence
  | anyRecursive => exact absurd rfl hrecursive
  | char d => rfl
  | anyChar => rfl
  | anyWithin members => rfl
  | anyExcept members => rfl

theorem matchFrom_cons (c : Char) (path : List Char) :
    matchFrom (token :: tokens) (c :: path) =
      if token.accepts c then matchFrom tokens path else .retry := by
  obtain ⟨hsequence, hrecursive⟩ := hsingle
  cases token with
  | anySequence => exact absurd rfl hsequence
  | anyRecursive => exact absurd rfl hrecursive
  | char d => rfl
  | anyChar => rfl
  | anyWithin members => rfl
  | anyExcept members => rfl

theorem matchFrom_single_eq_matched_iff
    (h : ∀ path, matchFrom tokens path = .matched ↔ Matches tokens path) (path : List Char) :
    matchFrom (token :: tokens) path = .matched ↔ Matches (token :: tokens) path := by
  cases path with
  | nil =>
    rw [matchFrom_nil hsingle]
    constructor
    · intro himpossible
      cases himpossible
    · intro hP
      exact absurd hP (not_matches_nil hsingle tokens)
  | cons c path =>
    rw [matchFrom_cons hsingle, matches_cons_iff hsingle]
    by_cases haccepts : token.accepts c = true
    · rw [if_pos haccepts, h]
      exact ⟨fun hP => ⟨haccepts, hP⟩, fun hP => hP.2⟩
    · rw [if_neg haccepts]
      constructor
      · intro hretry
        cases hretry
      · intro hP
        exact absurd hP.1 haccepts

theorem decides_single (h : Decides token.endsSegment (matchFrom tokens) (Matches tokens)) :
    Decides false (matchFrom (token :: tokens)) (Matches (token :: tokens)) where
  matched_iff := matchFrom_single_eq_matched_iff hsingle h.matched_iff
  impossible := by
    intro path himpossible rest hlater hP
    cases rest with
    | nil => exact not_matches_nil hsingle tokens hP
    | cons d rest =>
      -- the tokens behind would match behind a later character, but they gave up on that
      obtain ⟨haccepts, hrest⟩ := (matches_cons_iff hsingle).1 hP
      cases path with
      | nil => cases List.suffix_nil.1 hlater
      | cons c path =>
        have hnext : matchFrom tokens path = .impossible := by
          rw [matchFrom_cons hsingle] at himpossible
          by_cases hfirst : token.accepts c = true
          · rw [if_pos hfirst] at himpossible
            exact himpossible
          · rw [if_neg hfirst] at himpossible
            cases himpossible
        exact h.impossible path hnext rest (later_of_accepts haccepts hlater) hrest

end single

theorem decides_sequence {tokens : List Token}
    (h : Decides false (matchFrom tokens) (Matches tokens)) :
    Decides false (matchFrom (.anySequence :: tokens)) (Matches (.anySequence :: tokens)) := by
  have hsearch : matchFrom (.anySequence :: tokens) = seekWithin (matchFrom tokens) := by
    funext path
    cases path with
    | nil => rfl
    | cons c path => rfl
  have hP : Matches (.anySequence :: tokens) =
      fun path => ∃ rest, Within path rest ∧ Matches tokens rest := by
    funext path
    exact propext matches_sequence_iff
  rw [hsearch, hP]
  exact decides_seekWithin h

theorem decides_recursive {tokens : List Token}
    (h : Decides true (matchFrom tokens) (Matches tokens)) :
    Decides true (matchFrom (.anyRecursive :: tokens)) (Matches (.anyRecursive :: tokens)) := by
  have hsearch : matchFrom (.anyRecursive :: tokens) = seekBelow (matchFrom tokens) true := by
    funext path
    cases path with
    | nil => rfl
    | cons c path => rfl
  have hP : Matches (.anyRecursive :: tokens) =
      fun path => ∃ rest, Below true path rest ∧ Matches tokens rest := by
    funext path
    exact propext matches_recursive_iff
  rw [hsearch, hP]
  exact decides_seekBelow h

theorem decides_nil (start : Bool) : Decides start (matchFrom []) (Matches []) where
  matched_iff := by
    intro path
    rw [matches_nil_iff]
    cases path with
    | nil => simp [matchFrom]
    | cons c path => simp [matchFrom]
  impossible := by
    intro path himpossible
    cases path with
    | nil => cases himpossible
    | cons c path => cases himpossible

/-- The search decides what tokens match that have their double stars in place. -/
theorem decides_matchFrom {start : Bool} {tokens : List Token} (h : Aligned start tokens) :
    Decides start (matchFrom tokens) (Matches tokens) := by
  induction tokens generalizing start with
  | nil => exact decides_nil start
  | cons token tokens ih =>
    obtain ⟨hstart, htokens⟩ := h
    have hnext := ih htokens
    -- only the double star needs to stand where a segment starts
    by_cases hsequence : token = .anySequence
    · subst hsequence
      exact (decides_sequence hnext).of_within start
    · by_cases hrecursive : token = .anyRecursive
      · subst hrecursive
        obtain rfl := hstart rfl
        exact decides_recursive hnext
      · exact (decides_single ⟨hsequence, hrecursive⟩ hnext).of_within start

-- the star is given up on at the second character, where the `b` has nothing left to match
example : matchFrom [.anySequence, .char 'a', .char 'b'] ['c', 'a'] = .impossible := by decide

/-! ## Section 5: Compiled globs -/

section stepping

variable {done : List Token} {start : Bool}

/-- Behind a star that does not make two, no star follows. -/
theorem head?_ne_star {rest : List Char} (hend : rest = ['*'] → False)
    (hpair : ∀ head tail, rest = '*' :: head :: tail → False) : rest.head? ≠ some '*' := by
  intro h
  obtain ⟨tail, rfl⟩ := List.head?_eq_some_iff.1 h
  cases tail with
  | nil => exact hend rfl
  | cons head tail => exact hpair head tail rfl

theorem compileFrom_star {rest : List Char} (h : rest.head? ≠ some '*') :
    compileFrom done start ('*' :: rest) = compileFrom (.anySequence :: done) false rest := by
  rw [compileFrom]
  all_goals
    intros
    simp_all

theorem compileFrom_char {c : Char} (hany : c ≠ '?') (hstar : c ≠ '*') (hopen : c ≠ '[')
    (rest : List Char) :
    compileFrom done start (c :: rest) = compileFrom (.char c :: done) (c = '/') rest := by
  rw [compileFrom]
  all_goals
    intros
    simp_all

end stepping

section classes

variable {rest : List Char} (done : List Token) (start : Bool)

theorem compileFrom_except {body after : List Char} (h : classBody? rest = some (body, after)) :
    compileFrom done start ('[' :: '!' :: rest) =
      compileFrom (.anyExcept (members body) :: done) false after := by
  rw [compileFrom]
  split
  · rename_i hnone
    rw [h] at hnone
    cases hnone
  · rename_i hsome
    rw [h] at hsome
    cases hsome
    rfl

theorem compileFrom_except_open (h : classBody? rest = none) :
    compileFrom done start ('[' :: '!' :: rest) = .error .openClass := by
  rw [compileFrom]
  split
  · rfl
  · rename_i hsome
    rw [h] at hsome
    cases hsome

variable (hmark : ∀ members, rest = '!' :: members → False)

include hmark

theorem compileFrom_within {body after : List Char} (h : classBody? rest = some (body, after)) :
    compileFrom done start ('[' :: rest) =
      compileFrom (.anyWithin (members body) :: done) false after := by
  rw [compileFrom]
  · split
    · rename_i hnone
      rw [h] at hnone
      cases hnone
    · rename_i hsome
      rw [h] at hsome
      cases hsome
      rfl
  · exact hmark

theorem compileFrom_within_open (h : classBody? rest = none) :
    compileFrom done start ('[' :: rest) = .error .openClass := by
  rw [compileFrom]
  · split
    · rfl
    · rename_i hsome
      rw [h] at hsome
      cases hsome
  · exact hmark

end classes

/-- Behind the tokens so far, last first, come others with their double stars in place. -/
def Continues (done : List Token) (start : Bool) (tokens : List Token) : Prop :=
  ∃ rest, tokens = done.reverse ++ rest ∧ Aligned start rest

section continuing

variable {done tokens : List Token} {start : Bool}

theorem continues_reverse : Continues done start done.reverse :=
  ⟨[], by simp, trivial⟩

theorem Continues.of_cons {token : Token} (h : Continues (token :: done) token.endsSegment tokens)
    (hplace : token = .anyRecursive → start = true) : Continues done start tokens := by
  obtain ⟨rest, htokens, haligned⟩ := h
  refine ⟨token :: rest, ?_, hplace, haligned⟩
  rw [htokens, List.reverse_cons, List.append_assoc, List.singleton_append]

/-- A double star is added where a segment starts, or left out. -/
theorem Continues.of_addRecursive (h : Continues (addRecursive done) true tokens) :
    Continues done true tokens := by
  unfold addRecursive at h
  split at h
  · exact h
  · exact h.of_cons (fun _ => rfl)

/-- Compiling puts double stars only where a segment starts. -/
theorem continues_of_compileFrom {cs : List Char} (h : compileFrom done start cs = .ok tokens) :
    Continues done start tokens := by
  fun_induction compileFrom done start cs with
  | case1 =>
    cases h
    exact continues_reverse
  | case2 done start rest ih => exact (ih h).of_cons (by simp)
  | case4 done =>
    cases h
    exact continues_reverse.of_addRecursive
  | case6 done rest ih => exact (ih h).of_addRecursive
  | case9 done start rest _ _ _ _ ih => exact (ih h).of_cons (by simp)
  | case11 done start rest body after _ ih => exact (ih h).of_cons (by simp)
  | case13 done start rest _ body after _ ih => exact (ih h).of_cons (by simp)
  | case14 done start c rest _ _ _ _ _ _ _ _ ih => exact (ih h).of_cons (by simp)
  | case3 | case5 | case7 | case8 | case10 | case12 => cases h

end continuing

/-- Every compiled glob matches exactly the paths that its tokens stand for: that the search gives
    up early never hides a match. -/
theorem isMatch_iff_matches {cs : List Char} {tokens : List Token} (h : compile cs = .ok tokens)
    (path : List Char) : isMatch tokens path = true ↔ Matches tokens path := by
  obtain ⟨rest, htokens, haligned⟩ := continues_of_compileFrom h
  obtain rfl : tokens = rest := htokens
  rw [isMatch, decide_eq_true_iff]
  exact (decides_matchFrom haligned).matched_iff path

end RuleCascade.Glob
