import RuleCascade.Proofs.WellFormedPatterns

/-! # Literal patterns

    A glob without special characters stands for itself and nothing else. A
    rooted pattern of this kind names one file, so the path of that file, with a
    `./` in front or not, should be what it matches.

    The `./` in front is taken off in two places. Normalizing a path takes off
    as many as there are; anchoring takes off one from a pattern. What is then
    left of a pattern is compared with a path that never starts with a `./`. A
    pattern that starts with two of them matches nothing.

    Main statement: `matchesItself_dotSlash`.
-/

namespace RuleCascade

open Glob

namespace Glob

/-! ## Section 1: Globs without special characters -/

/-- The characters that do not stand for themselves. -/
def special : List Char := ['*', '?', '[', '\x7b', '\x7d']

/-- Every character stands for itself. -/
def Literal (cs : List Char) : Prop := ∀ c ∈ cs, c ∉ special

instance (cs : List Char) : Decidable (Literal cs) := List.decidableBAll _ cs

theorem Literal.notMem {cs : List Char} (h : Literal cs) {c : Char} (hc : c ∈ special) : c ∉ cs :=
  fun hmem => h c hmem hc

theorem Literal.cons {c : Char} {cs : List Char} (h : Literal cs) (hc : c ∉ special) :
    Literal (c :: cs) :=
  List.forall_mem_cons.2 ⟨hc, h⟩

theorem compileFrom_literal {done : List Token} {start : Bool} {cs : List Char} (h : Literal cs) :
    compileFrom done start cs = .ok (done.reverse ++ cs.map .char) := by
  induction cs generalizing done start with
  | nil => simp [compileFrom]
  | cons c cs ih =>
    obtain ⟨hc, hcs⟩ := List.forall_mem_cons.1 h
    have hstar : c ≠ '*' := fun heq => hc (by simp [heq, special])
    have hany : c ≠ '?' := fun heq => hc (by simp [heq, special])
    have hopen : c ≠ '[' := fun heq => hc (by simp [heq, special])
    rw [compileFrom_char hany hstar hopen, ih hcs]
    simp

theorem matches_literal_iff {cs path : List Char} : Matches (cs.map .char) path ↔ path = cs := by
  induction cs generalizing path with
  | nil => exact matches_nil_iff
  | cons c cs ih =>
    have hsingle : (Token.char c).Single := by simp [Token.Single]
    rw [List.map_cons]
    cases path with
    | nil => simp [not_matches_nil hsingle]
    | cons d path => simp [matches_cons_iff hsingle, Token.accepts, ih]

end Glob

namespace Pattern

/-! ## Section 2: Rooted literals -/

theorem reads_literal {cs : List Char} (h : Literal cs) : Reads cs (cs.map .plain) := by
  induction cs with
  | nil => exact .done
  | cons c cs ih =>
    obtain ⟨hc, hcs⟩ := List.forall_mem_cons.1 h
    have hopen : c ≠ '[' := fun heq => hc (by simp [heq, special])
    exact .plain hopen (ih hcs)

theorem checkBalance_literal {cs : List Char} (h : Literal cs) : checkBalance cs = .ok () := by
  have hreads := reads_literal h
  have hbalanced := hreads.balanced_of_notMem (h.notMem (by decide)) (h.notMem (by decide))
  exact checkBalance_eq_ok_iff.2 ⟨_, hreads, hbalanced⟩

/-- A literal pattern with a root mark compiles, and it matches nothing but what is left of it
    without the mark. -/
theorem exists_compile_literal {source : String} {body : List Char} (h : Literal source.toList)
    (hroot : splitRoot source.toList = (true, body)) (hne : body ≠ [])
    (hslash : body.getLast? ≠ some '/') :
    ∃ p, compile source = .ok p ∧
      ∀ path, p.isMatch path = true ↔ normalizePath path.toList = body := by
  have hplain : firstGroup? source.toList = none := firstGroup?_of_notMem (h.notMem (by decide))
  have hsource : source.toList ≠ [] := by
    intro hnil
    rw [hnil] at hroot
    cases hroot
  have hanchor : anchor source.toList = .ok body := by
    rw [anchor_eq_ok_iff hroot, expandDirectory_of_getLast?_ne hslash]
    exact ⟨hne, rfl⟩
  have hsuffix := splitRoot_suffix source.toList
  rw [hroot] at hsuffix
  have hbody : Literal body := fun c hc => h c (hsuffix.mem hc)
  have hcompile : Glob.compile body = .ok (body.map .char) := compileFrom_literal hbody
  have hfound := compileAlternative_eq_ok_iff.2 ⟨body, hanchor, hcompile⟩
  have hp := (compile_eq_ok_iff hplain).2 ⟨hsource, checkBalance_literal h, _, hfound, rfl⟩
  obtain ⟨tokens, htokens, hmatch⟩ := exists_matches_of_compile hplain hp
  obtain rfl : tokens = body.map .char := by
    rw [hfound] at htokens
    exact (Except.ok.inj htokens).symm
  refine ⟨_, hp, ?_⟩
  intro path
  rw [hmatch, matches_literal_iff]

/-! ## Section 3: One root mark, or more -/

/-- The pattern compiles, and it matches a path exactly if both normalize to the same. -/
def MatchesItself (source : String) : Prop :=
  ∃ p, compile source = .ok p ∧ ∀ path, p.isMatch path = true ↔
    RuleCascade.normalizePath path = RuleCascade.normalizePath source

theorem normalizePath_eq_iff {path source : String} :
    RuleCascade.normalizePath path = RuleCascade.normalizePath source ↔
      normalizePath path.toList = normalizePath source.toList :=
  String.ofList_inj

/-- Put `./` in front of a text without special characters that is not empty and does not end with
    a separator. The pattern compiles. It matches a path exactly if both normalize to the same,
    unless the text already starts with a `./`; then there is no path that it matches. -/
theorem matchesItself_dotSlash {text : String} (hne : text ≠ "") (h : Literal text.toList)
    (hslash : ¬ ['/'] <:+ text.toList) :
    (¬ ['.', '/'] <+: text.toList → MatchesItself ("./" ++ text)) ∧
    (['.', '/'] <+: text.toList → ∃ p, compile ("./" ++ text) = .ok p ∧
      ∀ path, p.isMatch path = false) := by
  have htext : ("./" ++ text).toList = '.' :: '/' :: text.toList := by simp
  have hliteral : Literal ("./" ++ text).toList := by
    rw [htext]
    have hbehind : Literal ('/' :: text.toList) := h.cons (by decide)
    exact hbehind.cons (by decide)
  have hlast : text.toList.getLast? ≠ some '/' :=
    mt List.singleton_suffix_iff_getLast?_eq_some.2 hslash
  obtain ⟨p, hp, hmatch⟩ := exists_compile_literal hliteral (by rw [htext]; rfl)
    (by simpa using hne) hlast
  constructor
  · intro hdot
    have hnormal : normalizePath ("./" ++ text).toList = text.toList := by
      rw [htext, normalizePath]
      apply normalizePath_of_ne
      intro rest heq
      exact hdot ⟨rest, heq.symm⟩
    refine ⟨p, hp, ?_⟩
    intro path
    rw [hmatch, normalizePath_eq_iff, hnormal]
  · intro ⟨rest, hrest⟩
    refine ⟨p, hp, ?_⟩
    intro path
    rw [Bool.eq_false_iff, ne_eq, hmatch, ← hrest]
    exact normalizePath_ne_dotSlash path.toList rest

/-- A hidden directory, and a bracket that opens no class. -/
theorem matchesItself_dotSlash_hidden :
    MatchesItself ("./" ++ ".a/b]") ∧
    ∃ p, compile ("./" ++ "./.a/b]") = .ok p ∧ ∀ path, p.isMatch path = false := by
  have hliteral : Literal ".a/b]".toList := by decide +kernel
  have hmarked : Literal "./.a/b]".toList := by decide +kernel
  obtain ⟨hitself, _⟩ := matchesItself_dotSlash (by decide) hliteral (by decide +kernel)
  obtain ⟨_, hnothing⟩ := matchesItself_dotSlash (by decide) hmarked (by decide +kernel)
  exact ⟨hitself (by decide +kernel), hnothing (by decide +kernel)⟩

/-- One `./` is taken off the pattern, and two are taken off the path. -/
theorem not_matchesItself_secondMark :
    "./a" ≠ "" ∧ Literal "./a".toList ∧ ¬ ['/'] <:+ "./a".toList ∧
      ¬ MatchesItself ("./" ++ "./a") := by
  refine ⟨by decide, by decide +kernel, by decide +kernel, ?_⟩
  intro ⟨p, hp, hmatch⟩
  have hcompile : compile ("./" ++ "./a") = .ok ⟨"././a", [[.char '.', .char '/', .char 'a']]⟩ := by
    decide +kernel
  rw [hcompile] at hp
  cases hp
  have hpath := (hmatch "././a").2 rfl
  revert hpath
  decide +kernel

end Pattern

end RuleCascade
