/-! # Splitting at the last separator

    Names of files, extensions and rule keys are all cut at the last character
    of some kind.
-/

namespace RuleCascade.Text

/-- The text before and after the last character that satisfies `p`, if there is one. -/
def splitLast? (p : Char → Bool) : List Char → Option (List Char × List Char)
  | [] => none
  | c :: rest =>
    match splitLast? p rest with
    | some (before, after) => some (c :: before, after)
    | none => if p c then some ([], rest) else none

/-- The text after the last character that satisfies `p`, or all of it. -/
def afterLast (p : Char → Bool) (cs : List Char) : List Char :=
  match splitLast? p cs with
  | some (_, after) => after
  | none => cs

theorem splitLast?_eq_none_iff {p : Char → Bool} {cs : List Char} :
    splitLast? p cs = none ↔ ∀ c ∈ cs, p c = false := by
  induction cs with
  | nil => simp [splitLast?]
  | cons c rest ih =>
    simp only [splitLast?, List.mem_cons, forall_eq_or_imp]
    split
    · rename_i heq
      simp only [reduceCtorEq, false_iff, not_and]
      intro _ hrest
      rw [ih.2 hrest] at heq
      cases heq
    · rename_i heq
      cases hc : p c with
      | true => simp
      | false => simpa using ih.1 heq

/-- The parts and the separator make up the text, and the last part holds no separator. -/
theorem eq_of_splitLast? {p : Char → Bool} {cs before after : List Char}
    (h : splitLast? p cs = some (before, after)) :
    ∃ c, p c = true ∧ cs = before ++ c :: after ∧ ∀ d ∈ after, p d = false := by
  induction cs generalizing before after with
  | nil => simp [splitLast?] at h
  | cons c rest ih =>
    simp only [splitLast?] at h
    split at h
    · rename_i b a heq
      simp only [Option.some.injEq, Prod.mk.injEq] at h
      obtain ⟨d, hd, hrest, hafter⟩ := ih heq
      exact ⟨d, hd, by rw [← h.1, ← h.2, hrest, List.cons_append], h.2 ▸ hafter⟩
    · rename_i heq
      split at h
      · rename_i hc
        simp only [Option.some.injEq, Prod.mk.injEq] at h
        refine ⟨c, hc, by rw [← h.1, ← h.2, List.nil_append], ?_⟩
        rw [← h.2]
        exact splitLast?_eq_none_iff.1 heq
      · cases h

theorem splitLast?_append {p : Char → Bool} {c : Char} {after : List Char} (before : List Char)
    (hc : p c = true) (hafter : ∀ d ∈ after, p d = false) :
    splitLast? p (before ++ c :: after) = some (before, after) := by
  induction before with
  | nil => simp [splitLast?, splitLast?_eq_none_iff.2 hafter, hc]
  | cons first rest ih => simp [splitLast?, ih]

theorem splitLast?_eq_some_iff {p : Char → Bool} {cs before after : List Char} :
    splitLast? p cs = some (before, after) ↔
      ∃ c, p c = true ∧ cs = before ++ c :: after ∧ ∀ d ∈ after, p d = false := by
  refine ⟨eq_of_splitLast?, ?_⟩
  rintro ⟨c, hc, rfl, hafter⟩
  exact splitLast?_append before hc hafter

/-- The last part holds no separator, and is the whole text or stands behind a separator. -/
theorem afterLast_eq_iff {p : Char → Bool} {cs part : List Char} :
    afterLast p cs = part ↔
      (∀ d ∈ part, p d = false) ∧ (cs = part ∨ ∃ before c, p c = true ∧ cs = before ++ c :: part) := by
  constructor
  · rintro rfl
    unfold afterLast
    split
    · rename_i before after heq
      obtain ⟨c, hc, hcs, hafter⟩ := eq_of_splitLast? heq
      exact ⟨hafter, Or.inr ⟨before, c, hc, hcs⟩⟩
    · rename_i heq
      exact ⟨splitLast?_eq_none_iff.1 heq, Or.inl rfl⟩
  · rintro ⟨hpart, rfl | ⟨before, c, hc, rfl⟩⟩
    · rw [afterLast, splitLast?_eq_none_iff.2 hpart]
    · rw [afterLast, splitLast?_append before hc hpart]

end RuleCascade.Text
