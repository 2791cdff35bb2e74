/-! # What a search has not seen yet

    Searches here follow names and remember where they have been. The number
    of names that are still unseen bounds how long they can go on.
-/

namespace RuleCascade

variable {α : Type}

/-- How many of the names are unseen. -/
def countUnseen (seen : α → Bool) (names : List α) : Nat :=
  names.countP fun name => !seen name

theorem countUnseen_le {seen later : α → Bool} {names : List α}
    (h : ∀ name, seen name = true → later name = true) :
    countUnseen later names ≤ countUnseen seen names := by
  apply List.countP_mono_left
  intro name _ hname
  cases hs : seen name with
  | false => rfl
  | true => simp [h name hs] at hname

/-- Seeing a name for the first time lowers the count. -/
theorem countUnseen_lt {seen later : α → Bool} {names : List α} {name : α}
    (h : ∀ name, seen name = true → later name = true) (hmem : name ∈ names)
    (hseen : seen name = false) (hlater : later name = true) :
    countUnseen later names < countUnseen seen names := by
  induction names with
  | nil => simp at hmem
  | cons head tail ih =>
    have hle : countUnseen later tail ≤ countUnseen seen tail := countUnseen_le h
    simp only [countUnseen, List.countP_cons] at *
    rcases List.mem_cons.1 hmem with rfl | htail
    · simp only [hseen, hlater]
      simp
      omega
    · have := ih htail
      have hhead : (if (!later head) = true then 1 else 0) ≤
          (if (!seen head) = true then 1 else 0) := by
        cases hs : seen head with
        | false => cases later head <;> simp
        | true => simp [h head hs]
      omega

end RuleCascade
