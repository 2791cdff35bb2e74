/-! # Powers of two and ten

    Doubles are scaled by powers of two, decimals by powers of ten, and machine
    integers are bounded by powers of two.
-/

namespace RuleCascade.Decimal

/-- A power of two. -/
def twoTo (k : Nat) : Nat :=
  Nat.pow 2 k

/-- A power of ten. -/
def tenTo (k : Nat) : Nat :=
  Nat.pow 10 k

/-- True for the integers from `-twoTo low` on that are less than `twoTo high`. -/
def within (low high : Nat) (i : Int) : Bool :=
  -(twoTo low : Int) ≤ i && i < twoTo high

end RuleCascade.Decimal
