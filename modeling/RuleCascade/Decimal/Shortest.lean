import RuleCascade.Decimal.Power

/-! # The shortest decimal that reads back

    A positive double is `m · 2 ^ q`, and the reals that round to it form an
    interval around it (the ends belong to it when `m` is even). Among the
    decimals in that interval the one with the fewest digits is taken, the
    nearest of those, and on an exact tie the one with an even last digit.

    For each number of digits only the two grid points beside the value need a
    look: if any point of the grid lies in the interval, one of those does.
    Everything is exact arithmetic on natural numbers.
-/

namespace RuleCascade.Decimal

/-! ## Section 1: Doubles as dyadic fractions -/

/-- A positive double `mantissa · 2 ^ exponent`. -/
structure Dyadic where
  mantissa : Nat
  exponent : Int
  /-- The gap to the next smaller double is half the gap to the next larger one. -/
  narrowBelow : Bool
deriving Repr, DecidableEq

/-- True when the sign bit is set. -/
def isNegative (bits : UInt64) : Bool :=
  bits >>> 63 == 1

/-- The absolute value of the double with the given bits; the sign is dropped. -/
def Dyadic.ofBits (bits : UInt64) : Dyadic :=
  let field := ((bits >>> 52) &&& 0x7ff).toNat
  let fraction := (bits &&& 0xfffffffffffff).toNat
  if field = 0 then ⟨fraction, -1074, false⟩
  else ⟨fraction + twoTo 52, field - 1075, fraction = 0 && 1 < field⟩

/-! ## Section 2: Digits -/

/-- A decimal `digits · 10 ^ exponent`. -/
structure Digits where
  digits : Nat
  exponent : Int
deriving Repr, DecidableEq

/-- The number of decimal digits of `n`, at least one. -/
def digitCount (n : Nat) : Nat :=
  (Nat.toDigits 10 n).length

/-- The exponent of the leading decimal digit of `num / den`, for positive arguments. -/
def leadingExponent (num den : Nat) : Int :=
  if den ≤ num then digitCount (num / den) - 1
  else -(digitCount ((den - 1) / num) : Int)

/-- The value `4 · m · 2 ^ (q - 2)`, its lower and its upper end, over one denominator. -/
structure Interval where
  low : Nat
  value : Nat
  high : Nat
  den : Nat
  closed : Bool

/-- The reals that round to a double. -/
def Interval.of (d : Dyadic) : Interval :=
  let scale := twoTo (d.exponent - 2).toNat
  { low := (4 * d.mantissa - if d.narrowBelow then 1 else 2) * scale
    value := 4 * d.mantissa * scale
    high := (4 * d.mantissa + 2) * scale
    den := twoTo (2 - d.exponent).toNat
    closed := d.mantissa % 2 = 0 }

/-- True when `digits · 10 ^ exponent` lies in the interval. -/
def Interval.holds (i : Interval) (d : Digits) : Bool :=
  let num := d.digits * tenTo d.exponent.toNat * i.den
  let scale := tenTo (-d.exponent).toNat
  if i.closed then i.low * scale ≤ num && num ≤ i.high * scale
  else i.low * scale < num && num < i.high * scale

/-- The better of the two neighbours of the value on the grid of step `10 ^ exponent`. -/
def onGrid (i : Interval) (exponent : Int) : Option Digits :=
  let num := i.value * tenTo (-exponent).toNat
  let den := i.den * tenTo exponent.toNat
  let below : Digits := ⟨num / den, exponent⟩
  let above : Digits := ⟨num / den + 1, exponent⟩
  let lower := num % den
  match i.holds below, i.holds above with
  | true, true =>
    if 2 * lower < den || (2 * lower = den && below.digits % 2 = 0) then some below
    else some above
  | true, false => some below
  | false, true => some above
  | false, false => none

/-- The first of the grids with `count`, `count + 1`, … digits that has a hit. -/
def firstHit (i : Interval) (lead : Int) : (tries count : Nat) → Option Digits
  | 0, _ => none
  | tries + 1, count =>
    match onGrid i (lead - count + 1) with
    | some d => some d
    | none => firstHit i lead tries (count + 1)

/-- Zeros at the end move into the exponent. -/
def Digits.trim (d : Digits) : Digits :=
  if h : d.digits ≠ 0 ∧ d.digits % 10 = 0 then
    Digits.trim ⟨d.digits / 10, d.exponent + 1⟩
  else d
termination_by d.digits
decreasing_by exact Nat.div_lt_self (Nat.pos_of_ne_zero h.1) (by decide)

/-- The shortest decimal that reads back as the absolute value of a finite double. -/
def shortest (bits : UInt64) : Digits :=
  let d := Dyadic.ofBits bits
  if d.mantissa = 0 then ⟨0, 0⟩
  else
    let i := Interval.of d
    match firstHit i (leadingExponent i.value i.den) 17 1 with
    | some found => found.trim
    | none => ⟨0, 0⟩

end RuleCascade.Decimal
