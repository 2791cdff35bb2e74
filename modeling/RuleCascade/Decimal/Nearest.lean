import RuleCascade.Decimal.Shortest

/-! # Reading decimals as doubles

    `nearest` rounds a positive fraction to the nearest double, ties to the even
    mantissa, in exact arithmetic on natural numbers. A fraction beyond the
    largest double has no result.

    Two ways to read a decimal are built from it. `ofDecimal` rounds the
    decimal once. `ofScaled` rounds a 64-bit significand and then scales it by
    rounded powers of ten, rounding after every step.
-/

namespace RuleCascade.Decimal

/-! ## Section 1: Rounding a fraction -/

/-- The quotient rounded to the nearest integer, a half to the even one. -/
def roundQuotient (num den : Nat) : Nat :=
  let q := num / den
  let r := num % den
  if den < 2 * r || (2 * r = den && q % 2 = 1) then q + 1 else q

/-- The exponent `e` of the last place of the double beside `num / den`, at least -1074. -/
def lastPlace (num den : Nat) : Int :=
  let e : Int := (num.log2 : Int) - den.log2 - 52
  let scaled := num * twoTo (-e).toNat
  let unit := den * twoTo e.toNat
  max (if scaled < unit * twoTo 52 then e - 1 else e) (-1074)

/-- The bits of `mantissa · 2 ^ exponent` with at most 53 bits of mantissa and an exponent
that fits the format, unless it is too large. -/
def pack (mantissa : Nat) (exponent : Int) : Option UInt64 :=
  if mantissa < twoTo 52 then some (UInt64.ofNat mantissa)
  else if 971 < exponent then none
  else some (UInt64.ofNat ((exponent + 1074).toNat * twoTo 52 + mantissa))

/-- The double nearest to the fraction; nothing when it rounds past the largest one. -/
def nearest (num den : Nat) : Option UInt64 :=
  if num = 0 then some 0
  else
    let e := lastPlace num den
    let q := roundQuotient (num * twoTo (-e).toNat) (den * twoTo e.toNat)
    if q = twoTo 53 then pack (twoTo 52) (e + 1) else pack q e

/-! ## Section 2: Rounding once -/

/-- The double nearest to `mantissa · 10 ^ exponent`. Exponents far outside the range of
doubles are decided by the number of digits alone. -/
def ofDecimal (mantissa : Nat) (exponent : Int) : Option UInt64 :=
  if mantissa = 0 then some 0
  else
    let lead := exponent + digitCount mantissa
    if lead < -330 then some 0
    else if 310 < lead then none
    else nearest (mantissa * tenTo exponent.toNat) (tenTo (-exponent).toNat)

/-! ## Section 3: Rounding after every step -/

/-- The numerator of a double over `2 ^ 1074`. -/
def numerator (bits : UInt64) : Nat :=
  let d := Dyadic.ofBits bits
  d.mantissa * twoTo (d.exponent + 1074).toNat

/-- The rounded product of two positive doubles. -/
def mul (a b : UInt64) : Option UInt64 :=
  nearest (numerator a * numerator b) (twoTo 2148)

/-- The rounded quotient of two positive doubles. -/
def div (a b : UInt64) : Option UInt64 :=
  nearest (numerator a) (numerator b)

/-- The double nearest to a power of ten from `10 ^ 0` to `10 ^ 308`. -/
def powerOfTen (k : Nat) : UInt64 :=
  (nearest (tenTo k) 1).getD 0

/-- Divide by `10 ^ 308` until the exponent is at least -308, then scale once more. -/
def scale (value : UInt64) (exponent : Int) : Option UInt64 :=
  if value = 0 then some 0
  else if 308 < exponent then none
  else if 0 ≤ exponent then mul value (powerOfTen exponent.toNat)
  else if -308 ≤ exponent then div value (powerOfTen exponent.natAbs)
  else (div value (powerOfTen 308)).bind fun next => scale next (exponent + 308)
termination_by exponent.natAbs
decreasing_by omega

/-- A 64-bit significand scaled by a power of ten, each step rounded. -/
def ofScaled (significand : Nat) (exponent : Int) : Option UInt64 :=
  (nearest significand 1).bind fun value => scale value exponent

/-! ## Section 4: Signs and integers -/

/-- The same magnitude with the sign bit set. -/
def negate (bits : UInt64) : UInt64 :=
  bits ||| 0x8000000000000000

/-- The integer part of a double's magnitude. -/
def wholePart (bits : UInt64) : Nat :=
  numerator bits / twoTo 1074

end RuleCascade.Decimal
