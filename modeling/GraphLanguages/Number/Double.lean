/-! Doubles.

A finite double is `mantissa * 2 ^ exponent` with a mantissa below `2 ^ 53`; signs are
kept beside it. Every operation takes the exact result to the nearest double, a tie
to the even mantissa, and has no answer where the result is too large. -/
namespace GraphLanguages.Number

/-- The smallest exponent is -1074 and the largest 971. Above the smallest one, a
mantissa has all its 53 bits. -/
structure Double where
  mantissa : Nat
  exponent : Int
deriving DecidableEq, Repr

/-- The smallest mantissa of 53 bits, `2 ^ 52`. -/
def smallestFull : Nat := 4503599627370496

/-- A quotient as the nearest whole number, a tie as the even one. -/
def roundQuotient (num den : Nat) : Nat :=
  let q := num / den
  let r := num % den
  if 2 * r < den || (2 * r = den && q % 2 = 0) then q else q + 1

/-- Numerator and denominator of `num / den / 2 ^ exponent`. -/
def unscaled (num den : Nat) (exponent : Int) : Nat × Nat :=
  if 0 ≤ exponent then (num, den * Nat.pow 2 exponent.toNat)
  else (num * Nat.pow 2 (-exponent).toNat, den)

namespace Double

def zero : Double := ⟨0, -1074⟩

/-- The exponent at which a positive quotient has a mantissa of 53 bits, as far as
exponents reach down. -/
def exponentOf (num den : Nat) : Int :=
  let guess : Int := (Nat.log2 num : Int) - (Nat.log2 den : Int) - 52
  let (n, d) := unscaled num den guess
  max (if n / d < smallestFull then guess - 1 else guess) (-1074)

/-- The double next to a quotient. -/
def nearest? (num den : Nat) : Option Double :=
  if num = 0 then some zero
  else
    let exponent := exponentOf num den
    let (n, d) := unscaled num den exponent
    let mantissa := roundQuotient n d
    let x : Double := if mantissa = 2 * smallestFull then ⟨smallestFull, exponent + 1⟩ else ⟨mantissa, exponent⟩
    if x.exponent ≤ 971 then some x else none

/-- The double next to `num / den * 2 ^ exponent`. -/
def scaled? (num den : Nat) (exponent : Int) : Option Double :=
  let (n, d) := unscaled num den (-exponent)
  nearest? n d

def times? (x y : Double) : Option Double :=
  scaled? (x.mantissa * y.mantissa) 1 (x.exponent + y.exponent)

/-- The divisor is not zero. -/
def over? (x y : Double) : Option Double :=
  scaled? x.mantissa y.mantissa (x.exponent - y.exponent)

/-- The double next to a power of ten. -/
def powerOfTen? (n : Nat) : Option Double :=
  nearest? (Nat.pow 10 n) 1

/-- Division by a power of ten, by at most `10 ^ 308` at a time. -/
def overPowerOfTen? (x : Double) (n : Nat) : Option Double :=
  if x.mantissa = 0 then some x
  else if n ≤ 308 then (powerOfTen? n).bind x.over?
  else ((powerOfTen? 308).bind x.over?).bind fun y => overPowerOfTen? y (n - 308)
termination_by n

/-- `significand * 10 ^ exponent`, rounded more than once: the significand, the power
and the result each become a double. -/
def ofDecimal? (significand : Nat) (exponent : Int) : Option Double :=
  (nearest? significand 1).bind fun x =>
    if exponent < 0 then x.overPowerOfTen? (-exponent).toNat
    else if x.mantissa = 0 then some x
    else if exponent ≤ 308 then (powerOfTen? exponent.toNat).bind x.times?
    else none

end Double

end GraphLanguages.Number
