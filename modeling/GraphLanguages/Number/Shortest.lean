import GraphLanguages.Number.Double

/-! The shortest decimal that reads back as a given double.

A double is read back from every number of its rounding interval, which reaches
halfway to its two neighbours and holds its ends if the mantissa is even. On the
grid of the multiples of a power of ten, only the two grid points around the double
matter. The first power of ten, from above, that has one of them in the interval
gives the fewest digits; of two, the nearer one is taken, and of two equally near,
the even one. -/
namespace GraphLanguages.Number

/-- `digits * 10 ^ exponent`. -/
structure Decimal where
  digits : Nat
  exponent : Int
deriving DecidableEq, Repr

/-- A positive double between the ends of its interval, all in quarters of its last
place, and whether the ends belong to it. -/
structure Interval where
  low : Nat
  value : Nat
  high : Nat
  closed : Bool
  exponent : Int
deriving DecidableEq, Repr

def Double.interval (x : Double) : Interval where
  low := 4 * x.mantissa - (if x.mantissa = smallestFull && -1074 < x.exponent then 1 else 2)
  value := 4 * x.mantissa
  high := 4 * x.mantissa + 2
  closed := x.mantissa % 2 = 0
  exponent := x.exponent - 2

/-- The factors of the numerator and of the denominator that take quarters to units of
`10 ^ k`. -/
def gridFactors (exponent k : Int) : Nat × Nat :=
  (Nat.pow 2 exponent.toNat * Nat.pow 10 (-k).toNat,
    Nat.pow 2 (-exponent).toNat * Nat.pow 10 k.toNat)

/-- The multiplier of `10 ^ k` that reads back, if there is one. -/
def Interval.onGrid? (i : Interval) (k : Int) : Option Nat :=
  let (num, den) := gridFactors i.exponent k
  let inside (c : Nat) : Bool :=
    if i.closed then i.low * num ≤ c * den && c * den ≤ i.high * num
    else i.low * num < c * den && c * den < i.high * num
  let below := i.value * num / den
  match inside below, inside (below + 1) with
  | true, true => some (roundQuotient (i.value * num) den)
  | true, false => some below
  | false, true => some (below + 1)
  | false, false => none

/-- The first grid with a hit among `count` grids from `10 ^ k` down. -/
def Interval.shortestFrom (i : Interval) : (count : Nat) → (k : Int) → Decimal
  | 0, k => ⟨0, k⟩
  | count + 1, k =>
    match i.onGrid? k with
    | some digits => ⟨digits, k⟩
    | none => shortestFrom i count (k - 1)

/-- The search starts at a power of ten above the double. Seventeen digits always read
back. -/
def Double.shortest (x : Double) : Decimal :=
  if x.mantissa = 0 then ⟨0, 0⟩
  else
    let magnitude : Int := (Nat.log2 x.mantissa : Int) + x.exponent + 1
    x.interval.shortestFrom 24 (Int.fdiv (magnitude * 30103) 100000 + 2)

/-! ### Writing -/

def zeros (n : Nat) : String :=
  String.ofList (List.replicate n '0')

/-- Digits with a point where the number reaches from `10 ^ -5` to `10 ^ 16`, and with
a power of ten elsewhere. -/
def Decimal.render (d : Decimal) : String :=
  let digits := toString d.digits
  let point : Int := digits.length + d.exponent
  let first := String.ofList (digits.toList.take point.toNat)
  let later := String.ofList (digits.toList.drop point.toNat)
  if 0 ≤ d.exponent && point ≤ 16 then digits ++ zeros d.exponent.toNat ++ ".0"
  else if 0 < point && point ≤ 16 then first ++ "." ++ later
  else if -5 < point && point ≤ 0 then "0." ++ zeros (-point).toNat ++ digits
  else
    let mantissa :=
      match digits.toList with
      | c :: d :: ds => String.ofList (c :: '.' :: d :: ds)
      | _ => digits
    mantissa ++ "e" ++ toString (point - 1)

def Double.render (x : Double) : String :=
  x.shortest.render

end GraphLanguages.Number
