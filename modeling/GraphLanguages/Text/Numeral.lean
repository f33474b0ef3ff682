/-! Decimal numerals: digits, with a sign in front where one is allowed, and a bound
on the value. -/
namespace GraphLanguages.Text

def digit? (c : Char) : Option Nat :=
  if c.isDigit then some (c.toNat - 48) else none

def digitsFrom (value : Nat) : List Char → Option Nat
  | [] => some value
  | c :: cs => (digit? c).bind fun d => digitsFrom (10 * value + d) cs

/-- One or more digits. -/
def digits? : List Char → Option Nat
  | [] => none
  | cs => digitsFrom 0 cs

/-- Digits with an optional plus sign, of value at most `limit`. -/
def unsigned? (limit : Nat) (cs : List Char) : Option Nat :=
  let value? := match cs with
    | '+' :: rest => digits? rest
    | _ => digits? cs
  value?.filter (· ≤ limit)

/-- Digits with an optional sign, between `low` and `high`. -/
def signed? (low high : Int) (cs : List Char) : Option Int :=
  let value? : Option Int := match cs with
    | '+' :: rest => (digits? rest).map Int.ofNat
    | '-' :: rest => (digits? rest).map fun n => -Int.ofNat n
    | _ => (digits? cs).map Int.ofNat
  value?.filter fun v => low ≤ v && v ≤ high

/-- The largest unsigned 64-bit number. -/
def maxWord : Nat := 18446744073709551615

end GraphLanguages.Text
