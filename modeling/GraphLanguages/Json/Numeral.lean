import GraphLanguages.Json.Basic
import GraphLanguages.Text.Numeral

/-! Reading JSON numbers.

A numeral without fraction and exponent is a whole number if 64 bits hold it. Every
other one is a double: of its digits, those count whose value 64 bits still hold; of
the rest, those before the point move the point and those behind it are dropped. -/
namespace GraphLanguages.Json
open Text Number

structure Numeral where
  negative : Bool
  whole : List Nat
  fraction : List Nat
  exponent : Int
  /-- Is there neither fraction nor exponent? -/
  plain : Bool
deriving DecidableEq, Repr

/-- The leading digits, and what follows them. -/
def leadingDigits (cs : List Char) : List Nat × List Char :=
  ((cs.takeWhile Char.isDigit).filterMap digit?, cs.dropWhile Char.isDigit)

/-- Digits without a superfluous zero in front. -/
def wholePart? (cs : List Char) : Option (List Nat × List Char) :=
  match leadingDigits cs with
  | ([], _) => none
  | (0 :: _ :: _, _) => none
  | found => some found

/-- The digits behind a point; none without a point. -/
def fraction? : List Char → Option (List Nat × List Char)
  | '.' :: cs =>
    match leadingDigits cs with
    | ([], _) => none
    | found => some found
  | cs => some ([], cs)

def valueOf (digits : List Nat) : Nat :=
  digits.foldl (fun n d => 10 * n + d) 0

/-- The exponent behind its mark; zero without a mark. -/
def exponent? : List Char → Option (Int × List Char)
  | [] => some (0, [])
  | c :: cs =>
    if c = 'e' || c = 'E' then
      let (negative, cs) :=
        match cs with
        | '-' :: rest => (true, rest)
        | '+' :: rest => (false, rest)
        | _ => (false, cs)
      match leadingDigits cs with
      | ([], _) => none
      | (digits, rest) =>
        some (if negative then -Int.ofNat (valueOf digits) else Int.ofNat (valueOf digits), rest)
    else some (0, c :: cs)

def numeral? (cs : List Char) : Option (Numeral × List Char) :=
  let (negative, cs) :=
    match cs with
    | '-' :: rest => (true, rest)
    | _ => (false, cs)
  (wholePart? cs).bind fun (whole, afterWhole) =>
    (fraction? afterWhole).bind fun (fraction, afterFraction) =>
      (exponent? afterFraction).map fun (exponent, rest) =>
        (⟨negative, whole, fraction, exponent, rest.length = afterWhole.length⟩, rest)

/-- Appends digits as long as the value stays within the limit; the digits left over. -/
def absorb (limit value : Nat) : List Nat → Nat × List Nat
  | [] => (value, [])
  | d :: ds =>
    if 10 * value + d ≤ limit then absorb limit (10 * value + d) ds else (value, d :: ds)

def Numeral.double? (n : Numeral) : Option Double :=
  let (value, cut) := absorb maxWord 0 n.whole
  let (significand, dropped) := absorb maxWord value n.fraction
  let places : Int := (n.fraction.length - dropped.length : Nat)
  Double.ofDecimal? significand (n.exponent + cut.length - places)

def Numeral.value? (n : Numeral) : Option Numeric :=
  let value := valueOf n.whole
  if n.plain && !n.negative && value ≤ maxWord then some (.whole value)
  else if n.plain && n.negative && 0 < value && value ≤ 9223372036854775808 then some (.whole (-value))
  else n.double?.map (.double n.negative)

def number? (cs : List Char) : Option (Numeric × List Char) :=
  (numeral? cs).bind fun (n, rest) => n.value?.map (·, rest)

end GraphLanguages.Json
