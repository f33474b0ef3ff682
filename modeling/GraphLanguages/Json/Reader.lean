import GraphLanguages.Json.Numeral
import GraphLanguages.Text.Escape

/-! Reading JSON.

Strings hold no control characters, and escapes in them name characters: half of a
surrogate pair alone is no JSON. Values nest at most 127 deep. -/
namespace GraphLanguages.Json
open Text

def maxNesting : Nat := 127

def isGap (c : Char) : Bool :=
  c = ' ' || c = '\n' || c = '\t' || c = '\r'

def skipGap (cs : List Char) : List Char :=
  cs.dropWhile isGap

/-! ### Strings -/

/-- The character of a short escape. -/
def shortEscape? (c : Char) : Option Char :=
  if c = '"' || c = '\\' || c = '/' then some c
  else if c = 'b' then some '\x08'
  else if c = 'f' then some '\x0c'
  else if c = 'n' then some '\n'
  else if c = 'r' then some '\r'
  else if c = 't' then some '\t'
  else none

/-- One character of a string, and what follows it. -/
def stringUnit? : List Char → Option (Char × List Char)
  | [] => none
  | '\\' :: 'u' :: cs =>
    (escape? ('\\' :: 'u' :: cs)).map fun p => (p.char, ('\\' :: 'u' :: cs).drop p.width)
  | '\\' :: c :: cs => (shortEscape? c).map (·, cs)
  | c :: cs => if c < ' ' || c = '\\' then none else some (c, cs)

/-- The rest of a string whose first characters, last one first, are `done`. -/
def stringFrom? : (fuel : Nat) → (done : List Char) → List Char → Option (String × List Char)
  | 0, _, _ => none
  | _, _, [] => none
  | fuel + 1, done, c :: cs =>
    if c = '"' then some (String.ofList done.reverse, cs)
    else (stringUnit? (c :: cs)).bind fun (unit, rest) => stringFrom? fuel (unit :: done) rest

/-- A string behind its opening quote. -/
def stringBody? (cs : List Char) : Option (String × List Char) :=
  stringFrom? cs.length [] cs

/-! ### Values -/

def word? (cs : List Char) : Option (Json × List Char) :=
  match "null".toList.isPrefixOf? cs with
  | some rest => some (.null, rest)
  | none =>
    match "true".toList.isPrefixOf? cs with
    | some rest => some (.bool true, rest)
    | none => ("false".toList.isPrefixOf? cs).map (.bool false, ·)

mutual

/-- A value, and what follows it, where `depth` more values may nest. -/
def valueFrom? : (fuel depth : Nat) → List Char → Option (Json × List Char)
  | 0, _, _ => none
  | fuel + 1, depth, cs =>
    match skipGap cs with
    | [] => none
    | c :: rest =>
      if c = '"' then (stringBody? rest).map fun (s, rest) => (.string s, rest)
      else if c = '[' then
        match depth, skipGap rest with
        | 0, _ => none
        | _ + 1, ']' :: rest => some (.array [], rest)
        | depth + 1, rest =>
          (itemsFrom? fuel depth rest).map fun (items, rest) => (.array items, rest)
      else if c = '\x7b' then
        match depth, skipGap rest with
        | 0, _ => none
        | _ + 1, '\x7d' :: rest => some (.object [], rest)
        | depth + 1, rest =>
          (membersFrom? fuel depth rest).map fun (members, rest) => (ofMembers members, rest)
      else if c = '-' || c.isDigit then
        (number? (c :: rest)).map fun (n, rest) => (.number n, rest)
      else word? (c :: rest)

/-- The items of an array, one at least. -/
def itemsFrom? : (fuel depth : Nat) → List Char → Option (List Json × List Char)
  | 0, _, _ => none
  | fuel + 1, depth, cs =>
    match valueFrom? fuel depth cs with
    | none => none
    | some (item, rest) =>
      match skipGap rest with
      | ',' :: rest => (itemsFrom? fuel depth rest).map fun (items, rest) => (item :: items, rest)
      | ']' :: rest => some ([item], rest)
      | _ => none

/-- The members of an object, one at least. -/
def membersFrom? : (fuel depth : Nat) → List Char → Option (List (String × Json) × List Char)
  | 0, _, _ => none
  | fuel + 1, depth, cs =>
    match skipGap cs with
    | '"' :: rest =>
      match stringBody? rest with
      | none => none
      | some (key, rest) =>
        match skipGap rest with
        | ':' :: rest =>
          match valueFrom? fuel depth rest with
          | none => none
          | some (value, rest) =>
            match skipGap rest with
            | ',' :: rest =>
              (membersFrom? fuel depth rest).map fun (members, rest) =>
                ((key, value) :: members, rest)
            | '\x7d' :: rest => some ([(key, value)], rest)
            | _ => none
        | _ => none
    | _ => none

end

/-- The value that a text holds, and nothing else. Every two steps take a character. -/
def parse? (cs : List Char) : Option Json :=
  match valueFrom? (2 * cs.length + 2) maxNesting cs with
  | some (value, rest) => if (skipGap rest).isEmpty then some value else none
  | none => none

end GraphLanguages.Json
