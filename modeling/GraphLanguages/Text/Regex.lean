import GraphLanguages.Unicode.Letter
import GraphLanguages.Unicode.Word
import GraphLanguages.Unicode.Space

/-! Regular expressions matched at the start of a text.

An expression may match several prefixes of a text. `Expr.ends` lists what each
match leaves behind, preferred matches first: the left alternative before the
right one, one more repetition before stopping. The first of them is the match.

A `Regex` carries the source text of its expression as well, since completion
compares typed text with it. -/
namespace GraphLanguages.Text.Regex
open Unicode

/-- A building block of a character class. -/
inductive Item where
  | range (low high : Char)
  | word
  | space
  | letter
deriving DecidableEq, Repr

def Item.holds : Item → Char → Bool
  | .range low high, c => low ≤ c && c ≤ high
  | .word, c => isWord c
  | .space, c => isSpace c
  | .letter, c => isLetter c

/-- A character class: the union of its items, or every other character. -/
structure CharClass where
  negated : Bool
  items : List Item
deriving DecidableEq, Repr

def CharClass.holds (k : CharClass) (c : Char) : Bool :=
  (k.items.any fun i => i.holds c) != k.negated

inductive Expr where
  | empty
  | one (k : CharClass)
  | seq (first second : Expr)
  | alt (preferred other : Expr)
  | star (body : Expr)
deriving DecidableEq, Repr

/-- A place in the text: how many characters were taken, and what is left. -/
structure Mark where
  taken : Nat
  rest : List Char
deriving DecidableEq, Repr

def starting (cs : List Char) : Mark := ⟨0, cs⟩

/-- Repetitions of `step` from a mark, longest first, followed by `others`. A
repetition that takes nothing is not repeated. -/
def repeated (step : Mark → List Mark) : Nat → Mark → List Mark → List Mark
  | 0, m, others => m :: others
  | fuel + 1, m, others =>
    (step m).foldr (fun next later =>
      if m.taken < next.taken then repeated step fuel next later else later) (m :: others)

/-- Every way to match from a mark, preferred first. -/
def Expr.ends : Expr → Mark → List Mark
  | .empty, m => [m]
  | .one k, m =>
    match m.rest with
    | [] => []
    | c :: cs => if k.holds c then [⟨m.taken + 1, cs⟩] else []
  | .seq a b, m => (a.ends m).flatMap b.ends
  | .alt a b, m => a.ends m ++ b.ends m
  | .star a, m => repeated a.ends m.rest.length m []

/-- Number of characters matched at the start of a text. -/
def Expr.match? (e : Expr) (cs : List Char) : Option Nat :=
  (e.ends (starting cs)).head?.map Mark.taken

/-! ### Derived forms -/

def charClass (items : List Item) : Expr := .one ⟨false, items⟩

def exceptFor (items : List Item) : Expr := .one ⟨true, items⟩

def just (c : Char) : Item := .range c c

def char (c : Char) : Expr := charClass [just c]

/-- The characters of a text, each standing for itself. -/
def items (s : String) : List Item :=
  s.toList.map just

def sequence : List Expr → Expr
  | [] => .empty
  | [e] => e
  | e :: es => .seq e (sequence es)

def oneOf : Expr → List Expr → Expr
  | e, [] => e
  | e, next :: es => .alt e (oneOf next es)

def exactly (s : String) : Expr :=
  sequence (s.toList.map char)

def maybe (e : Expr) : Expr := .alt e .empty

def plus (e : Expr) : Expr := .seq e (.star e)

end GraphLanguages.Text.Regex

namespace GraphLanguages.Text

/-- An expression with the text it is written as. -/
structure Regex where
  source : String
  expr : Regex.Expr
deriving DecidableEq, Repr

/-- Number of characters matched at the start of a text. -/
def Regex.match? (r : Regex) (cs : List Char) : Option Nat :=
  r.expr.match? cs

end GraphLanguages.Text
