import GraphLanguages.Unicode.Space

/-! White space at the ends of a text and between its words. -/
namespace GraphLanguages.Text
open Unicode

def trimStart (cs : List Char) : List Char :=
  cs.dropWhile isSpace

def trimEnd (cs : List Char) : List Char :=
  (cs.reverse.dropWhile isSpace).reverse

def trim (cs : List Char) : List Char :=
  trimEnd (trimStart cs)

def isBlank (cs : List Char) : Bool :=
  cs.all isSpace

/-- The words of a text, where `pending` holds the word being read, last character
first. -/
def wordsFrom (pending : List Char) : List Char → List (List Char)
  | [] => if pending.isEmpty then [] else [pending.reverse]
  | c :: cs =>
    if isSpace c then
      if pending.isEmpty then wordsFrom [] cs else pending.reverse :: wordsFrom [] cs
    else wordsFrom (c :: pending) cs

def words (cs : List Char) : List (List Char) :=
  wordsFrom [] cs

end GraphLanguages.Text
