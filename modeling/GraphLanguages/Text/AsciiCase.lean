/-! Comparison up to the case of ASCII letters. Every other character stands for
itself only. -/
namespace GraphLanguages.Text

def sameLetter (a b : Char) : Bool :=
  a.toLower == b.toLower

def sameIgnoringCase : List Char → List Char → Bool
  | [], [] => true
  | a :: as, b :: bs => sameLetter a b && sameIgnoringCase as bs
  | _, _ => false

/-- What follows `word` at the start of a text. -/
def afterIgnoringCase? : (word : List Char) → List Char → Option (List Char)
  | [], cs => some cs
  | w :: ws, c :: cs => if sameLetter w c then afterIgnoringCase? ws cs else none
  | _ :: _, [] => none

end GraphLanguages.Text
