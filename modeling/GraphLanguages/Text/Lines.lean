/-! The lines of a text. A line feed, a carriage return or the pair of both ends a
line, so a text with `n` line ends has `n + 1` lines. -/
namespace GraphLanguages.Text

/-- The lines of a text, where `pending` holds the line being read, last character
first. -/
def linesFrom (pending : List Char) : List Char → List (List Char)
  | [] => [pending.reverse]
  | '\r' :: '\n' :: cs => pending.reverse :: linesFrom [] cs
  | c :: cs =>
    if c = '\r' || c = '\n' then pending.reverse :: linesFrom [] cs
    else linesFrom (c :: pending) cs

def lines (cs : List Char) : List (List Char) :=
  linesFrom [] cs

end GraphLanguages.Text
