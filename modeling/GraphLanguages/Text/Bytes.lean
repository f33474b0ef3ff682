/-! Byte offsets into text.

A text is a list of characters; an offset counts the bytes of its UTF-8 form. An
offset is a *boundary* when it falls between two characters, and only boundaries
cut a text. -/
namespace GraphLanguages.Text

/-- Length in bytes. -/
def bytes : List Char → Nat
  | [] => 0
  | c :: cs => c.utf8Size + bytes cs

/-- The text from a boundary on; nothing when the offset cuts a character or lies
past the end. -/
def dropBytes? (n : Nat) : List Char → Option (List Char)
  | [] => if n = 0 then some [] else none
  | c :: cs =>
    if n = 0 then some (c :: cs)
    else if c.utf8Size ≤ n then dropBytes? (n - c.utf8Size) cs
    else none

/-- The text up to a boundary. -/
def takeBytes? (n : Nat) : List Char → Option (List Char)
  | [] => if n = 0 then some [] else none
  | c :: cs =>
    if n = 0 then some []
    else if c.utf8Size ≤ n then (takeBytes? (n - c.utf8Size) cs).map (c :: ·)
    else none

/-- The text between two boundaries, in this order. -/
def slice? (start stop : Nat) (cs : List Char) : Option (List Char) :=
  if start ≤ stop then (dropBytes? start cs).bind (takeBytes? (stop - start)) else none

/-- The greatest boundary at or below an offset. -/
def floorBoundary (n : Nat) : List Char → Nat
  | [] => 0
  | c :: cs => if c.utf8Size ≤ n then c.utf8Size + floorBoundary (n - c.utf8Size) cs else 0

theorem bytes_append (a b : List Char) : bytes (a ++ b) = bytes a + bytes b := by
  induction a with
  | nil => simp [bytes]
  | cons c cs ih => simp only [List.cons_append, bytes, ih]; omega

end GraphLanguages.Text
