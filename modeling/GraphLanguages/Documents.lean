import GraphLanguages.ParseCache

/-! Open documents with their parses.

Whoever parses a document does so apart from the store, and the text may change
meanwhile. So every update issues a handle of its own, and a parse is kept only if
the document still has the handle of the text that was parsed. -/
namespace GraphLanguages

/-- The text that one update brought. -/
structure TextHandle where
  id : Nat
  text : String
deriving DecidableEq, Repr

structure Documents where
  texts : List (Uri × TextHandle) := []
  parses : ParseCache := {}
  /-- How many handles were issued. -/
  issued : Nat := 0
deriving Repr

namespace Documents

/-- Replaces the text of a document, and its parse by `parse` or nothing. -/
def update (d : Documents) (uri : Uri) (text : String) (parse : Option ParseState) :
    Documents where
  texts := (uri, ⟨d.issued, text⟩) :: d.texts.filter fun e => e.1 != uri
  parses :=
    match parse with
    | some state => (d.parses.clear uri).save uri state
    | none => d.parses.clear uri
  issued := d.issued + 1

/-- The text of an open document with its parse. -/
def snapshot? (d : Documents) (uri : Uri) : Option (TextHandle × ParseState) :=
  (d.texts.lookup uri).map fun handle => (handle, d.parses.get uri)

/-- Keeps the parse of a text, if the document still has that text. -/
def fill (d : Documents) (uri : Uri) (handle : TextHandle) (parse : ParseState) :
    Documents :=
  if (d.texts.lookup uri).any fun current => current.id == handle.id then
    { d with parses := d.parses.save uri parse }
  else d

def remove (d : Documents) (uri : Uri) : Documents :=
  { d with texts := d.texts.filter fun e => e.1 != uri, parses := d.parses.clear uri }

end Documents

end GraphLanguages
