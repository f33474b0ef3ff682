import GraphLanguages.Tree
import GraphLanguages.Uri

/-! The latest parse of every document. A save replaces only what it brings; what it
leaves out stays. -/
namespace GraphLanguages

structure ParseState where
  tree : Option Tree := none
  tokens : Option (List Token) := none
deriving Repr

namespace ParseState

def isEmpty (s : ParseState) : Bool :=
  s.tree.isNone && s.tokens.isNone

/-- What an update brings, over what was there. -/
def updated (s update : ParseState) : ParseState where
  tree := update.tree.or s.tree
  tokens := update.tokens.or s.tokens

end ParseState

/-- States by address, each address once. -/
structure ParseCache where
  states : List (Uri × ParseState) := []
deriving Repr

namespace ParseCache

/-- The state of a document, empty if nothing was saved since it was cleared last. -/
def get (c : ParseCache) (uri : Uri) : ParseState :=
  (c.states.lookup uri).getD {}

def clear (c : ParseCache) (uri : Uri) : ParseCache :=
  ⟨c.states.filter fun e => e.1 != uri⟩

def save (c : ParseCache) (uri : Uri) (update : ParseState) : ParseCache :=
  ⟨(uri, (c.get uri).updated update) :: (c.clear uri).states⟩

def size (c : ParseCache) : Nat :=
  c.states.length

end ParseCache

end GraphLanguages
