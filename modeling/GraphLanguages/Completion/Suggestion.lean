/-! Suggestions: what an editor offers to put in place of some text. -/
namespace GraphLanguages.Completion

inductive ItemKind where
  | text
  | field
  | variable
  | classItem
  | property
  | keyword
  | enumMember
deriving DecidableEq, Repr

/-- The number of a kind in the protocol of editors. -/
def ItemKind.code : ItemKind → Nat
  | .text => 1
  | .field => 5
  | .variable => 6
  | .classItem => 7
  | .property => 10
  | .keyword => 14
  | .enumMember => 20

/-- A stretch of bytes, end exclusive. -/
structure ByteRange where
  start : Nat
  stop : Nat
deriving DecidableEq, Repr

/-- The part of a range that lies in a text of `size` bytes. -/
def ByteRange.clamp (r : ByteRange) (size : Nat) : ByteRange :=
  let start := min r.start size
  ⟨start, max (min r.stop size) start⟩

structure Suggestion where
  label : String
  kind : ItemKind
  newText : String
  replace : ByteRange
  sortText : Option String := none
  filterText : Option String := none
  detail : Option String := none
deriving DecidableEq, Repr

/-- A suggestion that inserts its label. -/
def Suggestion.ofLabel (label : String) (kind : ItemKind) (replace : ByteRange) : Suggestion :=
  { label, kind, newText := label, replace }

/-- Of suggestions with one label, the first one. -/
def Suggestion.distinctFrom (seen : List String) : List Suggestion → List Suggestion
  | [] => []
  | s :: rest =>
    if seen.contains s.label then distinctFrom seen rest
    else s :: distinctFrom (s.label :: seen) rest

def Suggestion.distinct (suggestions : List Suggestion) : List Suggestion :=
  distinctFrom [] suggestions

end GraphLanguages.Completion
