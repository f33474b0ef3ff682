import GraphLanguages.Text.Bytes

/-! Lines and columns.

Editors address text by line and column, a column counting UTF-16 code units.
Line feeds, carriage returns and the pair of both end a line. Both directions are
total: an offset is clamped to the greatest boundary below it, a column to the
last character that starts at or before it, a line past the last to the end of
the text. -/
namespace GraphLanguages.Text

/-- A place in a document as editors give it. -/
structure Position where
  line : Nat
  character : Nat
deriving DecidableEq, Repr

/-- A stretch of a document, end exclusive. -/
structure Span where
  start : Position
  stop : Position
deriving DecidableEq, Repr

/-- UTF-16 code units of one character. -/
def unitsOf (c : Char) : Nat :=
  if c.toNat < 0x10000 then 1 else 2

def units : List Char → Nat
  | [] => 0
  | c :: cs => unitsOf c + units cs

/-- Offsets at which a line starts, after the first, where the text begins at `offset`. -/
def lineStartsFrom (offset : Nat) : List Char → List Nat
  | [] => []
  | c :: cs =>
    let next := offset + c.utf8Size
    if c = '\n' || (c = '\r' && cs.head? != some '\n') then next :: lineStartsFrom next cs
    else lineStartsFrom next cs

structure LineIndex where
  text : List Char
  /-- Where each line starts, increasing from zero. -/
  starts : List Nat

namespace LineIndex

def ofText (s : String) : LineIndex :=
  ⟨s.toList, 0 :: lineStartsFrom 0 s.toList⟩

def size (ix : LineIndex) : Nat :=
  bytes ix.text

def isEmpty (ix : LineIndex) : Bool :=
  ix.text.isEmpty

def lineCount (ix : LineIndex) : Nat :=
  ix.starts.length

def position (ix : LineIndex) (offset : Nat) : Position :=
  let offset := floorBoundary offset ix.text
  let before := ix.starts.takeWhile (· ≤ offset)
  let column := (slice? (before.getLastD 0) offset ix.text).getD []
  ⟨before.length - 1, units column⟩

/-- Bytes of the longest prefix with at most `target` code units. -/
def columnBytes (target : Nat) : List Char → Nat
  | [] => 0
  | c :: cs =>
    if unitsOf c ≤ target then c.utf8Size + columnBytes (target - unitsOf c) cs else 0

def offset (ix : LineIndex) (p : Position) : Nat :=
  match ix.starts[p.line]? with
  | none => ix.size
  | some start =>
    let stop := (ix.starts[p.line + 1]?).getD ix.size
    start + columnBytes p.character ((slice? start stop ix.text).getD [])

/-- The span of `start` to `stop`, which never ends before it starts. -/
def span (ix : LineIndex) (start stop : Nat) : Span :=
  ⟨ix.position start, ix.position (max stop start)⟩

end LineIndex

end GraphLanguages.Text
