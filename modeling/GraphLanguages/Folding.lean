import GraphLanguages.Text.Lines
import GraphLanguages.Text.Blank
import GraphLanguages.Text.AsciiCase
import GraphLanguages.Unicode.Alphanumeric

/-! Folding regions, read off the lines of a text.

Two or more lines in a row that open with a declaration keyword fold together. A line
folds with the deeper lines below it, over blank lines between them, unless it belongs
to such a run. A region tells the numbers of these lines in 32 bits. -/
namespace GraphLanguages.Folding
open Text

inductive RegionKind where
  | declarations
  | indentation
deriving DecidableEq, Repr

/-- Lines of a text that fold together. Both lines belong to the fold. -/
structure Fold where
  first : Nat
  last : Nat
  kind : RegionKind
deriving DecidableEq, Repr

/-- A fold as editors are told of it. -/
structure Region where
  first : Nat
  last : Nat
  kind : RegionKind
  first_lt : first < UInt32.size := by decide
  last_lt : last < UInt32.size := by decide
deriving DecidableEq, Repr

/-- Of the number of a line, the lower 32 bits are kept. -/
def Fold.region (f : Fold) : Region where
  first := f.first % UInt32.size
  last := f.last % UInt32.size
  kind := f.kind
  first_lt := Nat.mod_lt _ (by decide)
  last_lt := Nat.mod_lt _ (by decide)

def tabWidth : Nat := 4

/-- Columns before the first character that is no white space. -/
def depth : List Char → Nat
  | [] => 0
  | c :: cs =>
    if Unicode.isSpace c then (if c = '\t' then tabWidth else 1) + depth cs else 0

def endsWord : List Char → Bool
  | [] => true
  | c :: _ => !(Unicode.isAlphanumeric c || c = '_')

/-- Does the line start with one of the keywords as a word of its own? -/
def opensWith (keywords : List String) (line : List Char) : Bool :=
  keywords.any fun keyword =>
    (afterIgnoringCase? keyword.toList (trimStart line)).any endsWord

/-- The last of the lines deeper than `base` before one that is not, where lines are
counted from `line` on and `last` is the answer so far. -/
def blockEnd (base : Nat) (line last : Nat) : List (List Char) → Nat
  | [] => last
  | l :: ls =>
    if isBlank l then blockEnd base (line + 1) last ls
    else if depth l ≤ base then last
    else blockEnd base (line + 1) line ls

/-- The last line of the block below a line. -/
def indented? (line : Nat) (opening : List Char) : List (List Char) → Option Nat
  | [] => none
  | next :: rest =>
    if isBlank opening || isBlank next || depth next ≤ depth opening then none
    else some (blockEnd (depth opening) (line + 2) (line + 1) rest)

/-- Folds of the lines from `line` on, of which the first `claimed` ones belong to a run
of declarations. -/
def foldsFrom (keywords : List String) (line : Nat) :
    (claimed : Nat) → List (List Char) → List Fold
  | _, [] => []
  | claimed + 1, _ :: ls => foldsFrom keywords (line + 1) claimed ls
  | 0, l :: ls =>
    let run := ((l :: ls).takeWhile (opensWith keywords)).length
    if 2 ≤ run then
      ⟨line, line + run - 1, .declarations⟩ :: foldsFrom keywords (line + 1) (run - 1) ls
    else
      ((indented? line l ls).map fun last => Fold.mk line last .indentation).toList ++
        foldsFrom keywords (line + 1) 0 ls

/-- The folds of a text, by first line. -/
def folds (keywords : List String) (cs : List Char) : List Fold :=
  foldsFrom keywords 0 0 (lines cs)

/-- The regions of a text, in the order of its folds. -/
def regions (keywords : List String) (cs : List Char) : List Region :=
  (folds keywords cs).map Fold.region

end GraphLanguages.Folding
