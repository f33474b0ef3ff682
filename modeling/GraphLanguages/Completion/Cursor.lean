import GraphLanguages.Token
import GraphLanguages.Completion.Suggestion

/-! Where completion happens.

The cursor is at a token if it is in the token or right behind it. Suggestions then
replace that token, and content assist looks at the tokens before it. A word that is
split into two abutting tokens is still being typed: both are replaced. Where the
cursor touches no token, a language may allow to insert. -/
namespace GraphLanguages.Completion

structure Settings where
  /-- Characters that make an editor ask for completion. -/
  triggers : List String := []
  /-- Candidates with one of these categories are never offered. -/
  excluded : List Category := []
  /-- Is there completion where the cursor touches no token? -/
  insertsBetween : Bool := false
  /-- Are candidates narrowed to what is typed already? -/
  narrows : Bool := false
deriving DecidableEq, Repr

/-! ### Binary search -/

/-- Of `size` numbers from `base` on, one half is kept at each step, up to a single one. -/
def halve (holds : Nat → Bool) (base size : Nat) : Nat :=
  if size ≤ 1 then base
  else if holds (base + size / 2) then halve holds (base + size / 2) (size - size / 2)
  else halve holds base (size - size / 2)
termination_by size

/-- How many elements have a property, where those that have it come first. Of a list in
any other order, only some elements are looked at. -/
def partitionPoint {α : Type} (holds : α → Bool) (as : List α) : Nat :=
  let base := halve (fun i => as[i]?.any holds) 0 as.length
  if as[base]?.any holds then base + 1 else base

/-! ### The cursor -/

structure Cursor where
  /-- Index of the token at the cursor. -/
  at? : Option Nat
  /-- How many tokens content assist looks at. -/
  assisted : Nat
  /-- What a suggestion replaces unless it says otherwise. -/
  range : ByteRange
  /-- The word typed so far, where candidates are narrowed to it. -/
  typed? : Option ByteRange
deriving DecidableEq, Repr

namespace Cursor

/-- Index of the token before the cursor. -/
def before? (c : Cursor) : Option Nat :=
  match c.at? with
  | some i => if i = 0 then none else some (i - 1)
  | none => if c.assisted = 0 then none else some (c.assisted - 1)

/-- The first half of a word whose second half is the token. -/
def firstHalf? (tokens : List Token) (i : Nat) (t : Token) : Option Token :=
  if i = 0 then none
  else tokens[i - 1]?.filter fun p => p.abuts t && p.isWordLike && t.isWordLike

def atToken (settings : Settings) (tokens : List Token) (offset i : Nat) (t : Token) :
    Cursor :=
  let half := firstHalf? tokens i t
  let start := (half.map Token.start).getD t.start
  { at? := some i
    assisted := if half.isSome then i - 1 else i
    range := ⟨start, t.stop⟩
    typed? :=
      if settings.narrows && t.isWordLike && offset == t.stop then some ⟨start, offset⟩
      else none }

def between (tokens : List Token) (offset : Nat) : Cursor where
  at? := none
  assisted := partitionPoint (fun t => t.start < offset) tokens
  range := ⟨offset, offset⟩
  typed? := none

def locate? (settings : Settings) (tokens : List Token) (offset : Nat) : Option Cursor :=
  match tokenIndexAt? tokens offset with
  | some i => tokens[i]?.map (atToken settings tokens offset i)
  | none => if settings.insertsBetween then some (between tokens offset) else none

end Cursor

end GraphLanguages.Completion
