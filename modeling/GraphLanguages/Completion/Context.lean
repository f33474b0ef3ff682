import GraphLanguages.Grammar.Run
import GraphLanguages.Completion.Cursor
import GraphLanguages.Completion.Data

/-! What a language may add to completion, and what it may look at for that. -/
namespace GraphLanguages.Completion
open Grammar

structure Context where
  tokens : List Token
  offset : Nat
  cursor : Cursor
  candidates : List Candidate
  data : Data
deriving Repr

namespace Context

def tokenAt? (c : Context) : Option Token :=
  c.cursor.at?.bind (c.tokens[·]?)

def tokenBefore? (c : Context) : Option Token :=
  c.cursor.before?.bind (c.tokens[·]?)

/-- All tokens but the one at the cursor. -/
def otherTokens (c : Context) : List Token :=
  match c.cursor.at? with
  | some i => c.tokens.eraseIdx i
  | none => c.tokens

def defaultRange (c : Context) : ByteRange :=
  c.cursor.range

/-- Could a token of this type come next? -/
def expects (c : Context) (name : String) : Bool :=
  c.candidates.any fun candidate => candidate.type.name == name

/-- Does a candidate come from one of these rules? -/
def inAnyRule (c : Context) (rules : List String) : Bool :=
  c.candidates.any fun candidate => rules.any candidate.inRule

end Context

/-- Suggestions around those of the grammar. -/
structure Augmentation where
  leading : List Suggestion := []
  trailing : List Suggestion := []
deriving DecidableEq, Repr

end GraphLanguages.Completion
