import GraphLanguages.SyntaxError

/-! Grammars as data.

A phrase is a program of a predictive parser: it looks at the next token, consumes
it, opens nodes, repeats and gives up. A grammar is one such phrase with named ones
that it may call; recursion goes through names only, so a phrase is a finite tree
that can be inspected as well as run. -/
namespace GraphLanguages.Grammar

/-- A question about the tokens ahead. The first three ask for something that may
come next, and content assist takes note of what they ask for when the tokens are
used up; the others only look. -/
inductive Lookahead where
  /-- Is the next token of this type? -/
  | is (name : String)
  /-- Is the next token of one of these types? All are asked for. -/
  | anyOf (names : List String)
  /-- Does the next token carry the category? Content assist notes `offered` for it. -/
  | tagged (category : Category) (offered : String)
  /-- The second question is asked only if the first is answered no. -/
  | either (first second : Lookahead)
  /-- The second question is asked only if the first is answered yes. -/
  | both (first second : Lookahead)
  | negated (test : Lookahead)
  /-- Is the token this far behind the next one of this type? -/
  | aheadIs (distance : Nat) (name : String)
  | aheadTagged (distance : Nat) (category : Category)
  /-- Are all tokens consumed? -/
  | atEnd
deriving DecidableEq, Repr

inductive Phrase where
  | empty
  /-- Consumes the next token, if there is one. -/
  | take
  | reject (complaint : Complaint)
  | seq (first second : Phrase)
  | choose (test : Lookahead) (yes no : Phrase)
  /-- As long as the test says yes. -/
  | loop (test : Lookahead) (body : Phrase)
  /-- An item; after every separator, which `gap` may follow, another one if the test
  says yes. So the last separator need not have an item behind it. -/
  | chain (item : Phrase) (separator : String) (gap : Phrase) (more : Lookahead)
  /-- Opens a node around the body. -/
  | node (name : String) (body : Phrase)
  | call (name : String)
deriving DecidableEq, Repr

namespace Phrase

/-- Phrases one after another. -/
def steps : List Phrase → Phrase
  | [] => .empty
  | [p] => p
  | p :: ps => .seq p (steps ps)

/-- A choice among alternatives, the first whose test says yes. -/
def cases (alternatives : List (Lookahead × Phrase)) (otherwise : Phrase) : Phrase :=
  alternatives.foldr (fun a rest => .choose a.1 a.2 rest) otherwise

def guarded (test : Lookahead) (body : Phrase) : Phrase :=
  .choose test body .empty

/-- A token of this type, if it comes next. -/
def optional (name : String) : Phrase :=
  guarded (.is name) .take

def optionalTagged (category : Category) (offered : String) : Phrase :=
  guarded (.tagged category offered) .take

def expect (name : String) : Phrase :=
  .choose (.is name) .take (.reject (.expected name))

def expectTagged (category : Category) (offered : String) : Phrase :=
  .choose (.tagged category offered) .take (.reject (.expected offered))

/-- A token of one of these types. -/
def expectOneOf (names : List String) : Phrase :=
  .choose (.anyOf names) .take (.reject (.expectedOneOf names))

def oneOrMore (starts : Lookahead) (item : Phrase) (names : List String) : Phrase :=
  .choose starts (.loop starts item) (.reject (.noItem names))

/-- Items with a separator between them. -/
def separated (item : Phrase) (separator : String) : Phrase :=
  .seq item (.loop (.is separator) (.seq .take item))

/-- The end of the tokens. -/
def finish : Phrase :=
  .choose .atEnd .empty (.reject .leftOver)

/-- Number of constructors. -/
def size : Phrase → Nat
  | .empty | .take | .reject _ | .call _ => 1
  | .seq a b => a.size + b.size + 1
  | .choose _ a b => a.size + b.size + 1
  | .loop _ a => a.size + 1
  | .chain a _ b _ => a.size + b.size + 1
  | .node _ a => a.size + 1

end Phrase

end GraphLanguages.Grammar

namespace GraphLanguages

/-- A phrase with the named phrases it may call. -/
structure Grammar where
  entry : Grammar.Phrase
  rules : List (String × Grammar.Phrase) := []
deriving DecidableEq, Repr

namespace Grammar

/-- The phrase of a name; a name without one stands for the empty phrase. -/
def rule (g : Grammar) (name : String) : Phrase :=
  (g.rules.lookup name).getD .empty

def size (g : Grammar) : Nat :=
  g.rules.foldl (fun n r => n + r.2.size) g.entry.size

end Grammar

end GraphLanguages
