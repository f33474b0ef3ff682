import GraphLanguages.Grammar.Phrase
import GraphLanguages.Tree

/-! Running a grammar.

One interpreter serves parsing and content assist. A parse consumes tokens into a
tree and stops at the first complaint, keeping the tree built so far. Content
assist runs the same phrases over the tokens before a place in a document; when
they are used up, every question about the next token notes what it asks for
instead of being answered, so the notes are what could come next.

Fuel bounds the depth of the run. `Grammar.fuel` is enough for every run that ends
at all: at a given nesting and a given token, a phrase entered twice on the way
down would be entered for ever. -/
namespace GraphLanguages.Grammar

/-- Rules may nest this deep. -/
def maxDepth : Nat := 256

/-- A type that could come next, and the rules that asked for it, outermost first. -/
structure Candidate where
  type : TokenType
  rules : List String
  /-- The bytes to replace, where they are not those at the cursor. -/
  replace : Option (Nat × Nat) := none
deriving DecidableEq, Repr

def Candidate.inRule (c : Candidate) (rule : String) : Bool :=
  c.rules.any (· == rule)

/-- What stays fixed during a run. -/
structure Setting where
  vocabulary : Vocabulary
  grammar : Grammar
  sentinel : Token
  /-- Content assist rather than parsing. -/
  assisting : Bool
deriving DecidableEq, Repr

structure State where
  rest : List Token
  /-- The token consumed last. -/
  previous : Option Token := none
  /-- What the open node holds so far, newest first. -/
  forest : List Tree := []
  error : Option SyntaxError := none
  /-- What was asked for at the end, newest first. -/
  noted : List Candidate := []
deriving Repr

namespace State

/-- The token that lies `distance` behind the next one, or the sentinel. -/
def peek (s : State) (σ : Setting) (distance : Nat) : Token :=
  (s.rest[distance]?).getD σ.sentinel

/-- Is there nothing left to answer questions from? -/
def noting (s : State) (σ : Setting) : Bool :=
  σ.assisting && s.rest.isEmpty

/-- Notes that a type could come next. -/
def note (s : State) (σ : Setting) (open_ : List String) (name : String) : State :=
  match σ.vocabulary.get? name with
  | none => s
  | some type => { s with noted := { type, rules := open_.reverse } :: s.noted }

def take (s : State) : State :=
  match s.rest with
  | [] => s
  | t :: ts => { s with rest := ts, previous := some t, forest := .leaf t :: s.forest }

/-- Records a complaint unless there is one already. -/
def complain (s : State) (σ : Setting) (open_ : List String) (c : Complaint) : State :=
  if σ.assisting || s.error.isSome then s
  else
    { s with
      error := some
        { kind := c.kind, message := c.message σ.vocabulary, token := s.peek σ 0,
          rules := open_.reverse,
          previous := if c.namesPrevious then s.previous else none } }

end State

namespace Lookahead

/-- Is the next token of this type? Types the vocabulary lacks never are. -/
def askFor (σ : Setting) (open_ : List String) (name : String) (s : State) : Bool × State :=
  if s.noting σ then (false, s.note σ open_ name)
  else ((s.peek σ 0).name == name && σ.vocabulary.contains name, s)

def askForAny (σ : Setting) (open_ : List String) (names : List String) (s : State) :
    Bool × State :=
  names.foldl (fun answer name =>
    let (hit, s) := askFor σ open_ name answer.2
    (answer.1 || hit, s)) (false, s)

/-- The answer, and the state with what was noted. -/
def ask (σ : Setting) (open_ : List String) : Lookahead → State → Bool × State
  | .is name, s => askFor σ open_ name s
  | .anyOf names, s => askForAny σ open_ names s
  | .tagged category offered, s =>
    if s.noting σ then (false, s.note σ open_ offered)
    else ((s.peek σ 0).has category, s)
  | .either a b, s =>
    match a.ask σ open_ s with
    | (true, s) => (true, s)
    | (false, s) => b.ask σ open_ s
  | .both a b, s =>
    match a.ask σ open_ s with
    | (true, s) => b.ask σ open_ s
    | (false, s) => (false, s)
  | .negated a, s =>
    match a.ask σ open_ s with
    | (answer, s) => (!answer, s)
  | .aheadIs distance name, s => ((s.peek σ distance).name == name, s)
  | .aheadTagged distance category, s => ((s.peek σ distance).has category, s)
  | .atEnd, s => (s.rest.isEmpty, s)

end Lookahead

/-- How a run ends. -/
inductive Outcome where
  | done (s : State)
  | halted (s : State)
  /-- Out of fuel. -/
  | spent (s : State)
deriving Repr

namespace Outcome

def state : Outcome → State
  | .done s | .halted s | .spent s => s

def map (f : State → State) : Outcome → Outcome
  | .done s => .done (f s)
  | .halted s => .halted (f s)
  | .spent s => .spent (f s)

end Outcome

/-- Puts the forest of a finished node under that node, behind what was there before. -/
def State.close (name : String) (outer : List Tree) (s : State) : State :=
  { s with forest := .node name s.forest.reverse :: outer }

/-- Runs a phrase below the open rules, innermost first. -/
def Phrase.run (σ : Setting) : (fuel : Nat) → List String → Phrase → State → Outcome
  | 0, _, _, s => .spent s
  | fuel + 1, open_, phrase, s =>
    match phrase with
    | .empty => .done s
    | .take => .done s.take
    | .reject c => .halted (s.complain σ open_ c)
    | .seq a b =>
      match run σ fuel open_ a s with
      | .done s => run σ fuel open_ b s
      | stopped => stopped
    | .choose test a b =>
      match test.ask σ open_ s with
      | (true, s) => run σ fuel open_ a s
      | (false, s) => run σ fuel open_ b s
    | .loop test body =>
      match test.ask σ open_ s with
      | (false, s) => .done s
      | (true, s) =>
        match run σ fuel open_ body s with
        | .done s => run σ fuel open_ (.loop test body) s
        | stopped => stopped
    | .chain item separator gap more =>
      match run σ fuel open_ item s with
      | .done s =>
        match Lookahead.askFor σ open_ separator s with
        | (false, s) => .done s
        | (true, s) =>
          match run σ fuel open_ gap s.take with
          | .done s =>
            match more.ask σ open_ s with
            | (false, s) => .done s
            | (true, s) => run σ fuel open_ (.chain item separator gap more) s
          | stopped => stopped
      | stopped => stopped
    | .node name body =>
      if maxDepth ≤ open_.length then .halted (s.complain σ open_ .tooDeep)
      else
        (run σ fuel (name :: open_) body { s with forest := [] }).map
          (State.close name s.forest)
    | .call name => run σ fuel open_ (σ.grammar.rule name) s

/-- Enough fuel for every run over `tokens` tokens that ends. -/
def fuel (g : Grammar) (tokens : Nat) : Nat :=
  (g.size + 8) * (tokens + 1) * (maxDepth + 1)

/-- A run over some tokens, below a root of the given name. -/
def runRoot (σ : Setting) (root : String) (body : Phrase) (tokens : List Token) : Outcome :=
  Phrase.run σ (σ.grammar.fuel tokens.length) [] (.node root body) { rest := tokens }

/-- The tree and the error, if any, of all tokens of a text of `size` bytes. -/
def parse (g : Grammar) (v : Vocabulary) (root : String) (size : Nat) (tokens : List Token) :
    Tree × Option SyntaxError :=
  let σ : Setting := ⟨v, g, Token.endOfInput size, false⟩
  let s := (runRoot σ root (.seq g.entry .finish) tokens).state
  (s.forest.head?.getD (.node root []), s.error)

/-- What could come after some tokens, in the order it is asked for. -/
def assist (g : Grammar) (v : Vocabulary) (root : String) (tokens : List Token) :
    List Candidate :=
  let size := (tokens.getLast?.map Token.stop).getD 0
  let σ : Setting := ⟨v, g, Token.endOfInput size, true⟩
  (runRoot σ root g.entry tokens).state.noted.reverse

end GraphLanguages.Grammar
