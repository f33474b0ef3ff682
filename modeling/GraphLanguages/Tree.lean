import GraphLanguages.Token

/-! Concrete syntax trees: tokens below the rules that consumed them. -/
namespace GraphLanguages

inductive Tree where
  | leaf (token : Token)
  | node (name : String) (children : List Tree)
deriving Repr

namespace Tree

def name : Tree → String
  | .leaf t => t.name
  | .node n _ => n

mutual

/-- The tokens of a tree, in document order. -/
def leaves : Tree → List Token
  | .leaf t => [t]
  | .node _ children => leavesOf children

def leavesOf : List Tree → List Token
  | [] => []
  | t :: ts => leaves t ++ leavesOf ts

end

mutual

def mapTokens (f : Token → Token) : Tree → Tree
  | .leaf t => .leaf (f t)
  | .node n children => .node n (mapTokensOf f children)

def mapTokensOf (f : Token → Token) : List Tree → List Tree
  | [] => []
  | t :: ts => mapTokens f t :: mapTokensOf f ts

end

/-- From the least start to the greatest end of some tokens. -/
def spanOf? : List Token → Option (Nat × Nat)
  | [] => none
  | t :: ts =>
    some (ts.foldl (fun low u => min low u.start) t.start,
      ts.foldl (fun high u => max high u.stop) t.stop)

end Tree

/-- A rule with everything below it. -/
structure RuleNode where
  name : String
  children : List Tree
deriving Repr

/-- What the rule's tokens cover, end exclusive. -/
def RuleNode.span? (r : RuleNode) : Option (Nat × Nat) :=
  Tree.spanOf? (Tree.leavesOf r.children)

/-- A leaf with the rules around it, outermost first. -/
structure TokenPath where
  token : Token
  ancestors : List RuleNode
deriving Repr

namespace Tree

def covers (t : Token) (offset : Nat) : Bool :=
  !t.isEndOfInput && t.start ≤ offset && offset ≤ t.last

mutual

/-- The first leaf whose bytes hold the offset. -/
def path? (offset : Nat) : Tree → Option TokenPath
  | .leaf t => if covers t offset then some ⟨t, []⟩ else none
  | .node n children =>
    (pathIn? offset children).map fun p =>
      { p with ancestors := ⟨n, children⟩ :: p.ancestors }

def pathIn? (offset : Nat) : List Tree → Option TokenPath
  | [] => none
  | t :: ts =>
    match path? offset t with
    | some p => some p
    | none => pathIn? offset ts

end

end Tree

/-- The rule right around the leaf. -/
def TokenPath.enclosing? (p : TokenPath) : Option RuleNode :=
  p.ancestors.getLast?

end GraphLanguages
