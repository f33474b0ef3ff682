import GraphLanguages.Tree

/-! Hovering: the rule right around a token, with all that the rule covers. -/
namespace GraphLanguages

structure Hover where
  rule : String
  start : Nat
  stop : Nat
deriving DecidableEq, Repr

def Tree.hover? (t : Tree) (offset : Nat) : Option Hover :=
  (t.path? offset).bind fun path =>
    path.enclosing?.bind fun rule =>
      rule.span?.map fun (start, stop) => ⟨rule.name, start, stop⟩

end GraphLanguages
