import GraphLanguages.Token

/-! The token types of one language.

The order of the types matters to the lexer, which prefers earlier types among
equal matches; a name given twice means its last type. Every vocabulary has a
type for text that matches nothing. -/
namespace GraphLanguages

structure Vocabulary where
  types : List TokenType
deriving DecidableEq, Repr

namespace Vocabulary

def unknownName : String := "Unknown"

def unknownType : TokenType :=
  (TokenType.custom unknownName).withCategories [.unknown]

def ofTypes (types : List TokenType) : Vocabulary :=
  if types.any fun t => t.name == unknownName then ⟨types⟩ else ⟨types ++ [unknownType]⟩

def get? (v : Vocabulary) (name : String) : Option TokenType :=
  v.types.foldl (fun found t => if t.name == name then some t else found) none

def contains (v : Vocabulary) (name : String) : Bool :=
  v.types.any fun t => t.name == name

def displayName (v : Vocabulary) (name : String) : String :=
  match v.get? name with
  | some t => t.displayName
  | none => name

end Vocabulary

end GraphLanguages
