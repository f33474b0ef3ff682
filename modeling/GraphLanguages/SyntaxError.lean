import GraphLanguages.Vocabulary

/-! Syntax errors and the complaints they come from. -/
namespace GraphLanguages

inductive ErrorKind where
  | mismatchedToken
  | noViableAlternative
  | earlyExit
  | notAllInputParsed
  /-- Found by a check of its own after parsing. -/
  | semantic
deriving DecidableEq, Repr

structure SyntaxError where
  kind : ErrorKind
  message : String
  /-- The offending token, or the sentinel. -/
  token : Token
  /-- The rules around it, outermost first. -/
  rules : List String
  /-- The last token consumed, where it matters. -/
  previous : Option Token := none
deriving DecidableEq, Repr

/-- Why a rule cannot go on. -/
inductive Complaint where
  /-- A token of this type has to come next. -/
  | expected (name : String)
  /-- One of several types has to come next. -/
  | expectedOneOf (names : List String)
  /-- A repetition needs one item at least, which starts with one of these types. -/
  | noItem (names : List String)
  | leftOver
  | tooDeep
deriving DecidableEq, Repr

namespace Complaint

def kind : Complaint → ErrorKind
  | .expected _ => .mismatchedToken
  | .expectedOneOf _ => .noViableAlternative
  | .noItem _ => .earlyExit
  | .leftOver => .notAllInputParsed
  | .tooDeep => .noViableAlternative

/-- One line for each alternative. -/
def alternatives (v : Vocabulary) (names : List String) : String :=
  names.foldl (fun message name => message ++ "\n " ++ v.displayName name)
    "\tExpected one of the following:"

def message (v : Vocabulary) : Complaint → String
  | .expected name => v.displayName name ++ " expected."
  | .expectedOneOf names => alternatives v names
  | .noItem names => alternatives v names
  | .leftOver => "Expected EOF."
  | .tooDeep => "Maximum nesting depth exceeded."

/-- Does the error name the token before the offending one? -/
def namesPrevious : Complaint → Bool
  | .noItem _ => true
  | _ => false

end Complaint

end GraphLanguages
