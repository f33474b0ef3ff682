import GraphLanguages.Proofs.Grammar.Predictive
import GraphLanguages.Proofs.Languages

/-! GraphQL executable documents as they are published.

The productions, for the vocabulary of either dialect, and that the front-end accepts
exactly what follows from them (`operations_exact`), up to the depth to which rules may
nest. Names are all tokens that carry their category, keywords among them. -/
namespace GraphLanguages.GraphQL
open Grammar

namespace Published

def token (name : String) : Form := .token [name]

section
variable (v : Vocabulary)

def anyName : Form := .token (v.carriers .name)

/-- A name that can stand behind three dots without being taken for a type condition. -/
def fragmentName : Form := .token ((v.carriers .name).filter (· != "On"))

def arguments : Form :=
  .steps [token "LParen", .several (.steps [anyName v, token "Colon", .rule "Value"]),
    token "RParen"]

def directives : Form :=
  .several
    (.alt (.seq (.token (v.carriers .directive)) (.optional (arguments v)))
      (.steps [token "At", anyName v, .optional (arguments v)]))

def value : Form :=
  .oneOf
    [.seq (token "Dollar") (anyName v),
     token "IntValue", token "FloatValue", token "StringValue", token "BlockStringValue",
     token "True", token "False", token "Null", anyName v,
     .steps [token "LBracket", .many (.rule "Value"), token "RBracket"],
     .steps [token "LCurly", .many (.steps [anyName v, token "Colon", .rule "Value"]),
       token "RCurly"]]

def type : Form :=
  .seq (.alt (anyName v) (.steps [token "LBracket", .rule "Type", token "RBracket"]))
    (.optional (token "Bang"))

def variableDefinitions : Form :=
  .steps
    [token "LParen",
     .several (.steps
       [token "Dollar", anyName v, token "Colon", .rule "Type",
        .optional (.seq (token "Equals") (.rule "Value")), .optional (directives v)]),
     token "RParen"]

def selection : Form :=
  .oneOf
    [.steps [token "Spread", fragmentName v, .optional (directives v)],
     .steps [token "Spread", .optional (.seq (token "On") (anyName v)), .optional (directives v),
       .rule "SelectionSet"],
     .steps [.optional (.seq (anyName v) (token "Colon")), anyName v, .optional (arguments v),
       .optional (directives v), .optional (.rule "SelectionSet")]]

def selectionSet : Form :=
  .steps [token "LCurly", .several (selection v), token "RCurly"]

def definition : Form :=
  .oneOf
    [.steps [token "Fragment", anyName v, token "On", anyName v, .optional (directives v),
       .rule "SelectionSet"],
     .rule "SelectionSet",
     .steps [.token ["Query", "Mutation", "Subscription"], .optional (anyName v),
       .optional (variableDefinitions v), .optional (directives v), .rule "SelectionSet"]]

def document : Form := .several (definition v)

def productions : List (String × Form) :=
  [("SelectionSet", selectionSet v), ("Value", value v), ("Type", type v)]

end

end Published

/-- What may come behind a type: no exclamation mark, which would be its own. -/
def follow (v : Vocabulary) : List (String × Outlook) :=
  [("Type", [("EOF" :: v.names).filter (· != "Bang")])]

theorem describes (dialect : Dialect) :
    Describes (vocabulary dialect) grammar (follow (vocabulary dialect))
      (Published.productions (vocabulary dialect)) (Published.document (vocabulary dialect)) := by
  cases dialect <;> decide +kernel

/-- **The front-end of either dialect accepts exactly the documents that are published as
such, unless rules nest too deep.** -/
theorem operations_exact (dialect : Dialect) (root : String) (size : Nat) (tokens : List Token)
    (htokens : ∀ u ∈ tokens, u.type ∈ (vocabulary dialect).types) :
    let v := vocabulary dialect
    let error := (grammar.parse v root size tokens).2
    let derives := Derives (Published.productions v) (Published.document v) (names tokens)
    (error = none → derives) ∧
      (derives → error = none ∨
        ∃ e, error = some e ∧ e.message = Complaint.tooDeep.message v) :=
  (describes dialect).exact (lawful dialect).progressive (lawful dialect).distinct htokens

/-- A field called like a keyword. -/
theorem operations_exact_on :
    let punctuator (name image : String) (start : Nat) :=
      Token.ofImage ((TokenType.literal name image).withCategories [.punctuator]) image start
    let tokens := [punctuator "LCurly" "\x7b" 0,
      Token.ofImage ((TokenType.literal "On" "on").withCategories [.name]) "on" 1,
      punctuator "RCurly" "\x7d" 3]
    (∀ u ∈ tokens, u.type ∈ (vocabulary .standard).types) ∧
      Derives (Published.productions (vocabulary .standard))
        (Published.document (vocabulary .standard)) (names tokens) := by
  intro punctuator tokens
  have htypes : ∀ u ∈ tokens, u.type ∈ (vocabulary .standard).types := by decide
  exact ⟨htypes, (operations_exact .standard "Document" 4 _ htypes).1 (by decide)⟩

end GraphLanguages.GraphQL
