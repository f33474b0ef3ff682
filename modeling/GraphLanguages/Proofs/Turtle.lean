import GraphLanguages.Proofs.Grammar.Predictive
import GraphLanguages.Proofs.Languages

/-! Turtle and TriG as they are published.

The productions of both languages, and that the front-ends accept exactly what follows
from them (`document_exact`), up to the depth to which rules may nest. Only objects are
recursive; all other productions are written out where they are used. -/
namespace GraphLanguages.Turtle
open Grammar

namespace Published

def token (name : String) : Form := .token [name]

def iri : Form := .token ["IRIREF", "PNAME_LN", "PNAME_NS"]

def blankNode : Form := .token ["BLANK_NODE_LABEL", "ANON"]

def string : Form :=
  .token ["STRING_LITERAL1", "STRING_LITERAL2", "STRING_LITERAL_LONG1", "STRING_LITERAL_LONG2"]

def literal : Form :=
  .oneOf
    [.seq string
      (.optional (.alt (token "LANGTAG") (.seq (token "DoubleCaret") iri))),
     .token ["INTEGER", "DECIMAL", "DOUBLE"], token "TRUE", token "FALSE"]

def verb : Form := .alt (token "A") iri

def objectList : Form :=
  .seq (.rule "object") (.many (.seq (token "Comma") (.rule "object")))

def predicateObjectList : Form :=
  .steps [verb, objectList, .many (.seq (token "Semicolon") (.optional (.seq verb objectList)))]

def blankNodePropertyList : Form :=
  .steps [token "LBracket", predicateObjectList, token "RBracket"]

def collection : Form := .steps [token "LParen", .many (.rule "object"), token "RParen"]

def object : Form := .oneOf [iri, blankNode, collection, blankNodePropertyList, literal]

def triples : Form :=
  .alt (.seq blankNodePropertyList (.optional predicateObjectList))
    (.seq (.oneOf [iri, blankNode, collection]) predicateObjectList)

def directive : Form :=
  .oneOf
    [.steps [token "TTL_PREFIX", token "PNAME_NS", token "IRIREF", token "Period"],
     .steps [token "TTL_BASE", token "IRIREF", token "Period"],
     .steps [token "SPARQL_PREFIX", token "PNAME_NS", token "IRIREF"],
     .steps [token "SPARQL_BASE", token "IRIREF"]]

def turtleDoc : Form := .many (.alt directive (.seq triples (token "Period")))

def label : Form := .alt iri blankNode

def wrappedGraph : Form :=
  .steps
    [token "LCurly",
     .optional (.steps
       [triples, .many (.seq (token "Period") triples), .optional (token "Period")]),
     token "RCurly"]

def block : Form :=
  .oneOf
    [.steps [token "GRAPH", label, wrappedGraph],
     wrappedGraph,
     .steps [blankNodePropertyList, .optional predicateObjectList, token "Period"],
     .steps [collection, predicateObjectList, token "Period"],
     .seq label (.alt wrappedGraph (.seq predicateObjectList (token "Period")))]

def trigDoc : Form := .many (.alt directive block)

def document : Flavour → Form
  | .turtle => turtleDoc
  | .trig => trigDoc

def productions : List (String × Form) := [("object", object)]

end Published

/-- What may come behind an object: no tag and no type of a string, which would be its own. -/
def follow (flavour : Flavour) : List (String × Outlook) :=
  [("object",
    [("EOF" :: (vocabulary flavour).names).filter fun u => u != "LANGTAG" && u != "DoubleCaret"])]

theorem describes (flavour : Flavour) :
    Describes (vocabulary flavour) (grammar flavour) (follow flavour) Published.productions
      (Published.document flavour) := by
  cases flavour <;> decide +kernel

/-- **The front-ends of Turtle and TriG accept exactly the documents that are published as
such, unless rules nest too deep.** -/
theorem document_exact (flavour : Flavour) (root : String) (size : Nat) (tokens : List Token)
    (htokens : ∀ u ∈ tokens, u.type ∈ (vocabulary flavour).types) :
    let error := ((grammar flavour).parse (vocabulary flavour) root size tokens).2
    let derives := Derives Published.productions (Published.document flavour) (names tokens)
    (error = none → derives) ∧
      (derives → error = none ∨
        ∃ e, error = some e ∧ e.message = Complaint.tooDeep.message (vocabulary flavour)) :=
  (describes flavour).exact (lawful flavour).progressive (lawful flavour).distinct htokens

/-- A base declaration is a document. -/
theorem document_exact_base :
    let base := Token.ofImage ((TokenType.literal "TTL_BASE" "@base").withCategories [.keyword])
      "@base" 0
    let iri := Token.ofImage (((TokenType.regex "IRIREF" Rdf.iriRegex).withCategories
      [.iri]).withLabel "<http://example.com>") "<a>" 6
    let period := Token.ofImage ((TokenType.literal "Period" ".").withCategories [.punctuator])
      "." 10
    (∀ u ∈ [base, iri, period], u.type ∈ (vocabulary .turtle).types) ∧
      Derives Published.productions (Published.document .turtle) (names [base, iri, period]) := by
  intro base iri period
  have htypes : ∀ u ∈ [base, iri, period], u.type ∈ (vocabulary .turtle).types := by
    decide
  exact ⟨htypes, (document_exact .turtle "turtleDoc" 11 _ htypes).1 (by decide)⟩

end GraphLanguages.Turtle
