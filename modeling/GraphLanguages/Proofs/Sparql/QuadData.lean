import GraphLanguages.Languages.Sparql
import GraphLanguages.Proofs.Grammar.Consumes

/-! Quad data of SPARQL as they are published.

The part of the grammar that reads quad data calls no other (`Confined`), so it is described
by productions of its own (`describes_quadData`), whatever else the language has. Their words
need few of its types (`dataVocabulary`); those are the ones under which it is inspected. -/
namespace GraphLanguages.Sparql
open Grammar

namespace Published

def token (name : String) : Grammar.Form := .token [name]

def var : Grammar.Form := .token ["VAR1", "VAR2"]

def iri : Grammar.Form := .token ["IRIREF", "PNAME_LN", "PNAME_NS"]

def blankNode : Grammar.Form := .token ["BLANK_NODE_LABEL", "ANON"]

def string : Grammar.Form :=
  .token ["STRING_LITERAL1", "STRING_LITERAL2", "STRING_LITERAL_LONG1", "STRING_LITERAL_LONG2"]

def literal : Grammar.Form :=
  .oneOf
    [.seq string
      (.optional (.alt (token "LANGTAG") (.seq (token "DoubleCaret") iri))),
     .token ["INTEGER", "DECIMAL", "DOUBLE"], token "TRUE", token "FALSE"]

def varOrTerm : Grammar.Form := .oneOf [var, iri, literal, blankNode, token "NIL"]

def verb : Grammar.Form := .oneOf [var, token "A", iri]

def objectList : Grammar.Form :=
  .seq (.rule "GraphNode") (.many (.seq (token "Comma") (.rule "GraphNode")))

def propertyList : Grammar.Form :=
  .steps [verb, objectList, .many (.seq (token "Semicolon") (.optional (.seq verb objectList)))]

def blankNodePropertyList : Grammar.Form :=
  .steps [token "LBracket", propertyList, token "RBracket"]

def collection : Grammar.Form :=
  .steps [token "LParen", .several (.rule "GraphNode"), token "RParen"]

def triplesNode : Grammar.Form := .alt collection blankNodePropertyList

def graphNode : Grammar.Form := .alt triplesNode varOrTerm

def triples : Grammar.Form :=
  .alt (.seq triplesNode (.optional propertyList)) (.seq varOrTerm propertyList)

def triplesTemplate : Grammar.Form :=
  .steps [triples, .many (.seq (token "Period") triples), .optional (token "Period")]

def quadsNotTriples : Grammar.Form :=
  .steps
    [token "GRAPH", .alt var iri, token "LCurly", .optional triplesTemplate, token "RCurly"]

def quads : Grammar.Form :=
  .seq (.optional triplesTemplate)
    (.many (.steps [quadsNotTriples, .optional (token "Period"), .optional triplesTemplate]))

def quadData : Grammar.Form := .steps [token "LCurly", quads, token "RCurly"]

def productions : List (String × Grammar.Form) := [("GraphNode", graphNode)]

end Published

/-- The part of the grammar that reads quad data. -/
def quadGrammar : Grammar where
  entry := quadBlock "QuadData"
  rules := [("GraphNode", graphNode .plain)]

/-- The types of the tokens that quad data may have. -/
def dataVocabulary : Vocabulary where
  types :=
    [.keyword "GRAPH" "graph", .keyword "A" "a",
     ((TokenType.regex "VAR1" (variableRegex '?')).withCategories [.variable]).withLabel "?foo",
     ((TokenType.regex "VAR2" (variableRegex '$')).withCategories [.variable]).withLabel "$foo",
     .regex "NIL" nilRegex] ++ Rdf.terms false ++ Rdf.punctuation

/-- What may come behind a node: no tag and no type of a string, which would be its own. -/
def follow : List (String × Outlook) :=
  [("GraphNode",
    [("EOF" :: dataVocabulary.names).filter fun u => u != "LANGTAG" && u != "DoubleCaret"])]

theorem describes_quadData :
    Describes dataVocabulary quadGrammar follow Published.productions Published.quadData := by
  decide +kernel

theorem confined_quadGrammar : Confined quadGrammar grammar := by
  decide

theorem dataVocabulary_subset (dialect : Dialect) :
    dataVocabulary.types ⊆ (vocabulary dialect).types := by
  have hgraph : ("GRAPH", "graph") ∈ keywords := by decide
  have ha : ("A", "a") ∈ keywords := by decide
  have hkeywords : ∀ entry ∈ keywords, TokenType.keyword entry.1 entry.2 ∈
      keywordTypes keywords := fun entry => List.mem_map_of_mem
  refine List.Subset.trans (fun T hT => ?_) (Vocabulary.subset_ofTypes _)
  simp only [dataVocabulary, List.mem_append, List.mem_cons, List.not_mem_nil, or_false] at hT ⊢
  rcases hT with ((rfl | rfl | rfl | rfl | rfl) | hT) | hT
  · simp [hkeywords _ hgraph]
  · simp [hkeywords _ ha]
  · simp
  · simp
  · simp
  · simp [hT]
  · simp [hT]

/-- **Behind its keyword, quad data are a whole document.** -/
theorem consumes_insertData {v : Vocabulary} {size : Nat} (hv : v.WellNamed)
    (hsubset : dataVocabulary.types ⊆ v.types) {w : Word} (hspells : dataVocabulary.Spells w)
    (hw : Derives Published.productions Published.quadData w) :
    Consumes v grammar size grammar.entry ("INSERT_DATA" :: w) [] := by
  have hdata : Consumes v grammar size (quadBlock "QuadData") w [] :=
    consumes_of_derives confined_quadGrammar describes_quadData hv hsubset hspells hw
  have hprologue : Consumes v grammar size prologue ("INSERT_DATA" :: w) ("INSERT_DATA" :: w) :=
    .node (.loopDone hv.distinct rfl rfl)
  have hoperation : Consumes v grammar size updateOperation ("INSERT_DATA" :: w) [] := by
    refine .node ?_
    -- none of the seven operations listed before
    iterate 7 refine .chooseNo hv.distinct rfl rfl ?_
    exact .chooseYes hv.distinct rfl rfl (.node (consumes_take.seq hdata))
  refine hprologue.seq (.chooseNo hv.distinct rfl rfl (.node ?_))
  exact .chooseYes hv.distinct rfl rfl (.chain_last hv.distinct (by decide) hoperation)

end GraphLanguages.Sparql
