import GraphLanguages.Languages.Rdf
import GraphLanguages.Frontend

/-! Turtle and TriG.

Both share the triple rules; TriG puts triples into graph blocks. Rules are named as
in the published grammars. Besides syntax errors, the front-end reports prefixed
names whose prefix is not declared before them. -/
namespace GraphLanguages.Turtle
open Grammar Rdf

inductive Flavour where
  | turtle
  | trig
deriving DecidableEq, Repr

def vocabulary (flavour : Flavour) : Vocabulary :=
  .ofTypes <|
    [(TokenType.literal "TTL_PREFIX" "@prefix").withCategories [.keyword],
     (TokenType.literal "TTL_BASE" "@base").withCategories [.keyword],
     TokenType.keyword "SPARQL_PREFIX" "prefix",
     TokenType.keyword "SPARQL_BASE" "base",
     (TokenType.literal "A" "a").withCategories [.keyword]] ++
    (match flavour with
      | .turtle => []
      | .trig => [TokenType.keyword "GRAPH" "graph"]) ++
    terms true ++ punctuation

/-! ### Triples -/

def startsDirective : Lookahead :=
  .anyOf ["TTL_PREFIX", "TTL_BASE", "SPARQL_PREFIX", "SPARQL_BASE"]

def directive : Phrase :=
  .node "directive"
    (.cases
      [(.is "TTL_PREFIX", .node "prefixID"
          (.steps [.take, .expect "PNAME_NS", .expect "IRIREF", .expect "Period"])),
       (.is "TTL_BASE", .node "base"
          (.steps [.take, .expect "IRIREF", .expect "Period"])),
       (.is "SPARQL_PREFIX", .node "sparqlPrefix"
          (.steps [.take, .expect "PNAME_NS", .expect "IRIREF"]))]
      (.node "sparqlBase" (.steps [.expect "SPARQL_BASE", .expect "IRIREF"])))

def startsTriples : Lookahead :=
  .either startsIri (.either startsBlankNode (.either (.is "LParen") (.is "LBracket")))

def startsVerb : Lookahead := .either (.is "A") startsIri

def startsObject : Lookahead := .either startsTriples startsLiteral

def verb : Phrase :=
  .node "verb" (.choose (.is "A") .take (.node "predicate" iri))

def objectList : Phrase :=
  .node "objectList" (.separated (.call "object") "Comma")

def predicateObjectList : Phrase :=
  .node "predicateObjectList"
    (.steps [verb, objectList,
      .loop (.is "Semicolon") (.seq .take (.guarded startsVerb (.seq verb objectList)))])

def blankNodePropertyList : Phrase :=
  .node "blankNodePropertyList"
    (.steps [.expect "LBracket", predicateObjectList, .expect "RBracket"])

def collection : Phrase :=
  .node "collection"
    (.steps [.expect "LParen", .loop startsObject (.call "object"), .expect "RParen"])

def object : Phrase :=
  .node "object"
    (.cases
      [(startsIri, iri), (startsBlankNode, blankNode), (.is "LParen", collection),
       (.is "LBracket", blankNodePropertyList)]
      (.node "literal" literal))

def triples : Phrase :=
  .node "triples"
    (.choose (.is "LBracket")
      (.seq blankNodePropertyList (.guarded startsVerb predicateObjectList))
      (.seq
        (.node "subject"
          (.cases [(startsIri, iri), (startsBlankNode, blankNode)] collection))
        predicateObjectList))

/-! ### Documents -/

def turtleDocument : Phrase :=
  .loop (.either startsDirective startsTriples)
    (.node "statement"
      (.choose startsDirective directive (.seq triples (.expect "Period"))))

def labelOrSubject : Phrase :=
  .node "labelOrSubject" (.choose startsIri iri blankNode)

def wrappedGraph : Phrase :=
  .node "wrappedGraph"
    (.steps [.expect "LCurly",
      .guarded startsTriples
        (.node "triplesBlock" (.chain triples "Period" .empty startsTriples)),
      .expect "RCurly"])

def startsBlock : Lookahead :=
  .either (.is "GRAPH") (.either (.is "LCurly") startsTriples)

/-- Triples whose subject cannot name a graph. -/
def unlabelledTriples : Phrase :=
  .node "triples2"
    (.seq
      (.choose (.is "LBracket")
        (.seq blankNodePropertyList (.guarded startsVerb predicateObjectList))
        (.seq collection predicateObjectList))
      (.expect "Period"))

def triplesOrGraph : Phrase :=
  .node "triplesOrGraph"
    (.seq labelOrSubject
      (.choose (.is "LCurly") wrappedGraph (.seq predicateObjectList (.expect "Period"))))

def block : Phrase :=
  .node "block"
    (.cases
      [(.is "GRAPH", .steps [.take, labelOrSubject, wrappedGraph]),
       (.is "LCurly", wrappedGraph),
       (.either (.is "LBracket") (.is "LParen"), unlabelledTriples)]
      triplesOrGraph)

def trigDocument : Phrase :=
  .loop (.either startsDirective startsBlock) (.choose startsDirective directive block)

def grammar (flavour : Flavour) : Grammar where
  entry := match flavour with
    | .turtle => turtleDocument
    | .trig => trigDocument
  rules := [("object", object)]

def root : Flavour → String
  | .turtle => "turtleDoc"
  | .trig => "trigDoc"

/-! ### Prefixes -/

/-- A prefixed name up to its first colon; all of it without one. -/
def namespaceOf (image : String) : String :=
  let (before, after) := image.toList.span (· != ':')
  String.ofList (before ++ after.take 1)

def undeclared (token : Token) : SyntaxError where
  kind := .semantic
  message := "Prefix \"" ++ namespaceOf token.image ++ "\" is not declared."
  token := token
  rules := ["PrefixedName"]

/-- Is the token right behind a keyword that declares a prefix? -/
def declares (previous : Option Token) : Bool :=
  previous.any fun t => t.name == "TTL_PREFIX" || t.name == "SPARQL_PREFIX"

/-- Prefixed names among the tokens after `previous` whose prefix is not declared
before them, where `known` are the prefixes declared already. -/
def undeclaredFrom (known : List String) (previous : Option Token) :
    List Token → List SyntaxError
  | [] => []
  | t :: ts =>
    if t.name == "PNAME_NS" && declares previous then
      undeclaredFrom (t.image :: known) (some t) ts
    else if (t.name == "PNAME_NS" || t.name == "PNAME_LN")
        && !known.contains (namespaceOf t.image) then
      undeclared t :: undeclaredFrom known (some t) ts
    else undeclaredFrom known (some t) ts

def undeclaredPrefixes (tokens : List Token) : List SyntaxError :=
  undeclaredFrom [] none tokens

/-- A front-end that may be told not to look at prefixes. -/
def frontend (flavour : Flavour) (checksPrefixes : Bool) : Frontend where
  vocabulary := vocabulary flavour
  skipped := skipped
  grammar := grammar flavour
  root := root flavour
  check := if checksPrefixes then undeclaredPrefixes else fun _ => []

end GraphLanguages.Turtle
