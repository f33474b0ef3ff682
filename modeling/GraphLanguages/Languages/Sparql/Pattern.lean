import GraphLanguages.Languages.Sparql.Expression

/-! Triples and graph patterns of SPARQL.

Triples come in two forms: in graph patterns a predicate may be a property path, in
templates it may not. The form decides the names of the rules as well. -/
namespace GraphLanguages.Sparql
open Grammar Rdf

/-! ### Triples -/

inductive Form where
  | path
  | plain
deriving DecidableEq, Repr

/-- The name of a rule under a form. -/
def Form.name (form : Form) (path plain : String) : String :=
  match form with
  | .path => path
  | .plain => plain

def startsNode : Lookahead := .either (.is "LParen") (.is "LBracket")

def startsTriples : Lookahead := .either startsVarOrTerm startsNode

def startsVerb (form : Form) : Lookahead :=
  let simple := Lookahead.either startsVar (.either startsIri (.is "A"))
  match form with
  | .path => .either simple (.anyOf ["Caret", "LParen", "Bang"])
  | .plain => simple

def verb : Form → Phrase
  | .path =>
    .choose startsVar (.node "VerbSimple" var) (.node "VerbPath" (.call "Path"))
  | .plain => .node "Verb" (.cases [(startsVar, var), (.is "A", .take)] iri)

def graphNodeName (form : Form) : String := form.name "GraphNodePath" "GraphNode"

def objectList (form : Form) : Phrase :=
  .node (form.name "ObjectListPath" "ObjectList")
    (.separated (.node (form.name "ObjectPath" "Object") (.call (graphNodeName form)))
      "Comma")

def propertyList (form : Form) : Phrase :=
  let pair := Phrase.seq (verb form) (objectList form)
  .node (form.name "PropertyListPathNotEmpty" "PropertyListNotEmpty")
    (.seq pair (.loop (.is "Semicolon") (.seq .take (.guarded (startsVerb form) pair))))

def collection (form : Form) : Phrase :=
  let item := Phrase.call (graphNodeName form)
  .node (form.name "CollectionPath" "Collection")
    (.steps [.take, item, .loop (.either startsVarOrTerm startsNode) item,
      .expect "RParen"])

def blankNodePropertyList (form : Form) : Phrase :=
  .node (form.name "BlankNodePropertyListPath" "BlankNodePropertyList")
    (.steps [.expect "LBracket", propertyList form, .expect "RBracket"])

def triplesNode (form : Form) : Phrase :=
  .node (form.name "TriplesNodePath" "TriplesNode")
    (.choose (.is "LParen") (collection form) (blankNodePropertyList form))

def graphNode (form : Form) : Phrase :=
  .node (graphNodeName form) (.choose startsNode (triplesNode form) varOrTerm)

def triplesSameSubject (form : Form) : Phrase :=
  .node (form.name "TriplesSameSubjectPath" "TriplesSameSubject")
    (.choose startsNode
      (.seq (triplesNode form) (.guarded (startsVerb form) (propertyList form)))
      (.seq varOrTerm (propertyList form)))

/-- Triples with periods between them, under a rule of the given name. -/
def triplesList (form : Form) (name : String) : Phrase :=
  .node name (.chain (triplesSameSubject form) "Period" .empty startsTriples)

def triplesTemplate : Phrase :=
  .guarded startsTriples (triplesList .plain "TriplesTemplate")

/-! ### Inline data -/

def startsDataBlockValue : Lookahead :=
  .either startsIri (.either startsLiteral (.is "UNDEF"))

def dataBlockValue : Phrase :=
  .node "DataBlockValue" (.cases [(startsIri, iri), (.is "UNDEF", .take)] literal)

def dataBlockValues : Phrase := .loop startsDataBlockValue dataBlockValue

def dataBlock : Phrase :=
  .node "DataBlock"
    (.cases
      [(startsVar, .node "InlineDataOneVar"
          (.steps [var, .expect "LCurly", dataBlockValues, .expect "RCurly"])),
       (.either (.is "NIL") (.is "LParen"), .node "InlineDataFull"
          (.steps [
            .choose (.is "NIL") .take
              (.steps [.expect "LParen", .loop startsVar var, .expect "RParen"]),
            .expect "LCurly",
            .loop (.either (.is "NIL") (.is "LParen"))
              (.choose (.is "NIL") .take
                (.steps [.take, dataBlockValues, .expect "RParen"])),
            .expect "RCurly"]))]
      (.reject (.expectedOneOf (vars ++ ["NIL", "LParen"]))))

def valuesClause : Phrase :=
  .guarded (.is "VALUES") (.node "ValuesClause" (.seq .take dataBlock))

/-! ### Solution modifiers -/

def startsGroupCondition : Lookahead :=
  .either startsBuiltInCall (.either startsIri (.either (.is "LParen") startsVar))

def groupCondition : Phrase :=
  .node "GroupCondition"
    (.cases
      [(startsBuiltInCall, builtInCall), (startsIri, functionCall),
       (.is "LParen",
        .steps [.take, expression, .guarded (.is "AS") (.seq .take var),
          .expect "RParen"])]
      var)

def startsOrderCondition : Lookahead :=
  .either (.anyOf ["ASC", "DESC"]) (.either startsVar startsConstraint)

def orderCondition : Phrase :=
  .node "OrderCondition"
    (.cases [(.anyOf ["ASC", "DESC"], .seq .take bracketted), (startsVar, var)] constraint)

def limitClause : Phrase := .node "LimitClause" (.seq .take (.expect "INTEGER"))

def offsetClause : Phrase := .node "OffsetClause" (.seq .take (.expect "INTEGER"))

def solutionModifier : Phrase :=
  .node "SolutionModifier"
    (.steps [
      .guarded (.is "GROUP_BY") (.node "GroupClause"
        (.seq .take (.oneOrMore startsGroupCondition groupCondition
          (["BuiltInCall"] ++ iriStarts ++ ["LParen"] ++ vars)))),
      .guarded (.is "HAVING") (.node "HavingClause"
        (.seq .take (.oneOrMore startsConstraint constraint constraintStarts))),
      .guarded (.is "ORDER_BY") (.node "OrderClause"
        (.seq .take (.oneOrMore startsOrderCondition orderCondition
          (["ASC", "DESC"] ++ vars ++ constraintStarts)))),
      .guarded (.either (.is "LIMIT") (.is "OFFSET")) (.node "LimitOffsetClauses"
        (.choose (.is "LIMIT")
          (.seq limitClause (.guarded (.is "OFFSET") offsetClause))
          (.seq offsetClause (.guarded (.is "LIMIT") limitClause))))])

/-! ### Select clauses -/

/-- A variable, or an expression with a name. -/
def projection : Phrase :=
  .choose startsVar var
    (.steps [.take, expression, .expect "AS", var, .expect "RParen"])

def selectClause : Phrase :=
  let starts := Lookahead.either startsVar (.is "LParen")
  .node "SelectClause"
    (.steps [
      .expect "SELECT",
      .cases [(.is "DISTINCT", .take), (.is "REDUCED", .take)] .empty,
      .choose (.is "Star") .take
        (.oneOrMore starts projection (vars ++ ["LParen", "Star"]))])

/-! ### Graph patterns -/

def whereClause : Phrase :=
  .node "WhereClause" (.seq (.optional "WHERE") (.call "GroupGraphPattern"))

def subSelect : Phrase :=
  .node "SubSelect" (.steps [selectClause, whereClause, solutionModifier, valuesClause])

def bindPattern : Phrase :=
  .node "Bind"
    (.steps [.take, .expect "LParen", expression, .expect "AS", var, .expect "RParen"])

/-- A keyword in front of a group. -/
def prefixedGroup (name : String) (between : Phrase) : Phrase :=
  .node name (.steps [.take, between, .call "GroupGraphPattern"])

def graphPatternNotTriples : Phrase :=
  .choose (.is "FILTER") (.node "Filter" (.seq .take constraint))
    (.node "GraphPatternNotTriples"
      (.cases
        [(.is "LCurly", .node "GroupOrUnionGraphPattern"
            (.separated (.call "GroupGraphPattern") "UNION")),
         (.is "OPTIONAL", prefixedGroup "OptionalGraphPattern" .empty),
         (.is "MINUS", prefixedGroup "MinusGraphPattern" .empty),
         (.is "GRAPH", prefixedGroup "GraphGraphPattern" varOrIri),
         (.is "SERVICE",
          prefixedGroup "ServiceGraphPattern" (.seq (.optional "SILENT") varOrIri)),
         (.is "BIND", bindPattern)]
        (.node "InlineData" (.seq (.expect "VALUES") dataBlock))))

def startsGraphPatternNotTriples : Lookahead :=
  .anyOf ["LCurly", "OPTIONAL", "MINUS", "GRAPH", "SERVICE", "FILTER", "BIND", "VALUES"]

def triplesBlock : Phrase :=
  .guarded startsTriples (triplesList .path "TriplesBlock")

def groupGraphPatternSub : Phrase :=
  .node "GroupGraphPatternSub"
    (.seq triplesBlock
      (.loop startsGraphPatternNotTriples
        (.steps [graphPatternNotTriples, .optional "Period", triplesBlock])))

def groupGraphPattern : Phrase :=
  .node "GroupGraphPattern"
    (.steps [.expect "LCurly", .choose (.is "SELECT") subSelect groupGraphPatternSub,
      .expect "RCurly"])

/-- The phrases that others call by name. -/
def sharedRules : List (String × Phrase) :=
  [("Expression", orExpression), ("Path", path),
   ("GraphNodePath", graphNode .path), ("GraphNode", graphNode .plain),
   ("GroupGraphPattern", groupGraphPattern)]

end GraphLanguages.Sparql
