import GraphLanguages.Languages.Sparql.Vocabulary
import GraphLanguages.Languages.Sparql.Pattern
import GraphLanguages.Frontend

/-! SPARQL queries and updates.

The Stardog dialect adds path queries. The rules are those of both dialects: the
other one lacks the keywords, so the productions that need them never match. -/
namespace GraphLanguages.Sparql
open Grammar Rdf

/-! ### Prologue and dataset -/

def prologue : Phrase :=
  .node "Prologue"
    (.loop (.either (.is "BASE") (.is "PREFIX"))
      (.choose (.is "BASE")
        (.node "BaseDecl" (.seq .take (.expect "IRIREF")))
        (.node "PrefixDecl" (.steps [.take, .expect "PNAME_NS", .expect "IRIREF"]))))

def datasetClauses : Phrase :=
  .loop (.is "FROM")
    (.node "DatasetClause"
      (.seq .take
        (.choose (.is "NAMED")
          (.node "NamedGraphClause" (.seq .take iri))
          (.node "DefaultGraphClause" iri))))

/-! ### Queries -/

def selectQuery : Phrase :=
  .node "SelectQuery"
    (.steps [selectClause, datasetClauses, whereClause, solutionModifier])

def constructQuery : Phrase :=
  .node "ConstructQuery"
    (.steps [
      .expect "CONSTRUCT",
      .choose (.is "LCurly")
        (.steps [
          .node "ConstructTemplate"
            (.steps [.take,
              .guarded startsTriples (triplesList .plain "ConstructTriples"),
              .expect "RCurly"]),
          datasetClauses, whereClause])
        (.steps [datasetClauses, .expect "WHERE", .expect "LCurly", triplesTemplate,
          .expect "RCurly"]),
      solutionModifier])

def describeQuery : Phrase :=
  .node "DescribeQuery"
    (.steps [
      .expect "DESCRIBE",
      .choose (.is "Star") .take
        (.oneOrMore startsVarOrIri varOrIri (vars ++ iriStarts ++ ["Star"])),
      datasetClauses,
      .guarded (.either (.is "WHERE") (.is "LCurly")) whereClause,
      solutionModifier])

def askQuery : Phrase :=
  .node "AskQuery"
    (.steps [.expect "ASK", datasetClauses, whereClause, solutionModifier])

def pathQueryStarts : List String := ["PATHS", "PATHS_SHORTEST", "PATHS_ALL"]

/-- An end of a path: a variable, and what it is bound to. -/
def pathTerminal : Phrase :=
  .node "PathTerminal"
    (.seq var
      (.guarded (.is "Equals")
        (.seq .take (.choose (.is "LCurly") (.call "GroupGraphPattern") iri))))

def pathQuery : Phrase :=
  .node "PathQuery"
    (.steps [
      .expectOneOf pathQueryStarts, .optional "CYCLIC", datasetClauses,
      .expect "START", pathTerminal, .expect "END", pathTerminal, .expect "VIA",
      .cases [(.is "LCurly", .call "GroupGraphPattern"), (startsVar, var)] (.call "Path"),
      .guarded (.is "MAX_LENGTH") (.seq .take (.expect "INTEGER")),
      solutionModifier])

def startsQuery : Lookahead :=
  .anyOf (["SELECT", "CONSTRUCT", "DESCRIBE", "ASK"] ++ pathQueryStarts)

def query : Phrase :=
  .cases
    [(.is "SELECT", selectQuery), (.is "CONSTRUCT", constructQuery),
     (.is "DESCRIBE", describeQuery), (.is "ASK", askQuery)]
    pathQuery

/-! ### Updates -/

def graphRef : Phrase := .node "GraphRef" (.seq (.expect "GRAPH") iri)

def graphRefAll : Phrase :=
  .node "GraphRefAll"
    (.cases
      [(.is "GRAPH", graphRef), (.is "DEFAULT", .take), (.is "NAMED", .take),
       (.is "ALL", .take)]
      (.reject (.expectedOneOf ["GRAPH", "DEFAULT", "NAMED", "ALL"])))

def graphOrDefault : Phrase :=
  .node "GraphOrDefault"
    (.choose (.is "DEFAULT") .take (.seq (.optional "GRAPH") iri))

/-- Triples, some of them in named graphs. -/
def quadBlock (name : String) : Phrase :=
  let named : Phrase :=
    .node "QuadsNotTriples"
      (.steps [.take, varOrIri, .expect "LCurly", triplesTemplate, .expect "RCurly"])
  .node name
    (.steps [
      .expect "LCurly",
      .node "Quads"
        (.seq triplesTemplate
          (.loop (.is "GRAPH") (.steps [named, .optional "Period", triplesTemplate]))),
      .expect "RCurly"])

def insertClause : Phrase :=
  .node "InsertClause" (.seq (.expect "INSERT") (quadBlock "QuadPattern"))

def modify : Phrase :=
  .node "Modify"
    (.steps [
      .guarded (.is "WITH") (.seq .take iri),
      .choose (.is "DELETE")
        (.seq (.node "DeleteClause" (.seq .take (quadBlock "QuadPattern")))
          (.guarded (.is "INSERT") insertClause))
        insertClause,
      .loop (.is "USING")
        (.node "UsingClause" (.steps [.take, .optional "NAMED", iri])),
      .expect "WHERE", .call "GroupGraphPattern"])

/-- A keyword that may be followed by `SILENT`, and what it acts on. -/
def silenceable (name : String) (target : Phrase) : Phrase :=
  .node name (.steps [.take, .optional "SILENT", target])

def transfer (name : String) : Phrase :=
  silenceable name (.steps [graphOrDefault, .expect "TO", graphOrDefault])

def updateOperation : Phrase :=
  .node "Update1"
    (.cases
      [(.is "LOAD",
        silenceable "Load" (.seq iri (.guarded (.is "INTO") (.seq .take graphRef)))),
       (.is "CLEAR", silenceable "Clear" graphRefAll),
       (.is "DROP", silenceable "Drop" graphRefAll),
       (.is "CREATE", silenceable "Create" graphRef),
       (.is "ADD", transfer "Add"),
       (.is "MOVE", transfer "Move"),
       (.is "COPY", transfer "Copy"),
       (.is "INSERT_DATA", .node "InsertData" (.seq .take (quadBlock "QuadData"))),
       (.is "DELETE_DATA", .node "DeleteData" (.seq .take (quadBlock "QuadData"))),
       (.is "DELETE_WHERE", .node "DeleteWhere" (.seq .take (quadBlock "QuadPattern")))]
      modify)

def startsUpdate : Lookahead :=
  .anyOf ["LOAD", "CLEAR", "DROP", "CREATE", "ADD", "MOVE", "COPY", "INSERT_DATA",
    "DELETE_DATA", "DELETE_WHERE", "WITH", "DELETE", "INSERT"]

def update : Phrase :=
  .node "Update"
    (.guarded startsUpdate (.chain updateOperation "Semicolon" prologue startsUpdate))

/-! ### Documents -/

def document : Phrase :=
  .seq prologue (.choose startsQuery (.seq query valuesClause) update)

def grammar : Grammar where
  entry := document
  rules := sharedRules

def frontend (dialect : Dialect) : Frontend where
  vocabulary := vocabulary dialect
  skipped := skipped
  grammar := grammar
  root := "SparqlDoc"
  decodesEscapes := true

end GraphLanguages.Sparql
