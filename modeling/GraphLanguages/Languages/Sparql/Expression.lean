import GraphLanguages.Languages.Rdf

/-! Terms, paths and expressions of SPARQL.

Rules are named as in the published grammar, since editors show the names. -/
namespace GraphLanguages.Sparql
open Grammar Rdf

/-! ### Terms -/

def vars : List String := ["VAR1", "VAR2"]

def startsVar : Lookahead := .anyOf vars

def var : Phrase := .node "Var" (takeFirst vars)

def startsVarOrIri : Lookahead := .either startsVar startsIri

def varOrIri : Phrase := .node "VarOrIri" (.choose startsVar var iri)

def startsVarOrTerm : Lookahead :=
  .either startsVar
    (.either startsIri (.either startsLiteral (.either startsBlankNode (.is "NIL"))))

def varOrTerm : Phrase :=
  .node "VarOrTerm"
    (.choose startsVar var
      (.node "GraphTerm"
        (.cases
          [(startsIri, iri), (startsLiteral, literal), (startsBlankNode, blankNode),
           (.is "NIL", .take)]
          (.reject (.expectedOneOf
            (vars ++ iriStarts ++ literalStarts ++ blankNodeStarts ++ ["NIL"]))))))

/-! ### Property paths -/

def pathOneInPropertySet : Phrase :=
  .node "PathOneInPropertySet"
    (.seq (.optional "Caret")
      (.cases [(startsIri, iri), (.is "A", .take)]
        (.reject (.expectedOneOf (iriStarts ++ ["A"])))))

def pathNegatedPropertySet : Phrase :=
  .node "PathNegatedPropertySet"
    (.choose (.is "LParen")
      (.steps [.take,
        .choose (.is "RParen") .empty (.separated pathOneInPropertySet "Pipe"),
        .expect "RParen"])
      pathOneInPropertySet)

def pathPrimary : Phrase :=
  .node "PathPrimary"
    (.cases
      [(startsIri, iri), (.is "A", .take),
       (.is "Bang", .seq .take pathNegatedPropertySet),
       (.is "LParen", .steps [.take, .call "Path", .expect "RParen"])]
      (.reject (.expectedOneOf (iriStarts ++ ["A", "Bang", "LParen"]))))

def pathEltOrInverse : Phrase :=
  .node "PathEltOrInverse"
    (.seq (.optional "Caret")
      (.node "PathElt"
        (.seq pathPrimary
          (.guarded (.anyOf ["QuestionMark", "Star", "Plus"]) (.node "PathMod" .take)))))

def pathSequence : Phrase :=
  .node "PathSequence" (.separated pathEltOrInverse "ForwardSlash")

def path : Phrase :=
  .node "Path" (.node "PathAlternative" (.separated pathSequence "Pipe"))

/-! ### Expressions -/

def aggregates : List String :=
  ["COUNT", "SUM", "MIN", "MAX", "AVG", "SAMPLE", "GROUP_CONCAT"]

def comparisons : List String :=
  ["Equals", "NotEquals", "LessThan", "GreaterThan", "LessThanEquals", "GreaterThanEquals"]

def expression : Phrase := .call "Expression"

def bracketted : Phrase :=
  .node "BrackettedExpression"
    (.steps [.expect "LParen", expression, .expect "RParen"])

def argList : Phrase :=
  .node "ArgList"
    (.choose (.is "NIL") .take
      (.steps [.expect "LParen", .optional "DISTINCT", .separated expression "Comma",
        .expect "RParen"]))

def expressionList : Phrase :=
  .node "ExpressionList"
    (.choose (.is "NIL") .take
      (.steps [.expect "LParen", .separated expression "Comma", .expect "RParen"]))

def functionCall : Phrase :=
  .node "FunctionCall" (.seq iri argList)

def startsBuiltInCall : Lookahead :=
  .either (.tagged .builtInCall "BuiltInCall")
    (.either (.anyOf aggregates) (.anyOf ["EXISTS", "NOT_EXISTS"]))

/-- The keyword of the aggregate comes next. A count may be of everything, and a
concatenation may name its separator. -/
def aggregate : Phrase :=
  let opening : Phrase := .steps [.take, .expect "LParen", .optional "DISTINCT"]
  .node "Aggregate"
    (.cases
      [(.aheadIs 0 "COUNT",
        .seq opening
          (.choose (.is "Star") (.seq .take (.expect "RParen"))
            (.seq expression (.expect "RParen")))),
       (.aheadIs 0 "GROUP_CONCAT",
        .steps [opening, expression,
          .guarded (.is "Semicolon")
            (.steps [.take, .expect "SEPARATOR", .expect "Equals", string]),
          .expect "RParen"])]
      (.steps [opening, expression, .expect "RParen"]))

def builtInCall : Phrase :=
  .node "BuiltInCall"
    (.cases
      [(.anyOf aggregates, aggregate),
       (.is "EXISTS", .node "ExistsFunc" (.seq .take (.call "GroupGraphPattern"))),
       (.is "NOT_EXISTS", .node "NotExistsFunc" (.seq .take (.call "GroupGraphPattern"))),
       (.tagged .builtInCall "BuiltInCall",
        .seq .take
          (.choose (.is "NIL") .take
            (.steps [.expect "LParen",
              .choose (.is "RParen") .empty (.separated expression "Comma"),
              .expect "RParen"])))]
      (.reject (.expectedOneOf ["BuiltInCall", "EXISTS", "NOT_EXISTS"])))

def iriOrFunction : Phrase :=
  .node "iriOrFunction"
    (.seq iri (.guarded (.either (.is "NIL") (.is "LParen")) argList))

def primaryExpression : Phrase :=
  .node "PrimaryExpression"
    (.cases
      [(.is "LParen", bracketted), (startsBuiltInCall, builtInCall),
       (startsIri, iriOrFunction), (startsLiteral, literal), (startsVar, var)]
      (.reject (.expectedOneOf
        (["LParen", "BuiltInCall"] ++ iriStarts ++ literalStarts ++ vars))))

def unaryExpression : Phrase :=
  .node "UnaryExpression"
    (.seq (.guarded (.anyOf ["Bang", "Plus", "Minus"]) .take) primaryExpression)

/-- Operands with one of several operators between them. -/
def operated (operand : Phrase) (operators : List String) : Phrase :=
  .seq operand (.loop (.anyOf operators) (.seq .take operand))

def numericExpression : Phrase :=
  .node "NumericExpression"
    (.node "AdditiveExpression"
      (operated
        (.node "MultiplicativeExpression"
          (operated unaryExpression ["Star", "ForwardSlash"]))
        ["Plus", "Minus"]))

def relationalExpression : Phrase :=
  .node "RelationalExpression"
    (.seq numericExpression
      (.cases
        [(.anyOf comparisons, .seq .take numericExpression),
         (.is "IN", .seq .take expressionList),
         (.is "NOT_IN", .seq .take expressionList)]
        .empty))

def orExpression : Phrase :=
  .node "Expression"
    (.node "ConditionalOrExpression"
      (.separated
        (.node "ConditionalAndExpression"
          (.separated (.node "ValueLogical" relationalExpression) "LogicalAnd"))
        "LogicalOr"))

/-! ### Constraints -/

def constraintStarts : List String := ["LParen", "BuiltInCall"] ++ iriStarts

def startsConstraint : Lookahead :=
  .either (.is "LParen") (.either startsBuiltInCall startsIri)

def constraint : Phrase :=
  .node "Constraint"
    (.cases
      [(.is "LParen", bracketted), (startsBuiltInCall, builtInCall),
       (startsIri, functionCall)]
      (.reject (.expectedOneOf constraintStarts)))

end GraphLanguages.Sparql
