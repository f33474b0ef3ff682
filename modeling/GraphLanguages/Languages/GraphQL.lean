import GraphLanguages.Languages.Rdf
import GraphLanguages.Frontend

/-! GraphQL executable documents.

Keywords are case-sensitive and also carry the category of names, so they are
accepted wherever a name is. The Stardog dialect reads its directives as single
tokens. -/
namespace GraphLanguages.GraphQL
open Text.Regex Grammar

inductive Dialect where
  | standard
  | stardog
deriving DecidableEq, Repr

/-! ### Vocabulary -/

def nameRegex : Text.Regex where
  source := "^[_A-Za-z][_0-9A-Za-z]*"
  expr := .seq (charClass [just '_', .range 'A' 'Z', .range 'a' 'z'])
    (.star (charClass [just '_', .range '0' '9', .range 'A' 'Z', .range 'a' 'z']))

/-- Zero, or digits that do not start with it. -/
def wholePart : Expr :=
  .seq (maybe (char '-')) (.alt (char '0') (.seq (charClass [.range '1' '9']) (.star Rdf.digit)))

def floatRegex : Text.Regex where
  source := "^-?(?:0|[1-9][0-9]*)(?:\\.[0-9]+(?:[eE][+-]?[0-9]+)?|[eE][+-]?[0-9]+)"
  expr := .seq wholePart
    (.alt (sequence [char '.', plus Rdf.digit, maybe Rdf.exponent]) Rdf.exponent)

def intRegex : Text.Regex where
  source := "^-?(?:0|[1-9][0-9]*)"
  expr := wholePart

/-- White space, commas and the byte order mark. -/
def spaceRegex : Text.Regex where
  source := "^[\\s,\\u\x7bFEFF\x7d]+"
  expr := plus (charClass [.space, just ',', just (Char.ofNat 0xFEFF)])

def directiveTypes : List TokenType :=
  Rdf.literals .directive
    [("OptionalDirective", "@optional"), ("FilterDirective", "@filter"),
     ("BindDirective", "@bind"), ("HideDirective", "@hide"),
     ("PrefixDirective", "@prefix"), ("ConfigDirective", "@config"),
     ("TypeDirective", "@type"), ("SkipDirective", "@skip"),
     ("IncludeDirective", "@include")] ++
  [TokenType.anyOf "StardogDirective" .directive]

def vocabulary (dialect : Dialect) : Vocabulary :=
  .ofTypes <|
    Rdf.literals .name
      [("Query", "query"), ("Mutation", "mutation"), ("Subscription", "subscription"),
       ("Fragment", "fragment"), ("On", "on"), ("True", "true"), ("False", "false"),
       ("Null", "null")] ++
    [(TokenType.regex "Name" nameRegex).withCategories [.name],
     (TokenType.regex "FloatValue" floatRegex).withCategories [.literal],
     (TokenType.regex "IntValue" intRegex).withCategories [.literal],
     (TokenType.regex "BlockStringValue" Rdf.longString2Regex).withCategories [.literal],
     (TokenType.regex "StringValue" Rdf.string2Regex).withCategories [.literal]] ++
    (match dialect with
      | .standard => []
      | .stardog => directiveTypes) ++
    Rdf.literals .punctuator
      [("Bang", "!"), ("Dollar", "$"), ("LParen", "("), ("RParen", ")"),
       ("Spread", "..."), ("Colon", ":"), ("Equals", "="), ("At", "@"),
       ("LBracket", "["), ("RBracket", "]"), ("LCurly", "\x7b"), ("Pipe", "|"),
       ("RCurly", "\x7d")]

/-! ### Names, values and types -/

def name : Phrase := .expectTagged .name "Name"

def startsName : Lookahead := .tagged .name "Name"

def variableUse : Phrase := .node "Variable" (.seq (.expect "Dollar") name)

def startsValue : Lookahead :=
  .either
    (.anyOf ["Dollar", "IntValue", "FloatValue", "StringValue", "BlockStringValue",
      "LBracket", "LCurly"])
    startsName

def listValue : Phrase :=
  .node "ListValue"
    (.steps [.take, .loop (.both (.negated (.is "RBracket")) startsValue) (.call "Value"),
      .expect "RBracket"])

def objectValue : Phrase :=
  .node "ObjectValue"
    (.steps [.take,
      .loop startsName
        (.node "ObjectField" (.steps [name, .expect "Colon", .call "Value"])),
      .expect "RCurly"])

def value : Phrase :=
  .node "Value"
    (.cases
      [(.is "Dollar", variableUse),
       (.anyOf ["IntValue", "FloatValue", "StringValue", "BlockStringValue"], .take),
       (.anyOf ["True", "False"], .node "BooleanValue" .take),
       (.is "Null", .node "NullValue" .take),
       (.is "LBracket", listValue),
       (.is "LCurly", objectValue),
       (startsName, .node "EnumValue" name)]
      (.reject (.expectedOneOf
        ["Dollar", "IntValue", "FloatValue", "StringValue", "True", "False", "Null",
         "LBracket", "LCurly", "Name"])))

def namedType : Phrase := .node "NamedType" name

def typeReference : Phrase :=
  .node "Type"
    (.seq
      (.choose (.is "LBracket") (.steps [.take, .call "Type", .expect "RBracket"]) namedType)
      (.optional "Bang"))

def arguments : Phrase :=
  .node "Arguments"
    (.steps [.expect "LParen",
      .oneOrMore startsName
        (.node "Argument" (.steps [name, .expect "Colon", .call "Value"])) ["Name"],
      .expect "RParen"])

def startsDirective : Lookahead :=
  .either (.is "At") (.tagged .directive "StardogDirective")

def directives : Phrase :=
  .guarded startsDirective
    (.node "Directives"
      (.loop startsDirective
        (.node "Directive"
          (.seq (.choose (.is "At") (.seq .take name) .take)
            (.guarded (.is "LParen") arguments)))))

/-! ### Selections -/

def typeCondition : Phrase :=
  .node "TypeCondition" (.seq (.expect "On") namedType)

def fragmentName : Phrase := .node "FragmentName" name

def field : Phrase :=
  .node "Field"
    (.steps [
      .guarded (.aheadIs 1 "Colon") (.node "Alias" (.seq name (.expect "Colon"))),
      name,
      .guarded (.is "LParen") arguments,
      directives,
      .guarded (.is "LCurly") (.call "SelectionSet")])

def fragmentSpread : Phrase :=
  .node "FragmentSpread" (.steps [.take, fragmentName, directives])

def inlineFragment : Phrase :=
  .node "InlineFragment"
    (.steps [.take, .guarded (.is "On") typeCondition, directives, .call "SelectionSet"])

/-- Three dots are a fragment spread if a name other than `on` follows. -/
def selection : Phrase :=
  .node "Selection"
    (.choose (.is "Spread")
      (.choose (.both (.aheadTagged 1 .name) (.negated (.aheadIs 1 "On")))
        fragmentSpread inlineFragment)
      field)

def selectionSet : Phrase :=
  .node "SelectionSet"
    (.steps [.expect "LCurly",
      .oneOrMore (.either startsName (.is "Spread")) selection ["Name", "Spread"],
      .expect "RCurly"])

/-! ### Definitions -/

def operationTypes : List String := ["Query", "Mutation", "Subscription"]

def definitionStarts : List String :=
  ["LCurly", "Query", "Mutation", "Subscription", "Fragment"]

def variableDefinition : Phrase :=
  .node "VariableDefinition"
    (.steps [variableUse, .expect "Colon", .call "Type",
      .guarded (.is "Equals") (.node "DefaultValue" (.seq .take (.call "Value"))),
      directives])

def variableDefinitions : Phrase :=
  .node "VariableDefinitions"
    (.steps [.expect "LParen", .oneOrMore (.is "Dollar") variableDefinition ["Dollar"],
      .expect "RParen"])

def operationDefinition : Phrase :=
  .node "OperationDefinition"
    (.choose (.is "LCurly") (.call "SelectionSet")
      (.steps [
        .node "OperationType" (.expectOneOf operationTypes),
        .optionalTagged .name "Name",
        .guarded (.is "LParen") variableDefinitions,
        directives,
        .call "SelectionSet"]))

def fragmentDefinition : Phrase :=
  .node "FragmentDefinition"
    (.steps [.expect "Fragment", fragmentName, typeCondition, directives,
      .call "SelectionSet"])

def document : Phrase :=
  .oneOrMore (.anyOf definitionStarts)
    (.node "Definition" (.choose (.is "Fragment") fragmentDefinition operationDefinition))
    definitionStarts

def grammar : Grammar where
  entry := document
  rules := [("SelectionSet", selectionSet), ("Value", value), ("Type", typeReference)]

def root : String := "Document"

def frontend (dialect : Dialect) : Frontend where
  vocabulary := vocabulary dialect
  skipped := [spaceRegex, Rdf.commentRegex]
  grammar := grammar
  root := root

end GraphLanguages.GraphQL
