import GraphLanguages.Completion.Context

/-! The vocabularies of SHACL shapes: the terms of SHACL itself and the XSD datatypes,
offered wherever a prefixed name fits. -/
namespace GraphLanguages.Shacl
open Completion

def shaclNamespace : String := "http://www.w3.org/ns/shacl#"

def xsdNamespace : String := "http://www.w3.org/2001/XMLSchema#"

def classes : List String :=
  ["Shape", "NodeShape", "PropertyShape", "PropertyGroup", "ValidationReport",
   "ValidationResult", "Severity", "Info", "Warning", "Violation", "NodeKind", "BlankNode",
   "IRI", "Literal", "BlankNodeOrIRI", "BlankNodeOrLiteral", "IRIOrLiteral",
   "ConstraintComponent", "Parameter", "PrefixDeclaration", "SPARQLConstraint",
   "SPARQLAskValidator", "SPARQLSelectValidator"]

def targetsAndPaths : List String :=
  ["targetClass", "targetNode", "targetObjectsOf", "targetSubjectsOf", "path",
   "inversePath", "alternativePath", "zeroOrMorePath", "oneOrMorePath", "zeroOrOnePath"]

def constraints : List String :=
  ["class", "datatype", "nodeKind", "minCount", "maxCount", "minExclusive",
   "minInclusive", "maxExclusive", "maxInclusive", "minLength", "maxLength", "pattern",
   "flags", "languageIn", "uniqueLang", "equals", "disjoint", "lessThan",
   "lessThanOrEquals", "not", "and", "or", "xone", "node", "property",
   "qualifiedValueShape", "qualifiedValueShapesDisjoint", "qualifiedMinCount",
   "qualifiedMaxCount", "closed", "ignoredProperties", "hasValue", "in"]

def descriptions : List String :=
  ["name", "description", "order", "group", "defaultValue", "severity", "message",
   "deactivated"]

def queries : List String :=
  ["sparql", "select", "ask", "prefixes", "declare", "prefix", "namespace"]

def results : List String :=
  ["conforms", "result", "focusNode", "resultPath", "resultSeverity", "resultMessage",
   "sourceConstraintComponent", "sourceShape", "value", "shapesGraph"]

def datatypes : List String :=
  ["string", "boolean", "decimal", "integer", "double", "float", "date", "dateTime",
   "time", "duration", "anyURI", "long", "int", "short", "byte", "nonNegativeInteger",
   "positiveInteger"]

/-- Classes and instances start with a capital letter. -/
def termKind (term : String) : ItemKind :=
  if term.toList.head?.any Char.isUpper then .classItem else .property

def shaclTerms : List (String × ItemKind) :=
  (classes ++ targetsAndPaths ++ constraints ++ descriptions ++ queries ++ results).map
    fun term => (term, termKind term)

def xsdTerms : List (String × ItemKind) :=
  datatypes.map fun term => (term, .classItem)

/-- The prefix that the first three tokens bind to a namespace. -/
def boundPrefix? (namespace_ : String) : List Token → Option String
  | keyword :: alias_ :: iri :: _ =>
    if (keyword.name == "TTL_PREFIX" || keyword.name == "SPARQL_PREFIX")
        && alias_.name == "PNAME_NS" && iri.name == "IRIREF"
        && iri.image == "<" ++ namespace_ ++ ">" then some alias_.image
    else none
  | _ => none

/-- The prefix that is bound to a namespace last. -/
def declaredPrefix? (namespace_ : String) : List Token → Option String
  | [] => none
  | t :: ts =>
    match declaredPrefix? namespace_ ts with
    | some image => some image
    | none => boundPrefix? namespace_ (t :: ts)

/-- Terms of a namespace under the prefix of the document, or else the usual one. -/
def termItems (c : Context) (namespace_ usual : String)
    (terms : List (String × ItemKind)) : List Suggestion :=
  let image := (declaredPrefix? namespace_ c.otherTokens).getD usual
  terms.map fun (term, kind) =>
    { Suggestion.ofLabel (image ++ term) kind c.defaultRange with
      detail := some (namespace_ ++ term) }

def augment (c : Context) : Augmentation where
  leading :=
    if c.expects "PNAME_LN" then
      termItems c shaclNamespace "sh:" shaclTerms ++ termItems c xsdNamespace "xsd:" xsdTerms
    else []

end GraphLanguages.Shacl
