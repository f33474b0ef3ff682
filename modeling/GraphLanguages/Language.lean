import GraphLanguages.Profile
import GraphLanguages.Options
import GraphLanguages.Languages.Sparql
import GraphLanguages.Languages.Sparql.Suggestions
import GraphLanguages.Languages.GraphQL
import GraphLanguages.Languages.Turtle
import GraphLanguages.Languages.Shacl

/-! The languages and their profiles. -/
namespace GraphLanguages

inductive Language where
  | sparql
  | graphQL
  | turtle
  | trig
  | shacl
deriving DecidableEq, Repr

def Options.sparqlDialect (o : Options) : Sparql.Dialect :=
  if o.wants "w3" then .w3 else .stardog

def Options.graphQLDialect (o : Options) : GraphQL.Dialect :=
  if o.wants "standard" then .standard else .stardog

namespace Language

/-- How editors call the language. -/
def id : Language → String
  | .sparql => "sparql"
  | .graphQL => "graphql"
  | .turtle => "turtle"
  | .trig => "trig"
  | .shacl => "shacl"

def displayName : Language → String
  | .sparql => "SPARQL"
  | .graphQL => "GraphQL"
  | .turtle => "Turtle"
  | .trig => "TriG"
  | .shacl => "SHACL"

def serverName (l : Language) : String :=
  l.id ++ "-language-server"

def all : List Language := [.sparql, .graphQL, .turtle, .trig, .shacl]

def ofId? (id : String) : Option Language :=
  all.find? fun l => l.id == id

def frontend (options : Options) : Language → Frontend
  | .sparql => Sparql.frontend options.sparqlDialect
  | .graphQL => GraphQL.frontend options.graphQLDialect
  | .turtle => Turtle.frontend .turtle true
  | .trig => Turtle.frontend .trig true
  | .shacl => Turtle.frontend .turtle false

def triggers : Language → List String
  | .sparql => ["<", ":", "?", "$"]
  | .graphQL => ["$", "@"]
  | .turtle | .trig => ["@", ":"]
  | .shacl => ["<", ":"]

/-- Names are the only words of GraphQL, so completion works between tokens as well
and keeps to what is typed. -/
def completion (l : Language) : Completion.Settings where
  triggers := l.triggers
  excluded := [.punctuator]
  insertsBetween := l == .graphQL
  narrows := l == .graphQL

/-- In the triple languages, text that matches nothing is reported. -/
def reportsUnknown : Language → Bool
  | .sparql | .graphQL => false
  | .turtle | .trig | .shacl => true

def augment : Language → Completion.Context → Completion.Augmentation
  | .sparql, c => Sparql.augment c
  | .shacl, c => Shacl.augment c
  | .graphQL, _ | .turtle, _ | .trig, _ => {}

def declarationKeywords : Language → List String
  | .sparql => ["prefix"]
  | .graphQL => []
  | .turtle | .trig | .shacl => ["@prefix", "prefix"]

def profile (l : Language) (options : Options) : Profile where
  language := l.id
  frontend := l.frontend options
  completion := l.completion
  diagnostics := { reportsUnknown := l.reportsUnknown }
  augment := l.augment
  declarationKeywords := l.declarationKeywords

end Language

end GraphLanguages
