import GraphLanguages.Completion.Context

/-! What SPARQL adds to completion: the names that occur in the document before the
keywords of the grammar, and what the database holds behind them. -/
namespace GraphLanguages.Sparql
open Completion

/-- The images of tokens of some types, each once, by first occurrence. -/
def images (tokens : List Token) (names : List String) : List String :=
  ((tokens.filter fun t => names.contains t.name).map Token.image).eraseDups

/-- What could come next sorts first, in the given rank. -/
def rankIf (expected : Bool) (rank label : String) : Option String :=
  if expected then some (rank ++ label) else none

def variableItems (c : Context) : List Suggestion :=
  let expected := c.expects "VAR1" || c.expects "VAR2"
  (images c.otherTokens ["VAR1", "VAR2"]).map fun image =>
    { Suggestion.ofLabel image .variable c.defaultRange with
      sortText := rankIf expected "1" image }

/-- Without the colon at its end. -/
def aliasOf (image : String) : String :=
  if image.toList.getLast? = some ':' then String.ofList image.toList.dropLast else image

/-- Prefixes of the document and of the database. The colon is inserted, not shown. -/
def prefixItems (c : Context) : List Suggestion :=
  let expected := c.expects "PNAME_NS"
  let known := images c.otherTokens ["PNAME_NS"] ++ c.data.namespaces.aliases.map (· ++ ":")
  known.map fun image =>
    let label := aliasOf image
    { Suggestion.ofLabel label .enumMember c.defaultRange with
      newText := image, sortText := rankIf expected "2" label }

def nameItems (c : Context) (name : String) : List Suggestion :=
  (images c.otherTokens [name]).map fun image =>
    { Suggestion.ofLabel image .enumMember c.defaultRange with
      sortText := rankIf (c.expects name) "2" image }

/-- Rules in which a predicate comes next. -/
def edgeRules : List String := ["Verb", "PathPrimary", "PathOneInPropertySet"]

def atDefaultRange (c : Context) (items : List Suggestion) : List Suggestion :=
  items.map fun s => { s with replace := c.defaultRange }

def databaseItems (c : Context) : List Suggestion :=
  (if c.inAnyRule edgeRules then atDefaultRange c c.data.relationshipItems else []) ++
    (if c.tokenBefore?.any fun t => t.name == "A" then atDefaultRange c c.data.typeItems
      else [])

def augment (c : Context) : Augmentation where
  leading :=
    variableItems c ++ prefixItems c ++ nameItems c "PNAME_LN" ++ nameItems c "IRIREF"
  trailing := databaseItems c

end GraphLanguages.Sparql
