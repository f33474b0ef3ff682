import GraphLanguages.Completion.Data
import GraphLanguages.Json.Record
import GraphLanguages.Json.Printer
import GraphLanguages.Text.Blank
import GraphLanguages.Text.Numeral

/-! Updates of completion data as clients send them: namespaces as rows or as a map,
and rows of query results with a cell for the IRI and one for the count. -/
namespace GraphLanguages.Completion

/-- The value of a cell. -/
def cell? (j : Json) : Option Json :=
  match j.fields? ["value"] 1 with
  | some [some value] => some value
  | _ => none

/-- A string is its own text; anything else is what is written for it. -/
def cellText : Json → String
  | .string s => s
  | j => j.render

/-- A number, or the digits of one; nothing else counts. -/
def cellCount : Json → Nat
  | .string s => (Text.unsigned? Text.maxWord (Text.trim s.toList)).getD 0
  | j => j.nat?.getD 0

/-- A row with the IRI in the named cell. -/
def binding? (name : String) (j : Json) : Option Binding :=
  match j.fields? [name, "count"] 2 with
  | some [some iri, some count] =>
    (cell? iri).bind fun iri => (cell? count).map fun count => ⟨cellText iri, cellCount count⟩
  | _ => none

def updateFields : List String :=
  ["namespaces", "namespaceMap", "relationshipBindings", "typeBindings"]

def Update.ofJson? (j : Json) : Option Update :=
  match j.fields? updateFields 0 with
  | some [rows, map, relationships, types] => do
    let rows ← Json.optional? (Json.listOf? Json.string?) rows
    let map ← Json.optional? (Json.mapOf? Json.string?) map
    let relationships ← Json.optional? (Json.listOf? (binding? "relationship")) relationships
    let types ← Json.optional? (Json.listOf? (binding? "type")) types
    some ⟨rows, map, relationships, types⟩
  | _ => none

end GraphLanguages.Completion
