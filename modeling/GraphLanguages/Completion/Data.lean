import GraphLanguages.Completion.Suggestion
import GraphLanguages.Namespaces

/-! What a database tells about its content: namespaces, and how often its
relationships and types occur. Clients send it apart from documents, in any order;
the suggestions made from it always follow the newest namespaces. -/
namespace GraphLanguages.Completion

/-- An IRI and how often it occurs. -/
structure Binding where
  iri : String
  count : Nat
deriving DecidableEq, Repr

/-- Only what an update brings is replaced. Namespaces come as rows or as a map. -/
structure Update where
  namespaceRows : Option (List String) := none
  namespaceMap : Option (List (String × String)) := none
  relationships : Option (List Binding) := none
  types : Option (List Binding) := none
deriving DecidableEq, Repr

/-- The namespaces that an update brings. Rows go before a map. -/
def Update.namespaces? (u : Update) : Option Namespaces :=
  match u.namespaceRows with
  | some rows => some (.ofRows rows)
  | none => u.namespaceMap.map .ofPairs

/-- Counts are taken from this number, so that higher ones sort first. -/
def sortBase : Nat := 100000000000000

namespace Binding

def rank (b : Binding) : String :=
  toString (sortBase - b.count)

def detail (b : Binding) : String :=
  toString b.count ++ " occurrences"

def fullItem (b : Binding) : Suggestion :=
  { Suggestion.ofLabel ("<" ++ b.iri ++ ">") .enumMember ⟨0, 0⟩ with
    sortText := some ("01" ++ b.rank ++ b.iri), detail := some b.detail }

/-- The item that inserts a prefixed name, for an IRI that has one. -/
def prefixedItem? (namespaces : Namespaces) (b : Binding) : Option Suggestion :=
  ((namespaces.abbreviate? b.iri).filter (· != b.iri)).map fun short =>
    { Suggestion.ofLabel short .field ⟨0, 0⟩ with
      sortText := some ("00" ++ b.rank ++ short)
      filterText := some ("<" ++ b.iri ++ ">" ++ short)
      detail := some b.detail }

/-- Items of all bindings in full, then of those that a namespace abbreviates. -/
def items (namespaces : Namespaces) (bindings : List Binding) : List Suggestion :=
  bindings.map fullItem ++ bindings.filterMap (prefixedItem? namespaces)

end Binding

/-- Namespaces and bindings, with the items made of them. Items are kept, since they are
read far more often than anything changes. -/
structure Data where
  namespaces : Namespaces := .empty
  relationships : List Binding := []
  types : List Binding := []
  relationshipItems : List Suggestion := Binding.items namespaces relationships
  typeItems : List Suggestion := Binding.items namespaces types
  relationshipItems_eq : relationshipItems = Binding.items namespaces relationships := by rfl
  typeItems_eq : typeItems = Binding.items namespaces types := by rfl
deriving DecidableEq, Repr

namespace Data

/-- Nothing is known yet. -/
def empty : Data := {}

/-- Items behind an update, which may bring bindings for them. Without any, they are made
anew only for new namespaces. -/
def refresh (old : Namespaces) (new : Option Namespaces) (brought : Option (List Binding))
    (known : List Binding) (items : List Suggestion) : List Suggestion :=
  match brought, new with
  | some bindings, _ => Binding.items (new.getD old) bindings
  | none, some new => Binding.items new known
  | none, none => items

/-- Items that were made of what was known are then made of what is known now. -/
theorem refresh_eq {old : Namespaces} {known : List Binding} {items : List Suggestion}
    (h : items = Binding.items old known) (new : Option Namespaces)
    (brought : Option (List Binding)) :
    refresh old new brought known items = Binding.items (new.getD old) (brought.getD known) := by
  cases brought with
  | some bindings => rfl
  | none =>
    cases new with
    | some new => rfl
    | none => exact h

def apply (d : Data) (u : Update) : Data where
  namespaces := u.namespaces?.getD d.namespaces
  relationships := u.relationships.getD d.relationships
  types := u.types.getD d.types
  relationshipItems :=
    refresh d.namespaces u.namespaces? u.relationships d.relationships d.relationshipItems
  typeItems := refresh d.namespaces u.namespaces? u.types d.types d.typeItems
  relationshipItems_eq := refresh_eq d.relationshipItems_eq u.namespaces? u.relationships
  typeItems_eq := refresh_eq d.typeItems_eq u.namespaces? u.types

end Data

end GraphLanguages.Completion
