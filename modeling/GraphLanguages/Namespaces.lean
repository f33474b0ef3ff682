import GraphLanguages.Text.Bytes
import GraphLanguages.Unicode.Space

/-! Namespaces: short names for the beginnings of IRIs, and the prefixed names made
with them. -/
namespace GraphLanguages

/-- Aliases with their IRIs, ordered by alias, each alias once. -/
@[ext]
structure Namespaces where
  entries : List (String × String) := []
  ordered : entries.Pairwise (·.1 < ·.1) := by decide
deriving DecidableEq, Repr

namespace Namespaces

def empty : Namespaces where
  entries := []
  ordered := .nil

def insertEntry (alias_ iri : String) : List (String × String) → List (String × String)
  | [] => [(alias_, iri)]
  | (a, i) :: rest =>
    if alias_ < a then (alias_, iri) :: (a, i) :: rest
    else if alias_ = a then (alias_, iri) :: rest
    else (a, i) :: insertEntry alias_ iri rest

theorem mem_insertEntry {alias_ iri : String} {entries : List (String × String)}
    {e : String × String} (h : e ∈ insertEntry alias_ iri entries) :
    e = (alias_, iri) ∨ e ∈ entries := by
  induction entries with
  | nil => exact .inl (List.mem_singleton.mp h)
  | cons first rest ih =>
    rw [insertEntry] at h
    split at h
    next => exact List.mem_cons.mp h
    next =>
      split at h
      next => exact (List.mem_cons.mp h).imp_right (List.mem_cons_of_mem first)
      next =>
        rcases List.mem_cons.mp h with rfl | h
        · exact .inr (List.mem_cons_self ..)
        · exact (ih h).imp_right (List.mem_cons_of_mem first)

theorem pairwise_insertEntry (alias_ iri : String) {entries : List (String × String)}
    (h : entries.Pairwise (·.1 < ·.1)) : (insertEntry alias_ iri entries).Pairwise (·.1 < ·.1) := by
  induction entries with
  | nil => exact List.pairwise_singleton _ _
  | cons first rest ih =>
    obtain ⟨hfirst, hrest⟩ := List.pairwise_cons.mp h
    rw [insertEntry]
    split
    next hlt =>
      refine List.pairwise_cons.mpr ⟨fun e he => ?_, h⟩
      rcases List.mem_cons.mp he with rfl | he
      · exact hlt
      · exact String.lt_trans hlt (hfirst e he)
    next hle =>
      split
      next heq =>
        subst heq
        exact List.pairwise_cons.mpr ⟨hfirst, hrest⟩
      next hne =>
        have hlt : first.1 < alias_ := by
          refine Decidable.by_contra fun hge => hne ?_
          exact String.le_antisymm (String.not_lt.mp hge) (String.not_lt.mp hle)
        refine List.pairwise_cons.mpr ⟨fun e he => ?_, ih hrest⟩
        rcases mem_insertEntry he with rfl | he
        · exact hlt
        · exact hfirst e he

def insert (m : Namespaces) (alias_ iri : String) : Namespaces where
  entries := insertEntry alias_ iri m.entries
  ordered := pairwise_insertEntry alias_ iri m.ordered

@[simp] theorem entries_insert (m : Namespaces) (alias_ iri : String) :
    (m.insert alias_ iri).entries = insertEntry alias_ iri m.entries := rfl

/-- Of two pairs with one alias, the later one counts. -/
def ofPairs (pairs : List (String × String)) : Namespaces :=
  pairs.foldl (fun m p => m.insert p.1 p.2) empty

/-- Alias and IRI of a row, divided at its first equals sign. -/
def splitRow (row : String) : String × String :=
  let (alias_, rest) := row.toList.span (· != '=')
  (String.ofList alias_, String.ofList (rest.drop 1))

def ofRows (rows : List String) : Namespaces :=
  ofPairs (rows.map splitRow)

def rows (m : Namespaces) : List String :=
  m.entries.map fun e => e.1 ++ "=" ++ e.2

def get? (m : Namespaces) (alias_ : String) : Option String :=
  m.entries.lookup alias_

def aliases (m : Namespaces) : List String :=
  m.entries.map Prod.fst

def size (m : Namespaces) : Nat :=
  m.entries.length

/-! ### Abbreviation -/

/-- Drops a closing bracket, unless nothing would be left. -/
def withoutClosing (cs : List Char) : List Char :=
  if cs.getLast? = some '>' && 1 < cs.length then cs.dropLast else cs

/-- What is left of an IRI, in angle brackets or not, behind a namespace. -/
def localName? (iri namespace_ : List Char) : Option (List Char) :=
  let inner :=
    match iri with
    | '<' :: rest => rest
    | _ => iri
  if namespace_.isEmpty then none
  else
    ((namespace_.isPrefixOf? inner).map withoutClosing).filter fun name =>
      !name.isEmpty && !name.any Unicode.isSpace

/-- The entry with the shortest local name, the first of equally short ones. -/
def mostSpecific? (iri : List Char) (entries : List (String × String)) :
    Option (String × List Char) :=
  entries.foldl (fun best entry =>
    match localName? iri entry.2.toList with
    | none => best
    | some name =>
      if best.all fun b => Text.bytes name < Text.bytes b.2 then some (entry.1, name)
      else best) none

/-- The prefixed name of an IRI. -/
def abbreviate? (m : Namespaces) (iri : String) : Option String :=
  (mostSpecific? iri.toList m.entries).map fun (alias_, name) =>
    alias_ ++ ":" ++ String.ofList name

end Namespaces

end GraphLanguages
