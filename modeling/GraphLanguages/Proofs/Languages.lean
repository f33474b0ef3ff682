import GraphLanguages.Proofs.Grammar.Attentive
import GraphLanguages.Proofs.Grammar.Progress
import GraphLanguages.Proofs.Grammar.Promises
import GraphLanguages.Proofs.Grammar.Steady
import GraphLanguages.Language

/-! What inspection shows of the languages.

Their grammars are finite trees, so the conditions on phrases that the theory of
parsing and content assist asks for are decided by going through them. -/
namespace GraphLanguages
open Grammar

/-- Every run of the grammar ends, types have names of their own, no token can be taken
for the sentinel, and nothing is promised in vain. -/
structure Lawful (v : Vocabulary) (g : Grammar) : Prop where
  progressive : Progressive g
  distinct : v.Distinct
  no_sentinel : ∀ T ∈ v.types, T.has .endOfInput = false
  honest : Honest v g

/-! ### Inspection -/

/-- The types of the standard are among those of the dialect that adds paths. -/
theorem Sparql.w3_sublist :
    (Sparql.vocabulary .w3).types.Sublist (Sparql.vocabulary .stardog).types := by
  apply Vocabulary.ofTypes_sublist
  · simp only [List.append_assoc, List.append_sublist_append_left]
    exact List.sublist_append_right _ _
  · have : (keywordTypes pathKeywords).any (fun t => t.name == Vocabulary.unknownName) = false := by
      decide
    simp [List.any_append, this]

namespace Language

/-- The languages whose rules attend to every token. -/
def attending : List (Vocabulary × Grammar) :=
  [(Sparql.vocabulary .w3, Sparql.grammar), (Sparql.vocabulary .stardog, Sparql.grammar),
   (Turtle.vocabulary .turtle, Turtle.grammar .turtle),
   (Turtle.vocabulary .trig, Turtle.grammar .trig)]

/-- All languages, in each of their dialects. -/
def dialects : List (Vocabulary × Grammar) :=
  attending ++
    [(GraphQL.vocabulary .standard, GraphQL.grammar), (GraphQL.vocabulary .stardog, GraphQL.grammar)]

def grammars : List Grammar :=
  [Sparql.grammar, GraphQL.grammar, Turtle.grammar .turtle, Turtle.grammar .trig]

/-- What inspection shows of all of them. -/
structure Inspection : Prop where
  names : ∀ p ∈ dialects,
    Vocabulary.allNew 0 ((p.1.types.map (·.name)).map Vocabulary.nameCode) = true
  no_sentinel : ∀ p ∈ dialects, ∀ T ∈ p.1.types, T.has .endOfInput = false
  progressive : ∀ g ∈ grammars, Progressive g
  steady : ∀ g ∈ grammars, Steady g
  honest : ∀ p ∈ dialects, Honest p.1 p.2
  attentive : ∀ p ∈ attending, Attentive p.1 p.2

theorem inspection : Inspection where
  names := by decide +kernel
  no_sentinel := by decide +kernel
  progressive := by decide +kernel
  steady := by decide +kernel
  honest := by decide +kernel
  attentive := by decide +kernel

theorem lawful_of_mem {p : Vocabulary × Grammar} (hp : p ∈ dialects) (hg : p.2 ∈ grammars) :
    Lawful p.1 p.2 where
  progressive := Inspection.progressive inspection p.2 hg
  distinct := Vocabulary.distinct_of_allNew (Inspection.names inspection p hp)
  no_sentinel := Inspection.no_sentinel inspection p hp
  honest := Inspection.honest inspection p hp

end Language

/-! ### Each language -/

theorem Sparql.lawful (dialect : Sparql.Dialect) :
    Lawful (Sparql.vocabulary dialect) Sparql.grammar := by
  have hmem : (Sparql.vocabulary dialect, Sparql.grammar) ∈ Language.dialects := by
    cases dialect <;> simp [Language.dialects, Language.attending]
  exact Language.lawful_of_mem hmem (by simp [Language.grammars])

theorem Sparql.distinct (dialect : Sparql.Dialect) : (Sparql.vocabulary dialect).Distinct :=
  (Sparql.lawful dialect).distinct

theorem GraphQL.lawful (dialect : GraphQL.Dialect) :
    Lawful (GraphQL.vocabulary dialect) GraphQL.grammar := by
  have hmem : (GraphQL.vocabulary dialect, GraphQL.grammar) ∈ Language.dialects := by
    cases dialect <;> simp [Language.dialects]
  exact Language.lawful_of_mem hmem (by simp [Language.grammars])

theorem Turtle.lawful (flavour : Turtle.Flavour) :
    Lawful (Turtle.vocabulary flavour) (Turtle.grammar flavour) := by
  have hmem : (Turtle.vocabulary flavour, Turtle.grammar flavour) ∈ Language.dialects := by
    cases flavour <;> simp [Language.dialects, Language.attending]
  exact Language.lawful_of_mem hmem (by cases flavour <;> simp [Language.grammars])

namespace Language

theorem lawful (l : Language) (options : Options) :
    Lawful (l.frontend options).vocabulary (l.frontend options).grammar := by
  cases l with
  | sparql => exact Sparql.lawful _
  | graphQL => exact GraphQL.lawful _
  | turtle | shacl => exact Turtle.lawful .turtle
  | trig => exact Turtle.lawful .trig

theorem attentive {l : Language} (hl : l ≠ .graphQL) (options : Options) :
    Attentive (l.frontend options).vocabulary (l.frontend options).grammar := by
  have hattending := Inspection.attentive inspection
  simp only [attending, List.forall_mem_cons] at hattending
  obtain ⟨hw3, hstardog, hturtle, htrig, -⟩ := hattending
  cases l with
  | sparql =>
    show Attentive (Sparql.vocabulary options.sparqlDialect) Sparql.grammar
    cases options.sparqlDialect with
    | w3 => exact hw3
    | stardog => exact hstardog
  | graphQL => exact absurd rfl hl
  | turtle | shacl => exact hturtle
  | trig => exact htrig

theorem steady (l : Language) (options : Options) : Steady (l.frontend options).grammar := by
  have hgrammars := Inspection.steady inspection
  simp only [grammars, List.forall_mem_cons] at hgrammars
  obtain ⟨hsparql, hgraphQL, hturtle, htrig, -⟩ := hgrammars
  cases l with
  | sparql => exact hsparql
  | graphQL => exact hgraphQL
  | turtle | shacl => exact hturtle
  | trig => exact htrig

end Language

end GraphLanguages
