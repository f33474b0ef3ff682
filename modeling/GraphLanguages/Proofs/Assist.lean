import GraphLanguages.Proofs.Grammar.Attentive
import GraphLanguages.Proofs.Grammar.Kept
import GraphLanguages.Proofs.Grammar.Parallel
import GraphLanguages.Proofs.Languages

/-! Content assist against parsing.

A candidate is a promise that a parse takes the tokens it is for, and in the triple
languages every token that a parse takes next has its candidate. -/
namespace GraphLanguages
open Grammar

/-- **A parse takes whatever token a candidate is for, unless rules nest too deep, and
there are no candidates where a parse fails before the end.** -/
theorem assist_sound (l : Language) (options : Options) (root root' : String) (size : Nat)
    (tokens : List Token)
    (htokens : ∀ u ∈ tokens, u.type ∈ (l.frontend options).vocabulary.types) :
    let f := l.frontend options
    let parse := f.grammar.parse f.vocabulary root size
    (∀ c ∈ f.assist root' tokens, ∀ t, c.type.Accepts f.vocabulary t →
      (parse (tokens ++ [t])).1.leaves = tokens ++ [t] ∨
        ∃ e, (parse (tokens ++ [t])).2 = some e ∧
          e.message = Complaint.tooDeep.message f.vocabulary) ∧
      ((parse tokens).1.leaves ≠ tokens → f.assist root' tokens = []) := by
  intro f parse
  have hl := l.lawful options
  constructor
  · intro c hc t ha
    exact leaves_of_candidate hl.honest hl.progressive hl.distinct htokens hc ha
  · intro h
    exact assist_eq_nil hl.progressive h

/-- After the keyword of a base declaration, an IRI is a candidate and is taken. -/
theorem assist_sound_base :
    let base := Token.ofImage ((TokenType.literal "TTL_BASE" "@base").withCategories [.keyword])
      "@base" 0
    let iri := Token.ofImage (((TokenType.regex "IRIREF" Rdf.iriRegex).withCategories
      [.iri]).withLabel "<http://example.com>") "<a>" 6
    let f := Language.turtle.frontend {}
    (∀ u ∈ [base], u.type ∈ f.vocabulary.types) ∧
      ∃ c ∈ f.assist "turtleDoc" [base], c.type.Accepts f.vocabulary iri ∧
        ((f.grammar.parse f.vocabulary "turtleDoc" 9 ([base] ++ [iri])).1.leaves =
          [base] ++ [iri] ∨
        ∃ e, (f.grammar.parse f.vocabulary "turtleDoc" 9 ([base] ++ [iri])).2 = some e ∧
          e.message = Complaint.tooDeep.message f.vocabulary) := by
  intro base iri f
  have htypes : ∀ u ∈ [base], u.type ∈ f.vocabulary.types := by decide
  have hc : ⟨iri.type, ["turtleDoc", "statement", "directive", "base"], none⟩ ∈
      f.assist "turtleDoc" [base] := by
    decide
  exact ⟨htypes, _, hc, rfl,
    (assist_sound .turtle {} "turtleDoc" "turtleDoc" 9 [base] htypes).1 _ hc iri rfl⟩

/-- **Whatever token a parse of the triple languages takes next, content assist has a
candidate that stands for it.** -/
theorem assist_complete (l : Language) (options : Options) (hl : l ≠ .graphQL)
    (root root' : String) (size : Nat) (tokens : List Token) (t : Token)
    (ht : ∀ u ∈ tokens ++ [t], u.type ∈ (l.frontend options).vocabulary.types)
    (h : ((l.frontend options).grammar.parse (l.frontend options).vocabulary root size
      (tokens ++ [t])).1.leaves = tokens ++ [t]) :
    ∃ c ∈ (l.frontend options).assist root' tokens, c.type.StandsFor t := by
  have hlawful := l.lawful options
  have htype : t.type ∈ (l.frontend options).vocabulary.types := ht t (by simp)
  exact exists_candidate (l.attentive hl options) hlawful.progressive hlawful.distinct htype h

/-- Behind a semicolon, the word `a` may start the next predicate. -/
theorem assist_complete_semicolon :
    let v := Turtle.vocabulary .turtle
    let tokens := [v.token "IRIREF" "<s>" 0, v.token "IRIREF" "<p>" 3, v.token "IRIREF" "<o>" 6,
      v.token "Semicolon" ";" 9]
    let a := v.token "A" "a" 10
    let f := Language.turtle.frontend {}
    (∀ u ∈ tokens ++ [a], u.type ∈ f.vocabulary.types) ∧
      (f.grammar.parse f.vocabulary "turtleDoc" 11 (tokens ++ [a])).1.leaves = tokens ++ [a] ∧
      ∃ c ∈ f.assist "turtleDoc" tokens, c.type.StandsFor a := by
  intro v tokens a f
  have htypes : ∀ u ∈ tokens ++ [a], u.type ∈ f.vocabulary.types := by decide +kernel
  have hleaves : (f.grammar.parse f.vocabulary "turtleDoc" 11 (tokens ++ [a])).1.leaves =
      tokens ++ [a] := by decide +kernel
  exact ⟨htypes, hleaves, assist_complete .turtle {} (by decide) "turtleDoc" "turtleDoc" 11 tokens a
    htypes hleaves⟩

end GraphLanguages
