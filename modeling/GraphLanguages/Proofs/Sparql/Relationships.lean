import GraphLanguages.Completion.Items
import GraphLanguages.Proofs.Completion.Cursor
import GraphLanguages.Proofs.Grammar.Breaks
import GraphLanguages.Proofs.Grammar.Hints

/-! Where SPARQL offers relationships.

Relationships of the database are offered if a rule of edges asks for something next. That
is where the tokens before the cursor break off below such a rule, and nearly where an IRI
would be taken as an edge: behind a semicolon and behind a subject in brackets, the grammar
looks for a verb before it opens the rule of the verb, so they are not offered there; and
within brackets of a path they are offered behind a complete step, where no IRI can come. -/
namespace GraphLanguages

/-- The last token of the tree is below one of the rules. -/
def Tree.endsBelow (rules : List String) (t : Tree) : Bool :=
  t.lastRules?.any (·.any (rules.contains ·))

namespace Sparql
open Grammar Completion

/-- What a subject in brackets ends with, and the separator of property lists. -/
def closers : List String := ["Semicolon", "RBracket", "RParen"]

/-- The rules of edges, below which an IRI may be taken. Paths lead to them. -/
def edges : Marking where
  rules := edgeRules
  ways := ["Path"]
  awaited := "IRIREF"
  closers := closers

theorem hints (dialect : Dialect) : Hints edges (vocabulary dialect) grammar := by
  cases dialect <;> decide +kernel

theorem forewarning (dialect : Dialect) :
    Forewarning edges (vocabulary dialect) grammar := by
  cases dialect <;> decide +kernel

/-! ### What is added for the relationships -/

/-- Before the suggestions that there would be without relationships, those of all
relationships are added. -/
def OffersRelationships (p : Profile) (c : Context) : Prop :=
  (p.augment c).trailing = atDefaultRange c c.data.relationshipItems ++
    (p.augment { c with data := c.data.apply { relationships := some [] } }).trailing

instance (p : Profile) (c : Context) : Decidable (OffersRelationships p c) :=
  inferInstanceAs (Decidable (_ = _))

theorem offersRelationships_iff {options : Options} {c : Context}
    (h : c.data.relationships ≠ []) :
    OffersRelationships (Language.sparql.profile options) c ↔ c.inAnyRule edgeRules = true := by
  have hitems : atDefaultRange c c.data.relationshipItems ≠ [] := by
    obtain ⟨b, bs, hb⟩ := List.exists_cons_of_ne_nil h
    simp [atDefaultRange, c.data.relationshipItems_eq, Binding.items, hb]
  have hwithout : databaseItems { c with data := c.data.apply { relationships := some [] } } =
      if c.tokenBefore?.any fun t => t.name == "A" then atDefaultRange c c.data.typeItems
      else [] := by
    show (if c.inAnyRule edgeRules then [] else []) ++ _ = _
    rw [ite_self, List.nil_append]
    rfl
  show databaseItems c = _ ++ databaseItems _ ↔ _
  rw [hwithout, databaseItems]
  cases c.inAnyRule edgeRules with
  | true => simp
  | false => simpa using hitems

theorem inRule_longerWordsAt {v : Vocabulary} {tokens : List Token} {cursor : Cursor}
    {c : Candidate} (h : c ∈ longerWordsAt v tokens cursor) : c.rules = [] := by
  unfold longerWordsAt at h
  split at h
  next =>
    split at h
    next =>
      obtain ⟨_, _, rfl⟩ := List.mem_map.mp h
      rfl
    next => cases h
  next => cases h

/-- Longer words come from no rule, so the candidates of the grammar decide. -/
theorem inAnyRule_iff {p : Profile} {c : Context}
    (hc : c.candidates = candidatesAt p c.tokens c.cursor) :
    c.inAnyRule edgeRules = true ↔
      ∃ d ∈ p.frontend.assist p.frontend.root (c.tokens.take c.cursor.assisted),
        edges.covers d.rules = true := by
  have hrule : ∀ d : Candidate, (∃ r ∈ edgeRules, d.inRule r = true) ↔
      edges.covers d.rules = true := by
    intro d
    simp only [Candidate.inRule, Marking.covers, edges, List.any_eq_true, beq_iff_eq,
      List.contains_iff_mem]
    exact ⟨fun ⟨r, hr, s, hs, he⟩ => ⟨s, hs, he ▸ hr⟩, fun ⟨s, hs, hr⟩ => ⟨s, hr, s, hs, rfl⟩⟩
  simp only [Context.inAnyRule, hc, candidatesAt_eq, List.any_eq_true, List.mem_append]
  constructor
  · rintro ⟨d, hd | hd, hm⟩
    · exact ⟨d, hd, (hrule d).mp hm⟩
    · have := (hrule d).mp hm
      rw [inRule_longerWordsAt hd] at this
      cases this
  · rintro ⟨d, hd, hm⟩
    exact ⟨d, .inl hd, (hrule d).mpr hm⟩

/-- Content assist asks for something below a rule of edges. -/
def AsksForEdge (dialect : Dialect) (tokens : List Token) : Prop :=
  ∃ c ∈ grammar.assist (vocabulary dialect) "SparqlDoc" tokens, edges.covers c.rules = true

instance (dialect : Dialect) (tokens : List Token) : Decidable (AsksForEdge dialect tokens) :=
  inferInstanceAs (Decidable (∃ c ∈ _, _))

theorem offersRelationships_iff_asksForEdge {options : Options} {c : Context}
    (h : c.data.relationships ≠ [])
    (hc : c.candidates = candidatesAt (Language.sparql.profile options) c.tokens c.cursor) :
    OffersRelationships (Language.sparql.profile options) c ↔
      AsksForEdge options.sparqlDialect (c.tokens.take c.cursor.assisted) :=
  (offersRelationships_iff h).trans (inAnyRule_iff (p := Language.sparql.profile options) hc)

/-- Content assist asks for something below a rule of edges exactly if an IRI would be
taken below one, away from closers. -/
theorem asksForEdge_iff_endsBelow (dialect : Dialect) {size : Nat} {tokens : List Token}
    {iri : Token} (htypes : ∀ u ∈ tokens ++ [iri], u.type ∈ (vocabulary dialect).types)
    (hname : iri.name = "IRIREF")
    (h : (grammar.parse (vocabulary dialect) "SparqlDoc" size (tokens ++ [iri])).1.leaves =
      tokens ++ [iri]) :
    AsksForEdge dialect tokens ↔
      (grammar.parse (vocabulary dialect) "SparqlDoc" size
          (tokens ++ [iri])).1.endsBelow edgeRules = true ∧
        ∀ last ∈ tokens.getLast?, last.name ∉ closers := by
  have hl := Sparql.lawful dialect
  rw [AsksForEdge, hinted_iff (hints dialect) hl.honest hl.progressive hl.distinct htypes hname
    (by decide) h]
  refine and_congr ?_ ?_
  · simp only [Tree.endsBelow, Option.any_eq_true, Marking.covers, edges]
  · cases tokens.getLast? with
    | none => simp [Marking.closes]
    | some last => simp [Marking.closes, edges]

/-- **Relationships are offered exactly where the tokens before the cursor break off below
a rule of edges, nesting too deep aside. Where an IRI would be taken, that is exactly where
it would be taken as an edge and neither a semicolon nor a closing bracket comes before.** -/
theorem relationships_offered (options : Options) (raw : List Char) (offset size : Nat)
    (cursor : Cursor) (data : Data) (iri : Token)
    (hcursor : Cursor.locate? Language.sparql.completion
      ((Language.sparql.frontend options).parseDocument raw).tokens offset = some cursor)
    (hdata : data.relationships ≠ [])
    (hiri : iri.type ∈ (Language.sparql.frontend options).vocabulary.types)
    (hname : iri.name = "IRIREF") :
    let p := Language.sparql.profile options
    let tokens := (p.frontend.parseDocument raw).tokens
    let context : Context :=
      { tokens, offset, cursor, candidates := candidatesAt p tokens cursor, data }
    let before := tokens.filter (·.stop ≤ cursor.range.start)
    let parse := p.frontend.grammar.parse p.frontend.vocabulary p.frontend.root size
    let breaksOff : Prop := (parse before).1.leaves = before ∧
      ∃ e, (parse before).2 = some e ∧ ∃ rule ∈ edgeRules, rule ∈ e.rules
    let tree := (parse (before ++ [iri])).1
    (OffersRelationships p context → breaksOff) ∧
      ((∀ e ∈ (parse before).2, e.message ≠ Complaint.tooDeep.message p.frontend.vocabulary) →
        breaksOff → OffersRelationships p context) ∧
      (tree.leaves = before ++ [iri] →
        (OffersRelationships p context ↔ tree.endsBelow edgeRules = true ∧
          ∀ last ∈ before.getLast?, last.name ∉ closers)) := by
  intro p tokens context before parse breaksOff tree
  have hl := Sparql.lawful options.sparqlDialect
  have hh := hints options.sparqlDialect
  have hw := forewarning options.sparqlDialect
  have hbefore : before = tokens.take cursor.assisted :=
    Cursor.filter_stop (hl.liesIn (Language.sparql.checksTokens options) raw) hcursor
  have hoffers : OffersRelationships p context ↔ AsksForEdge options.sparqlDialect before := by
    rw [hbefore]
    exact offersRelationships_iff_asksForEdge hdata rfl
  have hcovers : ∀ rules : List String,
      edges.covers rules = true ↔ ∃ rule ∈ edgeRules, rule ∈ rules := by
    intro rules
    simp [Marking.covers, edges, and_comm]
  refine ⟨fun h => ?_, fun hdeep hbroken => ?_, fun htaken => ?_⟩
  · obtain ⟨hall, e, he, hm⟩ := error_of_hinted hh hw hl.progressive (by decide) (hoffers.mp h)
    exact ⟨hall, e, he, (hcovers _).mp hm⟩
  · obtain ⟨hall, e, he, hm⟩ := hbroken
    exact hoffers.mpr (hinted_of_error hh hw hl.progressive (by decide) hall he
      ((hcovers _).mpr hm) (hdeep e he))
  · have htypes : ∀ u ∈ before ++ [iri], u.type ∈ p.frontend.vocabulary.types := by
      intro u hu
      rcases List.mem_append.mp hu with hu | hu
      · exact Frontend.type_of_mem_parseDocument rfl u (List.mem_of_mem_filter hu)
      · exact List.mem_singleton.mp hu ▸ hiri
    exact hoffers.trans (asksForEdge_iff_endsBelow _ htypes hname htaken)

/-- Behind a subject, relationships are offered: a verb is missing there. -/
theorem relationships_offered_subject :
    let p := Language.sparql.profile {}
    let tokens := (p.frontend.parseDocument "ask\x7b?s b".toList).tokens
    let cursor : Cursor := ⟨some 3, 3, ⟨7, 8⟩, none⟩
    let data : Data := { relationships := [⟨"urn:r", 1⟩] }
    let iri := Token.ofImage (((TokenType.regex "IRIREF" Rdf.iriRegex).withCategories
      [.iri]).withLabel "<http://example.com>") "<a>" 7
    let context : Context :=
      { tokens, offset := 8, cursor, candidates := candidatesAt p tokens cursor, data }
    let before := tokens.filter (·.stop ≤ cursor.range.start)
    let parse := p.frontend.grammar.parse p.frontend.vocabulary p.frontend.root 8
    Cursor.locate? Language.sparql.completion tokens 8 = some cursor ∧
      data.relationships ≠ [] ∧ iri.type ∈ p.frontend.vocabulary.types ∧
      iri.name = "IRIREF" ∧ (parse (before ++ [iri])).1.leaves = before ++ [iri] ∧
      OffersRelationships p context ∧ (parse before).1.leaves = before ∧
      ∃ e, (parse before).2 = some e ∧ ∃ rule ∈ edgeRules, rule ∈ e.rules := by
  intro p tokens cursor data iri context before parse
  obtain ⟨hcursor, hiri, htaken, hedge⟩ :
      Cursor.locate? Language.sparql.completion tokens 8 = some cursor ∧
        iri.type ∈ p.frontend.vocabulary.types ∧
        (parse (before ++ [iri])).1.leaves = before ++ [iri] ∧
        (parse (before ++ [iri])).1.endsBelow edgeRules = true ∧
          ∀ last ∈ before.getLast?, last.name ∉ closers := by
    decide +kernel
  obtain ⟨hbroken, -, hiff⟩ := relationships_offered {} "ask\x7b?s b".toList 8 8 cursor data
    iri hcursor (by decide) hiri rfl
  have hoffers : OffersRelationships p context := (hiff htaken).mpr hedge
  exact ⟨hcursor, by decide, hiri, rfl, htaken, hoffers, hbroken hoffers⟩

/-- Behind a semicolon an IRI is taken as an edge, and no relationships are offered; within
brackets of a path they are offered behind a step, where no IRI is taken. -/
theorem relationships_not_where_edges :
    let p := Language.sparql.profile {}
    let data : Data := { relationships := [⟨"urn:r", 1⟩] }
    let iri := Token.ofImage (((TokenType.regex "IRIREF" Rdf.iriRegex).withCategories
      [.iri]).withLabel "<http://example.com>") "<a>"
    let context (tokens : List Token) (offset : Nat) (cursor : Cursor) : Context :=
      { tokens, offset, cursor, candidates := candidatesAt p tokens cursor, data }
    let parse := p.frontend.grammar.parse p.frontend.vocabulary p.frontend.root
    let list := (p.frontend.parseDocument "ask\x7b?s ?p ?o;b".toList).tokens
    let behindSemicolon : Cursor := ⟨some 6, 6, ⟨13, 14⟩, none⟩
    let path := (p.frontend.parseDocument "ask\x7b?s(<a> b".toList).tokens
    let behindStep : Cursor := ⟨some 5, 5, ⟨11, 12⟩, none⟩
    (Cursor.locate? Language.sparql.completion list 14 = some behindSemicolon ∧
      (parse 14 (list.filter (·.stop ≤ 13) ++ [iri 13])).1.leaves =
        list.filter (·.stop ≤ 13) ++ [iri 13] ∧
      (parse 14 (list.filter (·.stop ≤ 13) ++ [iri 13])).1.endsBelow edgeRules = true ∧
      ¬ OffersRelationships p (context list 14 behindSemicolon)) ∧
    (Cursor.locate? Language.sparql.completion path 12 = some behindStep ∧
      (parse 12 (path.filter (·.stop ≤ 11) ++ [iri 11])).1.leaves ≠
        path.filter (·.stop ≤ 11) ++ [iri 11] ∧
      OffersRelationships p (context path 12 behindStep)) := by
  intro p data iri context parse list behindSemicolon path behindStep
  -- what is asked of each text is decided together, over one parse of it
  obtain ⟨hlist, htaken, hedge, hmissing⟩ :
      Cursor.locate? Language.sparql.completion list 14 = some behindSemicolon ∧
        (parse 14 (list.filter (·.stop ≤ 13) ++ [iri 13])).1.leaves =
          list.filter (·.stop ≤ 13) ++ [iri 13] ∧
        (parse 14 (list.filter (·.stop ≤ 13) ++ [iri 13])).1.endsBelow edgeRules = true ∧
        ¬ AsksForEdge .stardog (list.take behindSemicolon.assisted) := by
    decide +kernel
  obtain ⟨hpath, hclosed, hasked⟩ :
      Cursor.locate? Language.sparql.completion path 12 = some behindStep ∧
        (parse 12 (path.filter (·.stop ≤ 11) ++ [iri 11])).1.leaves ≠
          path.filter (·.stop ≤ 11) ++ [iri 11] ∧
        AsksForEdge .stardog (path.take behindStep.assisted) := by
    decide +kernel
  have hsilent : ¬ OffersRelationships p (context list 14 behindSemicolon) :=
    (offersRelationships_iff_asksForEdge (by decide) rfl).not.mpr hmissing
  have hoffered : OffersRelationships p (context path 12 behindStep) :=
    (offersRelationships_iff_asksForEdge (by decide) rfl).mpr hasked
  exact ⟨⟨hlist, htaken, hedge, hsilent⟩, hpath, hclosed, hoffered⟩

end Sparql

end GraphLanguages
