import GraphLanguages.Proofs.Grammar.Placement
import GraphLanguages.Proofs.Grammar.Reads
import GraphLanguages.Proofs.Lexer
import GraphLanguages.Proofs.PrefixedNames
import GraphLanguages.Proofs.Turtle

/-! TriG contains Turtle.

The keyword that TriG adds is read only where Turtle finds nothing it knows
(`first_cases`), since a prefixed name that begins like it is longer. So documents of Turtle
have the same tokens in TriG. There every statement is a directive or a block, which nests no
deeper (`reads_trig_of_turtle`). The other way round, what derives as TriG without a brace
derives as Turtle (`derives_turtleDoc`), where only the nesting of statements can be too
deep. -/
namespace GraphLanguages.Turtle
open Grammar Rdf

/-! ### Tokens -/

def lexer (flavour : Flavour) : Lexer :=
  (frontend flavour true).lexer

def graphRule : TokenType × Matcher :=
  (.keyword "GRAPH" "graph", .spaced ["graph".toList])

/-- The types before the keyword that TriG adds. -/
def typesBefore : List TokenType :=
  (vocabulary .turtle).types.take 5

/-- The types behind it. -/
def typesBehind : List TokenType :=
  (vocabulary .turtle).types.drop 5

/-- What inspection shows of the rules and the grammars. -/
structure Inspection : Prop where
  trig : (vocabulary .trig).types = typesBefore ++ [graphRule.1] ++ typesBehind
  rule : Lexer.rulesOf [graphRule.1] = [graphRule]
  letters : "graph".toList.any (Text.sameLetter · ':') = false
  meets : ∀ r ∈ (lexer .turtle).rules, r.2.meets "graph".toList = true →
    r.2 = .regex prefixedNameRegex ∨ r.2 = .regex namespaceRegex
  unknown : (lexer .turtle).unknown = Vocabulary.unknownType ∧
    (lexer .trig).unknown = Vocabulary.unknownType
  no_end : "EOF" ∉ (vocabulary .trig).names
  grounded : ∀ flavour ∈ [Flavour.turtle, Flavour.trig], Grounded (grammar flavour)
  /-- Turtle has no use for these names. -/
  unused : ∀ name ∈ [Vocabulary.unknownName, "GRAPH"],
    Published.turtleDoc.places name [] = true ∧
      ∀ r ∈ Published.productions, r.2.places name [] = true

theorem inspection : Inspection where
  trig := by decide +kernel
  rule := by decide +kernel
  letters := by decide +kernel
  meets := by decide +kernel
  unknown := by decide +kernel
  no_end := by decide +kernel
  grounded := by decide +kernel
  unused := by decide +kernel

theorem turtle_types : (vocabulary .turtle).types = typesBefore ++ typesBehind :=
  (List.take_append_drop 5 _).symm

theorem turtle_rules :
    (lexer .turtle).rules = Lexer.rulesOf typesBefore ++ Lexer.rulesOf typesBehind := by
  show Lexer.rulesOf (vocabulary .turtle).types = _
  rw [turtle_types, Lexer.rulesOf_append]

theorem trig_rules :
    (lexer .trig).rules =
      Lexer.rulesOf typesBefore ++ [graphRule] ++ Lexer.rulesOf typesBehind := by
  show Lexer.rulesOf (vocabulary .trig).types = _
  rw [Inspection.trig inspection, Lexer.rulesOf_append, Lexer.rulesOf_append,
    Inspection.rule inspection]

theorem mem_trig_rules {r : TokenType × Matcher} :
    r ∈ (lexer .trig).rules ↔ r = graphRule ∨ r ∈ (lexer .turtle).rules := by
  rw [trig_rules, turtle_rules, List.append_assoc, List.mem_append, List.mem_append,
    List.mem_append, List.mem_singleton]
  exact or_left_comm

theorem turtle_subset : (vocabulary .turtle).types ⊆ (vocabulary .trig).types := by
  rw [turtle_types, Inspection.trig inspection, List.append_assoc]
  exact List.append_subset.mpr ⟨List.subset_append_left .., fun _ h => by simp [h]⟩

/-- Where the keyword of TriG is not beaten by a longer match, no rule of Turtle matches. -/
theorem nothing_beside_graph {cs : List Char} (hwidth : 0 < Lexer.width cs graphRule)
    (hmost : ¬ ∃ r ∈ (lexer .turtle).rules, Lexer.width cs graphRule < Lexer.width cs r) :
    ∀ r ∈ (lexer .turtle).rules, Lexer.width cs r = 0 := by
  obtain ⟨rest, k, hword, hk, hlength⟩ := Matcher.words?_cons (Lexer.match?_of_width_pos hwidth)
  obtain rfl : 0 = k := by simpa [Matcher.spacedWords?] using hk
  intro r hr
  by_contra hr'
  -- a rule of Turtle that matches as well is that of a longer name
  have hpos := Nat.pos_of_ne_zero hr'
  have hname := Inspection.meets inspection r hr
    (Lexer.meets_of_width_pos (by rw [hword]; rfl) (by decide) hpos)
  have hlonger := (longer_than_keyword hname (Inspection.letters inspection) hword hpos).1
  exact hmost ⟨r, hr, hlength ▸ hlonger⟩

/-- At the start of a text both read the same, unless Turtle reads something unknown and
TriG its keyword. -/
theorem first_cases (cs : List Char) :
    (lexer .trig).first cs = (lexer .turtle).first cs ∨
      ((lexer .turtle).first cs).2 = Vocabulary.unknownType ∧
        ((lexer .trig).first cs).2 = graphRule.1 := by
  obtain ⟨hunknown, hunknown'⟩ := Inspection.unknown inspection
  by_cases hbeaten : Lexer.width cs graphRule = 0 ∨
      ∃ r ∈ (lexer .turtle).rules, Lexer.width cs graphRule < Lexer.width cs r
  · have hlongest := Lexer.longest?_of_insert turtle_rules trig_rules
      fun r hr => List.mem_singleton.mp hr ▸ hbeaten
    left
    rw [Lexer.first, Lexer.first, hlongest, hunknown, hunknown']
  · obtain ⟨hpos, hmost⟩ := not_or.mp hbeaten
    have hwidth := Nat.pos_of_ne_zero hpos
    have hnone := nothing_beside_graph hwidth hmost
    have hmem : graphRule ∈ (lexer .trig).rules := mem_trig_rules.mpr (.inl rfl)
    obtain ⟨q, hq, hle, hlongest⟩ := Lexer.exists_longest hmem hwidth
    have hgraph : q = graphRule := by
      refine (mem_trig_rules.mp hq).resolve_right fun hturtle => ?_
      have := hnone q hturtle
      omega
    right
    rw [Lexer.first, Lexer.first, Lexer.longest?_eq_none hnone, hunknown, hlongest, hgraph]
    exact ⟨rfl, rfl⟩

theorem skipped_eq : (lexer .trig).skipped = (lexer .turtle).skipped := rfl

theorem tokenize_trig {raw : List Char}
    (h : ∀ t ∈ (lexer .turtle).tokenize raw, t.name ≠ Vocabulary.unknownName) :
    (lexer .trig).tokenize raw = (lexer .turtle).tokenize raw := by
  have hfirst : ∀ cs, (lexer .trig).first cs = (lexer .turtle).first cs ∨
      ((lexer .turtle).first cs).2.name = Vocabulary.unknownName := fun cs =>
    (first_cases cs).imp_right fun h => congrArg (·.name) h.1
  exact Lexer.tokensFrom_congr skipped_eq hfirst h

theorem tokenize_turtle {raw : List Char}
    (h : ∀ t ∈ (lexer .trig).tokenize raw, t.name ≠ "GRAPH") :
    (lexer .turtle).tokenize raw = (lexer .trig).tokenize raw := by
  have hfirst : ∀ cs, (lexer .turtle).first cs = (lexer .trig).first cs ∨
      ((lexer .trig).first cs).2.name = "GRAPH" := fun cs =>
    (first_cases cs).imp Eq.symm fun h => congrArg (·.name) h.2
  exact Lexer.tokensFrom_congr skipped_eq.symm hfirst h

/-! ### Statements are blocks -/

section
variable {v : Vocabulary} {g : Grammar} {d : Nat} {w w' : Word}

/-- What does not begin like the name of a graph is read as triples of no graph. -/
theorem reads_block_unlabelled {u : String} (hu : u ∈ ["LBracket", "LParen"])
    (h : Reads v g (d + 1) unlabelledTriples (u :: w) w') (hd : d < maxDepth) :
    Reads v g d block (u :: w) w' := by
  refine .node hd ?_
  simp only [List.mem_cons, List.not_mem_nil, or_false] at hu
  rcases hu with rfl | rfl <;> exact .chooseNo rfl (.chooseNo rfl (.chooseYes rfl h))

theorem reads_block_labelled {u : String} (hu : u ∈ iriStarts ++ blankNodeStarts)
    (h : Reads v g (d + 1) triplesOrGraph (u :: w) w') (hd : d < maxDepth) :
    Reads v g d block (u :: w) w' := by
  refine .node hd ?_
  simp only [iriStarts, blankNodeStarts, List.cons_append, List.nil_append, List.mem_cons,
    List.not_mem_nil, or_false] at hu
  rcases hu with rfl | rfl | rfl | rfl | rfl <;>
    exact .chooseNo rfl (.chooseNo rfl (.chooseNo rfl h))

theorem head_of_iri (h : Reads v g d iri w w') :
    ∃ u ∈ iriStarts, ∃ rest, w = u :: rest := by
  obtain ⟨-, h⟩ := reads_node.mp h
  cases h with
  | chooseYes hu _ =>
    obtain ⟨rest, rfl⟩ := Lookahead.holdsOn_is.mp hu
    exact ⟨"IRIREF", by decide, rest, rfl⟩
  | chooseNo _ h =>
    cases h with
    | chooseYes hu _ =>
      obtain ⟨u, hmem, rest, rfl⟩ := Lookahead.holdsOn_anyOf.mp hu
      exact ⟨u, List.mem_cons_of_mem _ hmem, rest, rfl⟩
    | chooseNo _ h => exact absurd h (not_reads_reject _)

/-- What comes behind a subject is not a graph. -/
theorem no_graph_of_verb (h : Reads v g d predicateObjectList w w') :
    (Lookahead.is "LCurly").holdsOn v w = false := by
  obtain ⟨-, h⟩ := reads_node.mp h
  obtain ⟨w₁, hverb, -⟩ := reads_seq.mp h
  obtain ⟨-, hverb⟩ := reads_node.mp hverb
  cases hverb with
  | chooseYes hu _ =>
    obtain ⟨rest, rfl⟩ := Lookahead.holdsOn_is.mp hu
    rfl
  | chooseNo _ h =>
    obtain ⟨-, h⟩ := reads_node.mp h
    obtain ⟨u, hu, rest, rfl⟩ := head_of_iri h
    simp only [iriStarts, List.mem_cons, List.not_mem_nil, or_false] at hu
    rcases hu with rfl | rfl | rfl <;> rfl

/-- Triples about what may be the name of a graph are read where one would be. -/
theorem reads_block_of_label {u : String} {rest w₁ : Word} (hu : u ∈ iriStarts ++ blankNodeStarts)
    (hlabel : Reads v g (d + 3) (.choose startsIri iri blankNode) (u :: rest) w₁)
    (hverbs : Reads v g (d + 2) predicateObjectList w₁ ("Period" :: w'))
    (hd : d + 2 < maxDepth) : Reads v g d block (u :: rest) w' := by
  have hsteps : Reads v g (d + 2) (.seq predicateObjectList (.expect "Period")) w₁ w' :=
    .seq hverbs (reads_expect.mpr rfl)
  refine reads_block_labelled hu (.node (by omega) (.seq (.node hd hlabel) ?_)) (by omega)
  exact .chooseNo (no_graph_of_verb hverbs) hsteps

/-- Triples with a full stop behind them are a block, which nests no deeper. -/
theorem reads_block_of_triples (h : Reads v g (d + 1) triples w ("Period" :: w')) :
    Reads v g d block w w' := by
  obtain ⟨hlt, h⟩ := reads_node.mp h
  have hd : d < maxDepth := Nat.lt_of_succ_lt hlt
  have hperiod {e : Nat} : Reads v g e (.expect "Period") ("Period" :: w') w' :=
    reads_expect.mpr rfl
  cases h with
  | chooseYes hu h =>
    obtain ⟨rest, rfl⟩ := Lookahead.holdsOn_is.mp hu
    exact reads_block_unlabelled (by decide) (.node hlt (.seq (.chooseYes rfl h) hperiod)) hd
  | chooseNo _ h =>
    obtain ⟨w₁, hsubject, hverbs⟩ := reads_seq.mp h
    obtain ⟨hlt', hsubject⟩ := reads_node.mp hsubject
    cases hsubject with
    | chooseYes hu hsubject =>
      obtain ⟨u, hmem, rest, rfl⟩ := Lookahead.holdsOn_anyOf.mp hu
      exact reads_block_of_label (List.mem_append_left _ hmem) (.chooseYes hu hsubject) hverbs hlt'
    | chooseNo hno hsubject =>
      cases hsubject with
      | chooseYes hu hsubject =>
        obtain ⟨u, hmem, rest, rfl⟩ := Lookahead.holdsOn_anyOf.mp hu
        exact reads_block_of_label (List.mem_append_right _ hmem) (.chooseNo hno hsubject) hverbs
          hlt'
      | chooseNo _ hsubject =>
        -- a collection opens no label, and is a node less deep without the subject around it
        have hcollection := hsubject.shallower (Nat.le_succ (d + 2))
        obtain ⟨-, hsteps⟩ := reads_node.mp hsubject
        obtain ⟨w₂, hopen, -⟩ := reads_seq.mp hsteps
        obtain rfl := reads_expect.mp hopen
        refine reads_block_unlabelled (by decide) (.node hlt (.seq ?_ hperiod)) hd
        exact .chooseNo rfl (.seq hcollection hverbs)

/-- Statements are blocks or directives, which nest no deeper. -/
theorem reads_trig_of_turtle (h : Reads v g d turtleDocument w []) :
    Reads v g d trigDocument w [] := by
  refine h.loop (fun w w₁ htest hstatement => ?_) rfl
  obtain ⟨-, hstatement⟩ := reads_node.mp hstatement
  have htest' : (Lookahead.either startsDirective startsBlock).holdsOn v w = true := by
    simp only [Lookahead.holdsOn, startsBlock, Bool.or_eq_true] at htest ⊢
    exact htest.imp_right (.inr ∘ .inr)
  refine ⟨htest', ?_⟩
  cases hstatement with
  | chooseYes hyes hdirective => exact .chooseYes hyes (hdirective.shallower (Nat.le_succ d))
  | chooseNo hno h =>
    obtain ⟨w₂, htriples, hperiod⟩ := reads_seq.mp h
    obtain rfl := reads_expect.mp hperiod
    exact .chooseNo hno (reads_block_of_triples htriples)

end

/-- Both have the same named phrases. -/
theorem rule_eq (flavour : Flavour) (name : String) :
    (grammar flavour).rule name = ([("object", object)].lookup name).getD .empty := rfl

/-! ### Without braces, blocks are statements -/

section
variable {rules : List (String × Form)} {w : Word}

theorem brace_of_wrappedGraph (h : Derives rules Published.wrappedGraph w) : "LCurly" ∈ w := by
  obtain ⟨w₁, w₂, htoken, -, rfl⟩ := derives_seq.mp h
  obtain ⟨u, hu, rfl⟩ := derives_token.mp htoken
  rw [List.mem_singleton.mp hu]
  exact List.mem_cons_self ..

theorem derives_seq_assoc {a b c : Form} (h : Derives rules (.seq a (.seq b c)) w) :
    Derives rules (.seq (.seq a b) c) w := by
  obtain ⟨w₁, w₂, ha, hbc, rfl⟩ := derives_seq.mp h
  obtain ⟨w₂, w₃, hb, hc, rfl⟩ := derives_seq.mp hbc
  rw [← List.append_assoc]
  exact .seq (.seq ha hb) hc

/-- Where each turn without the names is one of the other form, so are all of them. -/
theorem derives_many_without {a b : Form} {names : List String}
    (hab : ∀ w, (∀ u ∈ names, u ∉ w) → Derives rules a w → Derives rules b w)
    (h : Derives rules (.many a) w) (hw : ∀ u ∈ names, u ∉ w) : Derives rules (.many b) w := by
  generalize hφ : Form.many a = φ at h
  induction h with
  | none => exact .none
  | more ha _ _ ih =>
    cases hφ
    simp only [List.mem_append, not_or] at hw
    exact .more (hab _ (fun u hu => (hw u hu).1) ha) (ih (fun u hu => (hw u hu).2) rfl)
  | empty | token | seq | first | second | rule => cases hφ

theorem derives_triples_of_block (h : Derives rules Published.block w) (hw : "LCurly" ∉ w) :
    Derives rules (.seq Published.triples (Published.token "Period")) w := by
  rcases derives_alt.mp h with hnamed | h
  · obtain ⟨w₁, w₂, -, hrest, rfl⟩ := derives_seq.mp hnamed
    obtain ⟨w₃, w₄, -, hgraph, rfl⟩ := derives_seq.mp hrest
    exact absurd (by simp [brace_of_wrappedGraph hgraph]) hw
  rcases derives_alt.mp h with hgraph | h
  · exact absurd (brace_of_wrappedGraph hgraph) hw
  rcases derives_alt.mp h with hproperties | h
  · obtain ⟨w₁, w₂, htriples, hperiod, rfl⟩ := derives_seq.mp (derives_seq_assoc hproperties)
    exact .seq (.first htriples) hperiod
  rcases derives_alt.mp h with hcollection | hlabelled
  · obtain ⟨w₁, w₂, htriples, hperiod, rfl⟩ := derives_seq.mp (derives_seq_assoc hcollection)
    obtain ⟨w₃, w₄, hsubject, hverbs, rfl⟩ := derives_seq.mp htriples
    exact .seq (.second (.seq (.second (.second hsubject)) hverbs)) hperiod
  · obtain ⟨w₁, w₂, hlabel, hrest, rfl⟩ := derives_seq.mp hlabelled
    rcases derives_alt.mp hrest with hgraph | hverbs
    · exact absurd (by simp [brace_of_wrappedGraph hgraph]) hw
    · have hsubject : Derives rules
          (.oneOf [Published.iri, Published.blankNode, Published.collection]) w₁ := by
        rcases derives_alt.mp hlabel with hiri | hblank
        · exact .first hiri
        · exact .second (.first hblank)
      obtain ⟨w₃, w₄, htriples, hperiod, heq⟩ :=
        derives_seq.mp (derives_seq_assoc (.seq hsubject hverbs))
      exact heq ▸ .seq (.second htriples) hperiod

/-- What derives as TriG without a brace derives as Turtle. -/
theorem derives_turtleDoc (h : Derives rules Published.trigDoc w) (hw : "LCurly" ∉ w) :
    Derives rules Published.turtleDoc w := by
  refine derives_many_without (fun w hw h => ?_) h (List.forall_mem_singleton.mpr hw)
  rcases derives_alt.mp h with h | h
  · exact .first h
  · exact .second (derives_triples_of_block h (hw _ (List.mem_singleton_self _)))

end

/-- Turtle derives nothing with a name that it has no use for. -/
theorem not_mem_of_derives {w : Word} {name : String}
    (hname : name ∈ [Vocabulary.unknownName, "GRAPH"])
    (h : Derives Published.productions Published.turtleDoc w) : name ∉ w := by
  obtain ⟨hdocument, hrules⟩ := Inspection.unused inspection name hname
  exact (onlyBefore_of_derives hrules h hdocument).not_mem

/-! ### Documents -/

section
variable (flavour : Flavour) (checksPrefixes : Bool) (raw : List Char)

def parsed : ParseOutput :=
  (frontend flavour checksPrefixes).parseDocument raw

/-- The error of the tokens of a text. -/
def errorOf : Option SyntaxError :=
  ((grammar flavour).parse (vocabulary flavour) (root flavour) (Text.bytes raw)
    ((lexer flavour).tokenize raw)).2

theorem parsed_tokens :
    (parsed flavour checksPrefixes raw).tokens = (lexer flavour).tokenize raw := rfl

theorem parsed_errors :
    (parsed flavour checksPrefixes raw).errors = (errorOf flavour raw).toList := by
  rw [errorOf]
  rfl

theorem parsed_semantic :
    (parsed flavour checksPrefixes raw).semantic =
      (frontend flavour checksPrefixes).check ((lexer flavour).tokenize raw) := rfl

theorem type_of_mem_tokenize :
    ∀ t ∈ (lexer flavour).tokenize raw, t.type ∈ (vocabulary flavour).types :=
  fun _ => Lexer.type_mem_of_tokenize

theorem grounded : Grounded (grammar flavour) :=
  Inspection.grounded inspection flavour (by cases flavour <;> decide)

end

section
variable {raw : List Char}

theorem derives_of_errorOf {flavour : Flavour} (h : errorOf flavour raw = none) :
    Derives Published.productions (Published.document flavour)
      (names ((lexer flavour).tokenize raw)) := by
  rw [errorOf] at h
  exact ((describes flavour).exact (lawful flavour).progressive (lawful flavour).distinct
    (type_of_mem_tokenize flavour raw)).1 h

theorem tokenize_of_turtle (h : errorOf .turtle raw = none) :
    (lexer .trig).tokenize raw = (lexer .turtle).tokenize raw := by
  refine tokenize_trig fun t ht hname => ?_
  have hunknown := not_mem_of_derives (List.mem_cons_self ..) (derives_of_errorOf h)
  exact hunknown (List.mem_map.mpr ⟨t, ht, hname⟩)

/-- A document of Turtle is one of TriG. -/
theorem errorOf_trig (h : errorOf .turtle raw = none) : errorOf .trig raw = none := by
  have htokens := tokenize_of_turtle h
  have htyped := type_of_mem_tokenize .trig raw
  have hknown : KnowSame (vocabulary .turtle) (vocabulary .trig)
      (names ((lexer .turtle).tokenize raw)) :=
    .of_subset (List.map_subset _ turtle_subset) (Inspection.no_end inspection)
      (type_of_mem_tokenize .turtle raw)
  have hwidened : ((grammar .turtle).parse (vocabulary .trig) (root .turtle) (Text.bytes raw)
      ((lexer .trig).tokenize raw)).2 = none := by
    rw [errorOf] at h
    rw [htokens, parse_widen (lawful .turtle).progressive hknown h]
    exact h
  have hturtle : Reads (vocabulary .trig) (grammar .turtle) 1 turtleDocument
      (names ((lexer .trig).tokenize raw)) [] :=
    (parse_eq_none_iff (lawful .turtle).progressive (lawful .trig).distinct (grounded .turtle)
      htyped).mp hwidened
  have htrig : Reads (vocabulary .trig) (grammar .trig) 1 trigDocument
      (names ((lexer .trig).tokenize raw)) [] :=
    (reads_trig_of_turtle hturtle).congr
      (funext fun name => (rule_eq .trig name).trans (rule_eq .turtle name).symm)
  rw [errorOf]
  exact (parse_eq_none_iff (lawful .trig).progressive (lawful .trig).distinct (grounded .trig)
    htyped).mpr htrig

/-- A document of TriG without braces is one of Turtle, unless that nests too deep. -/
theorem errorOf_turtle (h : errorOf .trig raw = none)
    (hbrace : ∀ t ∈ (lexer .trig).tokenize raw, t.name ≠ "LCurly") :
    (lexer .turtle).tokenize raw = (lexer .trig).tokenize raw ∧
      (errorOf .turtle raw = none ∨ ∃ e, errorOf .turtle raw = some e ∧
        e.message = Complaint.tooDeep.message (vocabulary .turtle)) := by
  have hderives := derives_turtleDoc (derives_of_errorOf h) fun hmem => by
    obtain ⟨t, ht, hname⟩ := List.mem_map.mp hmem
    exact hbrace t ht hname
  have htokens : (lexer .turtle).tokenize raw = (lexer .trig).tokenize raw := by
    refine tokenize_turtle fun t ht hname => ?_
    exact not_mem_of_derives (by simp) hderives (List.mem_map.mpr ⟨t, ht, hname⟩)
  refine ⟨htokens, ?_⟩
  rw [errorOf]
  exact ((describes .turtle).exact (lawful .turtle).progressive (lawful .turtle).distinct
    (type_of_mem_tokenize .turtle raw)).2 (htokens ▸ hderives)

end

/-- **TriG contains Turtle.** A document that is parsed as Turtle without syntax errors is so
as TriG, with the same tokens and the same complaints about prefixes; one that is parsed as
TriG and has no brace is parsed as Turtle, unless rules nest too deep there. -/
theorem trig_contains_turtle (checksPrefixes : Bool) (raw : List Char) :
    ((parsed .turtle checksPrefixes raw).errors = [] →
      (parsed .trig checksPrefixes raw).errors = [] ∧
      (parsed .trig checksPrefixes raw).tokens = (parsed .turtle checksPrefixes raw).tokens ∧
      (parsed .trig checksPrefixes raw).semantic =
        (parsed .turtle checksPrefixes raw).semantic) ∧
    ((parsed .trig checksPrefixes raw).errors = [] →
      (∀ t ∈ (parsed .trig checksPrefixes raw).tokens, t.name ≠ "LCurly") →
      (parsed .turtle checksPrefixes raw).tokens = (parsed .trig checksPrefixes raw).tokens ∧
        ((parsed .turtle checksPrefixes raw).errors = [] ∨
          ∃ e, (parsed .turtle checksPrefixes raw).errors = [e] ∧
            e.message = Complaint.tooDeep.message (vocabulary .turtle))) := by
  have herrors (flavour : Flavour) :
      (parsed flavour checksPrefixes raw).errors = [] ↔ errorOf flavour raw = none := by
    rw [parsed_errors, Option.toList_eq_nil_iff]
  simp only [herrors, parsed_tokens, parsed_semantic]
  constructor
  · intro h
    have htokens := tokenize_of_turtle h
    exact ⟨errorOf_trig h, htokens, by rw [htokens]; rfl⟩
  · intro h hbrace
    obtain ⟨htokens, hturtle⟩ := errorOf_turtle h hbrace
    refine ⟨htokens, hturtle.imp_right ?_⟩
    rintro ⟨e, he, hmessage⟩
    exact ⟨e, by rw [parsed_errors, he]; rfl, hmessage⟩

/-- A name that begins like the keyword of TriG, and a prefix that is not declared. -/
theorem trig_contains_turtle_graph :
    let turtle := parsed .turtle true "graph:s a [].".toList
    let trig := parsed .trig true "graph:s a [].".toList
    (turtle.errors = [] ∧ trig.errors = [] ∧ trig.tokens = turtle.tokens ∧
        trig.semantic = turtle.semantic) ∧
      (trig.errors = [] ∧ (∀ t ∈ trig.tokens, t.name ≠ "LCurly") ∧
        turtle.tokens = trig.tokens) := by
  intro turtle trig
  have hturtle : turtle.errors = [] := List.isEmpty_iff.mp (by decide)
  have htrig : trig.errors = [] := List.isEmpty_iff.mp (by decide)
  have hbrace : ∀ t ∈ trig.tokens, t.name ≠ "LCurly" := by decide
  have hcontains := trig_contains_turtle true "graph:s a [].".toList
  exact ⟨⟨hturtle, hcontains.1 hturtle⟩, htrig, hbrace, (hcontains.2 htrig hbrace).1⟩

end GraphLanguages.Turtle
