import GraphLanguages.Proofs.Grammar.Operations
import GraphLanguages.Proofs.Grammar.ParseTree
import GraphLanguages.Proofs.Languages

/-! Parsing: the tree and the error that belong together, and how long it takes. -/
namespace GraphLanguages.Grammar

/-- **A parse that terminates returns a tree over the tokens up to some place and the
error there, and the parses of the languages terminate.** -/
theorem parse_up_to :
    (∀ (g : Grammar) (v : Vocabulary) (root : String) (size : Nat) (tokens : List Token),
      g.Terminates v root size tokens →
        ∃ k, ParsedUpTo k size tokens (g.parse v root size tokens).1
          (g.parse v root size tokens).2) ∧
    ∀ (l : Language) (options : Options) (v : Vocabulary) (root : String) (size : Nat)
      (tokens : List Token), (l.frontend options).grammar.Terminates v root size tokens :=
  ⟨fun _ _ _ _ _ h => exists_parsedUpTo h,
    fun l options v root size tokens => terminates_iff_runs.mpr
      ((l.lawful options).progressive.exists_runs_document v root size tokens)⟩

/-- Selections that are closed before there are any: the tree holds the four tokens in front of
the closing brace, and the error is in the innermost of seven rules. -/
theorem parse_up_to_braces :
    let v := GraphQL.vocabulary .standard
    let tokens := [v.token "Query" "query" 0, v.token "LCurly" "\x7b" 6, v.token "Name" "a" 7,
      v.token "LCurly" "\x7b" 8, v.token "RCurly" "\x7d" 9, v.token "RCurly" "\x7d" 10]
    let parsed := GraphQL.grammar.parse v "Document" 11 tokens
    GraphQL.grammar.Terminates v "Document" 11 tokens ∧
      ParsedUpTo 4 11 tokens parsed.1 parsed.2 ∧
      parsed.2.map (·.rules) = some ["Document", "Definition", "OperationDefinition",
        "SelectionSet", "Selection", "Field", "SelectionSet"] := by
  intro v tokens parsed
  have hends : GraphQL.grammar.Terminates v "Document" 11 tokens := ⟨40, by decide +kernel⟩
  have hrun : parsed.1.leaves.length = 4 ∧
      parsed.2.map (·.rules) = some ["Document", "Definition", "OperationDefinition",
        "SelectionSet", "Selection", "Field", "SelectionSet"] := by
    decide +kernel
  obtain ⟨k, hk⟩ := parse_up_to.1 GraphQL.grammar v "Document" 11 tokens hends
  have hk₄ : k = 4 := by
    have hlength : (tokens.take k).length = 4 := hk.leaves ▸ hrun.1
    have hsix : tokens.length = 6 := rfl
    rw [List.length_take] at hlength
    omega
  exact ⟨hends, hk₄ ▸ hk, hrun.2⟩

/-- **Parsing and content assist take no more operations than a function of the number of
tokens.** Every round of a repetition takes a token or halts, and every call of a rule opens
a node under the depth limit. -/
theorem operations_bounded (l : Language) (options : Options) :
    (∃ f : Nat → Nat, ∀ (v : Vocabulary) (root : String) (size : Nat) (tokens : List Token),
      EndsWithin (f tokens.length) ((l.frontend options).grammar.parsing v size) root
          (l.frontend options).grammar.document tokens ∧
        EndsWithin (f tokens.length) ((l.frontend options).grammar.assisting v size) root
          (l.frontend options).grammar.entry tokens) ∧
      (l.frontend options).grammar.RoundsMove ∧ (l.frontend options).grammar.CallsOpen := by
  have hg := (l.lawful options).progressive
  generalize (l.frontend options).grammar = g at hg
  refine ⟨⟨fun n => 1 + g.document.bound g maxDepth n, fun v root size tokens => ⟨?_, ?_⟩⟩,
    hg.roundsMove, hg.callsOpen⟩
  · exact hg.endsWithin (.parsing v size) root hg.document
      (by simp [document, Phrase.size, Phrase.finish]) tokens
  · refine (hg.endsWithin (.assisting v size) root hg.entry (Nat.le_add_right _ 6) tokens).mono ?_
    -- the entry is the first part of the document
    exact Nat.add_le_add_left (Nat.le_add_right_of_le (Nat.le_add_left _ 1)) 1

/-- A statement with two objects. One function bounds its parse and content assist behind it,
the statement is a round of the document that takes all six tokens, and its first object is a
call that opens a node. -/
theorem operations_bounded_statement :
    let v := Turtle.vocabulary .turtle
    let tokens := [v.token "IRIREF" "<s>" 0, v.token "IRIREF" "<p>" 3, v.token "IRIREF" "<o>" 6,
      v.token "Comma" "," 9, v.token "INTEGER" "1" 10, v.token "Period" "." 11]
    let g := (Language.turtle.frontend {}).grammar
    let σ := g.parsing v 12
    let open_ := ["objectList", "predicateObjectList", "triples", "statement", "turtleDoc"]
    let s : State := { rest := tokens.drop 2 }
    (∃ f : Nat → Nat, EndsWithin (f 6) σ "turtleDoc" g.document tokens ∧
        EndsWithin (f 6) (g.assisting v 12) "turtleDoc" g.entry tokens) ∧
      (∃ s', Round σ ["turtleDoc"] g.entry { rest := tokens } (.done s') ∧ s'.rest.length < 6) ∧
      ∃ body s' o', g.rule "object" = .node "object" body ∧
        Runs σ open_ (.call "object") s (.done s') ∧ s'.rest = tokens.drop 3 ∧
        Runs σ ("object" :: open_) body s o' ∧ .done s' = o'.map (State.close "object" []) := by
  intro v tokens g σ open_ s
  have hσ : g.Uses σ := .parsing v 12
  have hasked : ((Lookahead.either Turtle.startsDirective Turtle.startsTriples).ask σ
      ["turtleDoc"] { rest := tokens }).1 = true := by
    decide +kernel
  have hstatement : (Phrase.run σ 40 ["turtleDoc"] (.node "statement"
      (.choose Turtle.startsDirective Turtle.directive (.seq Turtle.triples (.expect "Period"))))
        { rest := tokens }).shape = (some true, []) := by
    decide +kernel
  have hobject : (Phrase.run σ 40 open_ (.call "object") s).shape =
      (some true, tokens.drop 3) := by
    decide +kernel
  obtain ⟨⟨f, hf⟩, hrounds, hcalls⟩ := operations_bounded .turtle {}
  refine ⟨⟨f, hf v "turtleDoc" 12 tokens⟩, ?_, ?_⟩
  · obtain ⟨s', hs', -⟩ := Outcome.exists_done_of_shape hstatement
    have hround : Round σ ["turtleDoc"] g.entry { rest := tokens } (.done s') :=
      .loop hasked (runs_of_run hs' rfl)
    obtain ⟨_, ⟨⟩⟩ | ⟨_, ⟨⟩, hshorter⟩ := hrounds σ hσ _ (by decide) _ _ _ hround
    exact ⟨s', hround, hshorter⟩
  · obtain ⟨s', hs', hrest⟩ := Outcome.exists_done_of_shape hobject
    have hcall : Runs σ open_ (.call "object") s (.done s') := runs_of_run hs' rfl
    obtain ⟨rule, body, hrule, hopens⟩ := hcalls "object" rfl
    obtain ⟨rfl, -⟩ := Phrase.node.inj (show Turtle.object = .node rule body from hrule)
    obtain ⟨hdeep, -⟩ | ⟨-, o', hruns, hclosed⟩ := hopens σ hσ open_ s _ hcall
    · exact absurd hdeep (by decide)
    · exact ⟨body, s', o', hrule, hcall, hrest, hruns, hclosed⟩

/-- **A syntax error depends on the tokens up to the offending one alone.** Whatever comes
behind it, the parse returns the same tree and the same error, unless rules nest too deep. -/
theorem parse_eq_of_error (l : Language) (options : Options) (v : Vocabulary) (root : String)
    (size size' k : Nat) (tokens tokens' : List Token) (e : SyntaxError)
    (h : FailsAt (l.frontend options).grammar v root size tokens k e)
    (he : e.message ≠ Complaint.tooDeep.message v)
    (htokens : tokens'.take (k + 1) = tokens.take (k + 1)) :
    (l.frontend options).grammar.parse v root size' tokens' =
      (l.frontend options).grammar.parse v root size tokens :=
  parse_eq_of_failsAt (l.steady options) (l.lawful options).progressive h he htokens

/-- A selection set that is closed at once, with and without a colon behind it. -/
theorem parse_eq_of_error_braces :
    let opening := Token.ofImage (.literal "LCurly" "\x7b") "\x7b" 0
    let closing := Token.ofImage (.literal "RCurly" "\x7d") "\x7d" 1
    let colon := Token.ofImage (.literal "Colon" ":") ":" 2
    let f := Language.graphQL.frontend {}
    let e : SyntaxError :=
      { kind := .earlyExit, message := Complaint.alternatives f.vocabulary ["Name", "Spread"],
        token := closing, rules := ["Document", "Definition", "OperationDefinition", "SelectionSet"],
        previous := some opening }
    FailsAt f.grammar f.vocabulary "Document" 2 [opening, closing] 1 e ∧
      e.message ≠ Complaint.tooDeep.message f.vocabulary ∧
      f.grammar.parse f.vocabulary "Document" 3 [opening, closing, colon] =
        f.grammar.parse f.vocabulary "Document" 2 [opening, closing] := by
  intro opening closing colon f e
  have h : FailsAt f.grammar f.vocabulary "Document" 2 [opening, closing] 1 e :=
    ⟨by decide, rfl, by decide⟩
  have he : e.message ≠ Complaint.tooDeep.message f.vocabulary := by decide
  exact ⟨h, he, parse_eq_of_error .graphQL {} f.vocabulary "Document" 2 3 1 _ _ e h he rfl⟩

end GraphLanguages.Grammar
