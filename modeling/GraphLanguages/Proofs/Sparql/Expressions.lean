import GraphLanguages.Proofs.Grammar.Building
import GraphLanguages.Proofs.Sparql.Dialects
import GraphLanguages.Proofs.Sparql.QuadData

/-! Expressions of SPARQL as they are published.

Ten levels of operators call each other down to the terms, which hold expressions again. Every
node that is opened on the way comes out like the production of its name, and at every choice
the next token tells which way to go (`faithful_expression`). So before a closing parenthesis
just the words of the productions are taken as expressions, unless rules nest too deep, and
what is built is their only derivation (`expression_exact`). Patterns within expressions are
left out: they belong to the other half of the language. -/
namespace GraphLanguages.Sparql
open Grammar GraphLanguages.Tree

namespace Published

/-- One or more, with a separator between them. -/
def separated (item : Grammar.Form) (separator : String) : Grammar.Form :=
  .seq item (.many (.seq (token separator) item))

/-- Operands with one of the operators between them. -/
def operated (operand : Grammar.Form) (operators : List String) : Grammar.Form :=
  .seq operand (.many (.seq (.token operators) operand))

def expression : Grammar.Form := .rule "Expression"

def distinct : Grammar.Form := .optional (token "DISTINCT")

/-- From the weakest operators to the terms. A built-in call has its arguments in parentheses,
or none in empty ones, which are a token of their own. -/
def expressionRules : List (String × Grammar.Form) :=
  [("Expression", .rule "ConditionalOrExpression"),
   ("ConditionalOrExpression", separated (.rule "ConditionalAndExpression") "LogicalOr"),
   ("ConditionalAndExpression", separated (.rule "ValueLogical") "LogicalAnd"),
   ("ValueLogical", .rule "RelationalExpression"),
   ("RelationalExpression",
     .seq (.rule "NumericExpression")
       (.optional (.oneOf
         [.seq (.token ["Equals", "NotEquals", "LessThan", "GreaterThan", "LessThanEquals",
            "GreaterThanEquals"]) (.rule "NumericExpression"),
          .seq (token "IN") (.rule "ExpressionList"),
          .seq (token "NOT_IN") (.rule "ExpressionList")]))),
   ("ExpressionList",
     .alt (token "NIL")
       (.steps [token "LParen", separated expression "Comma", token "RParen"])),
   ("NumericExpression", .rule "AdditiveExpression"),
   ("AdditiveExpression", operated (.rule "MultiplicativeExpression") ["Plus", "Minus"]),
   ("MultiplicativeExpression", operated (.rule "UnaryExpression") ["Star", "ForwardSlash"]),
   ("UnaryExpression",
     .seq (.optional (.token ["Bang", "Plus", "Minus"])) (.rule "PrimaryExpression")),
   ("PrimaryExpression",
     .oneOf
       [.rule "BrackettedExpression", .rule "BuiltInCall", .rule "iriOrFunction",
        .rule "RDFLiteral", .rule "NumericLiteral", .rule "BooleanLiteral", .rule "Var"]),
   ("BrackettedExpression", .steps [token "LParen", expression, token "RParen"]),
   ("BuiltInCall",
     .alt (.rule "Aggregate")
       (.seq (.token (builtIns.map String.toUpper))
         (.alt (token "NIL")
           (.steps
             [token "LParen", .optional (separated expression "Comma"), token "RParen"])))),
   ("Aggregate",
     .oneOf
       [.steps [token "COUNT", token "LParen", distinct, .alt (token "Star") expression,
          token "RParen"],
        .steps [token "GROUP_CONCAT", token "LParen", distinct, expression,
          .optional (.steps [token "Semicolon", token "SEPARATOR", token "Equals",
            .rule "String"]),
          token "RParen"],
        .steps [.token ["SUM", "MIN", "MAX", "AVG", "SAMPLE"], token "LParen", distinct,
          expression, token "RParen"]]),
   ("iriOrFunction", .seq (.rule "iri") (.optional (.rule "ArgList"))),
   ("ArgList",
     .alt (token "NIL")
       (.steps [token "LParen", distinct, separated expression "Comma", token "RParen"])),
   ("iri", .alt (token "IRIREF") (.rule "PrefixedName")),
   ("PrefixedName", .token ["PNAME_LN", "PNAME_NS"]),
   ("RDFLiteral",
     .seq (.rule "String")
       (.optional (.alt (token "LANGTAG") (.seq (token "DoubleCaret") (.rule "iri"))))),
   ("String", string),
   ("NumericLiteral", .token ["INTEGER", "DECIMAL", "DOUBLE"]),
   ("BooleanLiteral", .token ["TRUE", "FALSE"]),
   ("Var", var)]

end Published

/-- The tokens behind which a pattern follows. -/
def patternTests : List String := ["EXISTS", "NOT_EXISTS"]

/-- All types but those. -/
def plainVocabulary : Vocabulary where
  types := (vocabulary .stardog).types.filter fun T => !patternTests.contains T.name

/-- What can be seen in front of each rule, the later ones being known. -/
def fronts : List (String × Outlook) :=
  Published.expressionRules.foldr (fun r known => (r.1, r.2.ahead known []) :: known) []

/-- What may come behind an expression. -/
def behind : List (String × Outlook) :=
  [("Expression", [["RParen", "Comma", "Semicolon"]])]

theorem faithful_expression :
    Faithful plainVocabulary patternTests Published.expressionRules fronts behind grammar := by
  decide +kernel

theorem plainVocabulary_subset : plainVocabulary.types ⊆ (vocabulary .stardog).types :=
  List.filter_subset_self _

theorem plainVocabulary_wellNamed : plainVocabulary.WellNamed where
  distinct := (distinct .stardog).of_subset plainVocabulary_subset
  no_end h := Inspection.no_end inspection (List.map_subset _ plainVocabulary_subset h)

/-- The tokens are of the dialect, and no pattern follows any. -/
structure Plain (dialect : Dialect) (tokens : List Token) : Prop where
  typed : ∀ t ∈ tokens, t.type ∈ (vocabulary dialect).types
  noTest : ∀ t ∈ tokens, t.name ∉ patternTests

section
variable {dialect : Dialect} {size : Nat} {open_ : List String} {tokens : List Token}

theorem Plain.underWay (h : Plain dialect tokens) :
    UnderWay plainVocabulary { rest := tokens } where
  typed t ht := by
    refine List.mem_filter.mpr ⟨?_, ?_⟩
    · cases dialect with
      | w3 => exact w3_sublist.subset (h.typed t ht)
      | stardog => exact h.typed t ht
    · rw [Bool.not_eq_true', ← Bool.not_eq_true, List.contains_iff_mem]
      exact h.noTest t ht
  error := rfl

/-- Either dialect knows as much of them as is needed. -/
theorem Plain.knowSame (h : Plain dialect tokens) :
    KnowSame (vocabulary dialect) plainVocabulary (names tokens) := by
  have hend : "EOF" ∉ (vocabulary .stardog).names := Inspection.no_end inspection
  have hdialect : KnowSame (vocabulary dialect) (vocabulary .stardog) (names tokens) := by
    cases dialect with
    | w3 => exact .of_subset names_subset_stardog hend h.typed
    | stardog => exact fun _ _ => rfl
  have hplain : KnowSame plainVocabulary (vocabulary .stardog) (names tokens) :=
    .of_subset (List.map_subset _ plainVocabulary_subset) hend h.underWay.typed
  exact fun u hu => (hdialect u hu).trans (hplain u hu).symm

/-- **Before a closing parenthesis, the rule for expressions takes just the words of the
productions, unless rules nest too deep, and builds their only derivation.** -/
theorem expression_exact (size : Nat) (open_ : List String) {closing : Token}
    (h : Plain dialect (tokens ++ [closing])) (hclosing : closing.name = "RParen") :
    ∃ o, (∃ fuel, ∀ n ≥ fuel,
        expression.run (grammar.parsing (vocabulary dialect) size) n open_
          { rest := tokens ++ [closing] } = o) ∧
      ((∃ s, o = .done s ∧ s.rest = [closing]) →
        Derives Published.expressionRules Published.expression (names tokens)) ∧
      (Derives Published.expressionRules Published.expression (names tokens) →
        (∃ s, o = .done s ∧ s.rest = [closing]) ∨
          ∃ s, o = .halted s ∧ TooDeep (vocabulary dialect) s) ∧
      ∀ s, o = .done s → s.rest = [closing] → ∃ tree, s.forest = [tree] ∧
        ∀ other, Unfolds Published.expressionRules Published.expression [other] ∧
          other.leaves = tokens ↔ other = tree := by
  obtain ⟨o, hruns⟩ : ∃ o, Runs (grammar.parsing (vocabulary dialect) size) open_ expression
      { rest := tokens ++ [closing] } o :=
    exists_runs rfl (lawful dialect).progressive open_ rfl _
  obtain ⟨hended, fuel, hfuel⟩ := exists_run hruns
  have hcalled : expression.faithful plainVocabulary patternTests Published.expressionRules
      fronts behind [] [["RParen"]] = true := by decide
  have hnext : Sees [["RParen"]] (names [closing]) := ⟨List.mem_singleton.mpr hclosing, trivial⟩
  -- what is done with the parenthesis left has built a derivation of the tokens
  have hsound : ∀ s, o = .done s → s.rest = [closing] → ∃ tree, s.forest = [tree] ∧
      Unfolds Published.expressionRules Published.expression [tree] ∧ tree.leaves = tokens := by
    intro s ho hrest
    obtain ⟨f, hf, hforest, hleaves⟩ := built_of_runs faithful_expression
      plainVocabulary_wellNamed hruns h.knowSame h.underWay ho hcalled (sees_nil _)
    obtain ⟨φ, g, _, _, rfl⟩ := unfolds_rule.mp hf
    rw [hrest] at hleaves
    have hsame : leavesOf [.node "Expression" g] = tokens := (List.append_cancel_right hleaves).symm
    exact ⟨.node "Expression" g, by simpa using hforest, hf, by simpa [leavesOf] using hsame⟩
  -- and on the leaves of a derivation it builds that one
  have hcomplete : ∀ f, Unfolds Published.expressionRules Published.expression f →
      leavesOf f = tokens →
        Builds (vocabulary dialect) { rest := tokens ++ [closing] } f [closing] o :=
    fun f hf hleaves => builds_of_runs faithful_expression plainVocabulary_wellNamed hruns
      h.knowSame h.underWay hcalled hf (by rw [hleaves]) hnext
  refine ⟨o, ⟨fuel, fun n hn => ?_⟩, ?_, fun hd => ?_, fun s ho hrest => ?_⟩
  · rw [run_mono (hfuel ▸ hended) hn, hfuel]
  · rintro ⟨s, ho, hrest⟩
    obtain ⟨tree, _, hunfolds, rfl⟩ := hsound s ho hrest
    simpa [leavesOf] using hunfolds.derives
  · obtain ⟨f, hf, hleaves⟩ := exists_unfolds hd rfl
    cases hcomplete f hf hleaves with
    | @done s _ hrest => exact .inl ⟨s, rfl, hrest⟩
    | @tooDeep s hdeep => exact .inr ⟨s, rfl, hdeep⟩
  · obtain ⟨tree, hforest, hunfolds, hleaves⟩ := hsound s ho hrest
    refine ⟨tree, hforest, fun other => ⟨fun ⟨hother, hl⟩ => ?_, ?_⟩⟩
    · subst ho
      cases hcomplete [other] hother (by simpa [leavesOf] using hl) with
      | done hbuilt _ => simpa [hforest] using hbuilt.symm
    · rintro rfl
      exact ⟨hunfolds, hleaves⟩

/-- `!true || ?x > 2 * (?y + 1) && ?z`, operators of six levels and a sum in parentheses. The run
is done, so the tokens are a word of the productions; as they are one, the run is done or rules
nest too deep; and what it has built is their only derivation. -/
theorem expression_exact_product :
    let v := vocabulary .w3
    let tokens := [v.token "Bang" "!" 0, v.token "TRUE" "true" 1, v.token "LogicalOr" "||" 5,
      v.token "VAR1" "?x" 7, v.token "GreaterThan" ">" 9, v.token "INTEGER" "2" 10,
      v.token "Star" "*" 11, v.token "LParen" "(" 12, v.token "VAR1" "?y" 13,
      v.token "Plus" "+" 15, v.token "INTEGER" "1" 16, v.token "RParen" ")" 17,
      v.token "LogicalAnd" "&&" 18, v.token "VAR1" "?z" 20]
    let closing := v.token "RParen" ")" 22
    let run n := expression.run (grammar.parsing v 23) n [] { rest := tokens ++ [closing] }
    let derives := Derives Published.expressionRules Published.expression (names tokens)
    Plain .w3 (tokens ++ [closing]) ∧ closing.name = "RParen" ∧
      ∃ o, (∃ fuel, ∀ n ≥ fuel, run n = o) ∧ derives ∧
        (derives → (∃ s, o = .done s ∧ s.rest = [closing]) ∨ ∃ s, o = .halted s ∧ TooDeep v s) ∧
        ∃ s tree, o = .done s ∧ s.rest = [closing] ∧ s.forest = [tree] ∧
          ∀ other, Unfolds Published.expressionRules Published.expression [other] ∧
            other.leaves = tokens ↔ other = tree := by
  intro v tokens closing run derives
  obtain ⟨⟨htyped, htests⟩, hclosing, hshape⟩ : ((∀ t ∈ tokens ++ [closing], t.type ∈ v.types) ∧
      ∀ t ∈ tokens ++ [closing], t.name ∉ patternTests) ∧ closing.name = "RParen" ∧
        (run 60).shape = (some true, [closing]) := by
    decide +kernel
  have hplain : Plain .w3 (tokens ++ [closing]) := ⟨htyped, htests⟩
  obtain ⟨s, hs, hrest⟩ := Outcome.exists_done_of_shape hshape
  obtain ⟨o, ⟨fuel, hfuel⟩, hsound, hcomplete, htree⟩ := expression_exact 23 [] hplain hclosing
  have ho : o = .done s := by
    have hended : (run 60).ended = true := by rw [hs]; rfl
    rw [← hfuel _ (Nat.le_max_left fuel 60), run_mono hended (Nat.le_max_right fuel 60)]
    exact hs
  obtain ⟨tree, hforest, honly⟩ := htree s ho hrest
  exact ⟨hplain, hclosing, o, ⟨fuel, hfuel⟩, hsound ⟨s, ho, hrest⟩, hcomplete,
    s, tree, ho, hrest, hforest, honly⟩

end

end GraphLanguages.Sparql
