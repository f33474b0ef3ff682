import GraphLanguages.Proofs.Grammar.Sparing
import GraphLanguages.Proofs.ParseOutput
import GraphLanguages.Diagnostics

/-! Text that matches nothing is never accepted.

No grammar of the languages takes an unknown token (`Language.sparing`), so none is a leaf
of a tree, and a document with one has a syntax error. That error is a diagnostic, also
where unknown tokens are not reported themselves. -/
namespace GraphLanguages
open Grammar Text

/-- Text that matches nothing gets the one type that says so. -/
def Vocabulary.OneUnknown (v : Vocabulary) : Prop :=
  ∀ T ∈ v.types, T.has .unknown = true → T = unknownType

instance (v : Vocabulary) : Decidable v.OneUnknown :=
  inferInstanceAs (Decidable (∀ T ∈ v.types, _))

namespace ParseOutput
variable {o : ParseOutput} {raw : List Char}

/-- Moving a parse to the raw text keeps the types of its tokens. -/
theorem toRaw_eq_map (o : ParseOutput) (raw : List Char) :
    ∃ f : Token → Token, (∀ u, (f u).type = u.type) ∧
      (o.toRaw raw).tree.leaves = o.tree.leaves.map f ∧
      (o.toRaw raw).tokens = o.tokens.map f := by
  unfold ParseOutput.toRaw
  split
  next => exact ⟨id, fun _ => rfl, (List.map_id _).symm, (List.map_id _).symm⟩
  next m _ =>
    exact ⟨Token.toRaw m raw, Token.type_toRaw m raw, Tree.leaves_mapTokens .., rfl⟩

theorem errors_toRaw_eq_nil (h : (o.toRaw raw).errors = []) : o.errors = [] := by
  unfold ParseOutput.toRaw at h
  split at h
  next => exact h
  next => exact List.map_eq_nil_iff.mp h

/-- Every error is a diagnostic, whatever else is reported. -/
theorem diagnostics_ne_nil (he : o.errors ≠ []) {text : String} (ht : text ≠ "")
    (settings : DiagnosticSettings) : o.diagnostics settings text ≠ [] := by
  have hempty : text.isEmpty = false := by simpa using ht
  rw [diagnostics, hempty, if_neg (by decide)]
  simp [he]

end ParseOutput

namespace Frontend
variable {f : Frontend} {raw : List Char} {t : Token}

/-- Every token of a type that the grammar spares keeps the parse from being accepted. -/
theorem errors_ne_nil_of_sparing {T : TokenType} (hg : Sparing T f.grammar)
    (hp : Progressive f.grammar) (ht : t ∈ (f.parseDocument raw).tokens) (hT : t.type = T) :
    (f.parseDocument raw).errors ≠ [] := by
  intro herrors
  obtain ⟨move, htype, -, htokens⟩ := (f.parse raw).toRaw_eq_map raw
  rw [parseDocument, htokens] at ht
  obtain ⟨u, hu, rfl⟩ := List.mem_map.mp ht
  have hparse : (f.parse raw).errors = [] := ParseOutput.errors_toRaw_eq_nil herrors
  exact hg.error_of_mem hp hu ((htype u).symm.trans hT) (Option.toList_eq_nil_iff.mp hparse)

theorem leaves_of_sparing {T : TokenType} (hg : Sparing T f.grammar)
    (hp : Progressive f.grammar) (ht : t ∈ (f.parseDocument raw).tree.leaves) : t.type ≠ T := by
  obtain ⟨move, htype, hleaves, -⟩ := (f.parse raw).toRaw_eq_map raw
  rw [parseDocument, hleaves] at ht
  obtain ⟨u, hu, rfl⟩ := List.mem_map.mp ht
  rw [htype u]
  exact hg.leaves hp u hu

end Frontend

namespace Language

theorem sparing (l : Language) (options : Options) :
    Sparing Vocabulary.unknownType (l.frontend options).grammar := by
  have hturtle (flavour : Turtle.Flavour) :
      Sparing Vocabulary.unknownType (Turtle.grammar flavour) := by
    cases flavour <;> decide
  cases l with
  | sparql =>
    show Sparing _ Sparql.grammar
    decide
  | graphQL =>
    show Sparing _ GraphQL.grammar
    decide
  | turtle | shacl => exact hturtle .turtle
  | trig => exact hturtle .trig

theorem oneUnknown (l : Language) (options : Options) :
    (l.frontend options).vocabulary.OneUnknown := by
  have hsparql (dialect : Sparql.Dialect) : (Sparql.vocabulary dialect).OneUnknown := by
    cases dialect <;> decide +kernel
  have hgraphQL (dialect : GraphQL.Dialect) : (GraphQL.vocabulary dialect).OneUnknown := by
    cases dialect <;> decide +kernel
  have hturtle (flavour : Turtle.Flavour) : (Turtle.vocabulary flavour).OneUnknown := by
    cases flavour <;> decide +kernel
  cases l with
  | sparql => exact hsparql _
  | graphQL => exact hgraphQL _
  | turtle | shacl => exact hturtle .turtle
  | trig => exact hturtle .trig

end Language

theorem Frontend.type_of_has_unknown {f : Frontend} (hv : f.vocabulary.OneUnknown)
    {raw : List Char} {t : Token} (ht : t ∈ (f.parseDocument raw).tokens)
    (hu : t.has .unknown = true) : t.type = Vocabulary.unknownType := by
  obtain ⟨move, htype, -, htokens⟩ := (f.parse raw).toRaw_eq_map raw
  rw [Frontend.parseDocument, htokens] at ht
  obtain ⟨u, hmem, rfl⟩ := List.mem_map.mp ht
  rw [htype u]
  rcases Lexer.type_of_mem_tokenize hmem with h | h
  · exact hv u.type h (by rwa [Token.has, htype u] at hu)
  · exact h

/-- **Text that matches nothing is never accepted.** No unknown token is a leaf of the tree;
where there is one, there is a syntax error, and a diagnostic whatever else is reported. -/
theorem unknown_rejected (l : Language) (options : Options) (text : String) :
    let o := (l.profile options).frontend.parseDocument text.toList
    (∀ t ∈ o.tree.leaves, t.has .unknown = false) ∧
      ∀ t ∈ o.tokens, t.has .unknown = true →
        o.errors ≠ [] ∧ ∀ settings : DiagnosticSettings, o.diagnostics settings text ≠ [] := by
  intro o
  have hlies := (l.lawful options).liesIn (l.checksTokens options) text.toList
  have hsparing := l.sparing options
  have hprogressive := (l.lawful options).progressive
  have htype {t : Token} (ht : t ∈ o.tokens) (hu : t.has .unknown = true) :
      t.type = Vocabulary.unknownType :=
    Frontend.type_of_has_unknown (l.oneUnknown options) ht hu
  constructor
  · intro t ht
    rw [← Bool.not_eq_true]
    intro hu
    exact Frontend.leaves_of_sparing hsparing hprogressive ht
      (htype (hlies.shared.leaves.subset ht) hu)
  · intro t ht hu
    have herrors : o.errors ≠ [] :=
      Frontend.errors_ne_nil_of_sparing hsparing hprogressive ht (htype ht hu)
    have htext : text ≠ "" := by
      rintro rfl
      exact absurd (hlies.tokens t ht).inside (Nat.not_lt_zero _)
    exact ⟨herrors, ParseOutput.diagnostics_ne_nil herrors htext⟩

/-- A tilde behind a keyword of a query. -/
theorem unknown_rejected_tilde :
    let o := (Language.sparql.profile {}).frontend.parseDocument "ask~".toList
    let tilde := Token.ofImage Vocabulary.unknownType "~" 3
    tilde ∈ o.tokens ∧ tilde.has .unknown = true ∧ o.errors ≠ [] ∧
      ∀ settings : DiagnosticSettings, o.diagnostics settings "ask~" ≠ [] := by
  intro o tilde
  have hmem : tilde ∈ o.tokens := by decide +kernel
  have hunknown : tilde.has .unknown = true := by decide
  exact ⟨hmem, hunknown, (unknown_rejected .sparql {} "ask~").2 tilde hmem hunknown⟩

end GraphLanguages
