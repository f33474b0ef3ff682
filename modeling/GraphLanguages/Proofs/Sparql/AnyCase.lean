import GraphLanguages.Language
import GraphLanguages.Proofs.Grammar.Related
import GraphLanguages.Proofs.Lexer.AnyCase
import GraphLanguages.Proofs.Text.Encoding

/-! SPARQL in any case.

No pattern of the language tells the forms of a letter apart (`caseBlind_lexer`), so texts
that spell the same are cut at the same places and parsed alike. Diagnostics show nothing of
a token but where it is, hence they are the same (`diagnostics_of_recased`). Only the letter
that begins a codepoint escape has a case, which is why there are no backslashes here
(`parse_anyCase`). -/
namespace GraphLanguages
open Text Grammar

/-! ### Texts without escapes -/

theorem Text.plain_of_no_backslash {text : List Char} (h : '\\' ∉ text) : Plain text := by
  intro rest hrest
  cases rest with
  | nil => rfl
  | cons c cs =>
    have hsuffix : c :: cs <:+ text := (List.mem_tails ..).mp hrest
    have hmem : c ∈ text := hsuffix.subset (List.mem_cons_self ..)
    exact escape?_of_ne (fun heq => h (heq ▸ hmem)) cs

theorem Text.no_backslash_of_spells {cs cs' : List Char} (h : Spells cs cs') (hcs : '\\' ∉ cs) :
    '\\' ∉ cs' := by
  have hblind : CaseBlind fun c => decide (c = '\\') := by decide
  intro hmem
  have hany : cs'.any (fun c => decide (c = '\\')) = true :=
    List.any_eq_true.mpr ⟨'\\', hmem, rfl⟩
  rw [← hblind.any_eq h] at hany
  obtain ⟨c, hc, heq⟩ := List.any_eq_true.mp hany
  exact hcs (of_decide_eq_true heq ▸ hc)

/-- Without escapes, a document is parsed as it is. -/
theorem Frontend.parseDocument_of_plain (f : Frontend) {text : List Char} (h : Plain text) :
    f.parseDocument text =
      { tree := (f.grammar.parse f.vocabulary f.root (bytes text) (f.lexer.tokenize text)).1
        tokens := f.lexer.tokenize text
        errors :=
          (f.grammar.parse f.vocabulary f.root (bytes text) (f.lexer.tokenize text)).2.toList
        semantic := f.check (f.lexer.tokenize text)
        escapes := none } := by
  have hdecode : f.decode text = ⟨text, ⟨[]⟩⟩ := by
    unfold decode
    split
    · exact unescape_of_plain h
    · rfl
  simp only [parseDocument, parse, hdecode]
  rfl

/-! ### Parses of texts that spell the same -/

/-- The parses are the same but for the case of letters in tokens. -/
structure ParseOutput.Recased (o o' : ParseOutput) : Prop where
  tree : Tree.Rel Token.Recased o.tree o'.tree
  tokens : List.Forall₂ Token.Recased o.tokens o'.tokens
  errors : List.Forall₂ (SyntaxError.Rel Token.Recased) o.errors o'.errors
  semantic : List.Forall₂ (SyntaxError.Rel Token.Recased) o.semantic o'.semantic

theorem relates_recased (size : Nat) : Relates Token.Recased size size where
  type _ _ h := h.type
  ends := ⟨rfl, rfl, rfl, spells_refl _⟩

theorem forall₂_toList {α β : Type} {R : α → β → Prop} {a : Option α} {b : Option β}
    (h : Option.Rel R a b) : List.Forall₂ R a.toList b.toList := by
  cases h with
  | none => exact .nil
  | some hab => exact .cons hab .nil

theorem Frontend.recased_parseDocument {f : Frontend} (hlexer : f.lexer.CaseBlind)
    (hcheck : ∀ tokens, f.check tokens = []) {cs cs' : List Char} (h : Spells cs cs')
    (hplain : Plain cs) (hplain' : Plain cs') :
    (f.parseDocument cs).Recased (f.parseDocument cs') := by
  have htokens := f.lexer.tokenize_of_spells hlexer h
  obtain ⟨htree, herror⟩ := parse_related (g := f.grammar) (v := f.vocabulary)
    (relates_recased (bytes cs')) f.root htokens
  rw [f.parseDocument_of_plain hplain, f.parseDocument_of_plain hplain', bytes_of_spells h,
    hcheck, hcheck]
  exact ⟨htree, htokens, forall₂_toList herror, .nil⟩

/-! ### Diagnostics -/

theorem SyntaxError.span_of_recased {e e' : SyntaxError} (h : e.Rel Token.Recased e')
    (size : Nat) : e.span size = e'.span size := by
  have hend : e.token.isEndOfInput = e'.token.isEndOfInput :=
    congrArg (TokenType.has · .endOfInput) h.token.type
  have hprevious : (e.previous.map fun t => min t.stop size) =
      e'.previous.map fun t => min t.stop size := by
    have hrel := h.previous
    generalize e.previous = t, e'.previous = t' at hrel ⊢
    cases hrel with
    | none => rfl
    | some ht => exact congrArg (fun stop => some (min stop size)) ht.stop
  simp only [SyntaxError.span, hend, hprevious, h.token.start, h.token.stop]

theorem map_eq_of_forall₂ {α β γ : Type} {R : α → β → Prop} {f : α → γ} {g : β → γ}
    (hfg : ∀ a b, R a b → f a = g b) {as : List α} {bs : List β} (h : List.Forall₂ R as bs) :
    as.map f = bs.map g := by
  rw [← List.forall₂_eq_eq_eq]
  exact List.rel_map (R := R) (fun a b hab => hfg a b hab) h

theorem ParseOutput.diagnostics_of_recased {o o' : ParseOutput} (h : o.Recased o')
    {settings : DiagnosticSettings} (hsource : settings.source = SyntaxError.innermost?)
    {text text' : String} (hspells : Spells text.toList text'.toList) :
    o.diagnostics settings text = o'.diagnostics settings text' := by
  have hunknown : ∀ t u, Token.Recased t u → Diagnostic.ofUnknown (.ofText text) t =
      Diagnostic.ofUnknown (.ofText text') u := by
    intro t u htu
    rw [Diagnostic.ofUnknown, Diagnostic.ofUnknown, htu.start, htu.stop,
      LineIndex.span_of_spells hspells]
  have herror : ∀ e e', e.Rel Token.Recased e' → Diagnostic.ofError (.ofText text) settings e =
      Diagnostic.ofError (.ofText text') settings e' := by
    intro e e' he
    have hinnermost : e.innermost? = e'.innermost? := congrArg List.getLast? he.rules
    simp only [Diagnostic.ofError, LineIndex.size_of_spells hspells,
      SyntaxError.span_of_recased he, LineIndex.span_of_spells hspells, he.message, hsource,
      hinnermost]
  have hfilter : List.Forall₂ Token.Recased (o.tokens.filter fun t => t.has .unknown)
      (o'.tokens.filter fun t => t.has .unknown) := by
    refine List.rel_filter (R := Token.Recased) ?_ h.tokens
    intro t u htu
    show t.type.has .unknown = true ↔ u.type.has .unknown = true
    rw [htu.type]
  unfold diagnostics
  rw [isEmpty_of_spells hspells]
  split
  · rfl
  · dsimp only
    rw [map_eq_of_forall₂ herror (List.rel_append h.errors h.semantic)]
    congr 1
    split
    · exact map_eq_of_forall₂ hunknown hfilter
    · rfl

/-! ### The language -/

namespace Sparql

theorem caseBlind_lexer (dialect : Dialect) : (frontend dialect).lexer.CaseBlind := by
  cases dialect with
  | stardog => exact ⟨by decide +kernel, by decide +kernel⟩
  | w3 => exact ⟨by decide +kernel, by decide +kernel⟩

/-- **The case of letters does not matter in SPARQL.** In either dialect, texts without
backslashes that spell the same have tokens of the same types at the same places, trees of the
same shape and the same diagnostics. -/
theorem parse_anyCase (options : Options) {text text' : String}
    (hspells : Spells text.toList text'.toList) (hplain : '\\' ∉ text.toList) :
    let profile := Language.sparql.profile options
    (profile.frontend.parseDocument text.toList).Recased
        (profile.frontend.parseDocument text'.toList) ∧
      profile.diagnose text = profile.diagnose text' := by
  intro profile
  have hrecased : (profile.frontend.parseDocument text.toList).Recased
      (profile.frontend.parseDocument text'.toList) :=
    Frontend.recased_parseDocument (caseBlind_lexer options.sparqlDialect) (fun _ => rfl) hspells
      (plain_of_no_backslash hplain)
      (plain_of_no_backslash (no_backslash_of_spells hspells hplain))
  exact ⟨hrecased, ParseOutput.diagnostics_of_recased hrecased rfl hspells⟩

/-- An unfinished query with a number, a language tag and an escaped byte. -/
theorem parse_anyCase_ask :
    let text := "ask \x7b ?s a <urn:x>, 'a'@en, 1e5, p:%aF"
    let text' := "ASK \x7b ?S A <URN:x>, 'a'@EN, 1E5, P:%Af"
    let profile := Language.sparql.profile ⟨some "w3"⟩
    Spells text.toList text'.toList ∧ '\\' ∉ text.toList ∧
      (profile.frontend.parseDocument text.toList).Recased
        (profile.frontend.parseDocument text'.toList) ∧
      profile.diagnose text = profile.diagnose text' := by
  intro text text' profile
  have hspells : Spells text.toList text'.toList := by
    unfold Spells
    decide
  have hplain : '\\' ∉ text.toList := by decide
  exact ⟨hspells, hplain, parse_anyCase ⟨some "w3"⟩ hspells hplain⟩

end Sparql

end GraphLanguages
