import GraphLanguages.Language
import GraphLanguages.Proofs.Grammar.Related
import GraphLanguages.Proofs.Lexer.Comments
import GraphLanguages.Proofs.Sparql.AnyCase

/-! Comments in the languages.

All languages skip comments like white space, and their rules are of the kinds that the
theory of comments asks for (`skipsComments`). So a text with spaces in the place of its
comments is parsed as the text is, unless some `group by`, `[ ]` or the like reaches over
such a space (`parse_blankComments`): there the comment keeps two tokens apart. -/
namespace GraphLanguages
open Text Grammar

/-! ### The rules -/

/-- Strings may have spaces inside, and so may comments be inside of them. -/
def quotedRegexes : List Regex :=
  [Rdf.string1Regex, Rdf.string2Regex, Rdf.longString1Regex, Rdf.longString2Regex]

theorem Matcher.contained_of_mem_quotedRegexes {r : Regex} (h : r ∈ quotedRegexes) :
    (Matcher.regex r).Contained := by
  simp only [quotedRegexes, List.mem_cons, List.not_mem_nil, or_false] at h
  rcases h with rfl | rfl | rfl | rfl
  · exact contained_shortString rfl (by decide)
  · exact contained_shortString rfl (by decide)
  · exact contained_longString rfl (by decide)
  · exact contained_longString rfl (by decide)

/-- Is the matcher a string, or free of spaces? -/
def Matcher.keepsClear : Matcher → Bool
  | .regex r => quotedRegexes.contains r || (Matcher.regex r).avoids ' '
  | m => m.avoids ' '

theorem Matcher.contained_of_keepsClear {m : Matcher} (hm : m.Worded)
    (h : m.keepsClear = true) : m.Contained := by
  unfold keepsClear at h
  split at h
  next r =>
    rcases Bool.or_eq_true_iff.mp h with hquoted | hspace
    · exact contained_of_mem_quotedRegexes (List.contains_iff_mem.mp hquoted)
    · exact contained_of_avoids hm hspace
  next => exact contained_of_avoids hm h

/-- What is decided about a lexer by going through its rules. -/
def Lexer.keepsClear (lx : Lexer) : Bool :=
  lx.rules.all fun rule =>
    (rule.2.keepsClear || rule.1.spansSpace) && decide (rule.1 ≠ lx.unknown)

theorem Frontend.skipsComments {f : Frontend} {gap : Regex.CharClass} {r : Regex}
    (hskipped : f.skipped = [r, Rdf.commentRegex]) (hr : r.expr = Regex.plus (.one gap))
    (hgap : gap.holds ' ' = true ∧ gap.holds '#' = false) (h : f.lexer.keepsClear = true) :
    f.lexer.SkipsComments gap where
  ruled := Lexer.ruled_ofVocabulary f.vocabulary f.skipped
  skipped := ⟨r, hskipped, hr⟩
  space := hgap.1
  sign := hgap.2
  rules rule hrule := by
    have hruled := Lexer.ruled_ofVocabulary f.vocabulary f.skipped rule hrule
    have hclear := (Bool.and_eq_true_iff.mp (List.all_eq_true.mp h rule hrule)).1
    exact (Bool.or_eq_true_iff.mp hclear).imp_left
      (Matcher.contained_of_keepsClear (Matcher.worded_of_pattern hruled))
  unknown rule hrule :=
    of_decide_eq_true (Bool.and_eq_true_iff.mp (List.all_eq_true.mp h rule hrule)).2

theorem keepsClear_lexers :
    [Sparql.frontend .stardog, Sparql.frontend .w3, GraphQL.frontend .stardog,
      GraphQL.frontend .standard, Turtle.frontend .turtle true,
      Turtle.frontend .trig true].all (·.lexer.keepsClear) = true := by
  decide +kernel

/-- Prefixes are checked after lexing. -/
theorem Turtle.lexer_frontend (flavour : Flavour) (checksPrefixes : Bool) :
    (frontend flavour checksPrefixes).lexer = (frontend flavour true).lexer := rfl

/-- The white space of the languages that share their terminals. -/
def Rdf.spaceClass : Regex.CharClass := ⟨false, [.space]⟩

theorem Sparql.skipsComments (dialect : Dialect) :
    (frontend dialect).lexer.SkipsComments Rdf.spaceClass := by
  have hlexers := keepsClear_lexers
  simp only [List.all_cons, Bool.and_eq_true] at hlexers
  refine Frontend.skipsComments rfl rfl (by decide) ?_
  cases dialect with
  | stardog => exact hlexers.1
  | w3 => exact hlexers.2.1

theorem Turtle.skipsComments (flavour : Flavour) (checksPrefixes : Bool) :
    (frontend flavour checksPrefixes).lexer.SkipsComments Rdf.spaceClass := by
  have hlexers := keepsClear_lexers
  simp only [List.all_cons, Bool.and_eq_true] at hlexers
  refine Frontend.skipsComments rfl rfl (by decide) ?_
  rw [Turtle.lexer_frontend]
  cases flavour with
  | turtle => exact hlexers.2.2.2.2.1
  | trig => exact hlexers.2.2.2.2.2.1

/-- In every language, comments are skipped like white space. -/
theorem Language.skipsComments (l : Language) (options : Options) :
    ∃ gap, (l.frontend options).lexer.SkipsComments gap := by
  cases l with
  | sparql => exact ⟨_, Sparql.skipsComments options.sparqlDialect⟩
  | graphQL =>
    have hlexers := keepsClear_lexers
    simp only [List.all_cons, Bool.and_eq_true] at hlexers
    refine ⟨_, Frontend.skipsComments rfl rfl (by decide) ?_⟩
    show (GraphQL.frontend options.graphQLDialect).lexer.keepsClear = true
    cases options.graphQLDialect with
    | stardog => exact hlexers.2.2.1
    | standard => exact hlexers.2.2.2.1
  | turtle => exact ⟨_, Turtle.skipsComments .turtle true⟩
  | trig => exact ⟨_, Turtle.skipsComments .trig true⟩
  | shacl => exact ⟨_, Turtle.skipsComments .turtle false⟩

/-! ### Parses -/

/-- The parses are the same but for the places of tokens. -/
structure ParseOutput.SameTexts (o o' : ParseOutput) : Prop where
  tree : Tree.Rel Token.SameText o.tree o'.tree
  tokens : List.Forall₂ Token.SameText o.tokens o'.tokens
  errors : List.Forall₂ (SyntaxError.Rel Token.SameText) o.errors o'.errors
  semantic : List.Forall₂ (SyntaxError.Rel Token.SameText) o.semantic o'.semantic

theorem relates_sameText (size size' : Nat) : Relates Token.SameText size size' where
  type _ _ h := h.type
  ends := ⟨rfl, rfl⟩

theorem Turtle.undeclaredFrom_of_sameText {ts us : List Token}
    (h : List.Forall₂ Token.SameText ts us) (known : List String) {previous previous' : Option Token}
    (hprevious : Option.Rel Token.SameText previous previous') :
    List.Forall₂ (SyntaxError.Rel Token.SameText) (undeclaredFrom known previous ts)
      (undeclaredFrom known previous' us) := by
  induction h generalizing known previous previous' with
  | nil => exact .nil
  | @cons t u ts us htu _ ih =>
    have hname : t.name = u.name := congrArg TokenType.name htu.type
    have hdeclares : declares previous = declares previous' := by
      cases hprevious with
      | none => rfl
      | some h =>
        show (_ || _) = (_ || _)
        rw [Token.name, Token.name, h.type]
    rw [undeclaredFrom, undeclaredFrom, hname, hdeclares, htu.image]
    split
    · exact ih _ (.some htu)
    · split
      · refine .cons ⟨rfl, ?_, rfl, htu, .none⟩ (ih _ (.some htu))
        rw [undeclared, undeclared, htu.image]
      · exact ih _ (.some htu)

/-- Checks look at types and texts only. -/
theorem Language.check_of_sameText (l : Language) (options : Options) {ts us : List Token}
    (h : List.Forall₂ Token.SameText ts us) :
    List.Forall₂ (SyntaxError.Rel Token.SameText) ((l.frontend options).check ts)
      ((l.frontend options).check us) := by
  cases l with
  | sparql | graphQL | shacl => exact .nil
  | turtle | trig => exact Turtle.undeclaredFrom_of_sameText h [] .none

/-- Texts with the same tokens are parsed alike. -/
theorem Language.sameTexts_parseDocument (l : Language) (options : Options)
    {text text' : List Char} (hplain : Plain text) (hplain' : Plain text')
    (h : List.Forall₂ Token.SameText ((l.frontend options).lexer.tokenize text)
      ((l.frontend options).lexer.tokenize text')) :
    ((l.frontend options).parseDocument text).SameTexts
      ((l.frontend options).parseDocument text') := by
  obtain ⟨htree, herror⟩ := parse_related (relates_sameText (bytes text) (bytes text'))
    (l.frontend options).root h
  rw [Frontend.parseDocument_of_plain _ hplain, Frontend.parseDocument_of_plain _ hplain']
  exact ⟨htree, h, forall₂_toList herror, l.check_of_sameText options h⟩

/-- A text has no backslash because of the spaces. -/
theorem Lexer.no_backslash_blankComments (lx : Lexer) {text : List Char} (h : '\\' ∉ text) :
    '\\' ∉ lx.blankComments text := by
  intro hmem
  rcases (blanked_stretchesFrom lx (Nat.le_refl _)).mem hmem with hspace | hmem
  · cases hspace
  · exact h hmem

/-- **Comments are white space, as far as tokens do not reach over it.** With a space for each
comment, a text without backslashes has tokens of the same types just where none of those
with white space inside reaches over such a space; and if it has, it is parsed alike: to a
tree of the same shape, with the same errors. -/
theorem Language.parse_blankComments (l : Language) (options : Options) {text : List Char}
    (hplain : '\\' ∉ text) :
    let f := l.frontend options
    let blanked := f.lexer.blankComments text
    ((f.parseDocument blanked).tokens.map Token.type =
        (f.parseDocument text).tokens.map Token.type ↔
      ∀ t ∈ (f.parseDocument blanked).tokens, t.type.spansSpace = true →
        ∀ p ∈ f.lexer.blanks text, ¬t.Covers p) ∧
    ((f.parseDocument blanked).tokens.map Token.type =
        (f.parseDocument text).tokens.map Token.type →
      (f.parseDocument blanked).SameTexts (f.parseDocument text)) := by
  intro f blanked
  have hblanked : Plain blanked :=
    plain_of_no_backslash (f.lexer.no_backslash_blankComments hplain)
  have htext := plain_of_no_backslash hplain
  have htokens : (f.parseDocument blanked).tokens = f.lexer.tokenize blanked := by
    rw [f.parseDocument_of_plain hblanked]
  have htokens' : (f.parseDocument text).tokens = f.lexer.tokenize text := by
    rw [f.parseDocument_of_plain htext]
  obtain ⟨gap, hskips⟩ := l.skipsComments options
  rw [htokens, htokens']
  exact ⟨Lexer.types_blankComments hskips hplain, fun h =>
    l.sameTexts_parseDocument options hblanked htext (Lexer.sameText_of_types hskips hplain h)⟩

/-- In Turtle, an empty collection is two tokens, and there may be a comment between them. -/
theorem Language.parse_blankComments_collection :
    let text := "<a>#c\n<b>(#\n).".toList
    let f := Language.turtle.frontend ⟨none⟩
    let blanked := f.lexer.blankComments text
    '\\' ∉ text ∧ blanked = "<a> \n<b>( \n).".toList ∧
      (∀ t ∈ (f.parseDocument blanked).tokens, t.type.spansSpace = true →
        ∀ p ∈ f.lexer.blanks text, ¬t.Covers p) ∧
      (f.parseDocument blanked).SameTexts (f.parseDocument text) := by
  intro text f blanked
  have hplain : '\\' ∉ text := by decide
  have hfacts : blanked = "<a> \n<b>( \n).".toList ∧
      ∀ t ∈ (f.parseDocument blanked).tokens, t.type.spansSpace = true →
        ∀ p ∈ f.lexer.blanks text, ¬t.Covers p := by decide
  obtain ⟨hblanked, hclear⟩ := hfacts
  obtain ⟨htypes, hsame⟩ := Language.parse_blankComments .turtle ⟨none⟩ hplain
  exact ⟨hplain, hblanked, hclear, hsame (htypes.mpr hclear)⟩

/-- A comment between brackets keeps them apart; a space does not. -/
theorem Language.comment_in_brackets :
    let text := "<a><b>[#\n].".toList
    let f := Language.turtle.frontend ⟨none⟩
    let blanked := f.lexer.blankComments text
    '\\' ∉ text ∧ blanked = "<a><b>[ \n].".toList ∧
      ((f.parseDocument blanked).tokens.map Token.type ≠
        (f.parseDocument text).tokens.map Token.type) ∧
      (f.parseDocument blanked).errors = [] ∧ (f.parseDocument text).errors ≠ [] := by
  decide

end GraphLanguages
