import GraphLanguages.Proofs.InsertData.Forms
import GraphLanguages.Proofs.InsertData.Rules

/-! The first token of Turtle in front of a closing brace of SPARQL.

Where Turtle reads a token, SPARQL reads one of the same name (`first_terminal`), the verb
(`first_verb`), or the whole of parentheses with nothing between them (`first_nil`). The
verb needs what comes next in Turtle: a letter behind it would make it a keyword of SPARQL,
and a prefixed name in Turtle (`next_of_verb`). -/
namespace GraphLanguages.Lexer
open Text
variable {lx : Lexer}

/-- What is known is the longest match. -/
theorem longest?_of_first {cs : List Char} (h : (lx.first cs).2 ≠ lx.unknown) :
    lx.longest? cs = some (lx.first cs) := by
  unfold first at h ⊢
  cases hbest : lx.longest? cs with
  | none =>
    rw [hbest] at h
    exact absurd rfl h
  | some best => rfl

/-- The first token of a text stands behind what is skipped. -/
theorem exists_first {offset : Nat} {cs : List Char} {t : Token} {ts : List Token}
    (h : lx.tokensAt offset cs = t :: ts) :
    ∃ gap rest, cs = gap ++ rest ∧ rest ≠ [] ∧
      t = .ofImage (lx.first rest).2 (String.ofList (rest.take (lx.first rest).1))
        (offset + bytes gap) := by
  induction hn : cs.length using Nat.strong_induction_on generalizing offset cs with
  | _ n ih =>
    by_cases hne : cs = []
    · rw [hne, tokensAt, tokensFrom_nil] at h
      cases h
    by_cases hskip : 0 < lx.skipLength cs
    · rw [tokensAt_skip hskip hne] at h
      have hlength := List.length_pos_iff.mpr hne
      obtain ⟨gap, rest, hcs, hrest, rfl⟩ := ih _ (by rw [List.length_drop]; omega) h rfl
      refine ⟨cs.take (lx.skipLength cs) ++ gap, rest, ?_, hrest, ?_⟩
      · rw [List.append_assoc, ← hcs, List.take_append_drop]
      · rw [bytes_append, Nat.add_assoc]
    · rw [tokensAt_token (Nat.eq_zero_of_not_pos hskip) hne] at h
      exact ⟨[], cs, rfl, hne, (List.cons.inj h).1.symm⟩

end GraphLanguages.Lexer

namespace GraphLanguages.InsertData
open Text Lexer Grammar

/-! ### Further rules -/

/-- The white space that the parentheses may have between them. -/
def blanks : List Char := " \t\r\n".toList

/-- What inspection shows of signs, of white space and of what follows the verb. -/
structure Signs : Prop where
  numbers : ∀ r ∈ (Turtle.lexer .turtle).rules, ∀ c ∈ ['+', '-'], r.2.meets [c] = true →
    r.1.name ∈ Rdf.numbers
  blanks : ∀ c ∈ blanks, Rdf.spaceClass.holds c = true
  letters : ∀ c ∈ secondLetters, Rdf.spaceClass.holds c = false ∧ Unicode.isWord c = true ∧
    c ≠ '#' ∧ c ≠ ':'
  unknown : (Turtle.lexer .turtle).unknown = Vocabulary.unknownType

theorem signs : Signs where
  numbers := by decide
  blanks := by decide
  letters := by decide
  unknown := by decide

section
variable (dialect : Sparql.Dialect) {c : Char} {cs : List Char}

theorem meets_first {r : TokenType × Matcher} (h : 0 < width (c :: cs) r) :
    r.2.meets [c] = true :=
  meets_of_width_pos (after_of_isPrefixOf (by simp)) (List.cons_ne_nil c []) h

/-- What Turtle knows is read by a rule. -/
theorem exists_turtle_rule
    (h : ((Turtle.lexer .turtle).first cs).2.name ≠ Vocabulary.unknownName) :
    ∃ r ∈ (Turtle.lexer .turtle).rules, 0 < width cs r ∧
      (Turtle.lexer .turtle).first cs = (width cs r, r.1) := by
  refine exists_rule_of_first fun hunknown => h ?_
  rw [hunknown, Signs.unknown signs]
  rfl

/-- A terminal takes no more than the longest match of Turtle. -/
theorem width_le_turtle {q : TokenType × Matcher} (hq : q ∈ core true) (cs : List Char) :
    width cs q ≤ ((Turtle.lexer .turtle).first cs).1 := by
  refine width_le_first ?_
  rw [turtle_rules]
  exact List.mem_append_right _ hq

/-! ### Terminals -/

/-- Where Turtle reads a terminal without a sign, SPARQL reads the same, unless there are
parentheses with nothing between them. -/
theorem first_terminal (hc : c ≠ '+' ∧ c ≠ '-')
    (hunknown : ((Turtle.lexer .turtle).first (c :: cs)).2.name ≠ Vocabulary.unknownName)
    (hname : ((Turtle.lexer .turtle).first (c :: cs)).2.name ∉ "A" :: directiveNames)
    (hnil : width (c :: cs ++ closing) nilRule = 0) :
    ((Sparql.lexer dialect).first (c :: cs ++ closing)).1 =
        ((Turtle.lexer .turtle).first (c :: cs)).1 ∧
      ((Sparql.lexer dialect).first (c :: cs ++ closing)).2.name =
        ((Turtle.lexer .turtle).first (c :: cs)).2.name := by
  have hturtle : (Turtle.lexer .turtle).longest? (c :: cs) =
      some ((Turtle.lexer .turtle).first (c :: cs)) := by
    refine longest?_of_first fun h => hunknown ?_
    rw [h, Signs.unknown signs]
    rfl
  generalize (Turtle.lexer .turtle).first (c :: cs) = best at hturtle hname ⊢
  obtain ⟨n, T⟩ := best
  have hcore : (coreLexer true).longest? (c :: cs) = some (n, T) :=
    longest?_of_front turtle_rules hturtle fun r hr h =>
      hname (h ▸ Inspection.before inspection r hr)
  have hsame : Option.Rel SameMatch ((coreLexer true).longest? (c :: cs))
      ((coreLexer false).longest? (c :: cs ++ closing)) := longest?_alike (core_alike hc cs)
  rw [hcore] at hsame
  rcases (coreLexer false).longest?_cases (c :: cs ++ closing) with
    ⟨-, hnone⟩ | ⟨before, q, after, hq, hwins, hbest⟩
  · rw [hnone] at hsame
    cases hsame
  rw [hbest] at hsame
  obtain ⟨hlength, hsameName⟩ : SameMatch (n, T) (width (c :: cs ++ closing) q, q.1) := by
    cases hsame with
    | some h => exact h
  have hmem : q ∈ core false := by
    rw [core, hq]
    simp
  have hsurround :
      (Sparql.lexer dialect).longest? (c :: cs ++ closing) = (coreLexer false).longest? _ :=
    longest?_of_surround (sparql_rules dialect) (shorter_than_core hnil hmem hwins.pos)
  rw [first, hsurround, hbest]
  exact ⟨hlength.symm, hsameName.symm⟩

/-- A token that is no number begins with no sign. -/
theorem not_sign_of_first
    (hunknown : ((Turtle.lexer .turtle).first (c :: cs)).2.name ≠ Vocabulary.unknownName)
    (hnumber : ((Turtle.lexer .turtle).first (c :: cs)).2.name ∈ Rdf.numbers →
      c ≠ '+' ∧ c ≠ '-') :
    c ≠ '+' ∧ c ≠ '-' := by
  obtain ⟨r, hr, hpos, hfirst⟩ := exists_turtle_rule hunknown
  rw [hfirst] at hnumber
  by_cases hsign : c ∈ ['+', '-']
  · exact hnumber (Signs.numbers signs r hr c hsign (meets_first hpos))
  · simpa using hsign

/-! ### The verb -/

/-- A prefixed name that begins with the letter of the verb is more than that. -/
theorem one_lt_width {r : TokenType × Matcher} (hr : isPrefixed r.2 = true)
    (hpos : 0 < width ('a' :: cs) r) : 1 < width ('a' :: cs) r := by
  have hletters : ['a'].any (sameLetter · ':') = false := by decide
  exact (Rdf.longer_than_keyword (prefixed_iff.mp hr) hletters rfl hpos).1

/-- Behind the verb comes no letter that would be part of a name with it. -/
theorem next_of_verb {offset : Nat} (hfirst : ((Turtle.lexer .turtle).first ('a' :: cs)).1 = 1)
    (hnext : ∀ t ∈ ((Turtle.lexer .turtle).tokensAt offset cs).head?,
      t.name ∉ Vocabulary.unknownName :: directiveNames) :
    ∀ c ∈ cs.head?, c ∉ secondLetters := by
  intro c hc hletter
  obtain ⟨cs, rfl⟩ := List.head?_eq_some_iff.mp hc
  obtain ⟨hspace, hword, hsign, hcolon⟩ := Signs.letters signs c hletter
  have hskip : (Turtle.lexer .turtle).skipLength (c :: cs) = 0 :=
    skipLength_other (Turtle.skipsComments .turtle true) hspace hsign cs
  rw [tokensAt_token hskip (List.cons_ne_nil c cs)] at hnext
  have hknown := hnext _ rfl
  rw [List.mem_cons, not_or] at hknown
  obtain ⟨r, hr, hpos, hrule⟩ := exists_turtle_rule hknown.1
  have hprefixed := (Inspection.letters inspection r hr c hletter (meets_first hpos)).resolve_right
    fun hdirective => hknown.2 (by rwa [Token.name, Token.ofImage, hrule])
  -- with the letter of the verb in front, the prefix would be one as well
  have hname : ∃ u rest, c :: cs = u ++ rest ∧ Rdf.namespacePart.Accepts u := by
    have hmatch := match?_of_width_pos hpos
    rcases prefixed_iff.mp hprefixed with hr | hr
    · rw [hr] at hmatch
      obtain ⟨u, rest, hcs, -, haccepts⟩ := Rdf.prefix_of_match? (.inl rfl) hmatch
      exact ⟨u, rest, hcs, haccepts⟩
    · rw [hr] at hmatch
      obtain ⟨u, rest, hcs, -, haccepts⟩ := Rdf.prefix_of_match? (.inr rfl) hmatch
      exact ⟨u, rest, hcs, haccepts⟩
  obtain ⟨u, rest, hcs, haccepts⟩ := hname
  cases u with
  | nil =>
    obtain ⟨x, hx, -⟩ := Rdf.accepts_namespacePart haccepts
    simp at hx
  | cons d u =>
    rw [List.cons_append] at hcs
    obtain ⟨rfl, rfl⟩ := List.cons.inj hcs
    have hlonger := Rdf.accepts_letter_before (d := 'a') (by decide) hword hcolon haccepts
    obtain ⟨q, hq, -, hqr⟩ := Inspection.prefixed inspection (.regex Rdf.namespaceRegex) (by simp)
    obtain ⟨k, hk⟩ := Option.isSome_iff_exists.mp (Regex.isSome_match?_of_accepts hlonger rest)
    have hwidth : width ('a' :: c :: (u ++ rest)) q = k := by
      rw [width, hqr]
      exact congrArg (Option.getD · 0) hk
    obtain ⟨x, y, -, hlt, -⟩ := Rdf.colon_of_match? (.inr rfl) (r := Rdf.namespaceRegex) hk
    have hqprefixed : isPrefixed q.2 = true := prefixed_iff.mpr (.inr hqr)
    have hone : 1 < width ('a' :: c :: (u ++ rest)) q := one_lt_width hqprefixed (by omega)
    have hle := width_le_turtle hq ('a' :: c :: (u ++ rest))
    rw [hfirst] at hle
    omega

/-- Where Turtle reads the verb, SPARQL reads it as well if none of those letters comes next. -/
theorem first_verb (hfirst : ((Turtle.lexer .turtle).first ('a' :: cs)).1 = 1)
    (hnext : ∀ c ∈ cs.head?, c ∉ secondLetters) :
    (Sparql.lexer dialect).first ('a' :: cs ++ closing) = (1, verbRule.1) := by
  have hmem : verbRule ∈ (Sparql.lexer dialect).rules := by
    rw [sparql_rules]
    simp [(keywordRules_subset dialect).1 (Inspection.members inspection).2.2.1]
  have hwidth : width ('a' :: cs ++ closing) verbRule = 1 := rfl
  rw [← hwidth]
  refine first_of_only hmem (hwidth ▸ Nat.one_pos) fun r hr hpos => .inl ?_
  have hmeets : r.2.meets ['a'] = true := meets_of_width_pos rfl (List.cons_ne_nil _ _) hpos
  rcases (Inspection.meets inspection r (sparql_rules_subset dialect hr)).2.2.2.1 hmeets with
    hverb | hprefixed | hsecond
  · exact hverb
  · -- a prefixed name would be longer in Turtle, too
    obtain ⟨q, hq, hq', hqr⟩ := Inspection.prefixed inspection r.2 (by
      simpa using prefixed_iff.mp hprefixed)
    have hsame : width ('a' :: cs ++ closing) r = width ('a' :: cs) q := by
      rw [← width_closing hq', width, width, hqr]
    have hle := width_le_turtle hq ('a' :: cs)
    have hlonger := one_lt_width (hqr ▸ hprefixed) (hsame ▸ hpos)
    omega
  · -- a longer keyword needs its second letter
    have hmatch := match?_of_width_pos hpos
    unfold hasSecondLetter at hsecond
    split at hsecond
    next x d w ws hspaced =>
      rw [hspaced] at hmatch
      obtain ⟨rest, k, hword, -, -⟩ := Matcher.words?_cons hmatch
      obtain ⟨u, hspells, htext⟩ := spells_of_after hword
      cases hspells with
      | cons _ hspells =>
        cases hspells with
        | @cons _ e _ u hsame _ =>
          have he : e ∈ secondLetters := by
            simpa using List.all_eq_true.mp hsecond e (eq_of_sameLetter hsame)
          obtain ⟨-, htext⟩ := List.cons.inj htext
          cases cs with
          | nil =>
            obtain ⟨rfl, -⟩ := List.cons.inj htext
            exact absurd he (by decide)
          | cons c cs =>
            obtain ⟨rfl, -⟩ := List.cons.inj htext
            exact absurd he (hnext c rfl)
    next => cases hsecond

end

/-! ### Parentheses with nothing between them -/

section
variable (dialect : Sparql.Dialect) {gap rest cs : List Char}

theorem mem_blanks {c : Char} : c ∈ blanks ↔ Rdf.gapClass.holds c = true :=
  Rdf.holds_gapClass.symm

theorem accepts_nil (hgap : ∀ c ∈ gap, c ∈ blanks) :
    (Rdf.hollow '(' ')').Accepts ('(' :: (gap ++ [')'])) := by
  have hstar : (Regex.Expr.star (Regex.charClass (Regex.items " \t\r\n"))).Accepts gap := by
    induction gap with
    | nil => exact .none
    | cons c gap ih =>
      obtain ⟨hc, hgap⟩ := List.forall_mem_cons.mp hgap
      exact .more (Regex.accepts_one.mpr ⟨c, mem_blanks.mp hc, rfl⟩) (ih hgap)
  exact .seq (Rdf.accepts_char.mpr rfl) (.seq hstar (Rdf.accepts_char.mpr rfl))

theorem width_nil (hgap : ∀ c ∈ gap, c ∈ blanks) :
    width ('(' :: (gap ++ ')' :: rest)) nilRule = gap.length + 2 := by
  have htext : '(' :: (gap ++ ')' :: rest) = '(' :: (gap ++ [')']) ++ rest := by simp
  have haccepts := accepts_nil hgap
  obtain ⟨n, hn⟩ := Option.isSome_iff_exists.mp (Regex.isSome_match?_of_accepts haccepts rest)
  rw [← htext] at hn
  obtain ⟨behind, hcs, hle, htaken⟩ := Regex.accepts_of_match? hn
  have hlength := Rdf.hollow_unique (by decide) htaken haccepts (hcs.symm.trans htext)
  rw [List.length_take, Nat.min_eq_left hle] at hlength
  have hwidth : width ('(' :: (gap ++ ')' :: rest)) nilRule = n := congrArg (Option.getD · 0) hn
  rw [hwidth, hlength]
  simp

/-- Blanks up to a parenthesis are not closed by the closing line. -/
theorem nil_of_width (h : 0 < width (cs ++ closing) nilRule) :
    ∃ gap rest, cs = '(' :: (gap ++ ')' :: rest) ∧ ∀ c ∈ gap, c ∈ blanks := by
  obtain ⟨behind, hcs, -, haccepts⟩ := Regex.accepts_of_match? (match?_of_width_pos h)
  obtain ⟨gap, htake, hgap⟩ := Rdf.accepts_hollow haccepts
  rw [htake] at hcs
  have hle := length_le_of_last hcs.symm (by
    intro c hc
    rw [← List.cons_append, List.getLast?_concat, Option.mem_some] at hc
    exact hc ▸ by decide)
  obtain ⟨rest, rfl⟩ := List.prefix_of_prefix_length_le ⟨behind, hcs.symm⟩
    (List.prefix_append cs closing) hle
  exact ⟨gap, rest, by simp, fun c hc => mem_blanks.mpr (hgap c hc)⟩

theorem first_nil (hgap : ∀ c ∈ gap, c ∈ blanks) :
    (Sparql.lexer dialect).first ('(' :: (gap ++ ')' :: rest)) =
      (gap.length + 2, nilRule.1) := by
  have hmem : nilRule ∈ (Sparql.lexer dialect).rules := by
    rw [sparql_rules]
    simp
  have hwidth : width ('(' :: (gap ++ ')' :: rest)) nilRule = _ := width_nil hgap
  rw [← hwidth]
  refine first_of_only hmem (by omega) fun r hr hpos => ?_
  have hmeets := meets_first hpos
  refine ((Inspection.meets inspection r (sparql_rules_subset dialect hr)).2.2.1 hmeets).imp_right
    fun hparenthesis => ?_
  have hone : width ('(' :: (gap ++ ')' :: rest)) r = 1 := by
    rw [width, hparenthesis]
    rfl
  omega

end

end GraphLanguages.InsertData
