import GraphLanguages.Proofs.Grammar.Fusion
import GraphLanguages.Proofs.Languages
import GraphLanguages.Proofs.Lexer
import GraphLanguages.Proofs.Lexer.Longest

/-! The dialect with Stardog's directives and the standard.

Where a text begins like one of its directives, the dialect reads a single token, and the
standard an at sign and the whole name behind it. If that name is the directive's, both go
on at the same place (`fused_tokensFrom`), and the grammar takes one as it does the other
(`Inspection.fusible`): the dialect accepts what the standard does
(`stardog_extends_standard`). If the name goes on, the dialect reads the rest of it as a
token of its own, and there are documents of the standard that it refuses
(`lookalike_refused`). -/
namespace GraphLanguages.GraphQL
open Text Grammar

def lexer (dialect : Dialect) : Lexer :=
  (frontend dialect).lexer

/-! ### The rules of both lexers -/

/-- Stardog's directives, with their names behind the at sign. -/
def stardogDirectives : List (TokenType × List Char) :=
  directiveTypes.filterMap fun T => T.completionText?.map fun text => (T, text.toList.tail)

def directiveRule (d : TokenType × List Char) : TokenType × Matcher :=
  (d.1, .verbatim ('@' :: d.2))

/-- The types before the directives. -/
def typesBefore : List TokenType :=
  (vocabulary .standard).types.takeWhile (·.name != "Bang")

/-- The types behind them. -/
def typesBehind : List TokenType :=
  (vocabulary .standard).types.dropWhile (·.name != "Bang")

def atRule : TokenType × Matcher :=
  ((TokenType.literal "At" "@").withCategories [.punctuator], .verbatim ['@'])

def nameRule : TokenType × Matcher :=
  ((TokenType.regex "Name" nameRegex).withCategories [.name], .regex nameRegex)

/-- The characters that a name may start with. -/
def nameStart : Regex.CharClass :=
  ⟨false, [Regex.just '_', .range 'A' 'Z', .range 'a' 'z']⟩

/-- The characters that a name may go on with. -/
def namePart : Regex.CharClass :=
  ⟨false, [Regex.just '_', .range '0' '9', .range 'A' 'Z', .range 'a' 'z']⟩

/-- The dialect has a directive for an at sign with the name behind it. -/
def fusion : Fusion where
  first := "At"
  category := .name
  offered := "Name"
  fused := stardogDirectives.map (·.1.name)

/-- What inspection shows of the rules and the grammar. -/
structure Inspection : Prop where
  stardog : (vocabulary .stardog).types = typesBefore ++ directiveTypes ++ typesBehind
  directives : Lexer.rulesOf directiveTypes = stardogDirectives.map directiveRule
  letters : ∀ d ∈ stardogDirectives, d.2.all nameStart.holds = true ∧ d.2.all namePart.holds = true
  nonempty : ∀ d ∈ stardogDirectives, d.2 ≠ []
  at_mem : atRule ∈ (lexer .standard).rules
  name_mem : nameRule ∈ (lexer .standard).rules
  at_only : ∀ r ∈ (lexer .standard).rules, r.2.meets ['@'] = true → r = atRule
  name_only : ∀ d ∈ stardogDirectives, ∀ r ∈ (lexer .standard).rules,
    r.2.meets d.2 = true → r = nameRule
  directive_only : ∀ d ∈ stardogDirectives, ∀ r ∈ (lexer .stardog).rules,
    r.2.meets ('@' :: d.2) = true → r = directiveRule d ∨ r = atRule
  skipped : ∀ r ∈ (frontend .standard).skipped, ∀ d ∈ stardogDirectives,
    ('@' :: d.2).any (r.expr.mayStart ·) = false
  unknown : (lexer .standard).unknown = (lexer .stardog).unknown
  name_carries : nameRule.1.name ∈ (vocabulary .stardog).carriers .name
  no_end : "EOF" ∉ (vocabulary .stardog).names
  fusible : Fusible (vocabulary .stardog) grammar fusion

theorem inspection : Inspection where
  stardog := by decide +kernel
  directives := by decide +kernel
  letters := by decide +kernel
  nonempty := by decide +kernel
  at_mem := by decide +kernel
  name_mem := by decide +kernel
  at_only := by decide +kernel
  name_only := by decide +kernel
  directive_only := by decide +kernel
  skipped := by decide +kernel
  unknown := by decide +kernel
  name_carries := by decide +kernel
  no_end := by decide +kernel
  fusible := by decide +kernel

theorem standard_rules :
    (lexer .standard).rules = Lexer.rulesOf typesBefore ++ Lexer.rulesOf typesBehind := by
  show Lexer.rulesOf (vocabulary .standard).types = _
  rw [← Lexer.rulesOf_append, typesBefore, typesBehind, List.takeWhile_append_dropWhile]

theorem stardog_rules :
    (lexer .stardog).rules =
      Lexer.rulesOf typesBefore ++ stardogDirectives.map directiveRule ++
        Lexer.rulesOf typesBehind := by
  show Lexer.rulesOf (vocabulary .stardog).types = _
  rw [Inspection.stardog inspection, Lexer.rulesOf_append, Lexer.rulesOf_append,
    Inspection.directives inspection]

/-! ### The first token of a text -/

theorem width_directiveRule {d : TokenType × List Char} (cs : List Char) :
    Lexer.width cs (directiveRule d) =
      if ('@' :: d.2).isPrefixOf cs then d.2.length + 1 else 0 := by
  show (if ('@' :: d.2).isPrefixOf cs then some ('@' :: d.2).length else none).getD 0 = _
  split <;> rfl

theorem width_atRule (cs : List Char) : Lexer.width ('@' :: cs) atRule = 1 := rfl

theorem after_append (word rest : List Char) :
    (afterIgnoringCase? word (word ++ rest)).isSome = true :=
  after_of_isPrefixOf (List.isPrefixOf_iff_prefix.mpr (List.prefix_append word rest))

/-- The standard reads an at sign by itself. -/
theorem first_at (cs : List Char) : (lexer .standard).first ('@' :: cs) = (1, atRule.1) := by
  have hpos : 0 < Lexer.width ('@' :: cs) atRule := Nat.one_pos
  obtain ⟨q, hq, hle, hbest⟩ := Lexer.exists_longest (Inspection.at_mem inspection) hpos
  have hmeets := Lexer.meets_of_width_pos (after_append ['@'] cs) (List.cons_ne_nil _ _)
    (Nat.lt_of_lt_of_le hpos hle)
  rw [Inspection.at_only inspection q hq hmeets] at hbest
  rw [Lexer.first, hbest]
  rfl

/-- Where the name of a directive begins, the standard reads a name at least as long. -/
theorem first_name {d : TokenType × List Char} (hd : d ∈ stardogDirectives) (rest : List Char) :
    ∃ k, (lexer .standard).first (d.2 ++ rest) = (d.2.length + k, nameRule.1) := by
  have hwidth : d.2.length ≤ Lexer.width (d.2 ++ rest) nameRule := by
    obtain ⟨c, word, hword⟩ := List.exists_cons_of_ne_nil (Inspection.nonempty inspection d hd)
    obtain ⟨hstart, hparts⟩ := Inspection.letters inspection d hd
    rw [hword] at hstart hparts ⊢
    have hrun : nameRegex.match? (c :: (word ++ rest)) =
        some (((word ++ rest).takeWhile namePart.holds).length + 1) :=
      Regex.match?_run (List.all_eq_true.mp hstart c (by simp)) (word ++ rest)
    rw [List.takeWhile_append_of_pos fun x hx =>
      List.all_eq_true.mp hparts x (by simp [hx])] at hrun
    show word.length + 1 ≤ (nameRegex.match? (c :: (word ++ rest))).getD 0
    rw [hrun, Option.getD_some, List.length_append]
    omega
  have hne := Inspection.nonempty inspection d hd
  have hpos : 0 < Lexer.width (d.2 ++ rest) nameRule :=
    Nat.lt_of_lt_of_le (List.length_pos_iff.mpr hne) hwidth
  obtain ⟨q, hq, hle, hbest⟩ := Lexer.exists_longest (Inspection.name_mem inspection) hpos
  have hmeets := Lexer.meets_of_width_pos (after_append d.2 rest) hne
    (Nat.lt_of_lt_of_le hpos hle)
  rw [Inspection.name_only inspection d hd q hq hmeets] at hbest
  refine ⟨Lexer.width (d.2 ++ rest) nameRule - d.2.length, ?_⟩
  rw [Lexer.first, hbest, Nat.add_sub_cancel' hwidth]
  rfl

/-- Where a text begins like a directive, the dialect reads the directive. -/
theorem first_directive {d : TokenType × List Char} (hd : d ∈ stardogDirectives)
    (rest : List Char) : (lexer .stardog).first ('@' :: d.2 ++ rest) = (d.2.length + 1, d.1) := by
  have hmem : directiveRule d ∈ (lexer .stardog).rules := by
    rw [stardog_rules]
    simp only [List.mem_append, List.mem_map]
    exact .inl (.inr ⟨d, hd, rfl⟩)
  have hwidth : Lexer.width ('@' :: d.2 ++ rest) (directiveRule d) = d.2.length + 1 := by
    rw [width_directiveRule, if_pos (List.isPrefixOf_iff_prefix.mpr (List.prefix_append ..))]
  have hpos := List.length_pos_iff.mpr (Inspection.nonempty inspection d hd)
  obtain ⟨q, hq, hle, hbest⟩ := Lexer.exists_longest hmem (by rw [hwidth]; exact Nat.succ_pos _)
  have hmeets := Lexer.meets_of_width_pos (after_append ('@' :: d.2) rest)
    (List.cons_ne_nil _ _) (Nat.lt_of_lt_of_le (by rw [hwidth]; exact Nat.succ_pos _) hle)
  rcases Inspection.directive_only inspection d hd q hq hmeets with rfl | rfl
  · rw [Lexer.first, hbest, hwidth]
    rfl
  · -- the at sign alone is shorter
    have hone : Lexer.width ('@' :: d.2 ++ rest) atRule = 1 := width_atRule _
    omega

/-- Elsewhere both read the same. -/
theorem first_eq {cs : List Char} (h : ¬ ∃ d ∈ stardogDirectives, '@' :: d.2 <+: cs) :
    (lexer .stardog).first cs = (lexer .standard).first cs := by
  have hlongest : (lexer .stardog).longest? cs = (lexer .standard).longest? cs := by
    refine Lexer.longest?_of_insert standard_rules stardog_rules fun r hr => .inl ?_
    obtain ⟨d, hd, rfl⟩ := List.mem_map.mp hr
    rw [width_directiveRule, if_neg]
    exact fun hp => h ⟨d, hd, List.isPrefixOf_iff_prefix.mp hp⟩
  rw [Lexer.first, Lexer.first, hlongest, Inspection.unknown inspection]

/-! ### The tokens of a text -/

/-- Right behind each other, the tokens begin like a directive of Stardog's and go on. -/
def Overruns (a b : Token) : Prop :=
  a.abuts b = true ∧ ∃ d ∈ stardogDirectives,
    '@' :: d.2 <+: a.image.toList ++ b.image.toList ∧
      '@' :: d.2 ≠ a.image.toList ++ b.image.toList

instance (a b : Token) : Decidable (Overruns a b) :=
  inferInstanceAs (Decidable (_ ∧ _))

/-- Nothing is skipped where a directive begins, nor behind its at sign. -/
theorem skipLength_directive {d : TokenType × List Char} (hd : d ∈ stardogDirectives)
    (dialect : Dialect) {c : Char} (hc : c ∈ '@' :: d.2) (cs : List Char) :
    (lexer dialect).skipLength (c :: cs) = 0 :=
  Lexer.skipLength_eq_zero cs fun r hr =>
    Bool.eq_false_iff.mpr (List.any_eq_false.mp (Inspection.skipped inspection r hr d hd) c hc)

/-- Where a text begins like a directive, the standard reads an at sign and a name. -/
theorem tokensFrom_standard {d : TokenType × List Char} (hd : d ∈ stardogDirectives)
    (fuel offset : Nat) (rest : List Char) :
    ∃ k, (lexer .standard).tokensFrom (fuel + 2) offset ('@' :: d.2 ++ rest) =
      Token.ofImage atRule.1 (String.ofList ['@']) offset ::
        Token.ofImage nameRule.1 (String.ofList (d.2 ++ rest.take k)) (offset + 1) ::
          (lexer .standard).tokensFrom fuel (offset + 1 + bytes (d.2 ++ rest.take k))
            (rest.drop k) := by
  have hne : d.2 ++ rest ≠ [] := fun h =>
    Inspection.nonempty inspection d hd (List.append_eq_nil_iff.mp h).1
  have hname : (lexer .standard).skipLength (d.2 ++ rest) = 0 := by
    obtain ⟨c, word, hword⟩ := List.exists_cons_of_ne_nil (Inspection.nonempty inspection d hd)
    rw [hword]
    exact skipLength_directive hd .standard (by simp [hword]) (word ++ rest)
  obtain ⟨k, hfirst⟩ := first_name hd rest
  refine ⟨k, ?_⟩
  rw [List.cons_append, Lexer.tokensFrom_token
    (skipLength_directive hd .standard (List.mem_cons_self ..) _) (List.cons_ne_nil _ _), first_at]
  show _ :: (lexer .standard).tokensFrom (fuel + 1) (offset + 1) (d.2 ++ rest) = _
  rw [Lexer.tokensFrom_token hname hne, hfirst, List.take_length_add_append,
    List.drop_length_add_append]
  rfl

/-- The dialect reads the directive there. -/
theorem tokensFrom_stardog {d : TokenType × List Char} (hd : d ∈ stardogDirectives)
    (fuel offset : Nat) (rest : List Char) :
    (lexer .stardog).tokensFrom (fuel + 1) offset ('@' :: d.2 ++ rest) =
      Token.ofImage d.1 (String.ofList ('@' :: d.2)) offset ::
        (lexer .stardog).tokensFrom fuel (offset + bytes ('@' :: d.2)) rest := by
  have hskip : (lexer .stardog).skipLength ('@' :: d.2 ++ rest) = 0 :=
    skipLength_directive hd .stardog (List.mem_cons_self ..) (d.2 ++ rest)
  have htake : ('@' :: d.2 ++ rest).take (d.2.length + 1) = '@' :: d.2 := by simp
  have hdrop : ('@' :: d.2 ++ rest).drop (d.2.length + 1) = rest := by simp
  rw [Lexer.tokensFrom_token hskip (List.cons_ne_nil _ _), first_directive hd, htake, hdrop]

/-- A name that does not overrun the directive it begins like is that directive's. -/
theorem eq_nil_of_not_overruns {d : TokenType × List Char} (hd : d ∈ stardogDirectives)
    {more : List Char} {offset : Nat}
    (h : ¬ Overruns (Token.ofImage atRule.1 (String.ofList ['@']) offset)
      (Token.ofImage nameRule.1 (String.ofList (d.2 ++ more)) (offset + 1))) : more = [] := by
  by_contra hmore
  refine h ⟨?_, d, hd, ?_, ?_⟩
  · suffices "@".utf8ByteSize ≤ 1 by simpa [Token.abuts, Token.ofImage]
    decide
  · simp [Token.ofImage]
  · simpa [Token.ofImage] using hmore

/-- Where no name overruns a directive, the tokens of the dialect are those of the standard
with directives fused. -/
theorem fused_tokensFrom {fuel fuel' offset offset' : Nat} {cs : List Char}
    (hf : cs.length ≤ fuel) (hf' : cs.length ≤ fuel')
    (h : ((lexer .standard).tokensFrom fuel offset cs).IsChain fun a b => ¬ Overruns a b) :
    Fused (vocabulary .stardog) fusion (names ((lexer .standard).tokensFrom fuel offset cs))
      (names ((lexer .stardog).tokensFrom fuel' offset' cs)) := by
  induction fuel using Nat.strong_induction_on generalizing fuel' offset offset' cs with
  | _ fuel ih =>
    by_cases hne : cs = []
    · rw [hne, Lexer.tokensFrom_nil, Lexer.tokensFrom_nil]
      exact .nil
    have hlength := List.length_pos_iff.mpr hne
    obtain ⟨fuel, rfl⟩ : ∃ n, fuel = n + 1 := Nat.exists_eq_add_one.mpr (by omega)
    obtain ⟨fuel', rfl⟩ : ∃ n, fuel' = n + 1 := Nat.exists_eq_add_one.mpr (by omega)
    have hskip : (lexer .stardog).skipLength cs = (lexer .standard).skipLength cs := rfl
    by_cases hpos : 0 < (lexer .standard).skipLength cs
    · rw [Lexer.tokensFrom_skip hpos hne] at h ⊢
      rw [Lexer.tokensFrom_skip (hskip ▸ hpos) hne, hskip]
      exact ih fuel (Nat.lt_succ_self fuel) (by rw [List.length_drop]; omega)
        (by rw [List.length_drop]; omega) h
    have hzero := Nat.eq_zero_of_not_pos hpos
    by_cases hbegins : ∃ d ∈ stardogDirectives, '@' :: d.2 <+: cs
    · -- the standard reads two tokens, the dialect one
      obtain ⟨d, hd, rest, rfl⟩ := hbegins
      have hname := List.length_pos_iff.mpr (Inspection.nonempty inspection d hd)
      simp only [List.cons_append, List.length_cons, List.length_append] at hf hf'
      obtain ⟨fuel, rfl⟩ : ∃ n, fuel = n + 1 := Nat.exists_eq_add_one.mpr (by omega)
      obtain ⟨k, hstandard⟩ := tokensFrom_standard hd fuel offset rest
      rw [hstandard] at h ⊢
      obtain ⟨hpair, hchain⟩ := List.isChain_cons_cons.mp h
      have hk : rest.drop k = rest := by
        have htake := List.take_append_drop k rest
        rwa [eq_nil_of_not_overruns hd hpair, List.nil_append] at htake
      rw [hk] at hchain ⊢
      rw [tokensFrom_stardog hd]
      exact .fuse (Inspection.name_carries inspection) (List.mem_map_of_mem hd)
        (ih fuel (by omega) (by omega) (by omega) hchain.tail)
    · -- both read the same
      have hfirst := (lexer .standard).first_pos cs
      rw [Lexer.tokensFrom_token hzero hne] at h ⊢
      rw [Lexer.tokensFrom_token (hskip ▸ hzero) hne, first_eq hbegins]
      exact .keep (ih fuel (Nat.lt_succ_self fuel) (by rw [List.length_drop]; omega)
        (by rw [List.length_drop]; omega) h.tail)

/-! ### Documents -/

theorem type_of_mem_tokenize (dialect : Dialect) {cs : List Char} {t : Token}
    (h : t ∈ (lexer dialect).tokenize cs) : t.type ∈ (vocabulary dialect).types :=
  Lexer.type_mem_of_tokenize h

theorem standard_subset : (vocabulary .standard).types ⊆ (vocabulary .stardog).types := by
  have hstandard : (vocabulary .standard).types = typesBefore ++ typesBehind :=
    (List.takeWhile_append_dropWhile).symm
  rw [hstandard, Inspection.stardog inspection, List.append_assoc]
  exact ((List.sublist_append_right ..).append_left _).subset

theorem wellNamed : (vocabulary .stardog).WellNamed :=
  ⟨(lawful .stardog).distinct, Inspection.no_end inspection⟩

/-- **A document that the standard parses without an error has none in the dialect with
Stardog's directives either, if no name in it overruns a directive.** -/
theorem stardog_extends_standard (raw : List Char)
    (h : ((frontend .standard).parseDocument raw).errors = [])
    (hover : ((frontend .standard).parseDocument raw).tokens.IsChain fun a b => ¬ Overruns a b) :
    ((frontend .stardog).parseDocument raw).errors = [] := by
  have hprogressive := (lawful .standard).progressive
  have htyped : ∀ u ∈ tokensOf (frontend .standard) raw, u.type ∈ (vocabulary .standard).types :=
    fun _ => type_of_mem_tokenize .standard
  have hknown : KnowSame (vocabulary .standard) (vocabulary .stardog)
      (names (tokensOf (frontend .standard) raw)) :=
    .of_subset (List.map_subset _ standard_subset) wellNamed.no_end htyped
  have htyped' : ∀ u ∈ tokensOf (frontend .stardog) raw, u.type ∈ (vocabulary .stardog).types :=
    fun _ => type_of_mem_tokenize .stardog
  have hfused : Fused (vocabulary .stardog) fusion (names (tokensOf (frontend .standard) raw))
      (names (tokensOf (frontend .stardog) raw)) :=
    fused_tokensFrom (Nat.le_refl _) (Nat.le_refl _) hover
  -- first the tokens of the standard under the larger vocabulary, then those of the dialect
  have hparse := errors_parseDocument.mp h
  have hwide := parse_widen hprogressive hknown hparse
  exact errors_parseDocument.mpr (parse_fused hprogressive (Inspection.fusible inspection) wellNamed
    (fun u hu => standard_subset (htyped u hu)) htyped' hfused
    ((congrArg Prod.snd hwide).trans hparse))

/-- Directives of Stardog's, and others with names of their own, stand beside each other. -/
theorem stardog_extends_standard_filter :
    let raw := "query @filter @mine\x7ba\x7d".toList
    ((frontend .standard).parseDocument raw).errors = [] ∧
      (((frontend .standard).parseDocument raw).tokens.IsChain fun a b => ¬ Overruns a b) ∧
      ((frontend .stardog).parseDocument raw).errors = [] := by
  intro raw
  have h : ((frontend .standard).parseDocument raw).errors = [] :=
    List.isEmpty_iff.mp (by decide)
  have hover : ((frontend .standard).parseDocument raw).tokens.IsChain fun a b =>
      ¬ Overruns a b := by
    decide
  exact ⟨h, hover, stardog_extends_standard raw h hover⟩

/-- A directive whose name only begins like one of Stardog's is cut in two, and the operation
it stands in front of is refused. -/
theorem lookalike_refused :
    let raw := "query @filtering\x7ba\x7d".toList
    ((frontend .standard).parseDocument raw).errors = [] ∧
      ((frontend .stardog).parseDocument raw).errors ≠ [] := by
  intro raw
  have hrefused : ((frontend .stardog).parseDocument raw).errors.isEmpty = false := by
    decide
  refine ⟨List.isEmpty_iff.mp (by decide), fun h => ?_⟩
  rw [h] at hrefused
  cases hrefused

end GraphLanguages.GraphQL
