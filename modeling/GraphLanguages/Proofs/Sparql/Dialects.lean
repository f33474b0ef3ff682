import GraphLanguages.Proofs.Grammar.Placement
import GraphLanguages.Proofs.Grammar.Widen
import GraphLanguages.Proofs.Languages
import GraphLanguages.Proofs.Lexer
import GraphLanguages.Proofs.PrefixedNames

/-! The dialect with path queries extends the published one.

A keyword of path queries can only beat what the published dialect reads where that is an
unknown token, or where `max` is followed by `length` (`first_cases`): a prefixed name that
begins like one is longer, because of its colon. But an unknown token is never accepted, and
behind `max` only a parenthesis is. So accepted documents have the same tokens in both
dialects (`tokensFrom_eq`) and are parsed alike (`stardog_extends_w3`). -/
namespace GraphLanguages.Sparql
open Text Grammar

def lexer (dialect : Dialect) : Lexer :=
  (frontend dialect).lexer

/-! ### The rules of both lexers -/

/-- The types before those of path queries. -/
def typesBefore : List TokenType :=
  builtInTypes ++ keywordTypes keywords

/-- The types behind those of path queries. -/
def typesBehind : List TokenType :=
  (vocabulary .w3).types.drop typesBefore.length

def pathRules : List (TokenType × Matcher) :=
  Lexer.rulesOf (keywordTypes pathKeywords)

/-- The keywords of path queries, each with its first word apart. -/
def pathWords : List (List Char × List (List Char)) :=
  pathKeywords.map fun entry =>
    ((Text.words entry.2.toList).headD [], (Text.words entry.2.toList).tail)

def maxRule : TokenType × Matcher :=
  (.keyword "MAX" "max", .spaced ["max".toList])

/-- What inspection shows of the rules and the grammar. -/
structure Inspection : Prop where
  w3 : (vocabulary .w3).types = typesBefore ++ typesBehind
  stardog : (vocabulary .stardog).types = typesBefore ++ keywordTypes pathKeywords ++ typesBehind
  spaced : ∀ r ∈ pathRules, ∃ p ∈ pathWords, r.2 = .spaced (p.1 :: p.2)
  letters : ∀ p ∈ pathWords, p.1 ≠ [] ∧ p.1.any (sameLetter · ':') = false
  meets : ∀ p ∈ pathWords, ∀ r ∈ Lexer.rulesOf (typesBefore ++ typesBehind),
    r.2.meets p.1 = true →
      (r.2 = .regex Rdf.prefixedNameRegex ∨ r.2 = .regex Rdf.namespaceRegex) ∨
        r = maxRule ∧ p = ("max".toList, ["length".toList])
  opening : ∀ r ∈ Lexer.rulesOf (typesBefore ++ typesBehind), r.2.meets "length".toList = true →
    r.1.name ≠ "LParen"
  unknown : (lexer .w3).unknown = Vocabulary.unknownType ∧
    (lexer .stardog).unknown = Vocabulary.unknownType
  comment : Rdf.spaces.any (Rdf.commentRegex.expr.mayStart ·) = false
  skipped : ∀ r ∈ Rdf.skipped, (bothCases 'l').any (r.expr.mayStart ·) = false
  no_end : "EOF" ∉ (vocabulary .stardog).names
  /-- `max` is accepted only before a parenthesis, and nothing unknown is accepted at all. -/
  places : Places (vocabulary .w3) grammar [("MAX", ["LParen"]), (Vocabulary.unknownName, [])]

theorem inspection : Inspection where
  w3 := by decide +kernel
  stardog := by decide +kernel
  spaced := by decide +kernel
  letters := by decide +kernel
  meets := by decide +kernel
  opening := by decide +kernel
  unknown := by decide +kernel
  comment := by decide +kernel
  skipped := by decide +kernel
  no_end := by decide +kernel
  places := by decide +kernel

theorem w3_rules :
    (lexer .w3).rules = Lexer.rulesOf typesBefore ++ Lexer.rulesOf typesBehind := by
  show Lexer.rulesOf (vocabulary .w3).types = _
  rw [Inspection.w3 inspection, Lexer.rulesOf_append]

theorem stardog_rules :
    (lexer .stardog).rules =
      Lexer.rulesOf typesBefore ++ pathRules ++ Lexer.rulesOf typesBehind := by
  show Lexer.rulesOf (vocabulary .stardog).types = _
  rw [Inspection.stardog inspection, Lexer.rulesOf_append, Lexer.rulesOf_append]
  rfl

theorem mem_w3_rules {r : TokenType × Matcher} (h : r ∈ (lexer .w3).rules) :
    r ∈ Lexer.rulesOf (typesBefore ++ typesBehind) := by
  rw [Lexer.rulesOf_append]
  exact w3_rules ▸ h

/-- Text that no rule matches is unknown to both. -/
theorem lexer_unknown (dialect : Dialect) : (lexer dialect).unknown = Vocabulary.unknownType := by
  cases dialect with
  | w3 => exact (Inspection.unknown inspection).1
  | stardog => exact (Inspection.unknown inspection).2

/-! ### The first token of a text -/

/-- At the start of a text both dialects read the same, unless the published one reads
something unknown, or `max` with `length` behind it. -/
theorem first_cases (cs : List Char) :
    (lexer .stardog).first cs = (lexer .w3).first cs ∨
      ((lexer .w3).first cs).2 = Vocabulary.unknownType ∨
      (lexer .w3).first cs = (3, maxRule.1) ∧
        ∃ u rest k, cs = u ++ rest ∧ u.length = 3 ∧
          Matcher.spacedWords? ["length".toList] rest = some k := by
  by_cases hbeaten : ∀ r ∈ pathRules, Lexer.width cs r = 0 ∨
      ∃ q ∈ (lexer .w3).rules, Lexer.width cs r < Lexer.width cs q
  · have hlongest := Lexer.longest?_of_insert w3_rules stardog_rules hbeaten
    left
    rw [Lexer.first, Lexer.first, hlongest, lexer_unknown, lexer_unknown]
  right
  simp only [not_forall, not_or, not_exists, not_and, Nat.not_lt] at hbeaten
  obtain ⟨r, hr, hwidth, hmost⟩ := hbeaten
  -- the keyword that is not beaten, and the text behind its first word
  obtain ⟨⟨word, words⟩, hp, hspaced⟩ := Inspection.spaced inspection r hr
  have hmatch := Lexer.match?_of_width_pos (Nat.pos_of_ne_zero hwidth)
  rw [hspaced] at hmatch
  obtain ⟨rest, k, hafter, hk, hlength⟩ := Matcher.words?_cons hmatch
  obtain ⟨u, hspells, rfl⟩ := spells_of_after hafter
  obtain ⟨hne, hletters⟩ := Inspection.letters inspection _ hp
  rcases (lexer .w3).longest?_cases (u ++ rest) with
    ⟨-, hbest⟩ | ⟨before, q, after, hq, hwins, hbest⟩
  · left
    rw [Lexer.first, hbest, lexer_unknown]
    rfl
  have hqmem : q ∈ (lexer .w3).rules := by rw [hq]; simp
  have hmeets : q.2.meets word = true :=
    Lexer.meets_of_width_pos (by rw [hafter]; rfl) hne hwins.pos
  rcases Inspection.meets inspection _ hp q (mem_w3_rules hqmem) hmeets with hname | ⟨rfl, hmax⟩
  · -- a name is longer than a single word, and does not reach over white space
    exfalso
    obtain ⟨hlonger, hhead⟩ := Rdf.longer_than_keyword hname hletters hafter hwins.pos
    cases words with
    | nil =>
      obtain rfl : 0 = k := by simpa [Matcher.spacedWords?] using hk
      have := hmost q hqmem
      omega
    | cons w words =>
      obtain ⟨⟨c, hc, hspace⟩, -⟩ := Matcher.spacedWords?_cons hk
      cases hspace.symm.trans (hhead c hc)
  · right
    obtain ⟨rfl, rfl⟩ := Prod.mk.inj hmax
    refine ⟨?_, u, rest, k, rfl, hspells.length_eq.symm, hk⟩
    have hmaxwidth : Lexer.width (u ++ rest) maxRule = 3 := by
      have hw : maxRule.2.match? (u ++ rest) = some 3 := by
        show (afterIgnoringCase? "max".toList (u ++ rest)).bind _ = some 3
        rw [hafter]
        rfl
      rw [Lexer.width, hw]
      rfl
    rw [Lexer.first, hbest, hmaxwidth]
    rfl

/-! ### The tokens of a text -/

/-- White space is skipped as far as it goes. -/
theorem skipLength_spaces (dialect : Dialect) {c : Char} (hc : Unicode.isSpace c = true)
    (cs : List Char) :
    (lexer dialect).skipLength (c :: cs) = ((c :: cs).takeWhile Unicode.isSpace).length := by
  have hclass : Regex.CharClass.holds ⟨false, [.space]⟩ = Unicode.isSpace := by
    funext d
    simp [Regex.CharClass.holds, Regex.Item.holds]
  have hspace : Rdf.spaceRegex.match? (c :: cs) =
      some ((cs.takeWhile Unicode.isSpace).length + 1) := by
    rw [← hclass] at hc ⊢
    exact Regex.match?_run hc cs
  have hstart := List.any_eq_false.mp (Inspection.comment inspection) c (Rdf.mem_spaces hc)
  have hcomment := Lexer.match?_eq_zero cs (Bool.eq_false_iff.mpr hstart)
  show max (max 0 ((Rdf.spaceRegex.match? (c :: cs)).getD 0))
    ((Rdf.commentRegex.match? (c :: cs)).getD 0) = _
  rw [hspace, hcomment, List.takeWhile_cons_of_pos hc, List.length_cons, Nat.max_zero,
    Nat.zero_max]
  rfl

/-- A text that begins with `length` does not begin with a parenthesis. -/
theorem opening_not_first {cs : List Char}
    (h : (afterIgnoringCase? "length".toList cs).isSome = true) :
    ((lexer .w3).first cs).2.name ≠ "LParen" := by
  rw [Lexer.first]
  rcases (lexer .w3).longest?_cases cs with ⟨-, hbest⟩ | ⟨before, q, after, hq, hwins, hbest⟩
  · rw [hbest, lexer_unknown]
    show Vocabulary.unknownType.name ≠ "LParen"
    decide
  · rw [hbest]
    have hqmem : q ∈ (lexer .w3).rules := by rw [hq]; simp
    exact Inspection.opening inspection q (mem_w3_rules hqmem)
      (Lexer.meets_of_width_pos h (by decide) hwins.pos)

theorem opening_not_next {fuel offset : Nat} {cs : List Char} {k : Nat} (hf : cs.length ≤ fuel)
    (h : Matcher.spacedWords? ["length".toList] cs = some k) :
    "LParen" ∉ (names ((lexer .w3).tokensFrom fuel offset cs)).head? := by
  obtain ⟨⟨c, hc, hspace⟩, hword⟩ := Matcher.spacedWords?_cons h
  obtain ⟨cs, rfl⟩ : ∃ rest, cs = c :: rest := List.head?_eq_some_iff.mp hc
  have hskip := skipLength_spaces .w3 hspace cs
  have hpos : 0 < (lexer .w3).skipLength (c :: cs) := by
    rw [hskip, List.takeWhile_cons_of_pos hspace]
    exact Nat.succ_pos _
  rw [List.length_cons] at hf
  obtain ⟨fuel, rfl⟩ : ∃ n, fuel = n + 1 := Nat.exists_eq_add_one.mpr (by omega)
  rw [Lexer.tokensFrom_skip hpos (List.cons_ne_nil c cs)]
  -- behind the white space a word begins
  rw [← hskip] at hword
  have hlength : ((c :: cs).drop ((lexer .w3).skipLength (c :: cs))).length ≤ fuel := by
    rw [List.length_drop, List.length_cons]
    omega
  generalize (c :: cs).drop ((lexer .w3).skipLength (c :: cs)) = next at hword hlength
  cases next with
  | nil => cases hword
  | cons d ds =>
    rw [List.length_cons] at hlength
    obtain ⟨fuel, rfl⟩ : ∃ n, fuel = n + 1 := Nat.exists_eq_add_one.mpr (by omega)
    have hd : d ∈ bothCases 'l' := by
      have hafter : (afterIgnoringCase? "length".toList (d :: ds)).isSome = true := hword
      by_cases hl : sameLetter 'l' d = true
      · exact eq_of_sameLetter hl
      · simp [afterIgnoringCase?, hl] at hafter
    have hnoskip : (lexer .w3).skipLength (d :: ds) = 0 :=
      Lexer.skipLength_eq_zero ds fun r hr =>
        Bool.eq_false_iff.mpr (List.any_eq_false.mp (Inspection.skipped inspection r hr) d hd)
    rw [Lexer.tokensFrom_token hnoskip (List.cons_ne_nil d ds)]
    intro hmem
    exact opening_not_first hword (Option.mem_some_iff.mp hmem)

/-- Both dialects cut a text alike where the published one finds nothing unknown, and `max`
only before a parenthesis. -/
theorem tokensFrom_eq {fuel offset : Nat} {cs : List Char} (hf : cs.length ≤ fuel)
    (hunknown : "Unknown" ∉ names ((lexer .w3).tokensFrom fuel offset cs))
    (hmax : OnlyBefore "MAX" ["LParen"] (names ((lexer .w3).tokensFrom fuel offset cs))) :
    (lexer .stardog).tokensFrom fuel offset cs = (lexer .w3).tokensFrom fuel offset cs := by
  induction fuel generalizing offset cs with
  | zero => rfl
  | succ fuel ih =>
    by_cases hne : cs = []
    · rw [hne]
      rfl
    have hskip : (lexer .stardog).skipLength cs = (lexer .w3).skipLength cs := rfl
    by_cases hpos : 0 < (lexer .w3).skipLength cs
    · rw [Lexer.tokensFrom_skip hpos hne] at hunknown hmax
      rw [Lexer.tokensFrom_skip (hskip ▸ hpos) hne, Lexer.tokensFrom_skip hpos hne, hskip]
      refine ih ?_ hunknown hmax
      rw [List.length_drop]
      omega
    · have hzero := Nat.eq_zero_of_not_pos hpos
      have hfirst := (lexer .w3).first_pos cs
      have hlength : (cs.drop ((lexer .w3).first cs).1).length ≤ fuel := by
        rw [List.length_drop]
        omega
      rw [Lexer.tokensFrom_token hzero hne] at hunknown hmax
      rw [Lexer.tokensFrom_token (hskip ▸ hzero) hne, Lexer.tokensFrom_token hzero hne]
      rcases first_cases cs with hsame | hunk | ⟨hthree, u, rest, k, hcs, hu, hk⟩
      · rw [hsame, ih hlength (fun h => hunknown (List.mem_cons_of_mem _ h)) hmax.tail]
      · refine absurd (List.mem_cons.mpr (.inl ?_)) hunknown
        show "Unknown" = ((lexer .w3).first cs).2.name
        rw [hunk]
        rfl
      · -- behind `max` the published dialect reads no parenthesis
        rw [hthree, hcs, ← hu, List.drop_left] at hlength hmax
        obtain ⟨n, hn, hhead⟩ := hmax.head
        obtain rfl := List.mem_singleton.mp hn
        exact absurd hhead (opening_not_next hlength hk)

/-! ### Documents -/

theorem type_of_mem_tokenize {cs : List Char} {t : Token} (h : t ∈ (lexer .w3).tokenize cs) :
    t.type ∈ (vocabulary .w3).types :=
  Lexer.type_mem_of_tokenize h

theorem names_subset_stardog : (vocabulary .w3).names ⊆ (vocabulary .stardog).names :=
  (w3_sublist.map _).subset

/-- Both dialects know all tokens of the published one. -/
theorem knowSame_tokenize (cs : List Char) :
    KnowSame (vocabulary .w3) (vocabulary .stardog) (names ((lexer .w3).tokenize cs)) :=
  .of_subset names_subset_stardog (Inspection.no_end inspection) fun _ => type_of_mem_tokenize

/-- **A document that the published dialect parses without an error has the same tokens and
the same tree in the dialect with path queries, and no error either.** -/
theorem stardog_extends_w3 (raw : List Char)
    (h : ((frontend .w3).parseDocument raw).errors = []) :
    let w3 := (frontend .w3).parseDocument raw
    let stardog := (frontend .stardog).parseDocument raw
    stardog.tokens = w3.tokens ∧ stardog.tree = w3.tree ∧ stardog.errors = [] := by
  intro w3 stardog
  have hwellNamed : (vocabulary .w3).WellNamed :=
    ⟨distinct .w3, fun h => Inspection.no_end inspection (names_subset_stardog h)⟩
  have hplaces := Inspection.places inspection
  have honly := hplaces.onlyBefore_of_parse (lawful .w3).progressive hwellNamed
    (fun _ => type_of_mem_tokenize) (errors_parseDocument.mp h)
  have hmax := honly ("MAX", ["LParen"]) (by simp)
  have hunknown := honly (Vocabulary.unknownName, []) (by simp)
  have htokens : tokensOf (frontend .stardog) raw = tokensOf (frontend .w3) raw :=
    tokensFrom_eq (Nat.le_refl _) hunknown.not_mem hmax
  have hsame : stardog = w3 :=
    parseDocument_widen (lawful .w3).progressive rfl htokens (knowSame_tokenize _) h
  rw [hsame]
  exact ⟨rfl, rfl, h⟩

/-- Names that begin like keywords of path queries are names in both dialects. -/
theorem stardog_extends_w3_start :
    let raw := "ask\x7bstart:s a paths:p\x7d".toList
    let w3 := (frontend .w3).parseDocument raw
    let stardog := (frontend .stardog).parseDocument raw
    w3.errors = [] ∧
      stardog.tokens = w3.tokens ∧ stardog.tree = w3.tree ∧ stardog.errors = [] := by
  intro raw w3 stardog
  have h : w3.errors = [] := List.isEmpty_iff.mp (by decide +kernel)
  exact ⟨h, stardog_extends_w3 raw h⟩

end GraphLanguages.Sparql
