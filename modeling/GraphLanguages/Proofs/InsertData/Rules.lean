import GraphLanguages.Proofs.Comments
import GraphLanguages.Proofs.Lexer.Rivals
import GraphLanguages.Proofs.Sparql.Dialects
import GraphLanguages.Proofs.Turtle.Flavours

/-! Terminals of Turtle in front of a closing brace of SPARQL.

The lexers of both languages have the rules of their terminals in common (`core`), but for the
sign of a number. What the others of SPARQL take is less than a terminal takes
(`shorter_than_core`), with two exceptions: parentheses with nothing between them, and the
keyword `a` in front of some letters. -/
namespace GraphLanguages.InsertData
open Text Lexer

/-! ### The rules -/

/-- The line on which the data are closed. -/
def closing : List Char := "\n\x7d".toList

/-- The lexer of the terminals that both languages have. -/
def coreLexer (signed : Bool) : Lexer :=
  .ofVocabulary ⟨Rdf.terms signed ++ Rdf.punctuation⟩ Rdf.skipped

def core (signed : Bool) : List (TokenType × Matcher) :=
  (coreLexer signed).rules

def punctuationRule (name text : String) : TokenType × Matcher :=
  ((TokenType.literal name text).withCategories [.punctuator], .verbatim text.toList)

def nilRule : TokenType × Matcher :=
  (.regex "NIL" Sparql.nilRegex, .regex Sparql.nilRegex)

def verbRule : TokenType × Matcher :=
  (.keyword "A" "a", .spaced ["a".toList])

def insertRule : TokenType × Matcher :=
  (.keyword "INSERT_DATA" "insert data", .spaced ["insert".toList, "data".toList])

def variableRule (name : String) (mark : Char) (label : String) : TokenType × Matcher :=
  (((TokenType.regex name (Sparql.variableRegex mark)).withCategories [.variable]).withLabel label,
    .regex (Sparql.variableRegex mark))

def variableRules : List (TokenType × Matcher) :=
  [variableRule "VAR1" '?' "?foo", variableRule "VAR2" '$' "$foo"]

def operatorRules : List (TokenType × Matcher) :=
  rulesOf (Rdf.literals .punctuator Sparql.operators)

def keywordRules : Sparql.Dialect → List (TokenType × Matcher)
  | .w3 => rulesOf Sparql.typesBefore
  | .stardog => rulesOf Sparql.typesBefore ++ Sparql.pathRules

/-- Is the matcher that of a prefixed name? -/
def isPrefixed (m : Matcher) : Bool :=
  m == .regex Rdf.prefixedNameRegex || m == .regex Rdf.namespaceRegex

def alphabet : List Char := "abcdefghijklmnopqrstuvwxyz".toList

/-- Is it a keyword of letters that begins like neither boolean? -/
def isKeyword (m : Matcher) : Bool :=
  match m with
  | .spaced (w :: _) =>
    w.head?.any alphabet.contains && !w.any (sameLetter · ':') &&
      !agree "true".toList w && !agree "false".toList w
  | _ => false

/-- The operators that a terminal begins with, and the terminals. -/
def overlaps : List (List Char × Matcher) :=
  [("<".toList, .regex Rdf.iriRegex), ("<=".toList, .regex Rdf.iriRegex),
   ("^".toList, .verbatim "^^".toList)]

/-- Is it an operator that no terminal meets but one that overlaps? -/
def isOperator (m : Matcher) : Bool :=
  match m with
  | .verbatim chars => !chars.isEmpty && (core false).all fun q =>
      !q.2.meets (chars.take 1) || overlaps.contains (chars, q.2)
  | _ => false

/-- The letters that keywords of SPARQL have behind an `a`, in both cases. -/
def secondLetters : List Char := "bdlsvBDLSV".toList

/-- Is it a keyword with one of those letters in the second place? -/
def hasSecondLetter (m : Matcher) : Bool :=
  match m with
  | .spaced ((_ :: c :: _) :: _) => (bothCases c).all secondLetters.contains
  | _ => false

/-- The expressions of terminals that go over several lines. -/
def multilineRegexes : List Regex :=
  [Rdf.anonymousRegex, Rdf.longString1Regex, Rdf.longString2Regex]

/-- The tokens that begin a directive. -/
def directiveNames : List String :=
  ["TTL_PREFIX", "TTL_BASE", "SPARQL_PREFIX", "SPARQL_BASE"]

/-- Characters of a list are looked at one by one, and not all that there are. -/
scoped instance (priority := 2000) decidableChars (p : Char → Prop) [DecidablePred p]
    (cs : List Char) : Decidable (∀ c ∈ cs, p c) :=
  List.decidableBAll p cs

/-- What inspection shows of the rules. -/
structure Inspection : Prop where
  turtle : rulesOf Turtle.typesBehind = core true
  sparql : rulesOf Sparql.typesBehind = variableRules ++ [nilRule] ++ core false ++ operatorRules
  before : ∀ r ∈ rulesOf Turtle.typesBefore, r.1.name ∈ "A" :: directiveNames
  keywords : ∀ r ∈ keywordRules .stardog, isKeyword r.2 = true
  alphabet : ∀ q ∈ core false, ∀ c ∈ alphabet, q.2.meets [c] = true →
    isPrefixed q.2 = true ∨ q.2 ∈ [.spaced ["true".toList], .spaced ["false".toList]]
  operators : ∀ r ∈ operatorRules, isOperator r.2 = true
  marks : ∀ q ∈ core false, q.2.meets ['?'] = false ∧ q.2.meets ['$'] = false
  inside : ∀ q ∈ core false,
    q.2.avoids '\n' = true ∨ q.2 ∈ multilineRegexes.map Matcher.regex
  parentheses : ∀ p ∈ [("LParen", "("), ("RParen", ")")],
    punctuationRule p.1 p.2 ∈ (Turtle.lexer .turtle).rules ∧
      ∀ r ∈ (Turtle.lexer .turtle).rules,
        (r.2.meets p.2.toList = true → r = punctuationRule p.1 p.2) ∧
        (r.1.name = p.1 → r = punctuationRule p.1 p.2)
  /-- Which rules of SPARQL may take something where a brace, a parenthesis, the verb or the
  keyword of the update comes. -/
  meets : ∀ r ∈ (Sparql.lexer .stardog).rules,
    (r.2.meets "\x7b".toList = true → r = punctuationRule "LCurly" "\x7b") ∧
    (r.2.meets "\x7d".toList = true → r = punctuationRule "RCurly" "\x7d") ∧
    (r.2.meets "(".toList = true → r = nilRule ∨ r.2 = .verbatim "(".toList) ∧
    (r.2.meets "a".toList = true →
      r = verbRule ∨ isPrefixed r.2 = true ∨ hasSecondLetter r.2 = true) ∧
    (r.2.meets "insert".toList = true →
      r = insertRule ∨ isPrefixed r.2 = true ∨
        r.2 ∈ [.spaced ["in".toList], .spaced ["insert".toList]])
  members : punctuationRule "LCurly" "\x7b" ∈ core false ∧
    punctuationRule "RCurly" "\x7d" ∈ core false ∧
    verbRule ∈ keywordRules .w3 ∧ insertRule ∈ keywordRules .w3
  turtleVerb : ∀ r ∈ (Turtle.lexer .turtle).rules, r.1.name = "A" → r.2 = .verbatim "a".toList
  letters : ∀ r ∈ (Turtle.lexer .turtle).rules, ∀ c ∈ secondLetters, r.2.meets [c] = true →
    isPrefixed r.2 = true ∨ r.1.name ∈ directiveNames
  prefixed : ∀ m ∈ [Matcher.regex Rdf.prefixedNameRegex, .regex Rdf.namespaceRegex],
    ∃ q ∈ core true, q ∈ core false ∧ q.2 = m

theorem inspection : Inspection where
  turtle := by rfl
  sparql := by decide +kernel
  before := by decide +kernel
  keywords := by decide +kernel
  alphabet := by decide +kernel
  operators := by decide +kernel
  marks := by decide +kernel
  inside := by decide +kernel
  parentheses := by decide +kernel
  meets := by decide +kernel
  members := by decide +kernel
  turtleVerb := by decide +kernel
  letters := by decide +kernel
  prefixed := by decide +kernel

theorem turtle_rules :
    (Turtle.lexer .turtle).rules = rulesOf Turtle.typesBefore ++ (coreLexer true).rules := by
  rw [Turtle.turtle_rules, Inspection.turtle inspection]
  rfl

theorem sparql_rules (dialect : Sparql.Dialect) :
    (Sparql.lexer dialect).rules =
      (keywordRules dialect ++ variableRules ++ [nilRule]) ++ (coreLexer false).rules ++
        operatorRules := by
  cases dialect with
  | w3 =>
    rw [Sparql.w3_rules, Inspection.sparql inspection]
    simp only [keywordRules, core, List.append_assoc]
  | stardog =>
    rw [Sparql.stardog_rules, Inspection.sparql inspection]
    simp only [keywordRules, core, List.append_assoc]

theorem keywordRules_subset (dialect : Sparql.Dialect) :
    keywordRules .w3 ⊆ keywordRules dialect ∧ keywordRules dialect ⊆ keywordRules .stardog := by
  cases dialect with
  | w3 => exact ⟨List.Subset.refl _, List.subset_append_left ..⟩
  | stardog => exact ⟨List.subset_append_left .., List.Subset.refl _⟩

/-- Inspecting the larger dialect is enough. -/
theorem sparql_rules_subset (dialect : Sparql.Dialect) :
    (Sparql.lexer dialect).rules ⊆ (Sparql.lexer .stardog).rules := by
  intro r hr
  rw [sparql_rules] at hr ⊢
  simp only [List.mem_append] at hr ⊢
  rcases hr with (((hr | hr) | hr) | hr) | hr
  · exact .inl (.inl (.inl (.inl ((keywordRules_subset dialect).2 hr))))
  all_goals simp [hr]

/-! ### Matches in front of the closing line -/

section
variable {cs rest : List Char}

/-- A word that ends like no part of the closing line ends in front of it. -/
theorem length_le_of_last {u : List Char} (h : u ++ rest = cs ++ closing)
    (hlast : ∀ c ∈ u.getLast?, c ∉ closing) : u.length ≤ cs.length := by
  rcases List.append_eq_append_iff.mp h with ⟨between, rfl, -⟩ | ⟨between, rfl, hclosing⟩
  · simp
  · cases hbetween : between.getLast? with
    | none =>
      rw [List.getLast?_eq_none_iff.mp hbetween, List.append_nil]
    | some c =>
      have hmem : c ∈ closing := hclosing ▸ List.mem_append_left _ (List.mem_of_getLast? hbetween)
      exact absurd hmem (hlast c (by rw [List.getLast?_append, hbetween]; rfl))

theorem last_of_multiline {r : Regex} (hr : r ∈ multilineRegexes) {u : List Char}
    (h : r.expr.Accepts u) : ∀ c ∈ u.getLast?, c ∉ closing := by
  have hword : ∃ front c, c ∉ closing ∧ u = front ++ [c] := by
    simp only [multilineRegexes, List.mem_cons, List.not_mem_nil, or_false] at hr
    rcases hr with rfl | rfl | rfl
    · obtain ⟨gap, rfl, -⟩ := Rdf.accepts_hollow h
      exact ⟨_, ']', by decide, (List.cons_append ..).symm⟩
    · obtain ⟨front, rfl⟩ := Rdf.accepts_longString h
      exact ⟨front, '\'', by decide, rfl⟩
    · obtain ⟨front, rfl⟩ := Rdf.accepts_longString h
      exact ⟨front, '"', by decide, rfl⟩
  obtain ⟨front, c, hc, rfl⟩ := hword
  intro d hd
  rw [List.getLast?_concat, Option.mem_some] at hd
  exact hd ▸ hc

/-- No terminal reaches into the closing line. -/
theorem width_closing {q : TokenType × Matcher} (hq : q ∈ core false) :
    width (cs ++ closing) q = width cs q := by
  have hruled := ruled_ofVocabulary ⟨Rdf.terms false ++ Rdf.punctuation⟩ Rdf.skipped
  refine width_append hruled hq (Nat.le_of_not_lt fun hlt => ?_)
  have hmatch := match?_of_width_pos (Nat.lt_of_le_of_lt (Nat.zero_le _) hlt)
  rcases Inspection.inside inspection q hq with havoids | hmultiline
  · have hbreak := Matcher.not_mem_of_avoids (Matcher.worded_of_pattern (hruled q hq)) (by decide)
      havoids hmatch
    refine hbreak ?_
    show '\n' ∈ (cs ++ '\n' :: ['\x7d']).take _
    rw [take_append_cons hlt]
    simp
  · obtain ⟨r, hr, hqr⟩ := List.mem_map.mp hmultiline
    rw [← hqr] at hmatch
    obtain ⟨rest, hcs, hle, haccepts⟩ := Regex.accepts_of_match? hmatch
    have := length_le_of_last hcs.symm (last_of_multiline hr haccepts)
    rw [List.length_take, Nat.min_eq_left hle] at this
    omega

end

/-! ### Numbers without a sign -/

def numberRule (name : String) (regex : Regex) : TokenType × Matcher :=
  ((TokenType.regex name regex).withCategories [.literal], .regex regex)

def numberRules (signed : Bool) : List (TokenType × Matcher) :=
  [numberRule "INTEGER" (Rdf.integerRegex signed), numberRule "DECIMAL" (Rdf.decimalRegex signed),
    numberRule "DOUBLE" (Rdf.doubleRegex signed)]

/-- Both have the rules around those of numbers. -/
theorem core_eq (signed : Bool) :
    core signed = (core true).take 6 ++ numberRules signed ++ (core true).drop 9 := by
  cases signed <;> rfl

section
variable {c : Char} (hc : c ≠ '+' ∧ c ≠ '-')
include hc

/-- A sign that is not there makes no difference. -/
theorem match?_sign (e : Regex.Expr) (cs : List Char) :
    (Regex.Expr.seq Rdf.sign e).match? (c :: cs) = e.match? (c :: cs) := by
  have hitems : Regex.items "+-" = ['+', '-'].map Regex.just := by decide
  have hholds : Regex.CharClass.holds ⟨false, Regex.items "+-"⟩ c = false := by
    rw [Bool.eq_false_iff, hitems, Regex.CharClass.holds, Bool.bne_false, ne_eq, Rdf.any_just]
    simpa using hc
  have hsign : Rdf.sign.ends (Regex.starting (c :: cs)) = [Regex.starting (c :: cs)] := by
    simp [Rdf.sign, Regex.maybe, Regex.charClass, Regex.Expr.ends, Regex.starting, hholds]
  rw [Regex.Expr.match?, Regex.Expr.match?, Regex.Expr.ends, hsign, List.flatMap_singleton]

/-- Where no sign comes, the terminals take the same in front of the closing line. -/
theorem core_alike (cs : List Char) :
    List.Forall₂ (Alike (c :: cs) (c :: cs ++ closing)) (core true) (core false) := by
  have hshared : ∀ {part}, part ⊆ core false →
      List.Forall₂ (Alike (c :: cs) (c :: cs ++ closing)) part part := fun hpart =>
    List.forall₂_same.mpr fun q hq => ⟨rfl, (width_closing (hpart hq)).symm⟩
  have hnumber : ∀ {name : String} {signed unsigned : Regex},
      signed.expr = .seq Rdf.sign unsigned.expr →
      numberRule name unsigned ∈ numberRules false →
      Alike (c :: cs) (c :: cs ++ closing) (numberRule name signed)
        (numberRule name unsigned) := by
    intro name signed unsigned hexpr hmem
    refine ⟨rfl, ?_⟩
    rw [width_closing (by rw [core_eq]; simp [hmem])]
    show (signed.expr.match? (c :: cs)).getD 0 = (unsigned.expr.match? (c :: cs)).getD 0
    rw [hexpr, match?_sign hc]
  have hnumbers : List.Forall₂ (Alike (c :: cs) (c :: cs ++ closing)) (numberRules true)
      (numberRules false) :=
    .cons (hnumber rfl (by simp [numberRules])) (.cons (hnumber rfl (by simp [numberRules]))
      (.cons (hnumber rfl (by simp [numberRules])) .nil))
  rw [core_eq true, core_eq false]
  refine List.rel_append (List.rel_append (hshared ?_) hnumbers) (hshared ?_)
  · rw [core_eq false, List.append_assoc]
    exact List.subset_append_left ..
  · rw [core_eq false]
    exact List.subset_append_right ..

end

/-! ### What the other rules of SPARQL take -/

section
variable {cs : List Char} {q r : TokenType × Matcher}

theorem prefixed_iff {m : Matcher} :
    isPrefixed m = true ↔ m = .regex Rdf.prefixedNameRegex ∨ m = .regex Rdf.namespaceRegex := by
  simp [isPrefixed]

theorem meets_head {m : Matcher} {c : Char} {w : List Char} (h : m.meets (c :: w) = true) :
    m.meets [c] = true := by
  have hagree : ∀ chars, agree chars (c :: w) = true → agree chars [c] = true := by
    intro chars h
    cases chars with
    | nil => rfl
    | cons d chars =>
      simp only [agree, List.zip_cons_cons, List.all_cons, Bool.and_eq_true] at h
      simp [agree, h.1]
  cases m with
  | verbatim chars => exact hagree chars h
  | spaced ws =>
    cases ws with
    | nil => cases h
    | cons w ws => exact hagree w h
  | regex r => exact h

/-- A terminal that a keyword meets is a prefixed name. -/
theorem prefixed_of_meets {w : List Char} {ws : List (List Char)}
    (hkeyword : isKeyword (.spaced (w :: ws)) = true) (hq : q ∈ core false)
    (hmeets : q.2.meets w = true) : isPrefixed q.2 = true := by
  simp only [isKeyword, Bool.and_eq_true, Bool.not_eq_true'] at hkeyword
  obtain ⟨⟨⟨hhead, -⟩, htrue⟩, hfalse⟩ := hkeyword
  cases w with
  | nil => cases hhead
  | cons c w =>
    have hc : c ∈ alphabet := by simpa using hhead
    refine (Inspection.alphabet inspection q hq c hc (meets_head hmeets)).resolve_right ?_
    intro hboolean
    simp only [List.mem_cons, List.not_mem_nil, or_false] at hboolean
    rcases hboolean with hq | hq
    · rw [hq] at hmeets
      cases hmeets.symm.trans htrue
    · rw [hq] at hmeets
      cases hmeets.symm.trans hfalse

/-- A keyword takes less than a terminal. -/
theorem keyword_shorter (hkeyword : isKeyword r.2 = true) (hr : 0 < width cs r)
    (hq : q ∈ core false) (hpos : 0 < width cs q) : width cs r < width cs q := by
  have hmatch := match?_of_width_pos hr
  unfold isKeyword at hkeyword
  split at hkeyword
  next w ws hspaced =>
    have hwords := hkeyword
    simp only [Bool.and_eq_true, Bool.not_eq_true'] at hwords
    rw [hspaced] at hmatch
    obtain ⟨rest, k, hword, hk, hlength⟩ := Matcher.words?_cons hmatch
    have hne : w ≠ [] := by
      rintro rfl
      cases hwords.1.1.1
    have hmeets := meets_of_width_pos (by rw [hword]; rfl) hne hpos
    have hprefixed : isPrefixed q.2 = true := @prefixed_of_meets q w ws hkeyword hq hmeets
    have hname := prefixed_iff.mp hprefixed
    obtain ⟨hlonger, hspace⟩ := Rdf.longer_than_keyword hname hwords.1.1.2 hword hpos
    -- behind the first word there is no white space, so there is no further word
    have hzero : k = 0 := by
      cases ws with
      | nil => exact (Option.some.inj hk).symm
      | cons w' ws =>
        obtain ⟨⟨c, hc, hcspace⟩, -⟩ := Matcher.spacedWords?_cons hk
        rw [hspace c hc] at hcspace
        cases hcspace
    omega
  next => cases hkeyword

theorem match?_iri {n : Nat} (h : Rdf.iriRegex.match? cs = some n) :
    2 ≤ n ∧ ("<=".toList <+: cs → 3 ≤ n) := by
  obtain ⟨rest, hcs, hle, haccepts⟩ := Regex.accepts_of_match? h
  obtain ⟨opening, behind, hopening, hbehind, htake⟩ := Regex.accepts_seq.mp haccepts
  obtain ⟨body, last, -, hlast, rfl⟩ := Regex.accepts_seq.mp hbehind
  obtain rfl := Rdf.accepts_char.mp hopening
  obtain rfl := Rdf.accepts_char.mp hlast
  have hlength : n = body.length + 2 := by
    have := congrArg List.length htake
    rw [List.length_take, Nat.min_eq_left hle] at this
    simpa using this
  refine ⟨by omega, fun hprefix => ?_⟩
  rw [hcs, htake] at hprefix
  cases body with
  | nil => simp at hprefix
  | cons c body => simp at hlength; omega

/-- An operator takes less than a terminal. -/
theorem operator_shorter (hoperator : isOperator r.2 = true) (hr : 0 < width cs r)
    (hq : q ∈ core false) (hpos : 0 < width cs q) : width cs r < width cs q := by
  have hmatch := match?_of_width_pos hr
  unfold isOperator at hoperator
  split at hoperator
  next chars hchars =>
    rw [hchars, Matcher.match?] at hmatch
    split at hmatch
    next hprefix =>
      rw [← Option.some.inj hmatch]
      simp only [Bool.and_eq_true, Bool.not_eq_true', List.isEmpty_eq_false_iff] at hoperator
      replace hprefix := List.isPrefixOf_iff_prefix.mp hprefix
      have hfirst := after_of_isPrefixOf
        (List.isPrefixOf_iff_prefix.mpr ((List.take_prefix 1 chars).trans hprefix))
      have hmeets := meets_of_width_pos hfirst (by simpa using hoperator.1) hpos
      have hoverlap := List.all_eq_true.mp hoperator.2 q hq
      rw [hmeets, Bool.not_true, Bool.false_or, List.contains_iff_mem] at hoverlap
      simp only [overlaps, List.mem_cons, List.not_mem_nil, or_false, Prod.mk.injEq] at hoverlap
      have hterminal := match?_of_width_pos hpos
      rcases hoverlap with ⟨rfl, hq⟩ | ⟨rfl, hq⟩ | ⟨rfl, hq⟩
      · rw [hq] at hterminal
        exact (match?_iri hterminal).1
      · rw [hq] at hterminal
        exact (match?_iri hterminal).2 hprefix
      · rw [hq, Matcher.match?] at hterminal
        split at hterminal
        next => exact Option.some.inj hterminal ▸ by decide
        next => cases hterminal
    next => cases hmatch
  next => cases hoperator

theorem head_of_variable {name label : String} {mark : Char}
    (h : 0 < width cs (variableRule name mark label)) : [mark] <+: cs := by
  obtain ⟨rest, hcs, -, haccepts⟩ := Regex.accepts_of_match? (match?_of_width_pos h)
  obtain ⟨first, behind, hfirst, -, htake⟩ := Regex.accepts_seq.mp haccepts
  rw [hcs, htake, Rdf.accepts_char.mp hfirst, List.append_assoc]
  exact List.prefix_append ..

/-- No terminal begins like a variable. -/
theorem not_variable (hr : r ∈ variableRules) (hpos : 0 < width cs r) (hq : q ∈ core false) :
    width cs q = 0 := by
  have hmark : ∀ {mark}, [mark] <+: cs → q.2.meets [mark] = false → width cs q = 0 := by
    intro mark hprefix hmeets
    by_contra hzero
    have := meets_of_width_pos (after_of_isPrefixOf (List.isPrefixOf_iff_prefix.mpr hprefix))
      (List.cons_ne_nil mark []) (Nat.pos_of_ne_zero hzero)
    cases this.symm.trans hmeets
  obtain ⟨hquestion, hdollar⟩ := Inspection.marks inspection q hq
  rcases List.mem_pair.mp hr with rfl | rfl
  · exact hmark (head_of_variable hpos) hquestion
  · exact hmark (head_of_variable hpos) hdollar

/-- What the other rules take is less than what a terminal takes, or there are parentheses with
nothing between them. -/
theorem shorter_than_core {dialect : Sparql.Dialect} (hnil : width cs nilRule = 0)
    (hq : q ∈ core false) (hpos : 0 < width cs q) :
    ∀ r ∈ (keywordRules dialect ++ variableRules ++ [nilRule]) ++ operatorRules,
      width cs r = 0 ∨ ∃ q ∈ core false, width cs r < width cs q := by
  intro r hr
  by_cases hzero : width cs r = 0
  · exact .inl hzero
  have hrpos := Nat.pos_of_ne_zero hzero
  simp only [List.mem_append, List.mem_singleton] at hr
  rcases hr with ((hr | hr) | rfl) | hr
  · have hkeyword := Inspection.keywords inspection r ((keywordRules_subset dialect).2 hr)
    exact .inr ⟨q, hq, keyword_shorter hkeyword hrpos hq hpos⟩
  · exact absurd (not_variable hr hrpos hq) (Nat.ne_of_gt hpos)
  · exact absurd hnil hzero
  · exact .inr ⟨q, hq, operator_shorter (Inspection.operators inspection r hr) hrpos hq hpos⟩

end

end GraphLanguages.InsertData
