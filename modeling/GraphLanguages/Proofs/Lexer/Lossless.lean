import GraphLanguages.Proofs.Lexer
import GraphLanguages.Proofs.Lexer.Patterns

/-! What the lexer makes of a text.

A text is tokens with gaps around them, and nothing is left over (`Lexes`): a gap is made of
matches of skip patterns, no skip pattern matches where a token starts, and the token is of
the first of those types that match most there (`Chooses`). The fuel of the lexer lasts,
because every step takes a character (`lexes_tokensFrom`). -/
namespace GraphLanguages
open Text

/-! ### Specification -/

/-- May the character be one of several in unknown text? -/
def isUnknownLetter (c : Char) : Bool :=
  Unicode.isAlphanumeric c || c = '_'

/-- So many characters at the start of a text are one piece of unknown text: a run of
letters that goes as far as it can, or any other character. -/
inductive UnknownText : Nat → List Char → Prop
  | letters {image rest : List Char} : image ≠ [] → (∀ c ∈ image, isUnknownLetter c = true) →
      (∀ c ∈ rest.head?, isUnknownLetter c = false) → UnknownText image.length (image ++ rest)
  | other {c : Char} {rest : List Char} : isUnknownLetter c = false → UnknownText 1 (c :: rest)

/-- The type and the length of a token at the start of a text. -/
inductive Chooses (v : Vocabulary) (cs : List Char) : Nat → TokenType → Prop
  /-- Types listed before match less, and those behind no more. -/
  | longest {before after : List TokenType} {T : TokenType} {n : Nat} :
      v.types = before ++ T :: after → 0 < n → T.Matches n cs →
      (∀ U ∈ before, ∀ m, U.Matches m cs → m < n) →
      (∀ U ∈ after, ∀ m, U.Matches m cs → m ≤ n) → Chooses v cs n T
  /-- No type matches a character. -/
  | unknown {n : Nat} : (∀ U ∈ v.types, ∀ m, U.Matches m cs → m = 0) → UnknownText n cs →
      Chooses v cs n ((v.get? Vocabulary.unknownName).getD Vocabulary.unknownType)

/-- A skip pattern matches so many characters at the start of the text. -/
def SkipMatches (skipped : List Regex) (n : Nat) (cs : List Char) : Prop :=
  ∃ r ∈ skipped, r.match? cs = some n

/-- In front of the rest, the text is made of matches of skip patterns. -/
inductive Gap (skipped : List Regex) : List Char → List Char → Prop
  | none (rest : List Char) : Gap skipped [] rest
  | more {part gap rest : List Char} : part ≠ [] →
      SkipMatches skipped part.length (part ++ (gap ++ rest)) → Gap skipped gap rest →
      Gap skipped (part ++ gap) rest

/-- From the offset on, the text is cut into these tokens, with gaps around them. -/
inductive Lexes (v : Vocabulary) (skipped : List Regex) : Nat → List Char → List Token → Prop
  | last {offset : Nat} {gap : List Char} : Gap skipped gap [] → Lexes v skipped offset gap []
  | token {offset : Nat} {gap image rest : List Char} {T : TokenType} {ts : List Token} :
      Gap skipped gap (image ++ rest) →
      (∀ n, SkipMatches skipped n (image ++ rest) → n = 0) →
      Chooses v (image ++ rest) image.length T →
      Lexes v skipped (offset + bytes gap + bytes image) rest ts →
      Lexes v skipped offset (gap ++ (image ++ rest))
        (Token.ofImage T (String.ofList image) (offset + bytes gap) :: ts)

/-- More text skipped in front belongs to the first gap. -/
theorem Lexes.skip {v : Vocabulary} {skipped : List Regex} {offset : Nat} {part cs : List Char}
    {ts : List Token} (hne : part ≠ []) (hskip : SkipMatches skipped part.length (part ++ cs))
    (h : Lexes v skipped (offset + bytes part) cs ts) : Lexes v skipped offset (part ++ cs) ts := by
  cases h with
  | last hgap => exact .last (.more hne (by rwa [List.append_nil]) hgap)
  | token hgap hstart hchoice hrest =>
    rw [Nat.add_assoc offset, ← bytes_append] at hrest ⊢
    rw [← List.append_assoc part]
    exact .token (.more hne hskip hgap) hstart hchoice hrest

/-! ### One step -/

namespace Lexer
variable {v : Vocabulary} {skipped : List Regex}

theorem foldl_max_cases (cs : List Char) (rs : List Regex) (n : Nat) :
    (∀ r ∈ rs, (r.match? cs).getD 0 ≤
        rs.foldl (fun longest r => max longest ((r.match? cs).getD 0)) n) ∧
      n ≤ rs.foldl (fun longest r => max longest ((r.match? cs).getD 0)) n ∧
      (rs.foldl (fun longest r => max longest ((r.match? cs).getD 0)) n = n ∨
        ∃ r ∈ rs, (r.match? cs).getD 0 =
          rs.foldl (fun longest r => max longest ((r.match? cs).getD 0)) n) := by
  induction rs generalizing n with
  | nil => exact ⟨by simp, Nat.le_refl n, .inl rfl⟩
  | cons r rs ih =>
    obtain ⟨hle, hn, heq⟩ := ih (max n ((r.match? cs).getD 0))
    rw [List.foldl_cons]
    refine ⟨List.forall_mem_cons.mpr ⟨by omega, hle⟩, by omega, ?_⟩
    rcases heq with heq | ⟨q, hq, heq⟩
    · rw [heq]
      rcases Nat.le_total ((r.match? cs).getD 0) n with h | h
      · exact .inl (Nat.max_eq_left h)
      · exact .inr ⟨r, List.mem_cons_self .., (Nat.max_eq_right h).symm⟩
    · exact .inr ⟨q, List.mem_cons_of_mem r hq, heq⟩

/-- What is skipped is a match. -/
theorem skipMatches_skipLength {lx : Lexer} {cs : List Char} (h : 0 < lx.skipLength cs) :
    SkipMatches lx.skipped (lx.skipLength cs) cs := by
  obtain ⟨-, -, heq⟩ := foldl_max_cases cs lx.skipped 0
  rcases heq with heq | ⟨r, hr, heq⟩
  · exact absurd heq (Nat.ne_of_gt h)
  · refine ⟨r, hr, ?_⟩
    cases hm : r.match? cs with
    | none =>
      rw [hm] at heq
      exact absurd heq.symm (Nat.ne_of_gt h)
    | some n =>
      rw [hm] at heq
      exact congrArg some heq

/-- Where nothing is skipped, no skip pattern matches anything. -/
theorem eq_zero_of_skipMatches {lx : Lexer} {cs : List Char} (h : lx.skipLength cs = 0) {n : Nat}
    (hn : SkipMatches lx.skipped n cs) : n = 0 := by
  obtain ⟨r, hr, hm⟩ := hn
  have hle := (foldl_max_cases cs lx.skipped 0).1 r hr
  rw [hm] at hle
  exact Nat.le_zero.mp (h ▸ hle)

theorem unknownText_unknownLength {cs : List Char} (hne : cs ≠ []) :
    UnknownText (unknownLength cs) cs := by
  obtain ⟨c, cs, rfl⟩ := List.exists_cons_of_ne_nil hne
  have hlength : unknownLength (c :: cs) = max 1 ((c :: cs).takeWhile isUnknownLetter).length := rfl
  rw [hlength]
  by_cases hc : isUnknownLetter c = true
  · have hpos : ((c :: cs).takeWhile isUnknownLetter) ≠ [] := by simp [hc]
    have hrun : max 1 ((c :: cs).takeWhile isUnknownLetter).length =
        ((c :: cs).takeWhile isUnknownLetter).length :=
      Nat.max_eq_right (List.length_pos_iff.mpr hpos)
    rw [hrun]
    have hletters : ∀ d ∈ (c :: cs).takeWhile isUnknownLetter, isUnknownLetter d = true :=
      List.all_eq_true.mp List.all_takeWhile
    have hstop : ∀ d ∈ ((c :: cs).dropWhile isUnknownLetter).head?, isUnknownLetter d = false :=
      fun d hd => by
        have hnot := List.head?_dropWhile_not isUnknownLetter (c :: cs)
        rw [hd] at hnot
        simpa using hnot
    have htext := UnknownText.letters hpos hletters hstop
    rwa [List.takeWhile_append_dropWhile] at htext
  · have hc : isUnknownLetter c = false := by simpa using hc
    have hrun : (c :: cs).takeWhile isUnknownLetter = [] := by simp [hc]
    rw [hrun]
    exact .other hc

theorem width_of_matches {T : TokenType} {n : Nat} {cs : List Char} (h : T.Matches n cs) :
    ∃ m, Matcher.ofPattern? T.pattern = some m ∧ width cs (T, m) = n := by
  obtain ⟨m, hm, hmatch⟩ := TokenType.matches_iff.mp h
  exact ⟨m, hm, by rw [width, hmatch]; rfl⟩

theorem mem_rulesOf {types : List TokenType} {T : TokenType} {m : Matcher} (hT : T ∈ types)
    (hm : Matcher.ofPattern? T.pattern = some m) : (T, m) ∈ rulesOf types :=
  List.mem_filterMap.mpr ⟨T, hT, by rw [hm]; rfl⟩

/-- Rules behind and before one are those of the types behind and before its type. -/
theorem exists_types_of_rules {types : List TokenType} {before after : List (TokenType × Matcher)}
    {rule : TokenType × Matcher} (h : rulesOf types = before ++ rule :: after) :
    ∃ bs as, types = bs ++ rule.1 :: as ∧ rulesOf bs = before ∧ rulesOf as = after ∧
      Matcher.ofPattern? rule.1.pattern = some rule.2 := by
  obtain ⟨bs, rest, rfl, hbs, hrest⟩ := List.filterMap_eq_append_iff.mp h
  obtain ⟨skips, T, as, rfl, hnone, hT, has⟩ := List.filterMap_eq_cons_iff.mp hrest
  obtain ⟨m, hm, rfl⟩ := Option.map_eq_some_iff.mp hT
  refine ⟨bs ++ skips, as, by simp, ?_, has, hm⟩
  rw [rulesOf_append, show rulesOf skips = [] from List.filterMap_eq_nil_iff.mpr hnone,
    List.append_nil]
  exact hbs

/-- The first token is chosen as it should be. -/
theorem chooses_first {cs : List Char} (hne : cs ≠ []) :
    Chooses v cs ((ofVocabulary v skipped).first cs).1 ((ofVocabulary v skipped).first cs).2 := by
  have hrules : (ofVocabulary v skipped).rules = rulesOf v.types := rfl
  rcases (ofVocabulary v skipped).longest?_cases cs with
    ⟨hzero, hbest⟩ | ⟨before, rule, after, hr, hwins, hbest⟩
  · rw [first, hbest]
    refine .unknown (fun U hU m hm => ?_) (unknownText_unknownLength hne)
    obtain ⟨matcher, hmatcher, rfl⟩ := width_of_matches hm
    exact hzero _ (hrules ▸ mem_rulesOf hU hmatcher)
  · obtain ⟨bs, as, htypes, rfl, rfl, hmatcher⟩ := exists_types_of_rules (hrules ▸ hr)
    rw [first, hbest]
    refine .longest htypes hwins.pos
      (TokenType.matches_iff.mpr ⟨rule.2, hmatcher, match?_of_width_pos hwins.pos⟩)
      (fun U hU m hm => ?_) (fun U hU m hm => ?_)
    · obtain ⟨matcher, hmatcher, rfl⟩ := width_of_matches hm
      exact hwins.before _ (mem_rulesOf hU hmatcher)
    · obtain ⟨matcher, hmatcher, rfl⟩ := width_of_matches hm
      exact hwins.after _ (mem_rulesOf hU hmatcher)

theorem Chooses.le_length {cs : List Char} {n : Nat} {T : TokenType} (h : Chooses v cs n T) :
    n ≤ cs.length := by
  cases h with
  | longest _ _ hm =>
    obtain ⟨image, rest, rfl, rfl, -⟩ := hm
    rw [List.length_append]
    exact Nat.le_add_right ..
  | unknown _ ht =>
    cases ht with
    | letters =>
      rw [List.length_append]
      exact Nat.le_add_right ..
    | other => exact Nat.succ_le_succ (Nat.zero_le _)

/-! ### All steps -/

/-- With a unit of fuel for each character, nothing is left over. -/
theorem lexes_tokensFrom {fuel : Nat} (offset : Nat) {cs : List Char} (hfuel : cs.length ≤ fuel) :
    Lexes v skipped offset cs ((ofVocabulary v skipped).tokensFrom fuel offset cs) := by
  induction fuel generalizing offset cs with
  | zero =>
    obtain rfl := List.eq_nil_of_length_eq_zero (Nat.le_zero.mp hfuel)
    exact .last (.none [])
  | succ fuel ih =>
    by_cases hne : cs = []
    · rw [hne, tokensFrom_nil]
      exact .last (.none [])
    have hlength := List.length_pos_iff.mpr hne
    by_cases hskip : 0 < (ofVocabulary v skipped).skipLength cs
    · -- what is skipped joins the gap in front of the next token
      rw [tokensFrom_skip hskip hne]
      have hmatch := skipMatches_skipLength hskip
      generalize (ofVocabulary v skipped).skipLength cs = n at hskip hmatch ⊢
      obtain ⟨r, hr, hm⟩ := hmatch
      obtain ⟨-, -, hle, -⟩ := Regex.accepts_of_match? hm
      have htake : (cs.take n).length = n := by rw [List.length_take, Nat.min_eq_left hle]
      have hdrop : (cs.drop n).length ≤ fuel := by
        rw [List.length_drop]
        omega
      have hne : cs.take n ≠ [] := List.length_pos_iff.mp (htake.symm ▸ hskip)
      have hpart : SkipMatches skipped (cs.take n).length (cs.take n ++ cs.drop n) :=
        ⟨r, hr, by rw [List.take_append_drop, htake, hm]⟩
      have hlexes := Lexes.skip hne hpart (ih (offset + bytes (cs.take n)) hdrop)
      rwa [List.take_append_drop] at hlexes
    · -- nothing can be skipped, so a token starts here
      have hzero := Nat.eq_zero_of_not_pos hskip
      rw [tokensFrom_token hzero hne]
      have hchoice : Chooses v cs ((ofVocabulary v skipped).first cs).1
          ((ofVocabulary v skipped).first cs).2 := chooses_first hne
      have hpos := first_pos (ofVocabulary v skipped) cs
      generalize (ofVocabulary v skipped).first cs = found at hchoice hpos ⊢
      have htake : (cs.take found.1).length = found.1 := by
        rw [List.length_take, Nat.min_eq_left (Chooses.le_length hchoice)]
      have hdrop : (cs.drop found.1).length ≤ fuel := by
        rw [List.length_drop]
        omega
      have hstart : ∀ n, SkipMatches skipped n (cs.take found.1 ++ cs.drop found.1) → n = 0 :=
        fun n hn => eq_zero_of_skipMatches hzero (by rwa [List.take_append_drop] at hn)
      have hchosen : Chooses v (cs.take found.1 ++ cs.drop found.1) (cs.take found.1).length
          found.2 := by rwa [List.take_append_drop, htake]
      have hlexes := Lexes.token (.none _) hstart hchosen
        (ih (offset + bytes [] + bytes (cs.take found.1)) hdrop)
      rwa [List.nil_append, List.take_append_drop] at hlexes

/-- **The lexer loses nothing and takes the longest match.** Any text is cut into tokens and
gaps, each token of the first type that matches most where it starts; the tokens lie in the
text as they say, one behind the other. -/
theorem tokenize_lossless (v : Vocabulary) (skipped : List Regex) (text : List Char) :
    Lexes v skipped 0 text ((ofVocabulary v skipped).tokenize text) ∧
      ((ofVocabulary v skipped).tokenize text).Pairwise (fun t u => t.last < u.start) ∧
      ∀ t ∈ (ofVocabulary v skipped).tokenize text, t.LiesIn text :=
  ⟨lexes_tokensFrom 0 (Nat.le_refl _), (cuts_tokenize _ text).pairwise,
    (cuts_tokenize _ text).liesIn [] rfl⟩

/-- Two words of a keyword with a no-break space between them are one token, although the
first is a keyword as well. -/
theorem tokenize_lossless_keyword :
    let v := Vocabulary.ofTypes [.keyword "Group" "group", .keyword "GroupBy" "group by"]
    let skipped : List Regex := [⟨"^\\s+", Regex.plus (Regex.charClass [.space])⟩]
    let text := "\tGroup\u00a0BY é".toList
    let t := Token.ofImage (.keyword "GroupBy" "group by") "Group\u00a0BY" 1
    t ∈ (ofVocabulary v skipped).tokenize text ∧ t.LiesIn text := by
  intro v skipped text t
  have ht : t ∈ (ofVocabulary v skipped).tokenize text := by decide
  exact ⟨ht, (tokenize_lossless v skipped text).2.2 t ht⟩

end Lexer

end GraphLanguages
