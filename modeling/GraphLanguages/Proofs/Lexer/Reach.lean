import GraphLanguages.Proofs.Lexer.Lossless
import GraphLanguages.Proofs.Text.Reach

/-! What the lexer makes of a text in front of other text.

A rule that takes nothing of the text behind takes what it would take without it
(`Matcher.match?_append`). So where all rules stop in front of two texts, the token is the
same in front of both (`first_append`). The fuel of the lexer does not matter if it is
enough (`tokensFrom_fuel`). -/
namespace GraphLanguages
open Text

/-! ### Rules -/

namespace Matcher

/-- The words of a keyword are words. -/
def Worded : Matcher → Prop
  | .spaced ws => ∀ w ∈ ws, IsWord w
  | .verbatim _ | .regex _ => True

theorem worded_of_pattern {p : Pattern} {m : Matcher} (h : ofPattern? p = some m) : m.Worded := by
  cases p with
  | keyword text =>
    cases h
    exact fun w => isWord_of_mem_words
  | literal | regex =>
    cases h
    trivial
  | custom | anyOf => cases h

/-- Words in front of other text are found with it and without it. -/
theorem words?_append_iff {ws : List (List Char)} (hws : ∀ w ∈ ws, IsWord w) {cs : List Char}
    (rest : List Char) {n : Nat} :
    words? ws cs = some n ↔ words? ws (cs ++ rest) = some n ∧ n ≤ cs.length := by
  rw [words?_eq_some hws, words?_eq_some hws]
  constructor
  · rintro ⟨image, behind, rfl, rfl, himage⟩
    exact ⟨⟨image, behind ++ rest, List.append_assoc .., rfl, himage⟩, by simp⟩
  · rintro ⟨⟨image, behind, hcs, rfl, himage⟩, hle⟩
    obtain ⟨between, rfl⟩ : image <+: cs :=
      List.prefix_of_prefix_length_le ⟨behind, hcs.symm⟩ (List.prefix_append ..) hle
    exact ⟨image, between, rfl, rfl, himage⟩

theorem match?_append {m : Matcher} (hm : m.Worded) {cs rest : List Char}
    (h : ∀ n ∈ m.match? (cs ++ rest), n ≤ cs.length) : m.match? (cs ++ rest) = m.match? cs := by
  cases m with
  | verbatim chars =>
    have hiff : chars.isPrefixOf (cs ++ rest) = chars.isPrefixOf cs := by
      rw [Bool.eq_iff_iff, List.isPrefixOf_iff_prefix, List.isPrefixOf_iff_prefix]
      refine ⟨fun hp => ?_, fun hp => hp.trans (List.prefix_append ..)⟩
      have hlength := h chars.length (if_pos (List.isPrefixOf_iff_prefix.mpr hp))
      exact List.prefix_of_prefix_length_le hp (List.prefix_append ..) hlength
    rw [match?, match?, hiff]
  | spaced ws =>
    refine Option.ext fun n => ?_
    exact ⟨fun hn => (words?_append_iff hm rest).mpr ⟨hn, h n hn⟩,
      fun hn => ((words?_append_iff hm rest).mp hn).1⟩
  | regex r => exact Regex.match?_append h

end Matcher

namespace Lexer
variable {lx : Lexer}

/-- Every rule has the matcher of its type. -/
def Ruled (lx : Lexer) : Prop :=
  ∀ rule ∈ lx.rules, Matcher.ofPattern? rule.1.pattern = some rule.2

theorem ruled_ofVocabulary (v : Vocabulary) (skipped : List Regex) :
    (ofVocabulary v skipped).Ruled := by
  intro rule hrule
  obtain ⟨T, -, hT⟩ := List.mem_filterMap.mp hrule
  obtain ⟨m, hm, rfl⟩ := Option.map_eq_some_iff.mp hT
  exact hm

theorem width_append (hlx : lx.Ruled) {rule : TokenType × Matcher} (hrule : rule ∈ lx.rules)
    {cs rest : List Char} (h : width (cs ++ rest) rule ≤ cs.length) :
    width (cs ++ rest) rule = width cs rule := by
  unfold width at h ⊢
  rw [Matcher.match?_append (Matcher.worded_of_pattern (hlx rule hrule)) fun n hn => ?_]
  rw [hn] at h
  exact h

/-! ### Tokens -/

theorem longest?_congr {cs cs' : List Char}
    (h : ∀ rule ∈ lx.rules, width cs rule = width cs' rule) :
    lx.longest? cs = lx.longest? cs' := by
  rw [longest?_eq_foldl, longest?_eq_foldl]
  refine List.foldl_ext _ _ _ fun best rule hrule => ?_
  rw [better, better, h rule hrule]

/-- No rule takes more than the token. -/
theorem width_le_first {cs : List Char} {rule : TokenType × Matcher} (hrule : rule ∈ lx.rules) :
    width cs rule ≤ (lx.first cs).1 := by
  rcases lx.longest?_cases cs with ⟨hzero, -⟩ | ⟨before, best, after, hr, hwins, hbest⟩
  · rw [hzero rule hrule]
    exact Nat.zero_le _
  · rw [first, hbest]
    exact hwins.most rule (hr ▸ hrule)

theorem unknownLength_le_length {cs : List Char} (hne : cs ≠ []) :
    unknownLength cs ≤ cs.length :=
  Nat.max_le.mpr ⟨List.length_pos_iff.mpr hne, (List.takeWhile_prefix _).length_le⟩

theorem first_le_length (hlx : lx.Ruled) {cs : List Char} (hne : cs ≠ []) :
    (lx.first cs).1 ≤ cs.length := by
  rcases lx.longest?_cases cs with ⟨-, hbest⟩ | ⟨before, rule, after, hr, hwins, hbest⟩
  · rw [first, hbest]
    exact unknownLength_le_length hne
  · rw [first, hbest]
    have hmatch := match?_of_width_pos hwins.pos
    obtain ⟨image, rest, rfl, hlength, -⟩ :=
      TokenType.matches_iff.mpr ⟨rule.2, hlx rule (by simp [hr]), hmatch⟩
    rw [Option.getD_some, ← hlength, List.length_append]
    exact Nat.le_add_right ..

theorem unknownLength_append {cs rest : List Char}
    (hrest : ∀ c ∈ rest.head?, isUnknownLetter c = false) :
    unknownLength (cs ++ rest) = unknownLength cs := by
  have hrun : (cs ++ rest).takeWhile isUnknownLetter = cs.takeWhile isUnknownLetter := by
    have hstop : rest.takeWhile isUnknownLetter = [] := by
      cases rest with
      | nil => rfl
      | cons c rest => exact List.takeWhile_cons_of_neg (by simp [hrest c rfl])
    rw [List.takeWhile_append, hstop, List.append_nil]
    split
    next h => exact (List.takeWhile_prefix _).eq_of_length h |>.symm
    next => rfl
  exact congrArg (fun run => max 1 run.length) hrun

/-- Where all rules stop in front of them, what follows makes no difference. -/
theorem first_append (hlx : lx.Ruled) {cs rest rest' : List Char}
    (hrest : ∀ c ∈ rest.head?, isUnknownLetter c = false)
    (hrest' : ∀ c ∈ rest'.head?, isUnknownLetter c = false)
    (h : ∀ rule ∈ lx.rules, width (cs ++ rest) rule ≤ cs.length)
    (h' : ∀ rule ∈ lx.rules, width (cs ++ rest') rule ≤ cs.length) :
    lx.first (cs ++ rest) = lx.first (cs ++ rest') := by
  have hwidth : ∀ rule ∈ lx.rules, width (cs ++ rest) rule = width (cs ++ rest') rule :=
    fun rule hrule => (width_append hlx hrule (h rule hrule)).trans
      (width_append hlx hrule (h' rule hrule)).symm
  rw [first, first, longest?_congr hwidth, unknownLength_append hrest,
    unknownLength_append hrest']

/-! ### Fuel -/

/-- Every step takes a character, so fuel beyond the characters is not used. -/
theorem tokensFrom_fuel {fuel fuel' : Nat} (offset : Nat) {cs : List Char}
    (h : cs.length ≤ fuel) (h' : cs.length ≤ fuel') :
    lx.tokensFrom fuel offset cs = lx.tokensFrom fuel' offset cs := by
  induction fuel generalizing fuel' offset cs with
  | zero =>
    rw [List.length_eq_zero_iff.mp (Nat.le_zero.mp h), tokensFrom_nil, tokensFrom_nil]
  | succ fuel ih =>
    by_cases hne : cs = []
    · rw [hne, tokensFrom_nil, tokensFrom_nil]
    have hpos := List.length_pos_iff.mpr hne
    obtain ⟨fuel', rfl⟩ := Nat.exists_eq_add_one_of_ne_zero (show fuel' ≠ 0 by omega)
    by_cases hskip : 0 < lx.skipLength cs
    · rw [tokensFrom_skip hskip hne, tokensFrom_skip hskip hne]
      exact ih _ (by rw [List.length_drop]; omega) (by rw [List.length_drop]; omega)
    · have hzero := Nat.eq_zero_of_not_pos hskip
      have hfirst := lx.first_pos cs
      rw [tokensFrom_token hzero hne, tokensFrom_token hzero hne]
      exact congrArg _ (ih _ (by rw [List.length_drop]; omega) (by rw [List.length_drop]; omega))

/-- The tokens of a text that begins at an offset. -/
def tokensAt (lx : Lexer) (offset : Nat) (cs : List Char) : List Token :=
  lx.tokensFrom cs.length offset cs

theorem tokensAt_skip {cs : List Char} (h : 0 < lx.skipLength cs) (hne : cs ≠ [])
    (offset : Nat) :
    lx.tokensAt offset cs =
      lx.tokensAt (offset + bytes (cs.take (lx.skipLength cs))) (cs.drop (lx.skipLength cs)) := by
  obtain ⟨fuel, hfuel⟩ := Nat.exists_eq_add_one_of_ne_zero (mt List.length_eq_zero_iff.mp hne)
  rw [tokensAt, hfuel, tokensFrom_skip h hne]
  refine tokensFrom_fuel _ ?_ (Nat.le_refl _)
  rw [List.length_drop]
  omega

theorem tokensAt_token {cs : List Char} (h : lx.skipLength cs = 0) (hne : cs ≠ [])
    (offset : Nat) :
    lx.tokensAt offset cs =
      Token.ofImage (lx.first cs).2 (String.ofList (cs.take (lx.first cs).1)) offset ::
        lx.tokensAt (offset + bytes (cs.take (lx.first cs).1)) (cs.drop (lx.first cs).1) := by
  obtain ⟨fuel, hfuel⟩ := Nat.exists_eq_add_one_of_ne_zero (mt List.length_eq_zero_iff.mp hne)
  have hfirst := lx.first_pos cs
  rw [tokensAt, hfuel, tokensFrom_token h hne]
  refine congrArg _ (tokensFrom_fuel _ ?_ (Nat.le_refl _))
  rw [List.length_drop]
  omega

end Lexer

end GraphLanguages
