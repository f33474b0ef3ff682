import GraphLanguages.Proofs.Lexer.Longest
import GraphLanguages.Proofs.Text.AnyCase
import GraphLanguages.Proofs.Text.Bytes

/-! Lexing texts that differ in the case of letters.

An expression whose classes hold both forms of a letter or neither matches as much of either
text in the same ways (`ends_of_alike`), and words match in any case as it is. So a lexer of
such patterns cuts both texts at the same places into tokens of the same types
(`tokenize_of_spells`). -/
namespace GraphLanguages

/-! ### Expressions -/

namespace Text.Regex

/-- Does every class hold both forms of a letter, or neither? -/
def Expr.caseBlind : Expr → Bool
  | .empty => true
  | .one k => decide (CaseBlind k.holds)
  | .seq a b | .alt a b => a.caseBlind && b.caseBlind
  | .star a => a.caseBlind

/-- As many characters were taken, and what is left spells the same. -/
structure Mark.Alike (m m' : Mark) : Prop where
  taken : m.taken = m'.taken
  rest : Spells m.rest m'.rest

theorem repeated_of_alike {step : Mark → List Mark}
    (hstep : ∀ m m', m.Alike m' → List.Forall₂ Mark.Alike (step m) (step m')) (fuel : Nat)
    {m m' : Mark} (h : m.Alike m') {others others' : List Mark}
    (hothers : List.Forall₂ Mark.Alike others others') :
    List.Forall₂ Mark.Alike (repeated step fuel m others) (repeated step fuel m' others') := by
  induction fuel generalizing m m' others others' with
  | zero => exact .cons h hothers
  | succ fuel ih =>
    refine List.rel_foldr (R := Mark.Alike) ?_ (.cons h hothers) (hstep m m' h)
    intro next next' hnext later later' hlater
    dsimp only
    rw [h.taken, hnext.taken]
    split
    · exact ih hnext hlater
    · exact hlater

theorem ends_of_alike {e : Expr} (he : e.caseBlind = true) {m m' : Mark} (h : m.Alike m') :
    List.Forall₂ Mark.Alike (e.ends m) (e.ends m') := by
  induction e generalizing m m' with
  | empty => exact .cons h .nil
  | one k =>
    have hk : CaseBlind k.holds := of_decide_eq_true he
    obtain ⟨taken, rest⟩ := m
    obtain ⟨taken', rest'⟩ := m'
    obtain rfl : taken = taken' := h.taken
    have hrest : Spells rest rest' := h.rest
    cases hrest with
    | nil => exact .nil
    | cons hc hcs =>
      rw [Expr.ends, Expr.ends]
      dsimp only
      rw [hk.eq hc]
      split
      · exact .cons ⟨rfl, hcs⟩ .nil
      · exact .nil
  | seq a b iha ihb =>
    obtain ⟨ha, hb⟩ := Bool.and_eq_true_iff.mp he
    exact List.rel_flatMap (iha ha h) fun _ _ hm => ihb hb hm
  | alt a b iha ihb =>
    obtain ⟨ha, hb⟩ := Bool.and_eq_true_iff.mp he
    exact List.rel_append (iha ha h) (ihb hb h)
  | star a ih =>
    rw [Expr.ends, Expr.ends, h.rest.length_eq]
    exact repeated_of_alike (fun _ _ hm => ih he hm) _ h .nil

theorem match?_of_spells {e : Expr} (he : e.caseBlind = true) {cs cs' : List Char}
    (h : Spells cs cs') : e.match? cs = e.match? cs' := by
  have hends : List.Forall₂ Mark.Alike (e.ends (starting cs)) (e.ends (starting cs')) :=
    ends_of_alike he ⟨rfl, h⟩
  unfold Expr.match?
  generalize e.ends (starting cs) = marks, e.ends (starting cs') = marks' at hends ⊢
  cases hends with
  | nil => rfl
  | cons hm _ => exact congrArg some hm.taken

end Text.Regex

/-! ### Patterns -/

open Text

theorem Text.afterIgnoringCase?_of_spells {cs cs' : List Char} (h : Spells cs cs')
    (word : List Char) :
    Option.Rel Spells (afterIgnoringCase? word cs) (afterIgnoringCase? word cs') := by
  induction word generalizing cs cs' with
  | nil => exact .some h
  | cons w ws ih =>
    cases h with
    | nil => exact .none
    | @cons c c' _ _ hc hcs =>
      have hsame : sameLetter w c = sameLetter w c' := by
        have hlower : c.toLower = c'.toLower := by simpa [sameLetter] using hc
        rw [sameLetter, sameLetter, hlower]
      rw [afterIgnoringCase?, afterIgnoringCase?, hsame]
      split
      · exact ih hcs
      · exact .none

namespace Matcher

/-- Does the matcher not tell the forms of a letter apart? -/
def caseBlind : Matcher → Bool
  | .verbatim chars => chars.all fun c => decide (CaseBlind (c == ·))
  | .spaced _ => true
  | .regex r => r.expr.caseBlind

theorem spacedWords?_of_spells (ws : List (List Char)) {cs cs' : List Char}
    (h : Spells cs cs') : spacedWords? ws cs = spacedWords? ws cs' := by
  induction ws generalizing cs cs' with
  | nil => rfl
  | cons w ws ih =>
    rw [spacedWords?, spacedWords?, caseBlind_isSpace.length_takeWhile h]
    have hafter := afterIgnoringCase?_of_spells
      (List.forall₂_drop (cs'.takeWhile Unicode.isSpace).length h) w
    split
    · rfl
    · generalize afterIgnoringCase? w (cs.drop _) = rest,
        afterIgnoringCase? w (cs'.drop _) = rest' at hafter ⊢
      cases hafter with
      | none => rfl
      | some hrest => exact congrArg (Option.map _) (ih hrest)

theorem words?_of_spells (ws : List (List Char)) {cs cs' : List Char} (h : Spells cs cs') :
    words? ws cs = words? ws cs' := by
  cases ws with
  | nil => rfl
  | cons w ws =>
    have hafter := afterIgnoringCase?_of_spells h w
    rw [words?, words?]
    generalize afterIgnoringCase? w cs = rest, afterIgnoringCase? w cs' = rest' at hafter ⊢
    cases hafter with
    | none => rfl
    | some hrest => exact congrArg (Option.map _) (spacedWords?_of_spells ws hrest)

theorem isPrefixOf_of_spells {chars : List Char}
    (hchars : ∀ c ∈ chars, CaseBlind (c == ·)) {cs cs' : List Char} (h : Spells cs cs') :
    chars.isPrefixOf cs = chars.isPrefixOf cs' := by
  induction chars generalizing cs cs' with
  | nil => rw [List.isPrefixOf_nil_left, List.isPrefixOf_nil_left]
  | cons d ds ih =>
    cases h with
    | nil => rfl
    | cons hc hcs =>
      have hd : CaseBlind (d == ·) := hchars d (List.mem_cons_self ..)
      rw [List.isPrefixOf_cons_cons, List.isPrefixOf_cons_cons, hd.eq hc,
        ih (fun c hmem => hchars c (List.mem_cons_of_mem d hmem)) hcs]

theorem match?_of_spells {m : Matcher} (hm : m.caseBlind = true) {cs cs' : List Char}
    (h : Spells cs cs') : m.match? cs = m.match? cs' := by
  cases m with
  | verbatim chars =>
    have hchars : ∀ c ∈ chars, CaseBlind (c == ·) := fun c hc =>
      of_decide_eq_true (List.all_eq_true.mp hm c hc)
    rw [match?, match?, isPrefixOf_of_spells hchars h]
  | spaced ws => exact words?_of_spells ws h
  | regex r => exact Regex.match?_of_spells hm h

end Matcher

/-! ### Tokens -/

/-- A token of the same type at the same place, whose text spells the same. -/
structure Token.Recased (t u : Token) : Prop where
  type : t.type = u.type
  start : t.start = u.start
  last : t.last = u.last
  image : Spells t.image.toList u.image.toList

theorem Token.Recased.stop {t u : Token} (h : t.Recased u) : t.stop = u.stop := by
  rw [Token.stop, Token.stop, isEmpty_of_spells h.image, h.start, h.last]

theorem Token.recased_ofImage (T : TokenType) {cs cs' : List Char} (h : Spells cs cs')
    (offset : Nat) :
    (Token.ofImage T (String.ofList cs) offset).Recased
      (Token.ofImage T (String.ofList cs') offset) where
  type := rfl
  start := rfl
  last := by
    simp only [Token.ofImage, utf8ByteSize_ofList, bytes_of_spells h]
  image := by
    simpa only [Token.ofImage, String.toList_ofList] using h

namespace Lexer
variable {lx : Lexer} {cs cs' : List Char}

/-- No pattern of the lexer tells the forms of a letter apart. -/
structure CaseBlind (lx : Lexer) : Prop where
  rules : ∀ r ∈ lx.rules, r.2.caseBlind = true
  skipped : ∀ r ∈ lx.skipped, r.expr.caseBlind = true

theorem caseBlind_unknown :
    Text.CaseBlind fun c => Unicode.isAlphanumeric c || c = '_' := by decide

theorem skipLength_of_spells (hlx : lx.CaseBlind) (h : Spells cs cs') :
    lx.skipLength cs = lx.skipLength cs' := by
  unfold skipLength
  refine List.foldl_ext _ _ _ fun longest r hr => ?_
  have hmatch : r.match? cs = r.match? cs' := Regex.match?_of_spells (hlx.skipped r hr) h
  rw [hmatch]

theorem first_of_spells (hlx : lx.CaseBlind) (h : Spells cs cs') : lx.first cs = lx.first cs' := by
  have hlongest : lx.longest? cs = lx.longest? cs' := by
    unfold longest?
    refine List.foldl_ext _ _ _ fun best rule hrule => ?_
    rw [Matcher.match?_of_spells (hlx.rules rule hrule) h]
  have hunknown : unknownLength cs = unknownLength cs' := by
    rw [unknownLength, unknownLength, caseBlind_unknown.length_takeWhile h]
  rw [first, first, hlongest, hunknown]

theorem tokensFrom_of_spells (hlx : lx.CaseBlind) (fuel offset : Nat) (h : Spells cs cs') :
    List.Forall₂ Token.Recased (lx.tokensFrom fuel offset cs)
      (lx.tokensFrom fuel offset cs') := by
  induction fuel generalizing offset cs cs' with
  | zero => exact .nil
  | succ fuel ih =>
    by_cases hne : cs = []
    · subst hne
      cases h
      exact .nil
    have hne' : cs' ≠ [] := fun hnil => hne (List.forall₂_nil_right_iff.mp (hnil ▸ h))
    have hskip := skipLength_of_spells hlx h
    by_cases hpos : 0 < lx.skipLength cs'
    · have htake := bytes_of_spells (List.forall₂_take (lx.skipLength cs') h)
      rw [tokensFrom_skip (hskip ▸ hpos) hne, tokensFrom_skip hpos hne', hskip, htake]
      exact ih _ (List.forall₂_drop _ h)
    · have hzero := Nat.eq_zero_of_not_pos hpos
      have himage := List.forall₂_take (lx.first cs').1 h
      rw [tokensFrom_token (hskip.trans hzero) hne, tokensFrom_token hzero hne',
        first_of_spells hlx h, bytes_of_spells himage]
      exact .cons (Token.recased_ofImage _ himage offset) (ih _ (List.forall₂_drop _ h))

/-- A lexer that does not tell the forms of a letter apart cuts texts that spell the same into
tokens of the same types at the same places. -/
theorem tokenize_of_spells (hlx : lx.CaseBlind) (h : Spells cs cs') :
    List.Forall₂ Token.Recased (lx.tokenize cs) (lx.tokenize cs') := by
  rw [tokenize, tokenize, h.length_eq]
  exact tokensFrom_of_spells hlx _ 0 h

end Lexer

end GraphLanguages
