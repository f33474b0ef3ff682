import GraphLanguages.Proofs.Vocabulary
import GraphLanguages.Proofs.Text.Bytes
import GraphLanguages.Lexer

/-! How tokens lie in their text.

Tokens `Cuts` a text if they are parts of it, one behind the other, none empty, each
with its place and with the text it covers; between them text may be skipped. The lexer
cuts every text so (`cuts_tokenize`), and so do the tokens that are moved to the raw
text. -/
namespace GraphLanguages
open Text

/-- From the offset on, the tokens are parts of the text, one behind the other. -/
inductive Cuts : Nat → List Char → List Token → Prop
  | done (offset : Nat) (cs : List Char) : Cuts offset cs []
  | skip {offset : Nat} {gap cs : List Char} {ts : List Token} :
      Cuts (offset + bytes gap) cs ts → Cuts offset (gap ++ cs) ts
  | token {offset : Nat} {image cs : List Char} {t : Token} {ts : List Token} :
      image ≠ [] → t.image = String.ofList image → t.start = offset →
      t.last + 1 = offset + bytes image → Cuts (offset + bytes image) cs ts →
      Cuts offset (image ++ cs) (t :: ts)

/-- Where a token lies in a text: on boundaries, with the text that it covers. -/
structure Token.LiesIn (t : Token) (cs : List Char) : Prop where
  image : t.image ≠ ""
  order : t.start ≤ t.last
  inside : t.last < bytes cs
  startBoundary : IsBoundary t.start cs
  stopBoundary : IsBoundary (t.last + 1) cs
  slice : slice? t.start (t.last + 1) cs = some t.image.toList

/-- No token of a text is empty, so it ends behind its last byte. -/
theorem Token.LiesIn.stop_eq {t : Token} {cs : List Char} (h : t.LiesIn cs) :
    t.stop = t.last + 1 := by
  simp [Token.stop, h.image]

namespace Cuts
variable {offset : Nat} {cs : List Char} {ts : List Token}

theorem le_start (h : Cuts offset cs ts) : ∀ t ∈ ts, offset ≤ t.start := by
  induction h with
  | done => exact fun t ht => by cases ht
  | skip _ ih => exact fun t ht => Nat.le_trans (Nat.le_add_right ..) (ih t ht)
  | token _ _ hs _ _ ih =>
    intro t ht
    rcases List.mem_cons.mp ht with rfl | ht
    · exact Nat.le_of_eq hs.symm
    · exact Nat.le_trans (Nat.le_add_right ..) (ih t ht)

/-- Every token ends before the next ones start. -/
theorem pairwise (h : Cuts offset cs ts) : ts.Pairwise fun a b => a.last < b.start := by
  induction h with
  | done => exact .nil
  | skip _ ih => exact ih
  | token _ _ _ hl h ih =>
    refine .cons (fun b hb => ?_) ih
    have := h.le_start b hb
    omega

theorem liesIn (before : List Char) (h : Cuts offset cs ts) (ho : offset = bytes before) :
    ∀ t ∈ ts, t.LiesIn (before ++ cs) := by
  induction h generalizing before with
  | done => exact fun t ht => by cases ht
  | @skip _ gap _ _ _ ih =>
    rw [← List.append_assoc]
    exact ih (before ++ gap) (by rw [ho, bytes_append])
  | @token _ image cs t _ hne hi hs hl _ ih =>
    intro u hu
    rcases List.mem_cons.mp hu with rfl | hu
    · have hpos := bytes_pos hne
      subst ho
      refine ⟨?_, by omega, ?_, ⟨before, image ++ cs, rfl, hs⟩, ?_, ?_⟩
      · rw [hi]
        exact fun h => hne (by simpa using congrArg String.toList h)
      · rw [bytes_append, bytes_append]
        omega
      · exact ⟨before ++ image, cs, (List.append_assoc ..).symm, by rw [bytes_append, hl]⟩
      · rw [hs, hl, hi, String.toList_ofList, ← List.append_assoc, slice?_append]
    · rw [← List.append_assoc]
      exact ih (before ++ image) (by rw [ho, bytes_append]) u hu

end Cuts

namespace Lexer
variable (lx : Lexer)

/-- A match counts if it is not empty, and its type is that of a rule. -/
def Counts (best : Option (Nat × TokenType)) : Prop :=
  ∀ n T, best = some (n, T) → 0 < n ∧ ∃ rule ∈ lx.rules, rule.1 = T

theorem counts_longest (cs : List Char) : lx.Counts (lx.longest? cs) := by
  unfold longest?
  apply List.foldlRecOn
  · rintro _ _ ⟨⟩
  · intro best hbest r hr
    split
    next => exact hbest
    next n _ =>
      split
      next hlt =>
        rintro _ _ ⟨⟩
        exact ⟨Nat.lt_of_le_of_lt (Nat.zero_le _) hlt, r, hr, rfl⟩
      next => exact hbest

theorem first_pos (cs : List Char) : 0 < (lx.first cs).1 := by
  unfold first
  cases h : lx.longest? cs with
  | none => exact Nat.le_max_left 1 _
  | some best => exact (lx.counts_longest cs best.1 best.2 h).1

theorem first_type (cs : List Char) :
    (lx.first cs).2 = lx.unknown ∨ ∃ rule ∈ lx.rules, rule.1 = (lx.first cs).2 := by
  unfold first
  cases h : lx.longest? cs with
  | none => exact .inl rfl
  | some best => exact .inr (lx.counts_longest cs best.1 best.2 h).2

theorem cuts_tokensFrom (fuel offset : Nat) (cs : List Char) :
    Cuts offset cs (lx.tokensFrom fuel offset cs) := by
  induction fuel generalizing offset cs with
  | zero => exact .done offset cs
  | succ fuel ih =>
    cases cs with
    | nil => exact .done offset []
    | cons c cs =>
      rw [tokensFrom]
      split
      next =>
        have := Cuts.skip (ih (offset + bytes ((c :: cs).take (lx.skipLength (c :: cs))))
          ((c :: cs).drop (lx.skipLength (c :: cs))))
        rwa [List.take_append_drop] at this
      next =>
        have hpos := lx.first_pos (c :: cs)
        have hne : (c :: cs).take (lx.first (c :: cs)).1 ≠ [] := by
          simp only [ne_eq, List.take_eq_nil_iff, reduceCtorEq, or_false]
          omega
        have hbytes := bytes_pos hne
        have := Cuts.token (t := .ofImage (lx.first (c :: cs)).2
            (String.ofList ((c :: cs).take (lx.first (c :: cs)).1)) offset) hne rfl rfl
          (by simp only [Token.ofImage, utf8ByteSize_ofList]; omega)
          (ih (offset + bytes ((c :: cs).take (lx.first (c :: cs)).1))
            ((c :: cs).drop (lx.first (c :: cs)).1))
        rwa [List.take_append_drop] at this

theorem cuts_tokenize (cs : List Char) : Cuts 0 cs (lx.tokenize cs) :=
  lx.cuts_tokensFrom cs.length 0 cs

theorem type_of_mem_tokensFrom {fuel offset : Nat} {cs : List Char} {t : Token}
    (h : t ∈ lx.tokensFrom fuel offset cs) :
    t.type = lx.unknown ∨ ∃ rule ∈ lx.rules, rule.1 = t.type := by
  induction fuel generalizing offset cs with
  | zero => cases h
  | succ fuel ih =>
    cases cs with
    | nil => cases h
    | cons c cs =>
      rw [tokensFrom] at h
      split at h
      next => exact ih h
      next =>
        rcases List.mem_cons.mp h with rfl | h
        · exact lx.first_type (c :: cs)
        · exact ih h

theorem type_mem_of_rule {v : Vocabulary} {skipped : List Text.Regex}
    {rule : TokenType × Matcher} (h : rule ∈ (ofVocabulary v skipped).rules) :
    rule.1 ∈ v.types := by
  obtain ⟨T, hT, hm⟩ := List.mem_filterMap.mp h
  obtain ⟨m, -, rfl⟩ := Option.map_eq_some_iff.mp hm
  exact hT

/-- The tokens of a text are of types of the vocabulary, or unknown. -/
theorem type_of_mem_tokenize {v : Vocabulary} {skipped : List Text.Regex} {cs : List Char}
    {t : Token} (h : t ∈ (ofVocabulary v skipped).tokenize cs) :
    t.type ∈ v.types ∨ t.type = Vocabulary.unknownType := by
  rcases type_of_mem_tokensFrom _ h with hu | ⟨rule, hr, ht⟩
  · rw [hu]
    simp only [ofVocabulary]
    cases hg : v.get? Vocabulary.unknownName with
    | none => exact .inr rfl
    | some T => exact .inl (Vocabulary.mem_of_get? hg).1
  · exact .inl (ht ▸ type_mem_of_rule hr)

/-- A vocabulary made of some types has those of all tokens. -/
theorem type_mem_of_tokenize {types : List TokenType} {skipped : List Text.Regex}
    {cs : List Char} {t : Token} (h : t ∈ (ofVocabulary (.ofTypes types) skipped).tokenize cs) :
    t.type ∈ (Vocabulary.ofTypes types).types := by
  rcases type_of_mem_tokensFrom _ h with hu | ⟨rule, hr, ht⟩
  · obtain ⟨T, hT⟩ := Vocabulary.exists_unknown types
    have hunknown : (ofVocabulary (.ofTypes types) skipped).unknown = T := by
      rw [ofVocabulary, hT]
      rfl
    rw [hu, hunknown]
    exact (Vocabulary.mem_of_get? hT).1
  · exact ht ▸ type_mem_of_rule hr

end Lexer

end GraphLanguages
