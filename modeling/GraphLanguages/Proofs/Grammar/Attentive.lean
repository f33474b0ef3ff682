import GraphLanguages.Proofs.Grammar.Watchful

/-! Content assist misses nothing.

A phrase is `attentive` if it takes a token only behind a question that asked for it and left
a note. Such a phrase is watchful, with no choices excused (`watchful_of_attentive`), so
content assist has a candidate for every token that a parse takes next
(`exists_candidate`). -/
namespace GraphLanguages

/-- The type is the token's, or stands for all types of a category that the token's
type carries. -/
def TokenType.StandsFor (T : TokenType) (t : Token) : Prop :=
  T = t.type ∨ ∃ c, T.pattern = .anyOf c ∧ t.type.has c = true

/-- The category that the type stands for. -/
def TokenType.group? (T : TokenType) : Option Category :=
  match T.pattern with
  | .anyOf c => some c
  | _ => none

theorem TokenType.group?_eq_some {T : TokenType} {c : Category} :
    T.group? = some c ↔ T.pattern = .anyOf c := by
  unfold group?
  cases T.pattern <;> simp

namespace Grammar

/-! ### Questions that leave a note -/

/-- The question asks for everything it answers yes to. -/
def Lookahead.noted (v : Vocabulary) : Lookahead → Bool
  | .is _ | .anyOf _ => true
  | .tagged category offered => v.offers category offered
  | .either a b => a.noted v && b.noted v
  | _ => false

/-- Every token has a candidate that stands for it. -/
def attention : Watch where
  serves T U := T == U || T.group?.any U.has
  excused := []
  places := []

theorem attention_serves {T : TokenType} {t : Token} :
    attention.serves T t.type = true ↔ T.StandsFor t := by
  simp only [attention, TokenType.StandsFor, Bool.or_eq_true, beq_iff_eq, Option.any_eq_true,
    TokenType.group?_eq_some]

/-- There is a note that stands for the token, taken below the open rules. -/
def FoundBelow (open_ : List String) (t : Token) (s : State) : Prop :=
  ∃ c ∈ s.noted, c.type.StandsFor t ∧ c.rules = open_.reverse

namespace Lookahead
variable {g : Grammar} {v : Vocabulary} {size size' : Nat} {open_ open' : List String}
  {t : Token} {s s' : State}

theorem heeded_of_noted (test : Lookahead) (ht : test.noted v = true) :
    test.heeded attention v = true := by
  induction test with
  | is | anyOf => rfl
  | tagged category offered =>
    obtain ⟨T, hT, hp⟩ := Vocabulary.exists_of_offers ht
    refine List.all_eq_true.mpr fun U _ => ?_
    have hgroup : T.group? = some category := TokenType.group?_eq_some.mpr hp
    cases hU : U.has category <;> simp [hT, attention, hgroup, hU]
  | either a b iha ihb =>
    simp only [noted, Bool.and_eq_true] at ht
    simp only [heeded, iha ht.1, ihb ht.2, Bool.and_self]
  | both | negated | aheadIs | aheadTagged | atEnd => cases ht

/-- At the end content assist answers no and takes notes instead. -/
theorem ask_of_noted {σ : Setting} (hn : s.noting σ = true) (test : Lookahead)
    (ht : test.noted v = true) : (test.ask σ open_ s).1 = false :=
  test.ask_of_heeded hn (test.heeded_of_noted ht)

theorem reach_of_noted (test : Lookahead) (ht : test.noted v = true) : test.reach = 0 :=
  test.reach_of_heeded (test.heeded_of_noted ht)

/-- What the parse answers yes to, content assist has noted. -/
theorem found_of_yes (hv : v.Distinct) (ht : t.type ∈ v.types) (test : Lookahead)
    (hn : test.noted v = true) (hs : s.rest = [t]) (hs' : s'.rest = [])
    (hy : (test.ask (g.parsing v size) open_ s).1 = true) :
    FoundBelow open' t (test.ask (g.assisting v size') open' s').2 := by
  have hself : ∀ T ∈ v.types, attention.serves T T = true := by simp [attention]
  obtain ⟨c, hc, hserves, hrules⟩ : ServedBelow attention open' t _ :=
    test.served_of_yes hself hv ht (test.heeded_of_noted hn) hs hs' hy
  exact ⟨c, hc, attention_serves.mp hserves, hrules⟩

end Lookahead

/-! ### Phrases that leave notes -/

/-- Follows a phrase and knows whether the next token has been asked for with success:
it must have been where a token is taken. Answers what is known when the phrase is
done, and nothing if a token is taken unasked. -/
def Phrase.attentive (v : Vocabulary) : Phrase → Bool → Option Bool
  | .empty, asked => some asked
  | .take, asked => if asked then some false else none
  | .reject _, _ => some true
  | .seq a b, asked =>
    match a.attentive v asked with
    | some asked => b.attentive v asked
    | none => none
  | .choose test a b, asked =>
    if test.reach == 0 && (asked || test.noted v) then
      match a.attentive v true, b.attentive v asked with
      | some x, some y => some (x && y)
      | _, _ => none
    else none
  | .loop test body, _ =>
    if test.noted v && (body.attentive v true).isSome then some false else none
  | .chain item _ gap more, asked =>
    if more.noted v && (item.attentive v asked).isSome && (item.attentive v true).isSome &&
      (gap.attentive v false).isSome then some false else none
  | .node _ body, asked => body.attentive v asked
  | .call _, _ => some false

/-- A grammar whose phrases are attentive. -/
structure Attentive (v : Vocabulary) (g : Grammar) : Prop where
  entry : (g.entry.attentive v false).isSome = true
  rules : ∀ r ∈ g.rules, (r.2.attentive v false).isSome = true

instance (v : Vocabulary) (g : Grammar) : Decidable (Attentive v g) :=
  decidable_of_iff
    ((g.entry.attentive v false).isSome = true ∧
      ∀ r ∈ g.rules, (r.2.attentive v false).isSome = true)
    ⟨fun h => ⟨h.1, h.2⟩, fun h => ⟨h.entry, h.rules⟩⟩

variable {v : Vocabulary} {g : Grammar}

theorem watchful_of_attentive {p : Phrase} {x y : Bool} (h : p.attentive v x = some y) :
    p.watchful attention v x = some y := by
  induction p generalizing x y with
  | empty | take | reject | call => exact h
  | seq a b iha ihb =>
    rw [Phrase.attentive] at h
    split at h
    next z hz =>
      rw [Phrase.watchful, iha hz]
      exact ihb h
    next => cases h
  | choose test a b iha ihb =>
    rw [Phrase.attentive] at h
    split at h
    next ht =>
      split at h
      next z z' ha hb =>
        simp only [Bool.and_eq_true, Bool.or_eq_true] at ht
        have hheeded := ht.2.imp_right test.heeded_of_noted
        rw [Phrase.watchful, iha ha, ihb hb, if_pos (by simpa [ht.1] using .inl hheeded)]
        exact h
      next => cases h
    next => cases h
  | loop test body ih =>
    rw [Phrase.attentive] at h
    split at h
    next ht =>
      simp only [Bool.and_eq_true, Option.isSome_iff_exists] at ht
      obtain ⟨hn, z, hz⟩ := ht
      simpa [Phrase.watchful, test.heeded_of_noted hn, ih hz] using h
    next => cases h
  | chain item separator gap more ihi ihg =>
    rw [Phrase.attentive] at h
    split at h
    next ht =>
      simp only [Bool.and_eq_true, Option.isSome_iff_exists] at ht
      obtain ⟨⟨⟨hn, z, hz⟩, z', hz'⟩, z'', hz''⟩ := ht
      simpa [Phrase.watchful, more.heeded_of_noted hn, ihi hz, ihi hz', ihg hz''] using h
    next => cases h
  | node name body ih => exact ih h

theorem Attentive.watchful (h : Attentive v g) : Watchful attention v g where
  serves_self := by simp [attention]
  entry := by
    obtain ⟨y, hy⟩ := Option.isSome_iff_exists.mp h.entry
    rw [watchful_of_attentive hy]
    rfl
  rules r hr := by
    obtain ⟨y, hy⟩ := Option.isSome_iff_exists.mp (h.rules r hr)
    rw [watchful_of_attentive hy]
    rfl

/-- Under an attentive grammar, content assist has a candidate for every token that a
parse takes next. -/
theorem exists_candidate (hg : Attentive v g) (hprog : Progressive g) (hv : v.Distinct)
    {t : Token} (ht : t.type ∈ v.types) {tokens : List Token} {root root' : String} {size : Nat}
    (h : (g.parse v root size (tokens ++ [t])).1.leaves = tokens ++ [t]) :
    ∃ c ∈ g.assist v root' tokens, c.type.StandsFor t := by
  have hexcused : ∀ e ∈ attention.excused, Excused attention v g e.1 e.2 := by
    rintro e ⟨⟩
  rcases exists_served hg.watchful hexcused hprog hv ht h with ⟨c, hc, hserves⟩ | ⟨_, -, _, ⟨⟩, -⟩
  exact ⟨c, hc, attention_serves.mp hserves⟩

end Grammar

end GraphLanguages
