import GraphLanguages.Proofs.Grammar.Attentive
import GraphLanguages.Proofs.Languages

/-! Content assist in GraphQL.

Two choices look at the token after the next: a name with a colon behind it is an alias, and
three dots with a name behind them spread a fragment. Content assist makes them before that
token is typed, so it offers neither the colon of an alias nor the name of a fragment that
is spread (`fragment_name_not_offered`). Every other token that a parse takes next has its
candidate (`assist_complete_but`). -/
namespace GraphLanguages

/-- The type is the token's, or that of names if the token can be one, or it stands for all
types of a category that the token's type carries. -/
def TokenType.Offers (T : TokenType) (t : Token) : Prop :=
  T = t.type ∨ T.name = "Name" ∧ t.type.has .name = true ∨
    ∃ c, T.pattern = .anyOf c ∧ t.type.has c = true

namespace GraphQL
open Grammar

/-! ### What is offered -/

def aliasPhrase : Phrase := .node "Alias" (.seq name (.expect "Colon"))

/-- Every token has a candidate, but the colon of an alias and the name of a fragment that
is spread. -/
def offering : Watch where
  serves T U := T == U || (T.name == "Name" && U.has .name) || T.group?.any U.has
  excused :=
    [(.aheadIs 1 "Colon", aliasPhrase),
     (.both (.aheadTagged 1 .name) (.negated (.aheadIs 1 "On")), fragmentSpread)]
  places := [["Alias"], ["FragmentSpread", "FragmentName"]]

theorem offering_serves {T : TokenType} {t : Token} :
    offering.serves T t.type = true ↔ T.Offers t := by
  simp only [offering, TokenType.Offers, Bool.or_eq_true, Bool.and_eq_true, beq_iff_eq,
    Option.any_eq_true, TokenType.group?_eq_some, or_assoc]

theorem watchful (dialect : Dialect) : Watchful offering (vocabulary dialect) grammar := by
  cases dialect <;> decide

/-! ### Choices that look at the token after the next -/

section
variable {g : Grammar} {v : Vocabulary} {size : Nat} {open_ : List String} {s : State}
  {o : Outcome} {u t : Token}

theorem lapsed_alias (h : Runs (g.parsing v size) open_ aliasPhrase s o)
    (hs : s.rest = [u, t]) : Lapsed (· = ["Alias"]) o := by
  have hlast : { s with forest := [] }.take.rest = [t] := by simp [take_rest, hs]
  refine Lapsed.node h (by simp [hs]) (fun _ h => ?_) fun rules hrules => congrArg _ hrules
  cases h with
  | seq hname hcolon =>
    rcases hname.of_expect with hdone | ⟨s', hhalted, -⟩
    · obtain rfl := Outcome.done.inj hdone
      exact Lapsed.expect hcolon hlast
    · cases hhalted
  | seqHalt hname =>
    rcases hname.of_expect with hdone | ⟨s', hhalted, hr⟩
    · cases hdone
    · obtain rfl := Outcome.halted.inj hhalted
      exact .halted fun hr' => by simp [hr, hs] at hr'

theorem lapsed_fragmentSpread (h : Runs (g.parsing v size) open_ fragmentSpread s o)
    (hs : s.rest = [u, t]) : Lapsed (· = ["FragmentSpread", "FragmentName"]) o := by
  have hlast : { s with forest := [] }.take.rest = [t] := by simp [take_rest, hs]
  refine Lapsed.node h (by simp [hs]) (fun hd h => ?_) fun rules hrules => congrArg _ hrules
  cases h with
  | seq hdots hrest =>
    cases hdots
    -- behind the dots, the name is the last token
    refine Lapsed.seq hrest hd fun hname => ?_
    refine Lapsed.node hname (by simp [hlast]) (fun _ hname => ?_)
      fun rules hrules => congrArg _ hrules
    exact Lapsed.expect hname hlast
  | seqHalt hdots => cases hdots

theorem peek_one_name (hs : s.rest.length ≤ 1) :
    (s.peek (g.assisting v size) 1).name = "EOF" := by
  rw [peek_of_length_le hs]
  rfl

theorem peek_one_has (hs : s.rest.length ≤ 1) {c : Category} (hc : c ≠ .endOfInput) :
    (s.peek (g.assisting v size) 1).has c = false := by
  rw [peek_of_length_le hs]
  show (Token.endOfInput size).has c = false
  rw [endOfInput_has, beq_eq_false_iff_ne]
  exact hc

end

theorem excused_alias {v : Vocabulary} {g : Grammar} :
    Excused offering v g (.aheadIs 1 "Colon") aliasPhrase where
  reach := Nat.le_refl 1
  blind hs := by simp [Lookahead.ask, peek_one_name hs]
  lapsed h _ hs := (lapsed_alias h hs).mono fun rules hrules =>
    ⟨["Alias"], by simp [offering], hrules ▸ List.suffix_refl _⟩

theorem excused_spread {v : Vocabulary} {g : Grammar} :
    Excused offering v g (.both (.aheadTagged 1 .name) (.negated (.aheadIs 1 "On")))
      fragmentSpread where
  reach := Nat.le_refl 1
  blind hs := by simp [Lookahead.ask, peek_one_has hs]
  lapsed h _ hs := (lapsed_fragmentSpread h hs).mono fun rules hrules =>
    ⟨["FragmentSpread", "FragmentName"], by simp [offering], hrules ▸ List.suffix_refl _⟩

theorem excused {v : Vocabulary} {g : Grammar} :
    ∀ e ∈ offering.excused, Excused offering v g e.1 e.2 :=
  List.forall_mem_cons.mpr ⟨excused_alias, List.forall_mem_singleton.mpr excused_spread⟩

/-! ### Completeness -/

/-- **Whatever token a parse takes next, content assist has a candidate that offers it, but
for the colon of an alias and the name of a fragment that is spread.** -/
theorem assist_complete_but (dialect : Dialect) (root root' : String) (size : Nat)
    (tokens : List Token) (t : Token)
    (ht : ∀ u ∈ tokens ++ [t], u.type ∈ (vocabulary dialect).types) :
    let tree := (grammar.parse (vocabulary dialect) root size (tokens ++ [t])).1
    tree.leaves = tokens ++ [t] →
      (∃ c ∈ (frontend dialect).assist root' tokens, c.type.Offers t) ∨
        ∃ rules, tree.lastRules? = some rules ∧
          (["Alias"] <:+ rules ∨ ["FragmentSpread", "FragmentName"] <:+ rules) := by
  intro tree h
  have hlawful := lawful dialect
  rcases exists_served (watchful dialect) excused hlawful.progressive hlawful.distinct
    (ht t (by simp)) h with ⟨c, hc, hserves⟩ | ⟨rules, hrules, hat⟩
  · exact .inl ⟨c, hc, offering_serves.mp hserves⟩
  · refine .inr ⟨rules, hrules, ?_⟩
    simpa [Watch.At, offering] using hat

/-- A field is offered after an opening brace. -/
theorem assist_complete_but_field :
    let brace := Token.ofImage ((TokenType.literal "LCurly" "\x7b").withCategories [.punctuator])
      "\x7b" 0
    let field := Token.ofImage ((TokenType.regex "Name" nameRegex).withCategories [.name]) "a" 1
    let v := vocabulary .stardog
    let tree := (grammar.parse v root 2 ([brace] ++ [field])).1
    (∀ u ∈ [brace] ++ [field], u.type ∈ v.types) ∧ tree.leaves = [brace] ++ [field] ∧
      ∃ c ∈ (frontend .stardog).assist root [brace], c.type.Offers field := by
  intro brace field v tree
  have htypes : ∀ u ∈ [brace] ++ [field], u.type ∈ v.types := by decide +kernel
  have hleaves : tree.leaves = [brace] ++ [field] := by decide +kernel
  have hrules : tree.lastRules? = some
      ["Document", "Definition", "OperationDefinition", "SelectionSet", "Selection", "Field"] := by
    decide +kernel
  refine ⟨htypes, hleaves, ?_⟩
  rcases assist_complete_but .stardog root root 2 [brace] field htypes hleaves with
    hoffered | ⟨rules, hrules', hplace⟩
  · exact hoffered
  · obtain rfl := Option.some.inj (hrules.symm.trans hrules')
    exact absurd hplace (by decide)

/-- After three dots, the name of a fragment is taken and not offered. -/
theorem fragment_name_not_offered :
    let brace := Token.ofImage ((TokenType.literal "LCurly" "\x7b").withCategories [.punctuator])
      "\x7b" 0
    let dots := Token.ofImage ((TokenType.literal "Spread" "...").withCategories [.punctuator])
      "..." 1
    let fragment := Token.ofImage ((TokenType.regex "Name" nameRegex).withCategories [.name]) "b" 4
    let v := vocabulary .stardog
    (∀ u ∈ [brace, dots] ++ [fragment], u.type ∈ v.types) ∧
      (grammar.parse v root 5 ([brace, dots] ++ [fragment])).1.leaves =
        [brace, dots] ++ [fragment] ∧
      ¬ ∃ c ∈ (frontend .stardog).assist root [brace, dots], c.type.Offers fragment := by
  intro brace dots fragment v
  have hserves : ∀ c ∈ (frontend .stardog).assist root [brace, dots],
      offering.serves c.type fragment.type = false := by
    decide +kernel
  refine ⟨by decide +kernel, by decide +kernel, ?_⟩
  rintro ⟨c, hc, hoffers⟩
  cases (hserves c hc).symm.trans (offering_serves.mpr hoffers)

end GraphQL

end GraphLanguages
