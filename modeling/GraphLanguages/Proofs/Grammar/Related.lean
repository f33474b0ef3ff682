import GraphLanguages.Proofs.Decoding
import GraphLanguages.Proofs.Grammar.Fuel
import GraphLanguages.Proofs.Grammar.InStep

/-! Parses of tokens that correspond.

A parse asks for nothing of a token but its type. So over lists of tokens that are related
one by one, by a relation that keeps types, runs take the same turns (`run_related`) and
build trees and errors over related tokens (`parse_related`). -/
namespace GraphLanguages

theorem Tree.relOf_of_forall₂ {R : Token → Token → Prop} {ts us : List Tree}
    (h : List.Forall₂ (Tree.Rel R) ts us) : Tree.RelOf R ts us := by
  induction h with
  | nil => exact .nil
  | cons htree _ ih => exact .cons htree ih

/-- The same complaint about related tokens. -/
structure SyntaxError.Rel (R : Token → Token → Prop) (e e' : SyntaxError) : Prop where
  kind : e.kind = e'.kind
  message : e.message = e'.message
  rules : e.rules = e'.rules
  token : R e.token e'.token
  previous : Option.Rel R e.previous e'.previous

namespace Grammar

/-- The relation holds of tokens of one type only, and of the ends of both texts. -/
structure Relates (R : Token → Token → Prop) (size size' : Nat) : Prop where
  type : ∀ t u, R t u → t.type = u.type
  ends : R (Token.endOfInput size) (Token.endOfInput size')

/-- Wherever one state holds a token, the other holds a related one. -/
structure State.Rel (R : Token → Token → Prop) (s s' : State) : Prop where
  rest : List.Forall₂ R s.rest s'.rest
  previous : Option.Rel R s.previous s'.previous
  forest : List.Forall₂ (Tree.Rel R) s.forest s'.forest
  error : Option.Rel (SyntaxError.Rel R) s.error s'.error

/-- The runs end in the same way, in related states. -/
inductive Outcome.Rel (R : Token → Token → Prop) : Outcome → Outcome → Prop
  | done {s s' : State} : s.Rel R s' → Outcome.Rel R (.done s) (.done s')
  | halted {s s' : State} : s.Rel R s' → Outcome.Rel R (.halted s) (.halted s')
  | spent {s s' : State} : s.Rel R s' → Outcome.Rel R (.spent s) (.spent s')

namespace Outcome.Rel
variable {R : Token → Token → Prop} {o o' : Outcome}

theorem state (h : o.Rel R o') : o.state.Rel R o'.state := by
  cases h <;> assumption

theorem map (h : o.Rel R o') {f f' : State → State}
    (hf : ∀ s s', s.Rel R s' → (f s).Rel R (f' s')) : (o.map f).Rel R (o'.map f') := by
  cases h with
  | done hs => exact .done (hf _ _ hs)
  | halted hs => exact .halted (hf _ _ hs)
  | spent hs => exact .spent (hf _ _ hs)

theorem andThen (h : o.Rel R o') {f f' : State → Outcome}
    (hf : ∀ s s', s.Rel R s' → (f s).Rel R (f' s')) : (o.andThen f).Rel R (o'.andThen f') := by
  cases h with
  | done hs => exact hf _ _ hs
  | halted hs => exact .halted hs
  | spent hs => exact .spent hs

end Outcome.Rel

theorem getD_related {R : Token → Token → Prop} {ts us : List Token} {t u : Token}
    (h : List.Forall₂ R ts us) (htu : R t u) (i : Nat) : R (ts[i]?.getD t) (us[i]?.getD u) := by
  induction h generalizing i with
  | nil => exact htu
  | cons hhead _ ih =>
    cases i with
    | zero => exact hhead
    | succ i => exact ih i

section
variable {R : Token → Token → Prop} {g : Grammar} {v : Vocabulary} {size size' : Nat}
  {open_ : List String} {s s' : State}

/-! ### Single steps -/

namespace State.Rel

theorem take (h : s.Rel R s') : s.take.Rel R s'.take := by
  obtain ⟨rest, previous, forest, error, noted⟩ := s
  obtain ⟨rest', previous', forest', error', noted'⟩ := s'
  obtain ⟨hrest, hprevious, hforest, herror⟩ := h
  cases hrest with
  | nil => exact ⟨.nil, hprevious, hforest, herror⟩
  | cons ht hrest => exact ⟨hrest, .some ht, .cons (.leaf ht) hforest, herror⟩

theorem peek (h : s.Rel R s') (hR : Relates R size size') (distance : Nat) :
    R (s.peek (g.parsing v size) distance) (s'.peek (g.parsing v size') distance) :=
  getD_related h.rest hR.ends distance

/-- Only the first complaint counts, in both runs. -/
theorem complain (h : s.Rel R s') (hR : Relates R size size') (c : Complaint) :
    (s.complain (g.parsing v size) open_ c).Rel R (s'.complain (g.parsing v size') open_ c) := by
  have htoken : R (s.peek (g.parsing v size) 0) (s'.peek (g.parsing v size') 0) := h.peek hR 0
  obtain ⟨rest, previous, forest, error, noted⟩ := s
  obtain ⟨rest', previous', forest', error', noted'⟩ := s'
  obtain ⟨hrest, hprevious, hforest, herror⟩ := h
  cases herror with
  | some he => exact ⟨hrest, hprevious, hforest, .some he⟩
  | none =>
    refine ⟨hrest, hprevious, hforest, .some ⟨rfl, rfl, rfl, htoken, ?_⟩⟩
    dsimp only
    split
    · exact hprevious
    · exact .none

theorem opened (h : s.Rel R s') : State.Rel R { s with forest := [] } { s' with forest := [] } :=
  ⟨h.rest, h.previous, .nil, h.error⟩

theorem close (h : s.Rel R s') (name : String) {outer outer' : List Tree}
    (houter : List.Forall₂ (Tree.Rel R) outer outer') :
    (s.close name outer).Rel R (s'.close name outer') :=
  ⟨h.rest, h.previous,
    .cons (.node (Tree.relOf_of_forall₂ (List.rel_reverse h.forest))) houter, h.error⟩

theorem ask (h : s.Rel R s') (hR : Relates R size size') (test : Lookahead) :
    (test.ask (g.parsing v size) open_ s).1 = (test.ask (g.parsing v size') open_ s').1 := by
  have hmatches : Lookahead.Matches (g.parsing v size) (g.parsing v size') test.reach s s' := by
    refine ⟨fun d _ => hR.type _ _ (h.peek hR d), ?_, rfl⟩
    rw [Bool.eq_iff_iff, List.isEmpty_iff_length_eq_zero, List.isEmpty_iff_length_eq_zero,
      h.rest.length_eq]
  exact hmatches.ask_congr rfl

end State.Rel

/-! ### Runs -/

theorem run_related (hR : Relates R size size') (n : Nat) (p : Phrase) (h : s.Rel R s') :
    (Phrase.run (g.parsing v size) n open_ p s).Rel R
      (Phrase.run (g.parsing v size') n open_ p s') := by
  induction n generalizing open_ p s s' with
  | zero => exact .spent h
  | succ n ih =>
    cases p with
    | empty => exact .done h
    | take => exact .done h.take
    | reject c => exact .halted (h.complain hR c)
    | seq a b =>
      rw [run_seq, run_seq]
      exact (ih a h).andThen fun s s' h => ih b h
    | choose test a b =>
      rw [run_choose, run_choose, ask_parsing, ask_parsing, h.ask hR test]
      split
      · exact ih a h
      · exact ih b h
    | loop test body =>
      rw [run_loop, run_loop, ask_parsing, ask_parsing, h.ask hR test]
      split
      · exact (ih body h).andThen fun s s' h => ih (.loop test body) h
      · exact .done h
    | chain item separator gap more =>
      rw [run_chain, run_chain]
      refine (ih item h).andThen fun s s' h => ?_
      rw [ask_parsing, ask_parsing, h.ask hR (.is separator)]
      split
      · refine (ih gap h.take).andThen fun s s' h => ?_
        rw [ask_parsing, ask_parsing, h.ask hR more]
        split
        · exact ih (.chain item separator gap more) h
        · exact .done h
      · exact .done h
    | node name body =>
      rw [run_node, run_node]
      split
      · exact .halted (h.complain hR .tooDeep)
      · exact (ih body h.opened).map fun s₁ s₁' h₁ => h₁.close name h.forest
    | call name =>
      rw [run_call, run_call]
      exact ih (g.rule name) h

/-- Related tokens are parsed to related trees, with the same complaint if any. -/
theorem parse_related (hR : Relates R size size') (root : String) {tokens tokens' : List Token}
    (h : List.Forall₂ R tokens tokens') :
    Tree.Rel R (g.parse v root size tokens).1 (g.parse v root size' tokens').1 ∧
      Option.Rel (SyntaxError.Rel R) (g.parse v root size tokens).2
        (g.parse v root size' tokens').2 := by
  have hrun : (runRoot (g.parsing v size) root (.seq g.entry .finish) tokens).Rel R
      (runRoot (g.parsing v size') root (.seq g.entry .finish) tokens') := by
    unfold runRoot
    rw [h.length_eq]
    exact run_related hR _ _ ⟨h, .none, .nil, .none⟩
  refine ⟨?_, hrun.state.error⟩
  show Tree.Rel R ((runRoot (g.parsing v size) root _ tokens).state.forest.head?.getD _)
    ((runRoot (g.parsing v size') root _ tokens').state.forest.head?.getD _)
  have hforest := hrun.state.forest
  generalize (runRoot (g.parsing v size) root _ tokens).state.forest = forest,
    (runRoot (g.parsing v size') root _ tokens').state.forest = forest' at hforest ⊢
  cases hforest with
  | nil => exact .node .nil
  | cons htree _ => exact htree

end

end Grammar

end GraphLanguages
