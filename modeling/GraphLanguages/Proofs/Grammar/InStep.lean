import GraphLanguages.Proofs.Grammar.Runs

/-! Two runs in step.

Content assist over some tokens runs in step with the parse of these tokens and one
more: until the tokens of the first are used up, both see the same and do the same
(`InStep`). -/
namespace GraphLanguages.Grammar

theorem ask_parsing {g : Grammar} {v : Vocabulary} {size : Nat} {open_ : List String} {s : State}
    (test : Lookahead) : (test.ask (g.parsing v size) open_ s).2 = s :=
  test.ask_quiet (noting_of_parsing rfl)

/-- The first state has one token more than the second. -/
def InStep (t : Token) (s s' : State) : Prop :=
  s.rest = s'.rest ++ [t]

namespace InStep
variable {g : Grammar} {v : Vocabulary} {size size' : Nat} {open_ open' : List String}
  {t : Token} {s s' : State}

theorem notes {v' : Vocabulary} {s₁ s₁' : State} (h : InStep t s s') (hs : s.Notes v s₁)
    (hs' : s'.Notes v' s₁') : InStep t s₁ s₁' := by
  unfold InStep
  rw [hs.rest, hs'.rest]
  exact h

theorem ask (h : InStep t s s') (σ σ' : Setting) (open_ open' : List String)
    (test : Lookahead) : InStep t (test.ask σ open_ s).2 (test.ask σ' open' s').2 :=
  h.notes (test.ask_notes σ open_ s) (test.ask_notes σ' open' s')

theorem ne_nil (h : InStep t s s') : s.rest ≠ [] := by
  simp [show s.rest = _ from h]

theorem take (h : InStep t s s') (hne : s'.rest ≠ []) : InStep t s.take s'.take := by
  unfold InStep
  rw [take_rest, take_rest, show s.rest = _ from h, List.tail_append_of_ne_nil hne]

theorem complain {σ σ' : Setting} {c c' : Complaint} (h : InStep t s s') :
    InStep t (s.complain σ open_ c) (s'.complain σ' open' c') := by
  unfold InStep
  rw [complain_rest, complain_rest]
  exact h

/-- Until the last token but one, both runs see the same. -/
theorem seeSame (h : InStep t s s') {d : Nat} (hd : d < s'.rest.length) :
    Lookahead.Matches (g.parsing v size) (g.assisting v size') d s s' where
  type k hk := by
    simp only [State.peek, show s.rest = _ from h]
    rw [List.getElem?_append_left (by omega), List.getElem?_eq_getElem (by omega)]
    rfl
  empty := by
    obtain ⟨u, us, hr⟩ := List.exists_cons_of_length_pos (Nat.zero_lt_of_lt hd)
    simp [show s.rest = _ from h, hr]
  noting := by
    obtain ⟨u, us, hr⟩ := List.exists_cons_of_length_pos (Nat.zero_lt_of_lt hd)
    rw [noting_of_parsing rfl, noting_of_cons hr]

theorem ask_eq (h : InStep t s s') (test : Lookahead) (hr : test.reach < s'.rest.length) :
    (test.ask (g.parsing v size) open_ s).1 = (test.ask (g.assisting v size') open' s').1 :=
  have hm : Lookahead.Matches (g.parsing v size) (g.assisting v size') test.reach s s' :=
    h.seeSame hr
  hm.ask_congr rfl

end InStep

end GraphLanguages.Grammar
