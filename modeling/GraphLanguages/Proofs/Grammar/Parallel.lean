import GraphLanguages.Proofs.Grammar.InStep
import GraphLanguages.Proofs.Grammar.ParseTree

/-! Parsing and content assist over the same tokens.

As long as there are tokens, both see the same and do the same, and content assist takes
no notes. So where a parse fails before the end, there are no candidates. -/
namespace GraphLanguages.Grammar

/-- Over the same tokens, until they are used up, both see the same as well, and content
assist takes no notes. -/
theorem Lookahead.ask_parallel (g : Grammar) (v : Vocabulary) (size size' : Nat)
    (open_ open' : List String) {s s' : State} (test : Lookahead) (h : s.rest = s'.rest)
    (hne : s.rest ≠ []) :
    (test.ask (g.parsing v size) open_ s).1 = (test.ask (g.assisting v size') open' s').1 ∧
      (test.ask (g.assisting v size') open' s').2 = s' := by
  obtain ⟨t, ts, hr⟩ := List.exists_cons_of_ne_nil hne
  have hquiet : s'.noting (g.assisting v size') = false := noting_of_cons (h ▸ hr)
  have hn : s.noting (g.parsing v size) = s'.noting (g.assisting v size') := by
    rw [noting_of_parsing rfl, hquiet]
  have halike : Alike (g.parsing v size) (g.assisting v size') := ⟨rfl, rfl⟩
  exact ⟨(Matches.of_rest halike h hn test.reach).ask_congr rfl, test.ask_quiet hquiet⟩

/-- How a parse and content assist over the same tokens end: the parse with all of them
taken, or both alike, with the same tokens left and no notes. -/
inductive Parallel : Outcome → Outcome → Prop
  | all {o o' : Outcome} : o.state.rest = [] → Parallel o o'
  | done {s s' : State} : s.rest = s'.rest → s'.noted = [] → Parallel (.done s) (.done s')
  | halted {s s' : State} : s'.noted = [] → Parallel (.halted s) (.halted s')

section
variable {g : Grammar} {v : Vocabulary} {size size' : Nat} {open_ open' : List String}
  {s s' : State} {o o' : Outcome}

theorem Parallel.close {name name' : String} {outer outer' : List Tree} (h : Parallel o o') :
    Parallel (o.map (State.close name outer)) (o'.map (State.close name' outer')) := by
  cases h with
  | @all o _ hr => exact .all (by cases o <;> exact hr)
  | done hs hn => exact .done hs hn
  | halted hn => exact .halted hn

/-- While there are tokens, both answer alike, and content assist is left as it is. -/
theorem Lookahead.ask_of_parallel (g : Grammar) (v : Vocabulary) (size size' : Nat)
    (open_ open' : List String) (test : Lookahead) {answer : Bool} (hs : s.rest = s'.rest)
    (hend : s.rest ≠ []) (ha : (test.ask (g.parsing v size) open_ s).1 = answer) :
    (test.ask (g.assisting v size') open' s').1 = answer ∧
      (test.ask (g.assisting v size') open' s').2 = s' := by
  obtain ⟨heq, hquiet⟩ := test.ask_parallel g v size size' open_ open' hs hend
  exact ⟨heq.symm.trans ha, hquiet⟩

theorem parallel_of_runs {p : Phrase} (h : Runs (g.parsing v size) open_ p s o)
    (h' : Runs (g.assisting v size') open' p s' o') (hl : open_.length = open'.length)
    (hs : s.rest = s'.rest) (hn : s'.noted = []) : Parallel o o' := by
  induction h generalizing open' s' o' with
  | empty =>
    cases h'
    exact .done hs hn
  | take =>
    cases h'
    exact .done (by rw [take_rest, take_rest, hs]) (by rw [take_noted, hn])
  | reject =>
    cases h'
    exact .halted (by rw [complain_noted, hn])
  | seq _ hb iha ihb =>
    obtain ⟨o₁', ha', hb'⟩ := h'.exists_onward
    cases iha ha' hl hs hn with
    | all hr => exact .all (hb.rest_eq_nil hr)
    | done hs₁ hn₁ =>
      cases hb' with
      | done hb' => exact ihb hb' hl hs₁ hn₁
  | seqHalt _ ih =>
    obtain ⟨o₁', ha', hb'⟩ := h'.exists_onward
    cases ih ha' hl hs hn with
    | all hr => exact .all hr
    | halted hn₁ =>
      cases hb'
      exact .halted hn₁
  | @chooseYes open_ test a b s o hy h ih =>
    by_cases hend : s.rest = []
    · exact .all (h.rest_eq_nil ((test.ask_notes ..).rest.trans hend))
    · obtain ⟨hy', hquiet⟩ := test.ask_of_parallel g v size size' open_ open' hs hend hy
      rw [ask_parsing] at ih
      exact ih (hquiet ▸ h'.of_yes hy') hl hs hn
  | @chooseNo open_ test a b s o hno h ih =>
    by_cases hend : s.rest = []
    · exact .all (h.rest_eq_nil ((test.ask_notes ..).rest.trans hend))
    · obtain ⟨hno', hquiet⟩ := test.ask_of_parallel g v size size' open_ open' hs hend hno
      rw [ask_parsing] at ih
      exact ih (hquiet ▸ h'.of_no hno') hl hs hn
  | loop _ ih =>
    cases h' with
    | loop h' => exact ih h' hl hs hn
  | chain _ ih =>
    cases h' with
    | chain h' => exact ih h' hl hs hn
  | tooDeep hd =>
    cases h' with
    | tooDeep => exact .halted (by rw [complain_noted, hn])
    | node hd' | nodeHalt hd' => omega
  | node hd _ ih | nodeHalt hd _ ih =>
    obtain ⟨o₁', hbody, rfl⟩ := h'.of_node (hl ▸ hd)
    exact (ih hbody (by simp [hl]) hs hn).close
  | call _ ih =>
    cases h' with
    | call h' => exact ih h' hl hs hn

/-- There are no candidates behind tokens that a parse does not take all of. -/
theorem assist_eq_nil (hprog : Progressive g) {tokens : List Token} {root root' : String}
    (h : (g.parse v root size tokens).1.leaves ≠ tokens) : g.assist v root' tokens = [] := by
  obtain ⟨o, ho⟩ := hprog.exists_runs_document v root size tokens
  obtain ⟨o', ho'⟩ := hprog.exists_runs_entry v root' tokens
  have hleft : o.state.rest ≠ [] := (leaves_parse_eq_iff ho).not.mp h
  rw [assist_of_runs ho', List.reverse_eq_nil_iff]
  cases ho with
  | seq hentry hfinish =>
    cases parallel_of_runs hentry ho' rfl rfl rfl with
    | all hr => exact absurd (hfinish.rest_eq_nil hr) hleft
    | done _ hn => exact hn
  | seqHalt hentry =>
    cases parallel_of_runs hentry ho' rfl rfl rfl with
    | all hr => exact absurd hr hleft
    | halted hn => exact hn

end

end GraphLanguages.Grammar
