import GraphLanguages.Proofs.Grammar.Promises
import GraphLanguages.Proofs.Grammar.ParseTree

/-! Content assist promises nothing in vain.

Under an honest grammar a parse on its own takes what it owes (`settled_of_runs`), and
in step with content assist it owes the last token as soon as that fits a note
(`kept_of_runs`). So whatever token a candidate is for, a parse takes it, unless rules
nest too deep before. -/
namespace GraphLanguages.Grammar

/-- The run stopped because rules nest too deep. -/
def TooDeep (v : Vocabulary) (s : State) : Prop :=
  ∃ e, s.error = some e ∧ e.message = Complaint.tooDeep.message v

/-- A parse under way: no error yet, and tokens of the vocabulary ahead. -/
structure UnderWay (v : Vocabulary) (s : State) : Prop where
  typed : ∀ u ∈ s.rest, u.type ∈ v.types
  error : s.error = none

/-- How a parse ends that leaves at most the word: with all tokens taken, too deep, or
done with the word left. -/
inductive Settled (v : Vocabulary) (w : Word) : Outcome → Prop
  | all {o : Outcome} : o.state.rest = [] → Settled v w o
  | tooDeep {s : State} : TooDeep v s → Settled v w (.halted s)
  | left {s : State} : UnderWay v s → names s.rest = w → Settled v w (.done s)

section
variable {g : Grammar} {v : Vocabulary} {size size' : Nat} {open_ : List String} {s : State}

theorem UnderWay.take (h : UnderWay v s) : UnderWay v s.take where
  typed u hu := h.typed u ((take_rest_suffix s).subset hu)
  error := by
    unfold State.take
    split <;> exact h.error

theorem UnderWay.done {v' : Vocabulary} {p : Phrase} {s' : State} (hs : UnderWay v s)
    (h : Runs (g.parsing v' size) open_ p s (.done s')) : UnderWay v s' where
  typed u hu := hs.typed u (h.rest_suffix.subset hu)
  error := (h.halts rfl hs.error).1 s' rfl

theorem tooDeep_complain (h : s.error = none) :
    TooDeep v (s.complain (g.parsing v size) open_ .tooDeep) := by
  have : s.complain (g.parsing v size) open_ .tooDeep =
      { s with
        error := some
          { kind := Complaint.tooDeep.kind, message := Complaint.tooDeep.message v,
            token := s.peek (g.parsing v size) 0, rules := open_.reverse } } := by
    simp [State.complain, parsing, h, Complaint.namesPrevious]
  rw [this]
  exact ⟨_, rfl, rfl⟩

theorem UnderWay.answer (hs : UnderWay v s) (hv : v.Distinct) {test : Lookahead}
    (hg : test.grounded = true) :
    (test.ask (g.parsing v size) open_ s).1 = test.holdsOn v (names s.rest) :=
  Lookahead.ask_eq_holdsOn hv rfl rfl hs.typed test hg

theorem TooDeep.close {name : String} {outer : List Tree} (h : TooDeep v s) :
    TooDeep v (s.close name outer) :=
  h

/-- A parse on its own leaves what is computed from the names of its tokens. -/
theorem settled_of_runs (hg : Honest v g) (hv : v.Distinct) {p : Phrase} {o : Outcome}
    (h : Runs (g.parsing v size) open_ p s o) (hs : UnderWay v s) {w : Word}
    (hp : p.solo v g (names s.rest) = some w) : Settled v w o := by
  induction h generalizing w with
  | @empty _ s =>
    cases hr : s.rest with
    | nil => exact .all hr
    | cons t ts =>
      rw [hr] at hp
      cases hp
      exact .left hs (by rw [hr]; rfl)
  | @take _ s =>
    cases hr : s.rest with
    | nil => exact .all (by simp [Outcome.state, take_rest, hr])
    | cons t ts =>
      rw [hr] at hp
      cases hp
      exact .left hs.take (by rw [take_rest, hr]; rfl)
  | @reject _ _ s =>
    cases hr : s.rest with
    | nil => exact .all (by simp [Outcome.state, complain_rest, hr])
    | cons t ts =>
      rw [hr] at hp
      cases hp
  | @seq _ a b s s₁ o _ hb iha ihb =>
    obtain ⟨w₁, ha, hw⟩ := solo_seq hp
    cases iha hs ha with
    | all hr => exact .all (hb.rest_eq_nil hr)
    | left hs₁ hn => exact ihb hs₁ (hn ▸ hw)
  | seqHalt _ ih =>
    obtain ⟨w₁, ha, hw⟩ := solo_seq hp
    cases ih hs ha with
    | all hr => exact .all hr
    | tooDeep hd => exact .tooDeep hd
  | @chooseYes _ test a b s o hy h ih =>
    rw [ask_parsing] at ih h
    rcases solo_choose hp with hr | ⟨hgr, hw⟩
    · exact .all (h.rest_eq_nil (List.map_eq_nil_iff.mp hr))
    · rw [hs.answer hv hgr] at hy
      rw [if_pos hy] at hw
      exact ih hs hw
  | @chooseNo _ test a b s o hy h ih =>
    rw [ask_parsing] at ih h
    rcases solo_choose hp with hr | ⟨hgr, hw⟩
    · exact .all (h.rest_eq_nil (List.map_eq_nil_iff.mp hr))
    · rw [hs.answer hv hgr] at hy
      rw [hy, if_neg (by decide)] at hw
      exact ih hs hw
  | loop _ ih => exact ih hs (solo_unrollLoop hp)
  | chain _ ih => exact ih hs (solo_unrollChain hp)
  | tooDeep hd => exact .tooDeep (tooDeep_complain hs.error)
  | @node _ _ _ s s₁ hd h ih =>
    cases ih ⟨hs.typed, hs.error⟩ (solo_node hp) with
    | all hr => exact .all hr
    | left hs₁ hn => exact .left ⟨hs₁.typed, hs₁.error⟩ hn
  | nodeHalt hd _ ih =>
    cases ih ⟨hs.typed, hs.error⟩ (solo_node hp) with
    | all hr => exact .all hr
    | tooDeep hd => exact .tooDeep hd.close
  | @call _ name s _ h ih =>
    rcases solo_call hp with hr | ⟨u, hu, hmem, rfl⟩
    · exact .all (h.rest_eq_nil (List.map_eq_nil_iff.mp hr))
    · exact ih hs (hu ▸ (hg.rule name).2 u hmem)

end

/-! ### What is known of the next token -/

/-- The next token, if there is one, has one of the names. -/
def Knows (known : Option (List String)) (tokens : List Token) : Prop :=
  ∀ list ∈ known, ∀ u ∈ tokens.head?, u.name ∈ list

section
variable {v : Vocabulary} {known : Option (List String)} {tokens : List Token}
  {test : Lookahead}

theorem knows_none (tokens : List Token) : Knows none tokens := by
  rintro _ ⟨⟩

theorem Knows.ifYes (hk : Knows known tokens) (hg : test.grounded = true)
    (hy : test.holdsOn v (names tokens) = true) : Knows (test.ifYes v known) tokens := by
  unfold Lookahead.ifYes
  split
  next hr =>
    intro list hlist u hu
    obtain ⟨us, rfl⟩ := List.head?_eq_some_iff.mp hu
    have hyes : test.holdsOn v [u.name] = true :=
      (test.holdsOn_cons hr u.name (names us)).symm.trans hy
    split at hlist
    next known =>
      cases hlist
      exact List.mem_filter.mpr ⟨hk known rfl u rfl, hyes⟩
    next =>
      split at hlist
      next => cases hlist
      next hnil =>
        cases hlist
        refine List.mem_filter.mpr ⟨?_, hyes⟩
        by_contra hm
        exact hnil ((test.holdsOn_append hg (w := []) hm).symm.trans hyes)
  next => exact hk

theorem Knows.ifNo (hk : Knows known tokens)
    (hn : test.holdsOn v (names tokens) = false) : Knows (test.ifNo v known) tokens := by
  unfold Lookahead.ifNo
  split
  next hr =>
    intro list hlist u hu
    obtain ⟨us, rfl⟩ := List.head?_eq_some_iff.mp hu
    have hno : test.holdsOn v [u.name] = false :=
      (test.holdsOn_cons hr u.name (names us)).symm.trans hn
    obtain ⟨ns, rfl, rfl⟩ := Option.map_eq_some_iff.mp hlist
    exact List.mem_filter.mpr ⟨hk ns rfl u rfl, by simpa using hno⟩
  next => exact hk

/-- A question opens the word of the tokens and a last one that matters to it. -/
theorem mem_opens {words : List Word} (hw : test.opens v known = some words)
    (hk : Knows known tokens) {u : String} (hu : u ∈ test.asked v tokens.length) :
    names tokens ++ [u] ∈ words := by
  have hle := Lookahead.le_reach_of_mem_asked hu
  unfold Lookahead.opens at hw
  split at hw
  next hr _ =>
    cases hw
    obtain rfl : tokens = [] := List.eq_nil_of_length_eq_zero (by omega)
    exact List.mem_map.mpr ⟨u, hu, rfl⟩
  next known hr =>
    cases hw
    match tokens, hk, hu, hle with
    | [], _, hu, _ => exact List.mem_append_left _ (List.mem_map.mpr ⟨u, hu, rfl⟩)
    | [t], hk, hu, _ =>
      exact List.mem_append_right _ (List.mem_flatMap.mpr
        ⟨t.name, hk known rfl t rfl, List.mem_map.mpr ⟨u, hu, rfl⟩⟩)
    | _ :: _ :: _, _, _, hle =>
      simp only [List.length_cons] at hle
      omega
  next => cases hw

end

/-! ### The parse and content assist abreast -/

/-- Both are in step, and no note is for the last token of the parse. -/
structure Abreast (v : Vocabulary) (t : Token) (s s' : State) : Prop where
  inStep : InStep t s s'
  underWay : UnderWay v s
  silent : ∀ c ∈ s'.noted, ¬c.type.Accepts v t

/-- How both end: the parse with all tokens taken, too deep, or done owing a word; or
both alike, with no note for the last token. -/
inductive Kept (v : Vocabulary) (t : Token) (words : List Word) : Outcome → Outcome → Prop
  | all {o o' : Outcome} : o.state.rest = [] → Kept v t words o o'
  | tooDeep {s : State} {o' : Outcome} : TooDeep v s → Kept v t words (.halted s) o'
  | owes {s : State} {o' : Outcome} : UnderWay v s → names s.rest ∈ words →
      Kept v t words (.done s) o'
  | done {s s' : State} : Abreast v t s s' → Kept v t words (.done s) (.done s')
  | halted {s s' : State} : (∀ c ∈ s'.noted, ¬c.type.Accepts v t) →
      Kept v t words (.halted s) (.halted s')

section
variable {g : Grammar} {v : Vocabulary} {size size' : Nat} {open_ open' : List String}
  {t : Token} {s s' : State} {words words' : List Word} {o o' : Outcome}

theorem Kept.mono (h : Kept v t words o o') (hw : words ⊆ words') : Kept v t words' o o' := by
  cases h with
  | all hr => exact .all hr
  | tooDeep hd => exact .tooDeep hd
  | owes hs hm => exact .owes hs (hw hm)
  | done ha => exact .done ha
  | halted hs => exact .halted hs

theorem Settled.kept {w : Word} (h : Settled v w o) (hw : w = [] ∨ w ∈ words) :
    Kept v t words o o' := by
  cases h with
  | all hr => exact .all hr
  | tooDeep hd => exact .tooDeep hd
  | left hs hn =>
    rcases hw with rfl | hm
    · exact .all (List.map_eq_nil_iff.mp hn)
    · exact .owes hs (hn ▸ hm)

namespace Abreast

theorem names_eq (h : Abreast v t s s') : names s.rest = names s'.rest ++ [t.name] := by
  simp [names, show s.rest = _ from h.inStep]

theorem typed (h : Abreast v t s s') : ∀ u ∈ s'.rest, u.type ∈ v.types := fun u hu =>
  h.underWay.typed u (by
    rw [show s.rest = _ from h.inStep]
    exact List.mem_append_left _ hu)

theorem type_mem (h : Abreast v t s s') : t.type ∈ v.types :=
  h.underWay.typed t (by simp [show s.rest = _ from h.inStep])

theorem take (h : Abreast v t s s') (hne : s'.rest ≠ []) : Abreast v t s.take s'.take where
  inStep := h.inStep.take hne
  underWay := h.underWay.take
  silent := by
    rw [take_noted]
    exact h.silent

theorem answer (h : Abreast v t s s') (hv : v.Distinct) {test : Lookahead}
    (hg : test.grounded = true) :
    (test.ask (g.assisting v size') open' s').1 = test.holdsOn v (names s'.rest) :=
  test.ask_eq_holdsOn hv rfl rfl h.typed hg

theorem reopen (h : Abreast v t s s') :
    Abreast v t { s with forest := [] } { s' with forest := [] } :=
  ⟨h.inStep, ⟨h.underWay.typed, h.underWay.error⟩, h.silent⟩

/-- A question to which the last token does not matter. -/
theorem ask (h : Abreast v t s s') (size size' : Nat) (open_ open' : List String)
    (hv : v.Distinct) {test : Lookahead}
    (hg : test.grounded = true) (hm : t.name ∉ test.asked v s'.rest.length) :
    (test.ask (g.parsing v size) open_ s).1 = (test.ask (g.assisting v size') open' s').1 ∧
      Abreast v t (test.ask (g.parsing v size) open_ s).2
        (test.ask (g.assisting v size') open' s').2 := by
  refine ⟨?_, h.inStep.ask .., by rw [ask_parsing]; exact h.underWay, fun c hc ha => ?_⟩
  · rw [h.underWay.answer hv hg, h.names_eq, h.answer hv hg]
    exact test.holdsOn_append hg (by simpa [names] using hm)
  · cases hr : s'.rest with
    | nil =>
      rw [hr] at hm
      rcases test.asked_of_accepts hv rfl h.type_mem ha hc with hc | hu
      · exact h.silent c hc ha
      · exact hm hu
    | cons u us =>
      rw [test.ask_quiet (noting_of_cons hr)] at hc
      exact h.silent c hc ha

end Abreast

theorem Kept.close {name name' : String} {outer outer' : List Tree}
    (h : Kept v t words o o') :
    Kept v t words (o.map (State.close name outer)) (o'.map (State.close name' outer')) := by
  cases h with
  | @all o _ hr => exact .all (by cases o <;> exact hr)
  | tooDeep hd => exact .tooDeep hd.close
  | owes hs hm => exact .owes ⟨hs.typed, hs.error⟩ hm
  | done ha => exact .done ⟨ha.inStep, ⟨ha.underWay.typed, ha.underWay.error⟩, ha.silent⟩
  | halted hs => exact .halted hs

/-- A parse that owes a word takes it on its own, up to what is left of it. -/
theorem kept_of_owed (hg : Honest v g) (hv : v.Distinct) {p : Phrase} {owed left : List Word}
    (h : Runs (g.parsing v size) open_ p s o) (hs : UnderWay v s) (hm : names s.rest ∈ owed)
    (hsettle : settle v g p owed = some left) (hleft : left ⊆ words) : Kept v t words o o' := by
  obtain ⟨w, hsolo, hw⟩ := leaves_of_settle hsettle _ hm
  exact (settled_of_runs hg hv h hs hsolo).kept (hw.imp_right fun hw => hleft hw)

/-- Under an honest grammar, what is owed when a phrase is done is among the words
computed from it. -/
theorem kept_of_runs (hg : Honest v g) (hv : v.Distinct) {p : Phrase}
    {known : Option (List String)} (h : Runs (g.parsing v size) open_ p s o)
    (h' : Runs (g.assisting v size') open' p s' o') (hl : open_.length = open'.length)
    (ha : Abreast v t s s') (hk : Knows known s'.rest) (hp : p.owed v g known = some words) :
    Kept v t words o o' := by
  induction h generalizing open' s' o' known words with
  | empty =>
    cases h'
    exact .done ha
  | @take _ s =>
    cases h'
    by_cases hend : s'.rest = []
    · refine .all ?_
      have hr : s.rest = [t] := by simpa [InStep, hend] using ha.inStep
      simp [Outcome.state, take_rest, hr]
    · exact .done (ha.take hend)
  | reject =>
    cases h'
    refine .halted ?_
    rw [complain_noted]
    exact ha.silent
  | seq hrun hb iha ihb =>
    obtain ⟨x, x', y, hx, hx', hy, rfl⟩ := owed_seq.mp hp
    obtain ⟨o₁', ha', hb'⟩ := h'.exists_onward
    cases iha ha' hl ha hk hx with
    | all hr => exact .all (hb.rest_eq_nil hr)
    | owes hs hm => exact kept_of_owed hg hv hb hs hm hx' (List.subset_append_left ..)
    | done ha₁ =>
      cases hb' with
      | done hb' =>
        exact (ihb hb' hl ha₁ (knows_none _) hy).mono (List.subset_append_right ..)
  | seqHalt _ ih =>
    obtain ⟨x, x', y, hx, -, -, rfl⟩ := owed_seq.mp hp
    obtain ⟨o₁', ha', hb'⟩ := h'.exists_onward
    cases ih ha' hl ha hk hx with
    | all hr => exact .all hr
    | tooDeep hd => exact .tooDeep hd
    | halted hs =>
      cases hb'
      exact .halted hs
  | @chooseYes open_ test a b s o hy h ih =>
    obtain ⟨hgr, x, x', y, z, hx, hx', hya, hzb, rfl⟩ := owed_choose.mp hp
    rw [List.append_assoc]
    by_cases hm : t.name ∈ test.asked v s'.rest.length
    · exact kept_of_owed hg hv (.chooseYes hy h) ha.underWay
        (ha.names_eq ▸ mem_opens hx hk hm) hx' (List.subset_append_left ..)
    · obtain ⟨heq, ha₁⟩ := ha.ask size size' open_ open' hv hgr hm
      rw [heq] at hy
      have hk₁ := hk.ifYes hgr ((ha.answer hv hgr).symm.trans hy)
      rw [← (test.ask_notes (g.assisting v size') open' s').rest] at hk₁
      exact (ih (h'.of_yes hy) hl ha₁ hk₁ hya).mono
        (List.subset_append_of_subset_right _ (List.subset_append_left ..))
  | @chooseNo open_ test a b s o hn h ih =>
    obtain ⟨hgr, x, x', y, z, hx, hx', hya, hzb, rfl⟩ := owed_choose.mp hp
    rw [List.append_assoc]
    by_cases hm : t.name ∈ test.asked v s'.rest.length
    · exact kept_of_owed hg hv (.chooseNo hn h) ha.underWay
        (ha.names_eq ▸ mem_opens hx hk hm) hx' (List.subset_append_left ..)
    · obtain ⟨heq, ha₁⟩ := ha.ask size size' open_ open' hv hgr hm
      rw [heq] at hn
      have hk₁ := hk.ifNo ((ha.answer hv hgr).symm.trans hn)
      rw [← (test.ask_notes (g.assisting v size') open' s').rest] at hk₁
      exact (ih (h'.of_no hn) hl ha₁ hk₁ hzb).mono
        (List.subset_append_of_subset_right _ (List.subset_append_right ..))
  | loop _ ih =>
    obtain ⟨ws, hws, hsub⟩ := exists_owed_unrollLoop hp
    cases h' with
    | loop h' => exact (ih h' hl ha (knows_none _) hws).mono hsub
  | chain _ ih =>
    obtain ⟨ws, hws, hsub⟩ := exists_owed_unrollChain hp
    cases h' with
    | chain h' => exact (ih h' hl ha (knows_none _) hws).mono hsub
  | tooDeep hd => exact .tooDeep (tooDeep_complain ha.underWay.error)
  | node hd _ ih | nodeHalt hd _ ih =>
    obtain ⟨o₁', hbody, rfl⟩ := h'.of_node (hl ▸ hd)
    exact (ih hbody (by simp [hl]) ha.reopen hk hp).close
  | @call _ name _ _ _ ih =>
    cases h' with
    | call h' =>
      cases hp
      exact ih h' hl ha (knows_none _) (hg.rule name).1

/-- Under an honest grammar, a parse takes whatever token a candidate is for, unless rules
nest too deep. -/
theorem leaves_of_candidate (hg : Honest v g) (hprog : Progressive g) (hv : v.Distinct)
    {tokens : List Token} (htokens : ∀ u ∈ tokens, u.type ∈ v.types) {root root' : String}
    {c : Candidate} (hc : c ∈ g.assist v root' tokens) (ha : c.type.Accepts v t) :
    (g.parse v root size (tokens ++ [t])).1.leaves = tokens ++ [t] ∨
      ∃ e, (g.parse v root size (tokens ++ [t])).2 = some e ∧
        e.message = Complaint.tooDeep.message v := by
  obtain ⟨o, ho⟩ := hprog.exists_runs_document v root size (tokens ++ [t])
  obtain ⟨o', ho'⟩ := hprog.exists_runs_entry v root' tokens
  rw [assist_of_runs ho', List.mem_reverse] at hc
  have ht : t.type ∈ v.types := by
    unfold TokenType.Accepts at ha
    split at ha
    next => exact ha.1
    next => exact ha ▸ (ho'.noted_isNote (by simp) c hc).1
  have habreast : Abreast v t { rest := tokens ++ [t] } { rest := tokens } :=
    ⟨rfl, ⟨fun u hu => (List.mem_append.mp hu).elim (htokens u) fun h =>
      List.mem_singleton.mp h ▸ ht, rfl⟩, by simp⟩
  rw [leaves_parse_eq_iff ho]
  cases ho with
  | seq hentry hfinish =>
    cases kept_of_runs hg hv hentry ho' rfl habreast (knows_none _) hg.entry with
    | all hr => exact .inl (hfinish.rest_eq_nil hr)
    | owes _ hm => cases hm
    | done ha' => exact absurd ha (ha'.silent c hc)
  | seqHalt hentry =>
    cases kept_of_runs hg hv hentry ho' rfl habreast (knows_none _) hg.entry with
    | all hr => exact .inl hr
    | tooDeep hd =>
      rw [parse_of_runs (.seqHalt hentry)]
      exact .inr hd
    | halted hs => exact absurd ha (hs c hc)

end

end GraphLanguages.Grammar
