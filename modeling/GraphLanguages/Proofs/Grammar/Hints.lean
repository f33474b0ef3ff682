import GraphLanguages.Proofs.Grammar.Bearings

/-! Hints at marked rules.

When does content assist ask for something below a marked rule? It runs in step with a
parse of one token more until a question comes that only the parse can answer. Below a
marked rule that question is a hint, and the parse takes its token there; elsewhere there
is no hint from then on, and the parse takes its token away from marked rules, unless it
had a closer before (`hinting_of_runs`). -/
namespace GraphLanguages.Grammar

/-! ### In step -/

/-- Is the last token of some tokens a closer? -/
def Marking.closes (m : Marking) (last : Option Token) : Bool :=
  last.any (m.closers.contains ·.name)

/-- The parse and content assist are in step, the tokens of content assist end with the
last one, and what is known holds. -/
structure Bearing.Holds (m : Marking) (v : Vocabulary) (marked : Bool) (last : Option Token)
    (t : Token) (k : Bearing) (s s' : State) : Prop extends Fits m marked k s' where
  inStep : InStep t s s'
  underWay : UnderWay v s
  final : s'.final = last
  next : ∀ b ∈ k.next, ∀ u ∈ s'.rest.head?, m.closers.contains u.name = b
  last : ∀ b ∈ k.last, s'.rest = [] → m.closes last = b

theorem Lookahead.closer_of_verdict {m : Marking} {g : Grammar} {v : Vocabulary} {size : Nat}
    {open_ : List String} {s : State} {u : Token} {us : List Token} (hv : v.Distinct)
    (ht : ∀ u ∈ s.rest, u.type ∈ v.types) (hr : s.rest = u :: us) {test : Lookahead}
    (hy : (test.ask (g.assisting v size) open_ s).1 = true) :
    ∀ b ∈ test.verdict m v, m.closers.contains u.name = b := by
  intro b hb
  unfold verdict at hb
  split at hb
  next name =>
    obtain rfl := Option.some.inj hb
    have hname : u.name = name := by
      simp only [ask, askFor, noting_of_cons hr, Bool.false_eq_true, if_false,
        peek_zero_cons hr, Bool.and_eq_true, beq_iff_eq] at hy
      exact hy.1
    rw [hname]
  next =>
    split at hb
    next h =>
      obtain rfl := Option.some.inj hb
      simp only [Bool.and_eq_true, beq_iff_eq, List.all_eq_true, Bool.not_eq_true'] at h
      obtain ⟨⟨hg, hreach⟩, hall⟩ := h
      rw [test.ask_eq_holdsOn hv rfl rfl ht hg, names, hr, List.map_cons,
        holdsOn_cons hreach] at hy
      rw [List.contains_eq_mem, decide_eq_false_iff_not]
      intro hmem
      rw [hall _ hmem] at hy
      cases hy
    next => cases hb

namespace Bearing.Holds
variable {m : Marking} {g : Grammar} {v : Vocabulary} {marked : Bool} {last : Option Token}
  {t : Token} {k l : Bearing} {s s' : State} {size : Nat} {open_ : List String}
  {test : Lookahead}

theorem mono (h : k.Holds m v marked last t s s') (hl : k.Tells l) :
    l.Holds m v marked last t s s' where
  toFits := h.toFits.mono hl
  inStep := h.inStep
  underWay := h.underWay
  final := h.final
  next b hb := h.next b (hl.next b hb)
  last b hb hr := by
    rcases hl.last b hb with ha | hb
    · exact absurd hr (h.asked ha)
    · exact h.last b hb hr

theorem typed (h : k.Holds m v marked last t s s') : ∀ u ∈ s'.rest, u.type ∈ v.types :=
  fun u hu => h.underWay.typed u (by
    rw [show s.rest = _ from h.inStep]
    exact List.mem_append_left _ hu)

/-- While content assist has tokens, both answer a question about the next one alike. -/
theorem answer {size' : Nat} {open' : List String} (h : k.Holds m v marked last t s s')
    (hr : test.reach = 0) (hne : s'.rest ≠ []) :
    (test.ask (g.parsing v size) open_ s).1 = (test.ask (g.assisting v size') open' s').1 :=
  h.inStep.ask_eq test (hr ▸ List.length_pos_iff.mpr hne)

theorem take (h : k.Holds m v marked last t s s') (ha : k.asked = true) :
    k.taken.Holds m v marked last t s.take s'.take := by
  obtain ⟨u, us, hr⟩ := List.exists_cons_of_ne_nil (h.asked ha)
  have htake : s'.take =
      { s' with rest := us, previous := some u, forest := .leaf u :: s'.forest } := by
    simp [State.take, hr]
  have hfinal : us.getLast?.or (some u) = last := by
    rw [← h.final, State.final, hr, List.getLast?_cons]
    cases us.getLast? <;> rfl
  refine ⟨h.toFits.take ha, h.inStep.take (h.asked ha), h.underWay.take, ?_, by rintro _ ⟨⟩, ?_⟩
  · rw [htake]
    exact hfinal
  · intro b hb hus
    rw [htake] at hus
    obtain rfl : us = [] := hus
    rw [← hfinal]
    exact h.next b hb u (by simp [hr])

theorem yes (h : k.Holds m v marked last t s s') (hv : v.Distinct) (hne : s'.rest ≠ [])
    (hy : (test.ask (g.assisting v size) open_ s').1 = true) :
    (k.yes (test.verdict m v)).Holds m v marked last t s s' where
  toFits := h.toFits.yes _ hne
  inStep := h.inStep
  underWay := h.underWay
  final := h.final
  next b hb u hu := by
    rcases Option.or_eq_some_iff.mp hb with hb | ⟨_, hb⟩
    · obtain ⟨us, hr⟩ := List.head?_eq_some_iff.mp hu
      exact test.closer_of_verdict hv h.typed hr hy b hb
    · exact h.next b hb u hu
  last b hb := h.last b hb

theorem no (h : k.Holds m v marked last t s s') (hm : m.covers open_ = marked) :
    k.no.Holds m v marked last t s (test.ask (g.assisting v size) open_ s').2 := by
  have hnotes := test.ask_notes (g.assisting v size) open_ s'
  refine ⟨h.toFits.no hm, ?_, h.underWay, hnotes.final.trans h.final, ?_, ?_⟩
  · exact h.inStep.notes (.refl v s) hnotes
  · rw [hnotes.rest]
    exact h.next
  · rw [hnotes.rest]
    exact h.last

theorem reopen (h : k.Holds m v marked last t s s') (also : Bool) :
    k.Holds m v (marked || also) last t { s with forest := [] } { s' with forest := [] } :=
  ⟨h.toFits.reopen also, h.inStep, ⟨h.underWay.typed, h.underWay.error⟩, h.final, h.next, h.last⟩

end Bearing.Holds

/-! ### Behind the question that parts the runs -/

/-- How both end once only the parse could answer a question. The parse has taken all
tokens when it is done. Either there is a hint, with no closer before the last token and
that taken below a marked rule; or there is none, and the last token is taken away from
marked rules unless a closer is before it. -/
inductive Parted (m : Marking) (last : Option Token) (marked passes : Bool) :
    Outcome → Outcome → Prop
  | shown {o o' : Outcome} : (∀ s, o = .done s → s.rest = []) → o'.state.Hinted m →
      m.closes last = false → (marked = false → o.state.rest = [] → o.state.Under m) →
      Parted m last marked passes o o'
  | hidden {o o' : Outcome} : (∀ s, o = .done s → s.rest = []) → marked = false →
      o'.state.rest = [] → ¬o'.state.Hinted m →
      (o.state.rest = [] → m.closes last = true ∨ ¬o.state.Under m) →
      (∀ s', o' = .done s' → passes = true) → Parted m last marked passes o o'

/-- How a phrase ends under what is known: in step, or parted. -/
inductive Hinting (m : Marking) (v : Vocabulary) (marked : Bool) (last : Option Token)
    (t : Token) (x : Course) : Outcome → Outcome → Prop
  | done {s s' : State} {k : Bearing} : x.after = some k →
      k.Holds m v marked last t s s' → Hinting m v marked last t x (.done s) (.done s')
  | halted {s s' : State} : InStep t s s' → Hinting m v marked last t x (.halted s) (.halted s')
  | parted {o o' : Outcome} : Parted m last marked x.passes o o' →
      Hinting m v marked last t x o o'

section
variable {m : Marking} {v : Vocabulary} {g : Grammar} {marked passes passes' : Bool}
  {last : Option Token} {t : Token} {x y : Course} {o o' : Outcome} {size : Nat}
  {open_ : List String} {p : Phrase}

namespace Parted

theorem mono (h : Parted m last marked passes o o') (hp : passes = true → passes' = true) :
    Parted m last marked passes' o o' := by
  cases h with
  | shown hd hh hc hu => exact .shown hd hh hc hu
  | hidden hd hm hr hh hu hpass => exact .hidden hd hm hr hh hu fun s' hs' => hp (hpass s' hs')

theorem of_halted {s' : State} (h : Parted m last marked passes o (.halted s')) :
    Parted m last marked passes' o (.halted s') := by
  cases h with
  | shown hd hh hc hu => exact .shown hd hh hc hu
  | hidden hd hm hr hh hu _ => exact .hidden hd hm hr hh hu (by rintro _ ⟨⟩)

/-- The parse goes on without tokens. -/
theorem parse {s : State} (h : Parted m last marked passes (.done s) o')
    (hrun : Runs (g.parsing v size) open_ p s o) (hd : open_.length ≤ maxDepth) :
    Parted m last marked passes o o' := by
  have hrest : s.rest = [] := by
    cases h with
    | shown hd => exact hd s rfl
    | hidden hd => exact hd s rfl
  have hall : ∀ s₁, o = .done s₁ → s₁.rest = [] := by
    rintro s₁ rfl
    exact hrun.rest_eq_nil hrest
  have hunder : o.state.Under m ↔ s.Under m := by
    rw [State.Under, State.Under, hrun.lastRules?_of_nil hd hrest]
  cases h with
  | shown _ hh hc hu => exact .shown hall hh hc fun hm _ => hunder.mpr (hu hm hrest)
  | hidden _ hm hr hh hu hpass =>
    exact .hidden hall hm hr hh (fun _ => (hu hrest).imp_right (hunder.not.mpr ·)) hpass

/-- Content assist goes on without tokens, or has stopped. -/
theorem assist {o₁' : Outcome} (h : Parted m last marked passes o o₁')
    (ha : m.Apart v g) (hrun : Onward (g.assisting v size) open_ p o₁' o')
    (hm : m.covers open_ = marked) {i : Bool}
    (hidle : passes = true → p.idle m g = some i) : Parted m last marked i o o' := by
  cases hrun with
  | halted => exact h.of_halted
  | @done s' _ hrun =>
    cases h with
    | shown hd hh hc hu => exact .shown hd (hh.mono hrun.noted_subset) hc hu
    | hidden hd hmarked hr hh hu hpass =>
      obtain ⟨hh₁, hi⟩ := idle_of_runs ha hrun hr (hm.trans hmarked) (hidle (hpass s' rfl)) hh
      exact .hidden hd hmarked (hrun.rest_eq_nil hr) hh₁ hu hi

end Parted

theorem Hinting.mono (h : Hinting m v marked last t x o o')
    (ha : ∀ k, x.after = some k → ∃ l, y.after = some l ∧ k.Tells l)
    (hp : x.passes = true → y.passes = true) : Hinting m v marked last t y o o' := by
  cases h with
  | done hk hholds =>
    obtain ⟨l, hl, htells⟩ := ha _ hk
    exact .done hl (hholds.mono htells)
  | halted hs => exact .halted hs
  | parted hq => exact .parted (hq.mono hp)

/-- Closing a node keeps it so: the last token is below the node. -/
theorem Parted.close {name : String} {body : Phrase} {s : State} {outer' : List Tree}
    (hrun : Runs (g.parsing v size) (name :: open_) body { s with forest := [] } o)
    (hd : open_.length < maxDepth) (hs : s.rest ≠ [])
    (h : Parted m last (marked || m.rules.contains name) passes o o') :
    Parted m last marked passes (o.map (State.close name s.forest))
      (o'.map (State.close name outer')) := by
  have hdone : ∀ {o : Outcome}, (∀ s₁, o = .done s₁ → s₁.rest = []) →
      ∀ s₂, o.map (State.close name s.forest) = .done s₂ → s₂.rest = [] := by
    rintro (s₁ | _ | _) hr s₂ ho
    · cases ho
      exact hr s₁ rfl
    · cases ho
    · cases ho
  have hrest : (o.map (State.close name s.forest)).state.rest = o.state.rest := by
    cases o <;> rfl
  have hnoted : (o'.map (State.close name outer')).state.noted = o'.state.noted := by
    cases o' <;> rfl
  have hunder : o.state.rest = [] → ((o.map (State.close name s.forest)).state.Under m ↔
      m.rules.contains name = true ∨ o.state.Under m) := by
    intro hall
    obtain ⟨rules, hrules, hclose⟩ := hrun.lastRules?_close hd hs hall s.forest
    simp [State.Under, hrules, hclose]
  cases h with
  | shown hr hh hc hu =>
    refine .shown (hdone hr) (by rwa [State.Hinted, hnoted]) hc fun hm hall => ?_
    rw [hrest] at hall
    rw [hunder hall]
    cases hname : m.rules.contains name with
    | true => exact .inl rfl
    | false => exact .inr (hu (by rw [hm, hname]; rfl) hall)
  | hidden hr hm hr' hh hu hpass =>
    obtain ⟨hmarked, hname⟩ := Bool.or_eq_false_iff.mp hm
    refine .hidden (hdone hr) hmarked ?_ (by rwa [State.Hinted, hnoted]) ?_ ?_
    · cases o' <;> exact hr'
    · intro hall
      rw [hrest] at hall
      rw [hunder hall, hname]
      simpa using hu hall
    · cases o' with
      | done s' => exact fun _ _ => hpass s' rfl
      | halted | spent => rintro _ ⟨⟩

/-- Closing a node keeps how a phrase ends. A marked node must be clean. -/
theorem Hinting.close {name : String} {body : Phrase} {s : State} {outer' : List Tree}
    (hrun : Runs (g.parsing v size) (name :: open_) body { s with forest := [] } o)
    (hd : open_.length < maxDepth) (hs : s.rest ≠ [])
    (hclean : ∀ l, x.after = some l → marked = false → m.rules.contains name = true →
      l.clean = true)
    (h : Hinting m v (marked || m.rules.contains name) last t x o o') :
    Hinting m v marked last t x (o.map (State.close name s.forest))
      (o'.map (State.close name outer')) := by
  cases h with
  | done hl hk =>
    exact .done hl ⟨hk.toFits.close (hclean _ hl), hk.inStep,
      ⟨hk.underWay.typed, hk.underWay.error⟩, hk.final, hk.next, hk.last⟩
  | halted hs => exact .halted hs
  | parted hq => exact .parted (hq.close hrun hd hs)

/-- At the question that only the parse can answer, the runs part. -/
theorem parted_of_yes (ha : m.Apart v g) (hg : Honest v g) (hv : v.Distinct)
    (hname : t.name = m.awaited) {size' : Nat} {test : Lookahead} {a b : Phrase}
    {k : Bearing} {s s' : State} {i : Bool} (hrun : Runs (g.parsing v size) open_ a s o)
    (hrun' : Runs (g.assisting v size') open_ b (test.ask (g.assisting v size') open_ s').2 o')
    (hd : open_.length ≤ maxDepth) (hm : m.covers open_ = marked)
    (hk : k.Holds m v marked last t s s') (hend : s'.rest = []) (hgr : test.grounded = true)
    (hn : test.noted v = true) (hy : (test.ask (g.parsing v size) open_ s).1 = true)
    (hp : test.parts m v g marked a b k = some i) : Parted m last marked i o o' := by
  have hr : s.rest = [t] := by simpa [InStep, hend] using hk.inStep
  have htype : t.type ∈ v.types := hk.underWay.typed t (by simp [hr])
  have hnames : names s.rest = [m.awaited] := by simp [names, hr, hname]
  have hasked : k.asked = false := Bool.eq_false_of_not_eq_true fun h => hk.asked h hend
  have hholds : test.holdsOn v [m.awaited] = true := by
    rw [← hnames, ← hk.underWay.answer hv hgr, hy]
  rw [Lookahead.parts, hasked, hholds, if_neg (by decide)] at hp
  split at hp
  next hsolo =>
    have hdone : ∀ s₁, o = .done s₁ → s₁.rest = [] := by
      rintro s₁ rfl
      cases settled_of_runs hg hv hrun hk.underWay (by rw [hnames, hsolo]) with
      | all hr => exact hr
      | left _ hn => exact List.map_eq_nil_iff.mp hn
    have hend' : (test.ask (g.assisting v size') open_ s').2.rest = [] :=
      (test.ask_notes ..).rest.trans hend
    split at hp
    next hmarked =>
      split at hp
      next hlast =>
        obtain ⟨c, hc, -, hrules⟩ :
            FoundBelow open_ t (test.ask (g.assisting v size') open_ s').2 :=
          test.found_of_yes hv htype hn hr hend hy
        refine .shown hdone ?_ (hk.last _ hlast hend) fun h => by cases hmarked.symm.trans h
        refine State.Hinted.mono ⟨c, hc, ?_⟩ hrun'.noted_subset
        rw [hrules, m.covers_reverse, hm, hmarked]
      next => cases hp
    next hmarked =>
      have hmarked : marked = false := Bool.eq_false_of_not_eq_true hmarked
      split at hp
      next hside =>
        have hquiet : ¬(test.ask (g.assisting v size') open_ s').2.Hinted m := fun h =>
          hk.quiet (.inr fun h => by cases hmarked.symm.trans h)
            (test.hinted_of_ask (hm.trans hmarked) h)
        obtain ⟨hh, hi⟩ := idle_of_runs ha hrun' hend' (hm.trans hmarked) hp hquiet
        refine .hidden hdone hmarked (hrun'.rest_eq_nil hend') hh (fun hall => ?_) hi
        simp only [Bool.or_eq_true, decide_eq_true_eq] at hside
        rcases hside with hout | hlast
        · right
          rintro ⟨rules, hrules, hcovers⟩
          obtain ⟨rules', hrules', hcovers'⟩ :=
            outside_of_runs ha hg hv hname hrun hd hk.underWay hr hout hall
          obtain rfl := Option.some.inj (hrules.symm.trans hrules')
          cases hcovers.symm.trans hcovers'
        · exact .inl (hk.last _ hlast hend)
      next => cases hp
  next => cases hp

/-- **Under what is known, content assist has a hint exactly where the parse of one token
more takes this token below a marked rule, unless a closer comes before it.** -/
theorem hinting_of_runs (hh : Hints m v g) (hg : Honest v g) (hv : v.Distinct)
    (hname : t.name = m.awaited) {size' : Nat} {k : Bearing} {s s' : State}
    (h : Runs (g.parsing v size) open_ p s o) (h' : Runs (g.assisting v size') open_ p s' o')
    (hd : open_.length ≤ maxDepth) (hm : m.covers open_ = marked)
    (hk : k.Holds m v marked last t s s') (hp : p.course m v g marked k = some x) :
    Hinting m v marked last t x o o' := by
  induction h generalizing s' o' marked k x with
  | empty =>
    cases h'
    cases hp
    exact .done rfl hk
  | take =>
    cases h'
    simp only [Phrase.course] at hp
    split at hp
    next ha =>
      cases hp
      exact .done rfl (hk.take ha)
    next => cases hp
  | reject =>
    cases h'
    exact .halted hk.inStep.complain
  | seq _ hb iha ihb =>
    obtain ⟨y, z, i, hya, hzb, hidle, rfl⟩ := exists_of_course_seq hp
    obtain ⟨o₁', ha', hb'⟩ := h'.exists_onward
    cases iha ha' hd hm hk hya with
    | done hl hk₁ =>
      rw [hl, Option.elim_some] at hzb
      cases hb' with
      | done hb' =>
        exact (ihb hb' hd hm hk₁ hzb).mono (fun k hk => ⟨k, hk, .refl k⟩)
          fun h => Bool.or_eq_true_iff.mpr (.inr h)
    | parted hq =>
      exact .parted (((hq.parse hb hd).assist hh.apart hb' hm hidle).mono
        fun h => Bool.or_eq_true_iff.mpr (.inl h))
  | seqHalt _ ih =>
    obtain ⟨y, z, i, hya, -, hidle, rfl⟩ := exists_of_course_seq hp
    obtain ⟨o₁', ha', hb'⟩ := h'.exists_onward
    cases ih ha' hd hm hk hya with
    | halted hs =>
      cases hb'
      exact .halted hs
    | parted hq =>
      exact .parted ((hq.assist hh.apart hb' hm hidle).mono
        fun h => Bool.or_eq_true_iff.mpr (.inl h))
  | @chooseYes open_ test _ _ s _ hy hrun ih =>
    obtain ⟨⟨hgr, hr, hn⟩, y, z, i, hya, -, hi, rfl⟩ := course_choose.mp hp
    rw [ask_parsing] at ih hrun
    by_cases hend : s'.rest = []
    · have hnoted : test.noted v = true := hn.resolve_left fun ha => hk.asked ha hend
      have hrun' := h'.of_no (hk.ask_at_end hn hend)
      exact .parted ((parted_of_yes hh.apart hg hv hname hrun hrun' hd hm hk hend hgr hnoted hy
        hi).mono (by simp +contextual))
    · have hy' : (test.ask (g.assisting v size') open_ s').1 = true :=
        (hk.answer hr hend).symm.trans hy
      obtain ⟨u, us, hrest⟩ := List.exists_cons_of_ne_nil hend
      have hrun' := h'.of_yes hy'
      rw [test.ask_quiet (noting_of_cons hrest)] at hrun'
      exact (ih hrun' hd hm (hk.yes hv hend hy') hya).mono exists_joinAfter_left
        (by simp +contextual)
  | @chooseNo open_ test _ _ s _ hno _ ih =>
    obtain ⟨⟨-, hr, hn⟩, y, z, i, -, hzb, -, rfl⟩ := course_choose.mp hp
    have hno' : (test.ask (g.assisting v size') open_ s').1 = false := by
      by_cases hend : s'.rest = []
      · exact hk.ask_at_end hn hend
      · exact (hk.answer hr hend).symm.trans hno
    rw [ask_parsing] at ih
    exact (ih (h'.of_no hno') hd hm (hk.no hm) hzb).mono exists_joinAfter_right
      (by simp +contextual)
  | loop _ ih =>
    obtain ⟨hafter, y, hy, hpass⟩ := exists_course_unrollLoop hp
    cases h' with
    | loop h' =>
      exact (ih h' hd hm (hk.mono k.tells_nothing) hy).mono
        (fun l _ => ⟨{}, hafter, l.tells_nothing⟩) hpass
  | chain _ ih =>
    obtain ⟨rfl, y, hy⟩ := exists_course_unrollChain hp
    cases h' with
    | chain h' =>
      exact (ih h' hd hm (hk.mono k.tells_nothing) hy).mono
        (fun l _ => ⟨{}, rfl, l.tells_nothing⟩) fun _ => rfl
  | tooDeep hlt =>
    cases h' with
    | tooDeep => exact .halted hk.inStep.complain
    | node hlt' | nodeHalt hlt' => omega
  | @node open_ name _ _ _ hlt hrun ih | @nodeHalt open_ name _ _ _ hlt hrun ih =>
    obtain ⟨o₁', hbody, rfl⟩ := h'.of_node hlt
    obtain ⟨hcourse, hclean⟩ := course_node hp
    exact (ih hbody hlt (m.covers_below hm name) (hk.reopen _) hcourse).close hrun hlt
      hk.inStep.ne_nil hclean
  | call _ ih =>
    obtain ⟨l, y, htells, hy, hpass⟩ := hh.exists_course_rule hp
    obtain ⟨rfl, -, -⟩ := course_call hp
    cases h' with
    | call h' =>
      exact (ih h' hd hm (hk.mono htells) hy).mono (fun l _ => ⟨{}, rfl, l.tells_nothing⟩)
        fun h => by cases hpass.symm.trans h

/-- **Where a parse takes the awaited token next, content assist asks for something below
a marked rule if and only if the parse takes the token below one and no closer comes
before it.** -/
theorem hinted_iff (hh : Hints m v g) (hg : Honest v g) (hprog : Progressive g)
    (hv : v.Distinct) {tokens : List Token} (htypes : ∀ u ∈ tokens ++ [t], u.type ∈ v.types)
    (hname : t.name = m.awaited) {root : String} (hroot : m.rules.contains root = false)
    (h : (g.parse v root size (tokens ++ [t])).1.leaves = tokens ++ [t]) :
    (∃ c ∈ g.assist v root tokens, m.covers c.rules = true) ↔
      (∃ rules, (g.parse v root size (tokens ++ [t])).1.lastRules? = some rules ∧
        m.covers rules = true) ∧ m.closes tokens.getLast? = false := by
  obtain ⟨o, ho⟩ := hprog.exists_runs_document v root size (tokens ++ [t])
  obtain ⟨o', ho'⟩ := hprog.exists_runs_entry v root tokens
  obtain ⟨x, hx⟩ := Option.isSome_iff_exists.mp hh.entry
  have hall : o.state.rest = [] := (leaves_parse_eq_iff ho).mp h
  have hd : [root].length ≤ maxDepth := Nat.le_of_ble_eq_true rfl
  have hunder : (∃ rules, (g.parse v root size (tokens ++ [t])).1.lastRules? = some rules ∧
      m.covers rules = true) ↔ o.state.Under m := by
    have htree : (Tree.node root o.state.forest.reverse).lastRules? =
        o.state.lastRules?.map (root :: ·) := rfl
    have hcovers : ∀ rules, m.covers (root :: rules) = m.covers rules := fun rules => by
      rw [m.covers_cons, hroot, Bool.false_or]
    rw [parse_of_runs ho, htree]
    simp [State.Under, hcovers, -Marking.covers_cons]
  have hhinted : (∃ c ∈ g.assist v root tokens, m.covers c.rules = true) ↔
      o'.state.Hinted m := by
    simp [assist_of_runs ho', State.Hinted]
  have hk : Bearing.Holds m v false tokens.getLast? t {} { rest := tokens ++ [t] }
      { rest := tokens } :=
    ⟨⟨by rintro ⟨⟩, fun _ hh => by simp [State.Hinted] at hh⟩, rfl, ⟨htypes, rfl⟩,
      by simp [State.final], by rintro _ ⟨⟩, by rintro _ ⟨⟩⟩
  have hparted : Parted m tokens.getLast? false x.passes o o' := by
    cases ho with
    | seq hentry hfinish =>
      cases hinting_of_runs hh hg hv hname hentry ho' hd (by simpa using hroot) hk hx with
      | done _ hs =>
        exact absurd (hfinish.of_finish.1.symm.trans hall) hs.inStep.ne_nil
      | parted hq => exact hq.parse hfinish hd
    | seqHalt hentry =>
      cases hinting_of_runs hh hg hv hname hentry ho' hd (by simpa using hroot) hk hx with
      | halted hs => exact absurd hall hs.ne_nil
      | parted hq => exact hq
  rw [hunder, hhinted]
  cases hparted with
  | shown _ hh hc hu => exact ⟨fun _ => ⟨hu rfl hall, hc⟩, fun _ => hh⟩
  | hidden _ _ _ hh hu _ =>
    refine ⟨fun h => absurd h hh, ?_⟩
    rintro ⟨hunder, hc⟩
    rcases hu hall with hc' | hu
    · cases hc.symm.trans hc'
    · exact absurd hunder hu

end

end GraphLanguages.Grammar
