import GraphLanguages.Proofs.Grammar.Attentive
import GraphLanguages.Proofs.Grammar.Kept
import GraphLanguages.Proofs.Grammar.LastLeaf

/-! Marked rules.

Some rules of a grammar are marked. A parse takes its last token below a marked rule or
not (`lastRules?`), and content assist asks for something below a marked rule or not
(`Hinted`). Away from marked rules two things can be read off a phrase: what content
assist does with it when the tokens are used up (`Phrase.idle`), and whether a parse that
has only the awaited token left takes it away from marked rules (`Phrase.outside`). -/
namespace GraphLanguages

namespace Grammar
open GraphLanguages.Tree

/-- Marked rules, and what is looked for below them. -/
structure Marking where
  /-- The marked rules. -/
  rules : List String
  /-- Named phrases that lead to a marked rule. -/
  ways : List String
  /-- The name of the token that is looked for. -/
  awaited : String
  /-- Names of tokens behind which a phrase asks for what a marked rule starts with
  before it opens the rule. -/
  closers : List String

/-- Is one of the rules marked? -/
def Marking.covers (m : Marking) (rules : List String) : Bool :=
  rules.any (m.rules.contains ·)

@[simp] theorem Marking.covers_nil (m : Marking) : m.covers [] = false := rfl

@[simp] theorem Marking.covers_cons (m : Marking) (name : String) (rules : List String) :
    m.covers (name :: rules) = (m.rules.contains name || m.covers rules) := rfl

theorem Marking.covers_below (m : Marking) {open_ : List String} {marked : Bool}
    (hm : m.covers open_ = marked) (name : String) :
    m.covers (name :: open_) = (marked || m.rules.contains name) := by
  rw [m.covers_cons, hm, Bool.or_comm]

@[simp] theorem Marking.covers_reverse (m : Marking) (rules : List String) :
    m.covers rules.reverse = m.covers rules := List.any_reverse

/-! ### The token taken last -/

/-- The last token was taken below a marked rule. -/
def State.Under (m : Marking) (s : State) : Prop :=
  ∃ rules, s.lastRules? = some rules ∧ m.covers rules = true

/-! ### The token that will be taken last -/

/-- The token that is last once all tokens are taken. -/
def State.final (s : State) : Option Token :=
  s.rest.getLast?.or s.previous

theorem State.Notes.final {v : Vocabulary} {s s' : State} (h : s.Notes v s') :
    s'.final = s.final := by
  rw [State.final, State.final, h.rest, h.previous]

/-! ### Notes below marked rules -/

/-- Something was asked for below a marked rule. -/
def State.Hinted (m : Marking) (s : State) : Prop :=
  ∃ c ∈ s.noted, m.covers c.rules = true

theorem State.Hinted.mono {m : Marking} {s s' : State} (h : s.Hinted m) (hs : s.noted ⊆ s'.noted) :
    s'.Hinted m := by
  obtain ⟨c, hc, hm⟩ := h
  exact ⟨c, hs hc, hm⟩

section
variable {σ : Setting} {open_ : List String} {s : State} {c : Candidate}

theorem rules_of_note {name : String} (h : c ∈ (s.note σ open_ name).noted) :
    c ∈ s.noted ∨ c.rules = open_.reverse := by
  unfold State.note at h
  split at h
  · exact .inl h
  · rcases List.mem_cons.mp h with rfl | h
    · exact .inr rfl
    · exact .inl h

namespace Lookahead

theorem rules_of_askFor {name : String} (h : c ∈ (askFor σ open_ name s).2.noted) :
    c ∈ s.noted ∨ c.rules = open_.reverse := by
  unfold askFor at h
  split at h
  · exact rules_of_note h
  · exact .inl h

theorem rules_of_foldl_alsoAsk {names : List String} {a : Bool × State}
    (h : c ∈ (names.foldl (alsoAsk σ open_) a).2.noted) :
    c ∈ a.2.noted ∨ c.rules = open_.reverse := by
  induction names generalizing a with
  | nil => exact .inl h
  | cons n ns ih =>
    rcases ih h with h | h
    · exact rules_of_askFor h
    · exact .inr h

/-- What a question notes, it notes below the open rules. -/
theorem rules_of_ask (test : Lookahead) (h : c ∈ (test.ask σ open_ s).2.noted) :
    c ∈ s.noted ∨ c.rules = open_.reverse := by
  induction test generalizing s with
  | is name => exact rules_of_askFor h
  | anyOf names => exact rules_of_foldl_alsoAsk (a := (false, s)) h
  | tagged category offered =>
    unfold ask at h
    split at h
    · exact rules_of_note h
    · exact .inl h
  | either a b iha ihb =>
    rw [ask_either] at h
    split at h
    · exact iha h
    · rcases ihb h with h | h
      · exact iha h
      · exact .inr h
  | both a b iha ihb =>
    rw [ask_both] at h
    split at h
    · rcases ihb h with h | h
      · exact iha h
      · exact .inr h
    · exact iha h
  | negated a ih => exact ih h
  | aheadIs | aheadTagged | atEnd => exact .inl h

/-- Away from marked rules no question is asked below one. -/
theorem hinted_of_ask {m : Marking} (test : Lookahead) (hm : m.covers open_ = false)
    (h : (test.ask σ open_ s).2.Hinted m) : s.Hinted m := by
  obtain ⟨c, hc, hcovers⟩ := h
  rcases test.rules_of_ask hc with hc | hr
  · exact ⟨c, hc, hcovers⟩
  · rw [hr, m.covers_reverse, hm] at hcovers
    cases hcovers

end Lookahead

end

/-! ### Content assist when the tokens are used up -/

/-- Whether content assist may be done with the phrase when the tokens are used up;
nothing if it may ask for something below a marked rule. -/
def Phrase.idle (m : Marking) (g : Grammar) : Phrase → Option Bool
  | .empty | .take => some true
  | .reject _ => some false
  | .seq a b =>
    match a.idle m g with
    | some true => b.idle m g
    | stopped => stopped
  | .choose test a b =>
    if test.grounded then if test.endAnswer then a.idle m g else b.idle m g else none
  | .loop test _ => if test.grounded && !test.endAnswer then some true else none
  | .chain item separator _ _ => if separator = "EOF" then none else item.idle m g
  | .node name body => if m.rules.contains name then none else body.idle m g
  | .call name =>
    if (g.rules.lookup name).isSome && !m.ways.contains name then some false else none

/-! ### A parse with the awaited token left -/

/-- A parse that has only the awaited token left takes it away from marked rules, if it
takes it. -/
def Phrase.outside (m : Marking) (v : Vocabulary) (g : Grammar) : Phrase → Bool
  | .empty | .take | .reject _ => true
  | .seq a b =>
    a.outside m v g && (a.solo v g [m.awaited] == some [] || b.outside m v g)
  | .choose test a b =>
    test.grounded &&
      if test.holdsOn v [m.awaited] then a.outside m v g else b.outside m v g
  | .loop test body =>
    test.grounded &&
      (!test.holdsOn v [m.awaited] ||
        body.outside m v g && body.solo v g [m.awaited] == some [])
  | .chain item .. => item.outside m v g && item.solo v g [m.awaited] == some []
  | .node name body => !m.rules.contains name && body.outside m v g
  | .call name => (g.rules.lookup name).isSome && !m.ways.contains name

/-- The named phrases that lead to no marked rule are as they seem from their calls. -/
structure Marking.Apart (m : Marking) (v : Vocabulary) (g : Grammar) : Prop where
  idle : ∀ r ∈ g.rules, r.1 ∉ m.ways → (g.rule r.1).idle m g = some false
  outside : ∀ r ∈ g.rules, r.1 ∉ m.ways → (g.rule r.1).outside m v g = true

instance (m : Marking) (v : Vocabulary) (g : Grammar) : Decidable (m.Apart v g) :=
  decidable_of_iff
    (∀ r ∈ g.rules, r.1 ∉ m.ways →
      (g.rule r.1).idle m g = some false ∧ (g.rule r.1).outside m v g = true)
    ⟨fun h => ⟨fun r hr hw => (h r hr hw).1, fun r hr hw => (h r hr hw).2⟩,
      fun h r hr hw => ⟨h.idle r hr hw, h.outside r hr hw⟩⟩

theorem mem_rules_of_lookup {g : Grammar} {name : String}
    (h : (g.rules.lookup name).isSome = true) : ∃ r ∈ g.rules, r.1 = name := by
  obtain ⟨p, hp⟩ := Option.isSome_iff_exists.mp h
  obtain ⟨l₁, l₂, hl, -⟩ := List.lookup_eq_some_iff.mp hp
  exact ⟨(name, p), by simp [hl], rfl⟩

section
variable {m : Marking} {g : Grammar} {v : Vocabulary} {size : Nat} {open_ : List String}
  {p : Phrase} {s : State} {o : Outcome}

theorem idle_unrollLoop {test : Lookahead} {body : Phrase} {x : Bool}
    (h : (Phrase.loop test body).idle m g = some x) :
    (Phrase.unrollLoop test body).idle m g = some x := by
  simp only [Phrase.idle, Bool.and_eq_true, Bool.not_eq_true'] at h
  split at h
  next ht => simpa [Phrase.unrollLoop, Phrase.idle, ht] using h
  next => cases h

theorem idle_unrollChain {item gap : Phrase} {separator : String} {more : Lookahead} {x : Bool}
    (h : (Phrase.chain item separator gap more).idle m g = some x) :
    (Phrase.unrollChain item separator gap more).idle m g = some x := by
  simp only [Phrase.idle] at h
  split at h
  next => cases h
  next hs =>
    cases x <;> simp [Phrase.unrollChain, Phrase.chainTail, Phrase.idle, Lookahead.grounded,
      Lookahead.endAnswer, hs, h]

/-- Away from marked rules, content assist asks for nothing below one where none is
reached at the end. -/
theorem idle_of_runs (ha : m.Apart v g) (h : Runs (g.assisting v size) open_ p s o)
    (hs : s.rest = []) (hm : m.covers open_ = false) {x : Bool} (hp : p.idle m g = some x)
    (hh : ¬s.Hinted m) : ¬o.state.Hinted m ∧ ∀ s', o = .done s' → x = true := by
  induction h generalizing x with
  | empty =>
    cases hp
    exact ⟨hh, fun _ _ => rfl⟩
  | take =>
    cases hp
    exact ⟨by simpa [State.Hinted, Outcome.state, take_noted] using hh, fun _ _ => rfl⟩
  | reject | tooDeep =>
    refine ⟨by simpa [State.Hinted, Outcome.state, complain_noted] using hh, ?_⟩
    rintro _ ⟨⟩
  | seq hrun _ iha ihb =>
    simp only [Phrase.idle] at hp
    split at hp
    next ha => exact ihb (hrun.rest_eq_nil hs) hm hp (iha hs hm ha hh).1
    next hstop =>
      obtain rfl := (iha hs hm hp hh).2 _ rfl
      exact absurd hp hstop
  | seqHalt _ ih =>
    simp only [Phrase.idle] at hp
    split at hp
    next ha => exact ⟨(ih hs hm ha hh).1, by rintro _ ⟨⟩⟩
    next => exact ⟨(ih hs hm hp hh).1, by rintro _ ⟨⟩⟩
  | @chooseYes _ test _ _ _ _ hy _ ih =>
    simp only [Phrase.idle] at hp
    split at hp
    next hg =>
      rw [test.ask_at_end rfl hs hg] at hy
      rw [if_pos hy] at hp
      exact ih ((test.ask_notes ..).rest.trans hs) hm hp fun h => hh (test.hinted_of_ask hm h)
    next => cases hp
  | @chooseNo _ test _ _ _ _ hn _ ih =>
    simp only [Phrase.idle] at hp
    split at hp
    next hg =>
      rw [test.ask_at_end rfl hs hg] at hn
      rw [hn, if_neg (by decide)] at hp
      exact ih ((test.ask_notes ..).rest.trans hs) hm hp fun h => hh (test.hinted_of_ask hm h)
    next => cases hp
  | loop _ ih => exact ih hs hm (idle_unrollLoop hp) hh
  | chain _ ih => exact ih hs hm (idle_unrollChain hp) hh
  | @node _ name _ _ _ _ _ ih =>
    simp only [Phrase.idle] at hp
    split at hp
    next => cases hp
    next hname =>
      obtain ⟨hh₁, hx⟩ := ih hs (by simpa [hm] using hname) hp hh
      exact ⟨hh₁, fun _ _ => hx _ rfl⟩
  | @nodeHalt _ name _ _ _ _ _ ih =>
    simp only [Phrase.idle] at hp
    split at hp
    next => cases hp
    next hname =>
      exact ⟨(ih hs (by simpa [hm] using hname) hp hh).1, by rintro _ ⟨⟩⟩
  | @call _ name _ _ _ ih =>
    simp only [Phrase.idle, Bool.and_eq_true, Bool.not_eq_true', List.contains_eq_mem,
      decide_eq_false_iff_not] at hp
    split at hp
    next hname =>
      cases hp
      obtain ⟨r, hr, rfl⟩ := mem_rules_of_lookup hname.1
      exact ih hs hm (ha.idle r hr hname.2) hh
    next => cases hp

theorem outside_unrollLoop {test : Lookahead} {body : Phrase}
    (h : (Phrase.loop test body).outside m v g = true) :
    (Phrase.unrollLoop test body).outside m v g = true := by
  simp only [Phrase.outside, Bool.and_eq_true, Bool.or_eq_true, Bool.not_eq_true',
    Phrase.unrollLoop] at h ⊢
  refine ⟨h.1, ?_⟩
  rcases h.2 with hn | ⟨hb, hsolo⟩
  · rw [hn, if_neg (by decide)]
  · split
    · exact Bool.and_eq_true_iff.mpr ⟨hb, Bool.or_eq_true_iff.mpr (.inl hsolo)⟩
    · rfl

/-- A parse that has only the awaited token left takes it away from marked rules. -/
theorem outside_of_runs (ha : m.Apart v g) (hg : Honest v g) (hv : v.Distinct) {t : Token}
    (hname : t.name = m.awaited) (h : Runs (g.parsing v size) open_ p s o)
    (hd : open_.length ≤ maxDepth) (hs : UnderWay v s) (hr : s.rest = [t])
    (hp : p.outside m v g = true) (hall : o.state.rest = []) :
    ∃ rules, o.state.lastRules? = some rules ∧ m.covers rules = false := by
  have hnames : ∀ {s : State}, s.rest = [t] → names s.rest = [m.awaited] := fun hr => by
    simp [names, hr, hname]
  induction h with
  | empty => simp [Outcome.state, hr] at hall
  | take => exact ⟨[], by simp [Outcome.state, State.take, hr, State.lastRules?,
      lastRulesIn?_append, lastRulesIn?, Tree.lastRules?], rfl⟩
  | reject | tooDeep => simp [Outcome.state, complain_rest, hr] at hall
  | @seq _ a b s s₁ o harun hbrun iha ihb =>
    simp only [Phrase.outside, Bool.and_eq_true, Bool.or_eq_true, beq_iff_eq] at hp
    have hsuffix : s₁.rest <:+ [t] := hr ▸ harun.rest_suffix
    rcases List.suffix_cons_iff.mp hsuffix with hr₁ | hr₁
    · have hb : b.outside m v g = true := by
        refine hp.2.resolve_left fun hsolo => ?_
        cases settled_of_runs hg hv harun hs (by rw [hnames hr, hsolo]) with
        | all hr₂ => cases hr₂.symm.trans hr₁
        | left _ hn =>
          rw [hnames hr₁] at hn
          cases hn
      exact ihb hd (hs.done harun) hr₁ hb hall
    · have hr₁ : s₁.rest = [] := by simpa using hr₁
      rw [hbrun.lastRules?_of_nil hd hr₁]
      exact iha hd hs hr hp.1 hr₁
  | seqHalt _ ih =>
    simp only [Phrase.outside, Bool.and_eq_true] at hp
    exact ih hd hs hr hp.1 hall
  | @chooseYes _ test _ _ _ _ hy _ ih =>
    simp only [Phrase.outside, Bool.and_eq_true] at hp
    rw [hs.answer hv hp.1, hnames hr] at hy
    rw [ask_parsing] at ih
    exact ih hd hs hr (by simpa [hy] using hp.2) hall
  | @chooseNo _ test _ _ _ _ hn _ ih =>
    simp only [Phrase.outside, Bool.and_eq_true] at hp
    rw [hs.answer hv hp.1, hnames hr] at hn
    rw [ask_parsing] at ih
    exact ih hd hs hr (by simpa [hn] using hp.2) hall
  | loop _ ih => exact ih hd hs hr (outside_unrollLoop hp) hall
  | chain _ ih =>
    refine ih hd hs hr ?_ hall
    simp only [Phrase.outside, Bool.and_eq_true] at hp
    simp [Phrase.unrollChain, Phrase.outside, hp]
  | @node _ name _ s _ hlt hbody ih | @nodeHalt _ name _ s _ hlt hbody ih =>
    simp only [Phrase.outside, Bool.and_eq_true, Bool.not_eq_true'] at hp
    obtain ⟨rules, hrules, hclose⟩ :=
      hbody.lastRules?_close hlt (by simp [hr]) hall s.forest
    obtain ⟨rules', hrules', hcovers⟩ := ih hlt ⟨hs.typed, hs.error⟩ hr hp.2 hall
    obtain rfl := Option.some.inj (hrules.symm.trans hrules')
    exact ⟨_, hclose, by rw [m.covers_cons, hp.1, hcovers]; rfl⟩
  | call _ ih =>
    simp only [Phrase.outside, Bool.and_eq_true, Bool.not_eq_true', List.contains_eq_mem,
      decide_eq_false_iff_not] at hp
    obtain ⟨r, hmem, rfl⟩ := mem_rules_of_lookup hp.1
    exact ih hd hs hr (ha.outside r hmem hp.2) hall

end

end Grammar

end GraphLanguages
