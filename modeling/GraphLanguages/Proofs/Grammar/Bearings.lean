import GraphLanguages.Proofs.Grammar.Marks

/-! Following a phrase.

Content assist runs in step with a parse of one token more. As far as that goes, one can
follow a phrase and say what is known when it is done: of the next token, of the last
one, and whether something has been asked below a marked rule since (`Bearing`,
`Phrase.course`). What is known of content assist itself, `Bearing.Fits`, is kept by each
step. A grammar every phrase of which can be followed has `Hints`. -/
namespace GraphLanguages.Grammar

/-! ### What is known -/

/-- What is known when a phrase is entered in step. -/
structure Bearing where
  /-- The next token has been asked for with success. -/
  asked : Bool := false
  /-- Is the next token a closer? -/
  next : Option Bool := none
  /-- When the tokens of content assist are used up: is the last one a closer? -/
  last : Option Bool := none
  /-- Nothing has been asked at the end since a token was taken. -/
  clean : Bool := false
deriving DecidableEq

namespace Bearing

/-- Behind a question answered yes. -/
def yes (k : Bearing) (verdict : Option Bool) : Bearing :=
  { k with asked := true, next := verdict.or k.next, clean := true }

/-- Behind a question answered no. -/
def no (k : Bearing) : Bearing :=
  { k with clean := k.asked }

/-- Behind a token. -/
def taken (k : Bearing) : Bearing where
  last := k.next
  clean := true

/-- What both know. What is known of the last token does not matter where there is a
next one. -/
def join (k l : Bearing) : Bearing where
  asked := k.asked && l.asked
  next := if k.next = l.next then k.next else none
  last :=
    if k.asked then l.last else if l.asked || k.last = l.last then k.last else none
  clean := (k.clean || k.asked) && (l.clean || l.asked)

/-- Whatever the second knows, the first knows. -/
structure Tells (k l : Bearing) : Prop where
  asked : l.asked = true → k.asked = true
  next : ∀ b ∈ l.next, b ∈ k.next
  last : ∀ b ∈ l.last, k.asked = true ∨ b ∈ k.last
  clean : l.clean = true → k.clean = true ∨ k.asked = true

theorem tells_join_left (k l : Bearing) : k.Tells (k.join l) where
  asked h := (Bool.and_eq_true_iff.mp h).1
  next b hb := by
    simp only [join] at hb
    split at hb
    · exact hb
    · cases hb
  last b hb := by
    simp only [join] at hb
    split at hb
    next h => exact .inl h
    next =>
      split at hb
      · exact .inr hb
      · cases hb
  clean h := by simpa using (Bool.and_eq_true_iff.mp h).1

theorem tells_join_right (k l : Bearing) : l.Tells (k.join l) where
  asked h := (Bool.and_eq_true_iff.mp h).2
  next b hb := by
    simp only [join] at hb
    split at hb
    next h => exact h ▸ hb
    next => cases hb
  last b hb := by
    simp only [join] at hb
    split at hb
    next => exact .inr hb
    next =>
      split at hb
      next h =>
        simp only [Bool.or_eq_true, decide_eq_true_eq] at h
        refine h.imp_right fun he => ?_
        rwa [← he]
      next => cases hb
  clean h := by simpa using (Bool.and_eq_true_iff.mp h).2

theorem Tells.refl (k : Bearing) : k.Tells k :=
  ⟨id, fun _ h => h, fun _ h => .inr h, .inl⟩

theorem tells_nothing (k : Bearing) : k.Tells {} :=
  ⟨by rintro ⟨⟩, by rintro _ ⟨⟩, by rintro _ ⟨⟩, by rintro ⟨⟩⟩

/-! ### What holds of content assist -/

/-- What is known of the next token holds, and there is no hint yet; below a marked rule
that is only known while nothing has been asked at the end. -/
structure Fits (m : Marking) (marked : Bool) (k : Bearing) (s : State) : Prop where
  asked : k.asked = true → s.rest ≠ []
  quiet : s.rest ≠ [] ∨ (marked = true → k.clean = true) → ¬s.Hinted m

namespace Fits
variable {m : Marking} {marked : Bool} {k l : Bearing} {s : State}

theorem mono (h : k.Fits m marked s) (hl : k.Tells l) : l.Fits m marked s where
  asked ha := h.asked (hl.asked ha)
  quiet hq := by
    by_cases hr : s.rest = []
    · refine h.quiet (.inr fun hm => ?_)
      exact (hl.clean (hq.resolve_left (· hr) hm)).resolve_right fun ha => h.asked ha hr
    · exact h.quiet (.inl hr)

theorem take (h : k.Fits m marked s) (ha : k.asked = true) : k.taken.Fits m marked s.take where
  asked := by rintro ⟨⟩
  quiet _ := by
    rw [State.Hinted, take_noted]
    exact h.quiet (.inl (h.asked ha))

theorem yes (h : k.Fits m marked s) (verdict : Option Bool) (hne : s.rest ≠ []) :
    (k.yes verdict).Fits m marked s where
  asked _ := hne
  quiet _ := h.quiet (.inl hne)

theorem no {σ : Setting} {open_ : List String} {test : Lookahead} (h : k.Fits m marked s)
    (hm : m.covers open_ = marked) : k.no.Fits m marked (test.ask σ open_ s).2 := by
  have hrest : (test.ask σ open_ s).2.rest = s.rest := (test.ask_notes ..).rest
  refine ⟨fun ha => hrest ▸ h.asked ha, fun hq => ?_⟩
  rw [hrest] at hq
  by_cases hr : s.rest = []
  · -- at the end something may have been asked, which is no hint away from marked rules
    have hclean : marked = true → k.asked = true := hq.resolve_left (· hr)
    have hmarked : marked = false :=
      Bool.eq_false_of_not_eq_true fun hm => h.asked (hclean hm) hr
    intro hh
    refine h.quiet (.inr fun hm => ?_) (test.hinted_of_ask (hm.trans hmarked) hh)
    rw [hmarked] at hm
    cases hm
  · obtain ⟨u, us, hr'⟩ := List.exists_cons_of_ne_nil hr
    rw [test.ask_quiet (noting_of_cons hr')]
    exact h.quiet (.inl hr)

/-- At the end of its tokens content assist answers no. -/
theorem ask_at_end {g : Grammar} {v : Vocabulary} {size : Nat} {open_ : List String}
    {test : Lookahead} (h : k.Fits m marked s) (hn : k.asked = true ∨ test.noted v = true)
    (hend : s.rest = []) : (test.ask (g.assisting v size) open_ s).1 = false :=
  test.ask_of_noted (noting_at_end rfl hend) (hn.resolve_left fun ha => h.asked ha hend)

/-- Below a node that may be marked. -/
theorem reopen (h : k.Fits m marked s) (also : Bool) :
    k.Fits m (marked || also) { s with forest := [] } where
  asked := h.asked
  quiet hq := h.quiet (hq.imp_right fun hq hm => hq (by rw [hm, Bool.true_or]))

/-- Behind a node. A marked one must have ended with a token. -/
theorem close {name : String} {outer : List Tree}
    (h : k.Fits m (marked || m.rules.contains name) s)
    (hclean : marked = false → m.rules.contains name = true → k.clean = true) :
    k.Fits m marked (s.close name outer) where
  asked := h.asked
  quiet hq := by
    refine h.quiet (hq.imp_right fun hq hm => ?_)
    cases hmarked : marked with
    | true => exact hq hmarked
    | false => exact hclean hmarked (by simpa [hmarked] using hm)

end Fits

end Bearing

/-! ### Following a phrase -/

/-- Whether the next token is a closer once the question is answered yes, if that is
known then. -/
def Lookahead.verdict (m : Marking) (v : Vocabulary) : Lookahead → Option Bool
  | .is name => some (m.closers.contains name)
  | test =>
    if test.grounded && test.reach == 0 && m.closers.all (!test.holdsOn v [·]) then some false
    else none

/-- What is known when a phrase is done. -/
structure Course where
  /-- In step; nothing if the phrase is never done in step. -/
  after : Option Bearing
  /-- Content assist may be done with the phrase once it has parted from the parse. -/
  passes : Bool

def joinAfter : Option Bearing → Option Bearing → Option Bearing
  | some k, some l => some (k.join l)
  | some k, none => some k
  | none, l => l

/-- Whether content assist may be done with a choice that only the parse can answer. The
parse must take the awaited token for sure. Below a marked rule no closer may be before
it; elsewhere the token must be taken away from marked rules unless there is one. -/
def Lookahead.parts (m : Marking) (v : Vocabulary) (g : Grammar) (marked : Bool)
    (test : Lookahead) (a b : Phrase) (k : Bearing) : Option Bool :=
  if k.asked || !test.holdsOn v [m.awaited] then some false
  else if a.solo v g [m.awaited] = some [] then
    if marked then
      if k.last = some false then some false else none
    else if a.outside m v g || k.last = some true then b.idle m g
    else none
  else none

/-- Follows a phrase in step, below marked rules or not; nothing if something may happen
that `parts` rules out. -/
def Phrase.course (m : Marking) (v : Vocabulary) (g : Grammar) (marked : Bool) :
    Phrase → Bearing → Option Course
  | .empty, k => some ⟨some k, false⟩
  | .take, k => if k.asked then some ⟨some k.taken, false⟩ else none
  | .reject _, _ => some ⟨none, false⟩
  | .seq a b, k => do
    let x ← a.course m v g marked k
    let y ← x.after.elim (some ⟨none, false⟩) (b.course m v g marked)
    let i ← (if x.passes then b.idle m g else some false)
    some ⟨y.after, i || y.passes⟩
  | .choose test a b, k =>
    if test.grounded && test.reach == 0 && (k.asked || test.noted v) then do
      let x ← a.course m v g marked (k.yes (test.verdict m v))
      let y ← b.course m v g marked k.no
      let i ← test.parts m v g marked a b k
      some ⟨joinAfter x.after y.after, i || x.passes || y.passes⟩
    else none
  | .loop test body, _ =>
    if test.grounded && test.noted v then do
      let x ← body.course m v g marked (Bearing.yes {} (test.verdict m v))
      let i ← test.parts m v g marked (.seq body (.loop test body)) .empty {}
      some ⟨some {}, i || x.passes⟩
    else none
  | .chain item separator gap more, _ =>
    if !marked && separator != "EOF" && separator != m.awaited && more.grounded &&
      more.noted v &&
      (!more.holdsOn v [m.awaited] ||
        item.outside m v g && item.solo v g [m.awaited] == some []) &&
      (item.course m v g marked {}).isSome &&
      (gap.course m v g marked
        { last := some (m.closers.contains separator), clean := true }).isSome
    then some ⟨some {}, true⟩
    else none
  | .node name body, k =>
    if !marked && m.rules.contains name then
      (body.course m v g true k).filter (·.after.all (·.clean))
    else body.course m v g marked k
  | .call name, k =>
    if (g.rules.lookup name).isSome &&
      (if m.ways.contains name then k.asked || k.last = some false else !marked)
    then some ⟨some {}, false⟩
    else none

/-- A grammar in which every phrase can be followed. -/
structure Hints (m : Marking) (v : Vocabulary) (g : Grammar) : Prop where
  apart : m.Apart v g
  entry : (g.entry.course m v g false {}).isSome = true
  rules : ∀ r ∈ g.rules, r.1 ∉ m.ways →
    ((g.rule r.1).course m v g false {}).map (·.passes) = some false
  ways : ∀ name ∈ m.ways, ∀ marked,
    ((g.rule name).course m v g marked { last := some false }).map (·.passes) = some false

instance (m : Marking) (v : Vocabulary) (g : Grammar) : Decidable (Hints m v g) :=
  decidable_of_iff
    (m.Apart v g ∧ (g.entry.course m v g false {}).isSome = true ∧
      (∀ r ∈ g.rules, r.1 ∉ m.ways →
        ((g.rule r.1).course m v g false {}).map (·.passes) = some false) ∧
      ∀ name ∈ m.ways, ∀ marked,
        ((g.rule name).course m v g marked { last := some false }).map (·.passes) = some false)
    ⟨fun h => ⟨h.1, h.2.1, h.2.2.1, h.2.2.2⟩,
      fun h => ⟨h.apart, h.entry, h.rules, h.ways⟩⟩

section
variable {m : Marking} {v : Vocabulary} {g : Grammar} {marked : Bool} {k : Bearing} {x : Course}

theorem course_seq {a b : Phrase} :
    (Phrase.seq a b).course m v g marked k = some x ↔
      ∃ y z i, a.course m v g marked k = some y ∧
        y.after.elim (some ⟨none, false⟩) (b.course m v g marked) = some z ∧
        (if y.passes then b.idle m g else some false) = some i ∧
        ⟨z.after, i || z.passes⟩ = x := by
  simp only [Phrase.course, Option.bind_eq_bind, Option.bind_eq_some_iff, Option.some.injEq,
    exists_and_left]

theorem exists_of_course_seq {a b : Phrase}
    (h : (Phrase.seq a b).course m v g marked k = some x) :
    ∃ y z i, a.course m v g marked k = some y ∧
      y.after.elim (some ⟨none, false⟩) (b.course m v g marked) = some z ∧
      (y.passes = true → b.idle m g = some i) ∧ ⟨z.after, i || z.passes⟩ = x := by
  obtain ⟨y, z, i, hy, hz, hi, hx⟩ := course_seq.mp h
  exact ⟨y, z, i, hy, hz, fun hpass => by rwa [hpass, if_pos rfl] at hi, hx⟩

theorem course_choose {test : Lookahead} {a b : Phrase} :
    (Phrase.choose test a b).course m v g marked k = some x ↔
      (test.grounded = true ∧ test.reach = 0 ∧ (k.asked = true ∨ test.noted v = true)) ∧
        ∃ y z i, a.course m v g marked (k.yes (test.verdict m v)) = some y ∧
          b.course m v g marked k.no = some z ∧ test.parts m v g marked a b k = some i ∧
          ⟨joinAfter y.after z.after, i || y.passes || z.passes⟩ = x := by
  rw [Phrase.course]
  split
  next h =>
    simp only [Bool.and_eq_true, beq_iff_eq, Bool.or_eq_true, and_assoc] at h
    simp only [Option.bind_eq_bind, Option.bind_eq_some_iff, Option.some.injEq, exists_and_left,
      h, and_self, true_and]
  next h =>
    simp only [Bool.and_eq_true, beq_iff_eq, Bool.or_eq_true, and_assoc] at h
    simp only [h, false_and, reduceCtorEq]

theorem endAnswer_of_noted (test : Lookahead) (h : test.noted v = true) :
    test.endAnswer = false := by
  induction test with
  | is | anyOf | tagged => rfl
  | either a b iha ihb =>
    simp only [Lookahead.noted, Bool.and_eq_true] at h
    simp [Lookahead.endAnswer, iha h.1, ihb h.2]
  | both | negated | aheadIs | aheadTagged | atEnd => cases h

/-- A loop is followed as its rounds are. -/
theorem exists_course_unrollLoop {test : Lookahead} {body : Phrase}
    (h : (Phrase.loop test body).course m v g marked k = some x) :
    x.after = some {} ∧ ∃ y, (Phrase.unrollLoop test body).course m v g marked {} = some y ∧
      (y.passes = true → x.passes = true) := by
  have hloop := h
  rw [Phrase.course] at h
  split at h
  next ht =>
    simp only [Bool.and_eq_true] at ht
    obtain ⟨y, hy, i, hi, rfl⟩ : ∃ y, body.course m v g marked (Bearing.yes {} (test.verdict m v)) =
        some y ∧ ∃ i, test.parts m v g marked (.seq body (.loop test body)) .empty {} = some i ∧
          (⟨some {}, i || y.passes⟩ : Course) = x := by
      simpa [Option.bind_eq_some_iff] using h
    have hidle : (Phrase.loop test body).idle m g = some true := by
      simp [Phrase.idle, ht.1, endAnswer_of_noted test ht.2]
    obtain ⟨z, hz, hzp⟩ : ∃ z, y.after.elim (some ⟨none, false⟩)
        ((Phrase.loop test body).course m v g marked) = some z ∧
        (z.passes = true → (i || y.passes) = true) := by
      cases hafter : y.after with
      | none => exact ⟨_, rfl, by rintro ⟨⟩⟩
      | some l => exact ⟨⟨some {}, i || y.passes⟩, hloop, id⟩
    refine ⟨rfl, _, course_choose.mpr ⟨⟨ht.1, Lookahead.reach_of_noted test ht.2, .inr ht.2⟩,
      _, _, i, course_seq.mpr ⟨y, z, y.passes, hy, hz, ?_, rfl⟩, rfl, hi, rfl⟩, ?_⟩
    · cases y.passes
      · rfl
      · exact hidle
    · simp only [Bool.or_eq_true, Bool.or_false] at hzp ⊢
      tauto
  next => cases h

theorem exists_course_unrollChain {item gap : Phrase} {separator : String} {more : Lookahead}
    (h : (Phrase.chain item separator gap more).course m v g marked k = some x) :
    x = ⟨some {}, true⟩ ∧
      ∃ y, (Phrase.unrollChain item separator gap more).course m v g marked {} = some y := by
  have hchain : ∀ l, (Phrase.chain item separator gap more).course m v g marked l = some x :=
    fun _ => h
  rw [Phrase.course] at h
  split at h
  next ht =>
    obtain rfl := Option.some.inj h
    simp only [Bool.and_eq_true, Bool.not_eq_true', bne_iff_ne, Bool.or_eq_true, beq_iff_eq,
      Option.isSome_iff_exists] at ht
    obtain ⟨⟨⟨⟨⟨⟨⟨rfl, hsep⟩, hawaited⟩, hgr⟩, hn⟩, hparts⟩, xi, hi⟩, xg, hgap⟩ := ht
    have hmore : ∀ l, ∃ y, (Phrase.choose more (.chain item separator gap more) .empty).course
        m v g false l = some y := by
      intro l
      obtain ⟨i, hi⟩ : ∃ i, more.parts m v g false (.chain item separator gap more) .empty l =
          some i := by
        rcases hparts with hparts | ⟨hout, hsolo⟩
        · exact ⟨false, by simp [Lookahead.parts, hparts]⟩
        · cases hc : l.asked || !more.holdsOn v [m.awaited] <;>
            simp [Lookahead.parts, hc, Phrase.solo, Phrase.outside, Phrase.idle, hout, hsolo]
      exact ⟨_, course_choose.mpr ⟨⟨hgr, Lookahead.reach_of_noted more hn, .inr hn⟩, _, _, i,
        hchain _, rfl, hi, rfl⟩⟩
    have hmoreIdle : (Phrase.choose more (.chain item separator gap more) .empty).idle m g =
        some true := by
      simp [Phrase.idle, hgr, endAnswer_of_noted more hn]
    have htailIdle : (Phrase.chainTail item separator gap more).idle m g = some true := by
      simp [Phrase.chainTail, Phrase.idle, Lookahead.grounded, Lookahead.endAnswer, hsep]
    have hgapMore : ∃ y, (Phrase.seq gap
        (.choose more (.chain item separator gap more) .empty)).course m v g false
          { last := some (m.closers.contains separator), clean := true } = some y := by
      obtain ⟨z, hz⟩ : ∃ z, xg.after.elim (some ⟨none, false⟩)
          ((Phrase.choose more (.chain item separator gap more) .empty).course m v g false) =
            some z := by
        cases xg.after with
        | none => exact ⟨_, rfl⟩
        | some l => exact hmore l
      refine ⟨_, course_seq.mpr ⟨xg, z, xg.passes, hgap, hz, ?_, rfl⟩⟩
      cases xg.passes
      · rfl
      · exact hmoreIdle
    have htail : ∀ l, ∃ y, (Phrase.chainTail item separator gap more).course m v g false l =
        some y := by
      intro l
      obtain ⟨z, hz⟩ := hgapMore
      refine ⟨_, course_choose.mpr ⟨⟨by simp [Lookahead.grounded, hsep], rfl, .inr rfl⟩, _, _,
        false, course_seq.mpr ⟨⟨some (Bearing.taken _), false⟩, z, false, rfl, hz, rfl, rfl⟩, rfl,
        ?_, rfl⟩⟩
      simp [Lookahead.parts, Lookahead.holdsOn, Ne.symm hawaited]
    obtain ⟨z, hz⟩ : ∃ z, xi.after.elim (some ⟨none, false⟩)
        ((Phrase.chainTail item separator gap more).course m v g false) = some z := by
      cases xi.after with
      | none => exact ⟨_, rfl⟩
      | some l => exact htail l
    refine ⟨rfl, _, course_seq.mpr ⟨xi, z, xi.passes, hi, hz, ?_, rfl⟩⟩
    cases xi.passes
    · rfl
    · exact htailIdle
  next => cases h

theorem course_node {name : String} {body : Phrase} {k : Bearing}
    (h : (Phrase.node name body).course m v g marked k = some x) :
    body.course m v g (marked || m.rules.contains name) k = some x ∧
      ∀ l, x.after = some l → marked = false → m.rules.contains name = true → l.clean = true := by
  rw [Phrase.course] at h
  split at h
  next hmark =>
    obtain ⟨hmarked, hname⟩ := Bool.and_eq_true_iff.mp hmark
    obtain ⟨hx, hclean⟩ := Option.filter_eq_some_iff.mp h
    refine ⟨by rwa [hname, Bool.or_true], fun l hl _ _ => ?_⟩
    simpa [hl] using hclean
  next hmark =>
    have hor : (marked || m.rules.contains name) = marked := by
      cases marked <;> simp_all
    refine ⟨by rwa [hor], fun l _ hm hname => ?_⟩
    rw [hm, hname] at hmark
    exact absurd rfl hmark

theorem course_call {name : String} {k : Bearing}
    (h : (Phrase.call name).course m v g marked k = some x) :
    x = ⟨some {}, false⟩ ∧ (∃ r ∈ g.rules, r.1 = name) ∧
      (name ∈ m.ways ∧ (k.asked = true ∨ k.last = some false) ∨
        name ∉ m.ways ∧ marked = false) := by
  rw [Phrase.course, Option.ite_none_right_eq_some] at h
  obtain ⟨hc, hx⟩ := h
  obtain ⟨hname, hc⟩ := Bool.and_eq_true_iff.mp hc
  refine ⟨(Option.some.inj hx).symm, mem_rules_of_lookup hname, ?_⟩
  by_cases hw : name ∈ m.ways
  · exact .inl ⟨hw, by simpa [hw] using hc⟩
  · exact .inr ⟨hw, by simpa [hw] using hc⟩

theorem exists_joinAfter_left {a b : Option Bearing} :
    ∀ k, a = some k → ∃ l, joinAfter a b = some l ∧ k.Tells l := by
  rintro k rfl
  cases b with
  | none => exact ⟨k, rfl, .refl k⟩
  | some l => exact ⟨k.join l, rfl, k.tells_join_left l⟩

theorem exists_joinAfter_right {a b : Option Bearing} :
    ∀ l, b = some l → ∃ k, joinAfter a b = some k ∧ l.Tells k := by
  rintro l rfl
  cases a with
  | none => exact ⟨l, rfl, .refl l⟩
  | some k => exact ⟨k.join l, rfl, k.tells_join_right l⟩

/-- A named phrase can be followed from what is known at its call. -/
theorem Hints.exists_course_rule (hh : Hints m v g) {name : String}
    (h : (Phrase.call name).course m v g marked k = some x) :
    ∃ l y, k.Tells l ∧ (g.rule name).course m v g marked l = some y ∧ y.passes = false := by
  obtain ⟨-, ⟨r, hr, rfl⟩, ⟨hw, hlast⟩ | ⟨hw, rfl⟩⟩ := course_call h
  · obtain ⟨y, hy, hpass⟩ := Option.map_eq_some_iff.mp (hh.ways r.1 hw marked)
    refine ⟨{ last := some false }, y, ⟨by rintro ⟨⟩, by rintro _ ⟨⟩, ?_, by rintro ⟨⟩⟩, hy, hpass⟩
    rintro _ ⟨⟩
    exact hlast
  · obtain ⟨y, hy, hpass⟩ := Option.map_eq_some_iff.mp (hh.rules r hr hw)
    exact ⟨{}, y, k.tells_nothing, hy, hpass⟩

end

end GraphLanguages.Grammar
