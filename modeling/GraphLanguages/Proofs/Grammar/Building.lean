import GraphLanguages.Proofs.Grammar.Derivation
import GraphLanguages.Proofs.Grammar.Predictive

/-! The trees that a run builds.

What a phrase puts into the forest can be read off it as a form, with the nodes it opens and
the phrases it calls as named forms (`Phrase.content`). If every node comes out like the
production of its name, and every question tells the two ways on apart by what lies ahead of
each (`Phrase.faithful`), then a run that is done has built a derivation (`built_of_runs`), and
on the leaves of a derivation it builds that one, unless rules nest too deep
(`builds_of_runs`). So no other has the same leaves.

Types that do not occur may be left out of account, and with them the phrases that need
them. -/
namespace GraphLanguages.Grammar
open GraphLanguages.Tree

/-! ### What an answer tells of the next token -/

namespace Lookahead

/-- The names of a next token to which the answer is yes, if they can be listed. -/
def yes? (v : Vocabulary) : Lookahead → Option (List String)
  | .is name | .aheadIs 0 name => some [name]
  | .anyOf names => some names
  | .tagged c _ | .aheadTagged 0 c => some (v.carriers c)
  | .either a b =>
    match a.yes? v, b.yes? v with
    | some names, some names' => some (names ++ names')
    | _, _ => none
  | _ => none

/-- What is known once the question has the answer. Where nothing was known, a no tells
nothing that is worth a list. -/
def learn (v : Vocabulary) (absent : List String) (test : Lookahead) (answer : Bool) :
    Outlook → Outlook
  | [] =>
    if answer = true ∧ test.place? = some 0 then
      ((test.yes? v).map fun names => names.filter (!absent.contains ·)).toList
    else []
  | names :: κ => test.narrow v answer (names :: κ)

theorem mem_of_yes? {v : Vocabulary} {test : Lookahead} {names : List String} {u : String}
    (h : test.yes? v = some names) (hu : test.accepts v u = true) : u ∈ names := by
  induction test generalizing names with
  | is name =>
    cases h
    rw [accepts, Vocabulary.sameName_eq] at hu
    exact List.mem_singleton.mpr (beq_iff_eq.mp hu)
  | anyOf asked =>
    cases h
    rw [accepts, Vocabulary.any_sameName] at hu
    exact List.contains_iff_mem.mp hu
  | tagged c offered =>
    cases h
    rw [accepts, Vocabulary.any_sameName] at hu
    exact List.contains_iff_mem.mp hu
  | either a b iha ihb =>
    simp only [yes?] at h
    split at h
    next ha hb =>
      cases h
      rcases Bool.or_eq_true_iff.mp hu with hu | hu
      · exact List.mem_append_left _ (iha ha hu)
      · exact List.mem_append_right _ (ihb hb hu)
    next => cases h
  | aheadIs distance name =>
    cases distance with
    | zero =>
      cases h
      rw [accepts, Vocabulary.sameName_eq] at hu
      exact List.mem_singleton.mpr (beq_iff_eq.mp hu)
    | succ => cases h
  | aheadTagged distance c =>
    cases distance with
    | zero =>
      cases h
      rw [accepts, Vocabulary.any_sameName] at hu
      exact List.contains_iff_mem.mp hu
    | succ => cases h
  | both | negated | atEnd => cases h

end Lookahead

/-- Is there a place for which no name is left? -/
def Outlook.blind (κ : Outlook) : Bool :=
  κ.any List.isEmpty

theorem Sees.not_blind {κ : Outlook} {w : Word} (h : Sees κ w) : κ.blind = false := by
  induction κ generalizing w with
  | nil => rfl
  | cons names κ ih =>
    rw [Outlook.blind, List.any_cons, List.isEmpty_eq_false_iff.mpr (List.ne_nil_of_mem h.1)]
    exact ih h.2

/-! ### What a phrase builds -/

section
variable (v : Vocabulary) (absent : List String)

/-- What the phrase puts into the forest, given what is known of the tokens ahead. -/
def Phrase.content : Phrase → Outlook → Form
  | .empty, _ => .empty
  | .take, κ => .ofNext v κ
  | .reject _, _ | .chain .., _ => .never
  | .seq a b, κ => .seq (a.content κ) (b.content (a.after κ))
  | .choose test a b, κ =>
    .alt (a.content (test.learn v absent true κ)) (b.content (test.learn v absent false κ))
  | .loop test body, _ => .many (body.content (test.learn v absent true []))
  | .node name _, κ => if κ.blind then .never else .rule name
  | .call name, _ => .rule name

variable (rules : List (String × Form)) (heads follow : List (String × Outlook))

/-- Does every node of the phrase come out like its production, and does a parse see which way
to go, given what is known in front of the phrase and what may come behind it? -/
def Phrase.faithful : Phrase → Outlook → Outlook → Bool
  | .empty, _, _ | .reject _, _, _ => true
  | .take, κ, _ => κ.ensures (· != "EOF") 0
  | .seq a b, κ, k =>
    a.faithful κ ((b.content v absent (a.after κ)).ahead heads k) && b.faithful (a.after κ) k
  | .choose test a b, κ, k =>
    let κ₁ := test.learn v absent true κ
    let κ₀ := test.learn v absent false κ
    test.sure v true ((a.content v absent κ₁).ahead heads k) &&
      test.sure v false ((b.content v absent κ₀).ahead heads k) &&
      a.faithful κ₁ k && b.faithful κ₀ k
  | .loop test body, _, k =>
    let κ := test.learn v absent true []
    let rounds := Form.many (body.content v absent κ)
    test.sure v true ((Form.seq (body.content v absent κ) rounds).ahead heads k) &&
      test.sure v false k && body.faithful κ (rounds.ahead heads k)
  | .chain .., _, _ => false
  | .node name body, κ, k =>
    κ.blind ||
      ((rules.lookup name).map (Form.normal []) == some ((body.content v absent κ).normal []) &&
        body.faithful κ k)
  | .call name, _, k => (follow.lookup name).any (·.covers k)

/-- The phrases that are called are faithful, with what may come behind them. -/
structure Faithful (g : Grammar) : Prop where
  unused : ∀ u ∈ absent, u ∉ "EOF" :: v.names
  outlooks : Heads rules heads
  called : ∀ r ∈ follow, (g.rule r.1).content v absent [] = .rule r.1 ∧
    (g.rule r.1).faithful v absent rules heads follow [] r.2 = true

instance (g : Grammar) : Decidable (Faithful v absent rules heads follow g) :=
  decidable_of_iff
    ((∀ u ∈ absent, u ∉ "EOF" :: v.names) ∧ Heads rules heads ∧
      ∀ r ∈ follow, (g.rule r.1).content v absent [] = .rule r.1 ∧
        (g.rule r.1).faithful v absent rules heads follow [] r.2 = true)
    ⟨fun h => ⟨h.1, h.2.1, h.2.2⟩, fun h => ⟨h.unused, h.outlooks, h.called⟩⟩

end

section
variable {v v' : Vocabulary} {g : Grammar} {size : Nat} {open_ : List String} {s s' : State}
  {absent : List String} {rules : List (String × Form)} {heads follow : List (String × Outlook)}
  {κ k : Outlook} {p : Phrase} {o : Outcome}

theorem Sees.learn (hv : v.WellNamed) (habsent : ∀ u ∈ absent, u ∉ "EOF" :: v.names)
    (hκ : Sees κ (names s.rest)) (hs : UnderWay v s) (test : Lookahead) {answer : Bool}
    (ha : (test.ask (g.parsing v size) open_ s).1 = answer) :
    Sees (test.learn v absent answer κ) (names s.rest) := by
  cases κ with
  | cons names κ => exact hκ.answered hs hv test ha
  | nil =>
    rw [Lookahead.learn]
    split
    next h =>
      obtain ⟨rfl, hplace⟩ := h
      rw [hs.answer_look hv hplace] at ha
      cases hyes : test.yes? v with
      | none => exact sees_nil _
      | some names =>
        refine ⟨List.mem_filter.mpr ⟨Lookahead.mem_of_yes? hyes ha, ?_⟩, trivial⟩
        rw [Bool.not_eq_true', ← Bool.not_eq_true, List.contains_iff_mem]
        exact fun hmem => habsent _ hmem (look_mem hs.spells 0)
    next => exact sees_nil _

theorem Phrase.faithful_unrollLoop {test : Lookahead} {body : Phrase}
    (h : (Phrase.loop test body).faithful v absent rules heads follow κ k = true) :
    (Phrase.unrollLoop test body).faithful v absent rules heads follow [] k = true := by
  rw [faithful] at h
  simp only [Bool.and_eq_true] at h
  obtain ⟨⟨hyes, hno⟩, hbody⟩ := h
  simp only [unrollLoop, faithful, content, Bool.and_eq_true]
  exact ⟨⟨⟨hyes, hno⟩, hbody, ⟨hyes, hno⟩, hbody⟩, trivial⟩

/-- A token that is known not to be the end. -/
theorem Form.ofNext_of_ensures (hκ : κ.ensures (· != "EOF") 0 = true) :
    ∃ allowed κ', κ = allowed :: κ' ∧ Form.ofNext v κ = .token allowed ∧ "EOF" ∉ allowed := by
  cases κ with
  | nil => cases hκ
  | cons allowed κ =>
    have hend : "EOF" ∉ allowed := fun h => absurd (List.all_eq_true.mp hκ _ h) (by decide)
    refine ⟨allowed, κ, rfl, ?_, hend⟩
    rw [Form.ofNext, List.headD_cons, if_neg (mt List.contains_iff_mem.mp hend)]

/-- The production of a node and what its body builds. -/
theorem Phrase.production_of_faithful {name : String} {body : Phrase}
    (h : (Phrase.node name body).faithful v absent rules heads follow κ k = true)
    (hκ : κ.blind = false) :
    (∃ φ, rules.lookup name = some φ ∧
      φ.normal [] = (body.content v absent κ).normal []) ∧
      body.faithful v absent rules heads follow κ k = true := by
  rw [faithful, hκ, Bool.false_or, Bool.and_eq_true, beq_iff_eq, Option.map_eq_some_iff] at h
  exact h

/-- A call is the phrase of its name, with what may come behind that. -/
theorem Faithful.of_call (hg : Faithful v absent rules heads follow g) {name : String}
    (h : (Phrase.call name).faithful v absent rules heads follow κ k = true) :
    ∃ k', (g.rule name).content v absent [] = .rule name ∧
      (g.rule name).faithful v absent rules heads follow [] k' = true ∧ k'.covers k = true := by
  obtain ⟨k', hl, hcovers⟩ := (Option.any_eq_true _ _).mp h
  obtain ⟨l₁, l₂, hfollow, _⟩ := List.lookup_eq_some_iff.mp hl
  obtain ⟨hcontent, hcalled⟩ := hg.called (name, k') (by simp [hfollow])
  exact ⟨k', hcontent, hcalled, hcovers⟩

/-! ### A run that is done -/

/-- From one state to the other, a forest of the form was built. -/
def Built (rules : List (String × Form)) (φ : Form) (s s' : State) : Prop :=
  ∃ f, Unfolds rules φ f ∧ s'.forest = f.reverse ++ s.forest ∧ s.rest = leavesOf f ++ s'.rest

namespace Built
variable {φ ψ : Form} {s₁ : State}

theorem mono (h : Built rules φ s s') (hφ : ∀ f, Unfolds rules φ f → Unfolds rules ψ f) :
    Built rules ψ s s' := by
  obtain ⟨f, hf, hforest, hrest⟩ := h
  exact ⟨f, hφ f hf, hforest, hrest⟩

theorem nothing (s : State) : Built rules .empty s s :=
  ⟨[], .empty, rfl, rfl⟩

theorem seq (h : Built rules φ s s₁) (h' : Built rules ψ s₁ s') :
    Built rules (.seq φ ψ) s s' := by
  obtain ⟨f, hf, hforest, hrest⟩ := h
  obtain ⟨f', hf', hforest', hrest'⟩ := h'
  refine ⟨f ++ f', .seq hf hf', ?_, ?_⟩
  · rw [hforest', hforest, List.reverse_append, List.append_assoc]
  · rw [hrest, hrest', leavesOf_append, List.append_assoc]

/-- A token that is known not to be the end is a leaf. -/
theorem next (hκ : Sees κ (names s.rest)) (hend : κ.ensures (· != "EOF") 0 = true) :
    Built rules (.ofNext v κ) s s.take := by
  obtain ⟨allowed, κ, rfl, hform, hnone⟩ := Form.ofNext_of_ensures (v := v) hend
  rw [hform]
  cases hrest : s.rest with
  | nil =>
    rw [hrest] at hκ
    exact absurd hκ.1 hnone
  | cons t ts =>
    rw [hrest] at hκ
    exact ⟨[.leaf t], .token hκ.1, by simp [State.take, hrest],
      by simp [State.take, hrest, leavesOf, leaves]⟩

/-- A closed rule is a node over what was built in it. -/
theorem close {name : String} (hl : rules.lookup name = some φ)
    (h : Built rules φ { s with forest := [] } s') :
    Built rules (.rule name) s (s'.close name s.forest) := by
  obtain ⟨f, hf, hforest, hrest⟩ := h
  refine ⟨[.node name f], .rule hl hf, ?_, ?_⟩
  · simp [State.close, hforest]
  · simpa [State.close, leavesOf, leaves] using hrest

end Built

/-- **What a faithful phrase has built when it is done is a derivation.** The run may be under
another vocabulary that knows the same of the tokens. -/
theorem built_of_runs (hg : Faithful v absent rules heads follow g) (hv : v.WellNamed)
    (h : Runs (g.parsing v' size) open_ p s o) (hknow : KnowSame v' v (names s.rest))
    (hs : UnderWay v s) (ho : o = .done s')
    (hp : p.faithful v absent rules heads follow κ k = true) (hκ : Sees κ (names s.rest)) :
    Built rules (p.content v absent κ) s s' := by
  induction h generalizing κ k s' with
  | empty =>
    cases ho
    exact .nothing _
  | take =>
    cases ho
    exact .next hκ hp
  | reject | seqHalt | tooDeep | nodeHalt => cases ho
  | @seq _ a b s s₁ o ha _ iha ihb =>
    simp only [Phrase.faithful, Bool.and_eq_true] at hp
    have hknow₁ := hknow.mono (names_subset ha.rest_suffix)
    exact (iha hknow hs rfl hp.1 hκ).seq (ihb hknow₁ (hs.done ha) ho hp.2 (hκ.after ha))
  | @chooseYes _ test a b s o hy _ ih =>
    simp only [Phrase.faithful, Bool.and_eq_true] at hp
    rw [ask_parsing] at ih
    rw [Lookahead.ask_widen (hknow)] at hy
    exact (ih hknow hs ho hp.1.2 (hκ.learn hv hg.unused hs test hy)).mono fun _ => .first
  | @chooseNo _ test a b s o hn _ ih =>
    simp only [Phrase.faithful, Bool.and_eq_true] at hp
    rw [ask_parsing] at ih
    rw [Lookahead.ask_widen (hknow)] at hn
    exact (ih hknow hs ho hp.2 (hκ.learn hv hg.unused hs test hn)).mono fun _ => .second
  | loop _ ih =>
    exact (ih hknow hs ho (Phrase.faithful_unrollLoop hp) (sees_nil _)).mono fun _ =>
      unfolds_many.mpr
  | chain => cases hp
  | @node _ name body s s₁ _ _ ih =>
    cases ho
    obtain ⟨⟨φ, hl, hnormal⟩, hbody⟩ := Phrase.production_of_faithful hp hκ.not_blind
    have hbuilt := ih hknow ⟨hs.typed, hs.error⟩ rfl hbody hκ
    rw [Phrase.content, hκ.not_blind, if_neg (by decide)]
    exact .close hl (hbuilt.mono fun _ => (unfolds_of_normal hnormal).mpr)
  | @call _ name s o _ ih =>
    obtain ⟨k', hcontent, hcalled, _⟩ := hg.of_call hp
    rw [Phrase.content, ← hcontent]
    exact ih hknow hs ho hcalled (sees_nil _)

/-! ### A run over a derivation -/

/-- The run is done with just this forest and these tokens left, or rules nest too deep. -/
inductive Builds (v : Vocabulary) (s : State) (f : List Tree) (left : List Token) : Outcome → Prop
  | done {s' : State} : s'.forest = f.reverse ++ s.forest → s'.rest = left →
      Builds v s f left (.done s')
  | tooDeep {s' : State} : TooDeep v s' → Builds v s f left (.halted s')

/-- What lies ahead of a form is seen in front of the leaves of what it derives. -/
theorem Faithful.sees_leaves (hg : Faithful v absent rules heads follow g) {φ : Form}
    {f : List Tree} {left : List Token} (hf : Unfolds rules φ f) (hk : Sees k (names left)) :
    Sees (φ.ahead heads k) (names (leavesOf f ++ left)) := by
  rw [names, List.map_append]
  exact sees_ahead hg.outlooks hf.derives hk

/-- A derivation of a node is that node, over a derivation of what its body builds. -/
theorem Phrase.unfolds_node_of_faithful {name : String} {body : Phrase} {f : List Tree}
    (hp : (Phrase.node name body).faithful v absent rules heads follow κ k = true)
    (hf : Unfolds rules ((Phrase.node name body).content v absent κ) f) :
    body.faithful v absent rules heads follow κ k = true ∧
      ∃ inner, Unfolds rules (body.content v absent κ) inner ∧ f = [.node name inner] := by
  cases hκ : κ.blind with
  | true =>
    rw [Phrase.content, hκ, if_pos rfl] at hf
    exact absurd hf not_unfolds_never
  | false =>
    obtain ⟨⟨φ, hl, hnormal⟩, hbody⟩ := Phrase.production_of_faithful hp hκ
    rw [Phrase.content, hκ, if_neg (by decide), unfolds_rule] at hf
    obtain ⟨_, inner, hl', hinner, rfl⟩ := hf
    cases hl.symm.trans hl'
    exact ⟨hbody, inner, (unfolds_of_normal hnormal).mp hinner, rfl⟩

/-- **On the leaves of a derivation a faithful phrase builds that derivation, whatever may
follow, unless rules nest too deep.** -/
theorem builds_of_runs (hg : Faithful v absent rules heads follow g) (hv : v.WellNamed)
    (h : Runs (g.parsing v' size) open_ p s o) (hknow : KnowSame v' v (names s.rest))
    (hs : UnderWay v s)
    (hp : p.faithful v absent rules heads follow κ k = true) {f : List Tree}
    (hf : Unfolds rules (p.content v absent κ) f) {left : List Token}
    (hrest : s.rest = leavesOf f ++ left) (hk : Sees k (names left)) :
    Builds v' s f left o := by
  induction h generalizing κ k f left with
  | empty =>
    obtain rfl := unfolds_empty.mp hf
    exact .done rfl hrest
  | take =>
    obtain ⟨allowed, κ, rfl, hform, _⟩ := Form.ofNext_of_ensures (v := v) hp
    rw [Phrase.content, hform, unfolds_token] at hf
    obtain ⟨t, _, rfl⟩ := hf
    exact .done (by simp [State.take, hrest, leavesOf, leaves])
      (by simp [State.take, hrest, leavesOf, leaves])
  | reject => exact absurd hf not_unfolds_never
  | @seq _ a b s s₁ o ha _ iha ihb =>
    obtain ⟨f₁, f₂, h₁, h₂, rfl⟩ := unfolds_seq.mp hf
    simp only [Phrase.faithful, Bool.and_eq_true] at hp
    rw [leavesOf_append, List.append_assoc] at hrest
    cases iha hknow hs hp.1 h₁ hrest (hg.sees_leaves h₂ hk) with
    | done hforest hrest₁ =>
      cases ihb (hknow.mono (names_subset ha.rest_suffix)) (hs.done ha) hp.2 h₂ hrest₁ hk with
      | done hforest' hrest' =>
        refine .done ?_ hrest'
        rw [hforest', hforest, List.reverse_append, List.append_assoc]
      | tooDeep hd => exact .tooDeep hd
  | @seqHalt _ a b s s₁ _ ih =>
    obtain ⟨f₁, f₂, h₁, h₂, rfl⟩ := unfolds_seq.mp hf
    simp only [Phrase.faithful, Bool.and_eq_true] at hp
    rw [leavesOf_append, List.append_assoc] at hrest
    cases ih hknow hs hp.1 h₁ hrest (hg.sees_leaves h₂ hk) with
    | tooDeep hd => exact .tooDeep hd
  | @chooseYes _ test a b s o hy _ ih =>
    simp only [Phrase.faithful, Bool.and_eq_true] at hp
    rw [ask_parsing] at ih
    rw [Lookahead.ask_widen (hknow)] at hy
    rcases unfolds_alt.mp hf with hf | hf
    · exact ih hknow hs hp.1.2 hf hrest hk
    · have hahead := hrest ▸ hg.sees_leaves hf hk
      rw [hahead.sure hs hv hp.1.1.2] at hy
      cases hy
  | @chooseNo _ test a b s o hn _ ih =>
    simp only [Phrase.faithful, Bool.and_eq_true] at hp
    rw [ask_parsing] at ih
    rw [Lookahead.ask_widen (hknow)] at hn
    rcases unfolds_alt.mp hf with hf | hf
    · have hahead := hrest ▸ hg.sees_leaves hf hk
      rw [hahead.sure hs hv hp.1.1.1] at hn
      cases hn
    · exact ih hknow hs hp.2 hf hrest hk
  | loop _ ih => exact ih hknow hs (Phrase.faithful_unrollLoop hp) (unfolds_many.mp hf) hrest hk
  | chain => cases hp
  | tooDeep => exact .tooDeep (tooDeep_complain hs.error)
  | node _ _ ih =>
    obtain ⟨hbody, inner, hinner, rfl⟩ := Phrase.unfolds_node_of_faithful hp hf
    cases ih hknow ⟨hs.typed, hs.error⟩ hbody hinner
        (by simpa [leavesOf, leaves] using hrest) hk with
    | done hforest hleft => exact .done (by simp [State.close, hforest]) hleft
  | nodeHalt _ _ ih =>
    obtain ⟨hbody, inner, hinner, rfl⟩ := Phrase.unfolds_node_of_faithful hp hf
    cases ih hknow ⟨hs.typed, hs.error⟩ hbody hinner
        (by simpa [leavesOf, leaves] using hrest) hk with
    | tooDeep hd => exact .tooDeep hd.close
  | @call _ name s o _ ih =>
    obtain ⟨k', hcontent, hcalled, hcovers⟩ := hg.of_call hp
    rw [Phrase.content, ← hcontent] at hf
    exact ih hknow hs hcalled hf hrest (hk.covered hcovers)

end

end GraphLanguages.Grammar
