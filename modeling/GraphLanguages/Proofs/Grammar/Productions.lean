import GraphLanguages.Proofs.Grammar.Kept
import GraphLanguages.Proofs.Grammar.Outlook
import GraphLanguages.Proofs.Grammar.Progress

/-! The productions of a grammar.

What a phrase consumes can be read off it as a form (`Phrase.form`), given what is known
of the tokens ahead: a choice stands for either branch, each with what the answer tells,
and a token that is taken has one of the names that are possible then. Whatever a phrase
has consumed when it is done derives from its form (`derives_of_runs`). -/
namespace GraphLanguages.Grammar
open Computability

namespace Lookahead

/-- What is known once the question has the answer. -/
def narrow (v : Vocabulary) (test : Lookahead) (answer : Bool) (κ : Outlook) : Outlook :=
  match test.place? with
  | some place => κ.narrow ("EOF" :: v.names) (test.accepts v · == answer) place
  | none => κ

/-- Is it known that the question has the answer? -/
def sure (v : Vocabulary) (test : Lookahead) (answer : Bool) (κ : Outlook) : Bool :=
  match test.place? with
  | some place => κ.ensures (test.accepts v · == answer) place
  | none => false

end Lookahead

/-- A token out of those that may come next; nothing is taken at the end. -/
def Form.ofNext (v : Vocabulary) (κ : Outlook) : Form :=
  if (κ.headD ("EOF" :: v.names)).contains "EOF" then
    .alt (.token ((κ.headD ("EOF" :: v.names)).filter (· != "EOF"))) .empty
  else .token (κ.headD ("EOF" :: v.names))

/-- A chain of items with a separator between them, and perhaps one at the end. -/
def Form.chain (item separator gap : Form) : Form :=
  .seq item (.seq (.many (.seq separator (.seq gap item))) (.optional (.seq separator gap)))

namespace Phrase

/-- What is still known behind the phrase. -/
def after (κ : Outlook) : Phrase → Outlook
  | .empty => κ
  | .take => κ.tail
  | _ => []

/-- What the phrase consumes. -/
def form (v : Vocabulary) (g : Grammar) : Phrase → Outlook → Form
  | .empty, _ => .empty
  | .take, κ => .ofNext v κ
  | .reject _, _ => .never
  | .seq a b, κ => .seq (a.form v g κ) (b.form v g (a.after κ))
  | .choose test a b, κ =>
    .alt (a.form v g (test.narrow v true κ)) (b.form v g (test.narrow v false κ))
  | .loop test body, κ =>
    if test.sure v true κ then (body.form v g (test.narrow v true [])).several
    else .many (body.form v g (test.narrow v true []))
  | .chain item separator gap _, _ =>
    .chain (item.form v g []) (.ofNext v ((Lookahead.is separator).narrow v true []))
      (gap.form v g [])
  | .node _ body, κ => body.form v g κ
  | .call name, _ => if (g.rules.lookup name).isSome then .rule name else .empty

end Phrase

/-- One production for each named phrase. -/
def productions (g : Grammar) (v : Vocabulary) : List (String × Form) :=
  g.rules.map fun r => (r.1, r.2.form v g [])

theorem lookup_productions {g : Grammar} {v : Vocabulary} {name : String} :
    (g.productions v).lookup name =
      if (g.rules.lookup name).isSome then some ((g.rule name).form v g []) else none := by
  unfold productions Grammar.rule
  induction g.rules with
  | nil => rfl
  | cons r rules ih =>
    rw [List.map_cons, List.lookup_cons, List.lookup_cons]
    cases name == r.1
    · exact ih
    · rfl

section
variable {g : Grammar} {v : Vocabulary} {size : Nat} {open_ : List String} {s : State}

/-! ### What is known along a run -/

theorem UnderWay.spells (h : UnderWay v s) : v.Spells (names s.rest) := by
  intro u hu
  obtain ⟨t, ht, rfl⟩ := List.mem_map.mp hu
  exact List.mem_map.mpr ⟨t.type, h.typed t ht, rfl⟩

/-- A question about one place is answered by the name there. -/
theorem UnderWay.answer_look (hs : UnderWay v s) (hv : v.WellNamed) {test : Lookahead}
    {place : Nat} (hp : test.place? = some place) :
    (test.ask (g.parsing v size) open_ s).1 = test.accepts v (look (names s.rest) place) := by
  rw [hs.answer hv.distinct (Lookahead.grounded_of_place? hp), Lookahead.holdsOn_eq_accepts hv hp]

/-- What an answer tells. -/
theorem Sees.answered {κ : Outlook} (hκ : Sees κ (names s.rest)) (hs : UnderWay v s)
    (hv : v.WellNamed) (test : Lookahead) {answer : Bool}
    (ha : (test.ask (g.parsing v size) open_ s).1 = answer) :
    Sees (test.narrow v answer κ) (names s.rest) := by
  unfold Lookahead.narrow
  split
  next place hp =>
    refine hκ.narrow (look_mem hs.spells) ?_
    rw [beq_iff_eq, ← hs.answer_look hv hp, ha]
  next => exact hκ

theorem Sees.sure {κ : Outlook} (hκ : Sees κ (names s.rest)) (hs : UnderWay v s)
    (hv : v.WellNamed) {test : Lookahead} {answer : Bool} (h : test.sure v answer κ = true) :
    (test.ask (g.parsing v size) open_ s).1 = answer := by
  unfold Lookahead.sure at h
  split at h
  next place hp =>
    rw [hs.answer_look hv hp]
    exact beq_iff_eq.mp (hκ.ensures h)
  next => cases h

theorem names_take (s : State) : names s.take.rest = (names s.rest).tail := by
  rw [take_rest, names, names, List.map_tail]

theorem Sees.after {κ : Outlook} {p : Phrase} {s' : State} (hκ : Sees κ (names s.rest))
    (h : Runs (g.parsing v size) open_ p s (.done s')) : Sees (p.after κ) (names s'.rest) := by
  cases h with
  | empty => exact hκ
  | take => exact names_take s ▸ hκ.tail
  | _ => trivial

theorem after_take (κ : Outlook) : Phrase.take.after κ = κ.tail := rfl

theorem after_nil (p : Phrase) : p.after [] = [] := by
  cases p <;> rfl

theorem tail_narrow_is (name : String) (answer : Bool) :
    ((Lookahead.is name).narrow v answer []).tail = [] := by
  unfold Lookahead.narrow
  split
  next place hp =>
    simp only [Lookahead.place?] at hp
    split at hp
    next => cases hp
    next =>
      cases hp
      rfl
  next => rfl

/-! ### Repetitions -/

section
variable {rules : List (String × Form)} {w : Word}

theorem derives_several_many {a : Form} (h : Derives rules a.several w) :
    Derives rules (.many a) w := by
  obtain ⟨w₁, w₂, ha, hm, rfl⟩ := derives_seq.mp h
  exact .more ha hm

/-- Whatever is known in front of a loop, it is a number of rounds. -/
theorem derives_many_of_loop {test : Lookahead} {body : Phrase} {κ : Outlook}
    (h : Derives rules ((Phrase.loop test body).form v g κ) w) :
    Derives rules (.many (body.form v g (test.narrow v true []))) w := by
  rw [Phrase.form] at h
  split at h
  · exact derives_several_many h
  · exact h

/-- A chain goes on behind its first item as it does when it is run. -/
theorem derives_chain {item separator gap : Form} :
    Derives rules (.chain item separator gap) w ↔
      Derives rules (.seq item (.alt (.seq separator (.seq gap
        (.alt (.chain item separator gap) .empty))) .empty)) w := by
  have h (i s g : WordsOver String) : i * ((s * (g * i))∗ * (s * g + 1)) =
      i * (s * (g * (i * ((s * (g * i))∗ * (s * g + 1)) + 1)) + 1) := by
    conv_lhs => rw [← Language.one_add_self_mul_kstar_eq_kstar]
    simp only [add_mul, mul_add, one_mul, mul_one, mul_assoc]
    ac_rfl
  rw [← mem_language, ← mem_language]
  exact Eq.to_iff (congrArg (w ∈ ·) (h _ _ _))

end

/-! ### What a run has consumed -/

/-- The tokens between two states are a word of the form. -/
def Consumed (rules : List (String × Form)) (φ : Form) (s s' : State) : Prop :=
  ∃ w, names s.rest = w ++ names s'.rest ∧ Derives rules φ w

namespace Consumed
variable {rules : List (String × Form)} {φ ψ : Form} {s₁ s' : State}

theorem mono (h : Consumed rules φ s s') (hφ : ∀ w, Derives rules φ w → Derives rules ψ w) :
    Consumed rules ψ s s' := by
  obtain ⟨w, hw, hd⟩ := h
  exact ⟨w, hw, hφ w hd⟩

theorem nothing (s : State) : Consumed rules .empty s s :=
  ⟨[], rfl, .empty⟩

theorem seq (h : Consumed rules φ s s₁) (h' : Consumed rules ψ s₁ s') :
    Consumed rules (.seq φ ψ) s s' := by
  obtain ⟨w, hw, hd⟩ := h
  obtain ⟨w', hw', hd'⟩ := h'
  exact ⟨w ++ w', by rw [hw, hw', List.append_assoc], .seq hd hd'⟩

theorem next {κ : Outlook} (hκ : Sees κ (names s.rest)) (hs : UnderWay v s) (hv : v.WellNamed) :
    Consumed rules (.ofNext v κ) s s.take := by
  have hmem : look (names s.rest) 0 ∈ κ.headD ("EOF" :: v.names) := by
    cases κ with
    | nil => exact look_mem hs.spells 0
    | cons names κ => exact hκ.1
  cases hrest : names s.rest with
  | nil =>
    rw [hrest] at hmem
    have hend : (κ.headD ("EOF" :: v.names)).contains "EOF" = true :=
      List.contains_iff_mem.mpr hmem
    rw [Form.ofNext, if_pos hend]
    exact ⟨[], by rw [names_take, hrest]; rfl, .second .empty⟩
  | cons u us =>
    rw [hrest] at hmem
    have hne : u ≠ "EOF" := by
      rintro rfl
      exact hv.no_end (hs.spells _ (hrest ▸ List.mem_cons_self ..))
    refine ⟨[u], by rw [names_take, hrest]; rfl, ?_⟩
    by_cases hend : (κ.headD ("EOF" :: v.names)).contains "EOF" = true
    · rw [Form.ofNext, if_pos hend]
      exact .first (.token (List.mem_filter.mpr ⟨hmem, bne_iff_ne.mpr hne⟩))
    · rw [Form.ofNext, if_neg hend]
      exact .token hmem

/-- A loop that goes round for sure takes a token at least. -/
theorem several (hg : Progressive g) {test : Lookahead} {body : Phrase}
    (hp : (Phrase.loop test body).progressive g = true)
    (h : Runs (g.parsing v size) open_ (Phrase.unrollLoop test body) s (.done s'))
    (hy : (test.ask (g.parsing v size) open_ s).1 = true)
    (hmany : Consumed rules (.many φ) s s') : Consumed rules φ.several s s' := by
  simp only [Phrase.progressive, Bool.and_eq_true, Bool.not_eq_true'] at hp
  obtain ⟨⟨⟨hgr, hend⟩, hmoves⟩, -⟩ := hp
  obtain ⟨w, hw, hd⟩ := hmany
  rcases derives_alt.mp (derives_many.mp hd) with hd | hd
  · exact ⟨w, hw, hd⟩
  · have h := h.of_yes hy
    rw [ask_parsing] at h
    have hg' : Progressive (g.parsing v size).grammar := hg
    have hne : s.rest ≠ [] := rest_ne_nil_of_yes rfl hgr hend hy
    have hlt := shorter_of_moves hg' h (by simp [Phrase.moves, parsing, hmoves]) hne s' rfl
    rw [derives_empty.mp hd] at hw
    have := congrArg List.length hw
    simp only [names, List.nil_append, List.length_map] at this
    omega

end Consumed

/-- **What a phrase has consumed when it is done derives from its form.** -/
theorem consumed_of_runs (hg : Progressive g) (hv : v.WellNamed) {p : Phrase} {o : Outcome}
    (h : Runs (g.parsing v size) open_ p s o) (hp : p.progressive g = true) (hs : UnderWay v s)
    {s' : State} (ho : o = .done s') {κ : Outlook} (hκ : Sees κ (names s.rest)) :
    Consumed (g.productions v) (p.form v g κ) s s' := by
  induction h generalizing κ s' with
  | empty =>
    cases ho
    exact .nothing _
  | take =>
    cases ho
    exact .next hκ hs hv
  | reject | seqHalt | tooDeep | nodeHalt => cases ho
  | @seq _ a b s s₁ o ha _ iha ihb =>
    simp only [Phrase.progressive, Bool.and_eq_true] at hp
    exact (iha hp.1 hs rfl hκ).seq (ihb hp.2 (hs.done ha) ho (hκ.after ha))
  | @chooseYes _ test a b s o hy _ ih =>
    simp only [Phrase.progressive, Bool.and_eq_true] at hp
    rw [ask_parsing] at ih
    exact (ih hp.1 hs ho (hκ.answered hs hv test hy)).mono fun _ => .first
  | @chooseNo _ test a b s o hn _ ih =>
    simp only [Phrase.progressive, Bool.and_eq_true] at hp
    rw [ask_parsing] at ih
    exact (ih hp.2 hs ho (hκ.answered hs hv test hn)).mono fun _ => .second
  | @loop _ test body s o h ih =>
    have hbody : body.progressive g = true := by
      simp only [Phrase.progressive, Bool.and_eq_true] at hp
      exact hp.2
    have hunroll : (Phrase.unrollLoop test body).progressive g = true := by
      change (body.progressive g && (Phrase.loop test body).progressive g && true) = true
      rw [hbody, hp]
      rfl
    -- a round says nothing of what comes behind it, so it is seen from nothing known
    have hround := ih hunroll hs ho (sees_nil _)
    have hmany : Consumed (g.productions v) (.many (body.form v g (test.narrow v true [])))
        s s' := by
      refine hround.mono fun w hw => derives_many.mpr ?_
      rcases derives_alt.mp hw with hw | hw
      · obtain ⟨w₁, w₂, hb, hl, rfl⟩ := derives_seq.mp hw
        exact .first (.seq hb (derives_many_of_loop hl))
      · exact .second hw
    simp only [Phrase.form]
    split
    next hy =>
      subst ho
      exact .several hg hp h (hκ.sure hs hv hy) hmany
    next => exact hmany
  | @chain _ item separator gap more s o _ ih =>
    have hparts := hp
    simp only [Phrase.progressive, Bool.and_eq_true] at hparts
    have hunroll : (Phrase.unrollChain item separator gap more).progressive g = true := by
      change (item.progressive g && ((true && (gap.progressive g &&
        ((Phrase.chain item separator gap more).progressive g && true))) && true)) = true
      rw [hparts.1.2, hparts.2, hp]
      rfl
    have hround := ih hunroll hs ho (sees_nil _)
    simp only [Phrase.unrollChain, Phrase.chainTail, Phrase.form, after_nil, after_take,
      tail_narrow_is] at hround
    exact hround.mono fun w => derives_chain.mpr
  | node _ _ ih =>
    cases ho
    exact ih hp ⟨hs.typed, hs.error⟩ rfl hκ
  | @call _ name s o h ih =>
    rw [Phrase.form]
    by_cases hsome : (g.rules.lookup name).isSome = true
    · obtain ⟨r, hr, hrule⟩ := rule_of_lookup hsome
      have hprog : (g.rule name).progressive g = true := hrule ▸ (hg.rules r hr).2.2
      refine (ih hprog hs ho (sees_nil _)).mono fun w hw => ?_
      rw [if_pos hsome]
      exact .rule (by rw [lookup_productions, if_pos hsome]; rfl) hw
    · change Runs _ _ (g.rule name) s o at h
      rw [rule_eq_empty hsome, ho] at h
      rw [if_neg hsome]
      cases h
      exact .nothing _

end

end GraphLanguages.Grammar
