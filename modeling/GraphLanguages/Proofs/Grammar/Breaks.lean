import GraphLanguages.Proofs.Grammar.Bearings
import GraphLanguages.Proofs.Grammar.Parallel

/-! Where tokens break off.

Over the same tokens a parse and content assist do the same to the end, where both answer
every question no. So when content assist has asked for something below a marked rule, it
is still below the rule, and there the parse stops (`error_of_hinted`). In a grammar that
gives up below marked rules only behind a question that leaves a note, the converse holds
as well, unless the rules are nested too deep (`hinted_of_error`). -/
namespace GraphLanguages.Grammar

/-! ### Giving up behind a question -/

/-- Does the question leave a note at the end, whatever it answers? -/
def Lookahead.leavesNote (v : Vocabulary) : Lookahead → Bool
  | .is name | .tagged _ name => (v.get? name).isSome
  | .anyOf names => names.any fun name => (v.get? name).isSome
  | .either a _ | .both a _ | .negated a => a.leavesNote v
  | .aheadIs .. | .aheadTagged .. | .atEnd => false

/-- Below marked rules the phrase gives up only behind a question that leaves a note.
`hinted` tells whether there is a hint before the phrase if it starts at the end. -/
def Phrase.forewarns (m : Marking) (v : Vocabulary) : (marked hinted : Bool) → Phrase → Bool
  | _, _, .empty | _, _, .take | _, _, .call _ => true
  | marked, hinted, .reject _ => !marked || hinted
  | marked, hinted, .seq a b => a.forewarns m v marked hinted && b.forewarns m v marked false
  | marked, hinted, .choose test a b =>
    a.forewarns m v marked (hinted || marked && test.leavesNote v) &&
      b.forewarns m v marked (hinted || marked && test.leavesNote v)
  | marked, _, .loop test body => body.forewarns m v marked (marked && test.leavesNote v)
  | marked, _, .chain item _ gap _ =>
    item.forewarns m v marked false && gap.forewarns m v marked false
  | marked, hinted, .node name body =>
    body.forewarns m v (marked || m.rules.contains name) hinted

/-- A grammar in which every phrase does. -/
structure Forewarning (m : Marking) (v : Vocabulary) (g : Grammar) : Prop where
  entry : g.entry.forewarns m v false false = true
  rules : ∀ r ∈ g.rules, ∀ marked, r.2.forewarns m v marked false = true

instance (m : Marking) (v : Vocabulary) (g : Grammar) : Decidable (Forewarning m v g) :=
  decidable_of_iff
    (g.entry.forewarns m v false false = true ∧
      ∀ r ∈ g.rules, ∀ marked, r.2.forewarns m v marked false = true)
    ⟨fun h => ⟨h.1, h.2⟩, fun h => ⟨h.entry, h.rules⟩⟩

section
variable {m : Marking} {v : Vocabulary} {g : Grammar} {marked hinted : Bool}

theorem Forewarning.rule (h : Forewarning m v g) (name : String) (marked : Bool) :
    (g.rule name).forewarns m v marked false = true :=
  forall_rule (P := fun p => p.forewarns m v marked false = true) rfl
    (fun r hr => h.rules r hr marked) name

theorem forewarns_unrollLoop {test : Lookahead} {body : Phrase}
    (h : (Phrase.loop test body).forewarns m v marked hinted = true) :
    (Phrase.unrollLoop test body).forewarns m v marked false = true := by
  simp only [Phrase.forewarns] at h
  simp [Phrase.unrollLoop, Phrase.forewarns, h]

theorem forewarns_unrollChain {item gap : Phrase} {separator : String} {more : Lookahead}
    (h : (Phrase.chain item separator gap more).forewarns m v marked hinted = true) :
    (Phrase.unrollChain item separator gap more).forewarns m v marked false = true := by
  simp only [Phrase.forewarns, Bool.and_eq_true] at h
  simp [Phrase.unrollChain, Phrase.chainTail, Phrase.forewarns, h]

namespace Lookahead
variable {σ : Setting} {open_ : List String} {s : State}

theorem exists_note_foldl {names : List String} {a : Bool × State} (hn : a.2.noting σ = true)
    {name : String} (hmem : name ∈ names) (ht : (σ.vocabulary.get? name).isSome = true) :
    ∃ c ∈ (names.foldl (alsoAsk σ open_) a).2.noted, c.rules = open_.reverse := by
  induction names generalizing a with
  | nil => cases hmem
  | cons n ns ih =>
    rcases List.mem_cons.mp hmem with rfl | hmem
    · obtain ⟨type, htype⟩ := Option.isSome_iff_exists.mp ht
      obtain ⟨c, hc, -, hrules⟩ := exists_mem_noted_note open_ a.2 htype
      have hask : (alsoAsk σ open_ a name).2 = a.2.note σ open_ name := by
        simp [alsoAsk, askFor, hn]
      exact ⟨c, (foldl_alsoAsk_notes ns _).subset (hask ▸ hc), hrules⟩
    · exact ih ((noting_congr (askFor_notes σ open_ n a.2).rest).trans hn) hmem

theorem exists_note (hn : s.noting σ = true) {test : Lookahead}
    (ht : test.leavesNote σ.vocabulary = true) :
    ∃ c ∈ (test.ask σ open_ s).2.noted, c.rules = open_.reverse := by
  induction test generalizing s with
  | is name =>
    exact exists_note_foldl (a := (false, s)) hn (List.mem_singleton_self name) ht
  | anyOf names =>
    obtain ⟨name, hmem, ht⟩ := List.any_eq_true.mp ht
    exact exists_note_foldl (a := (false, s)) hn hmem ht
  | tagged _ name =>
    obtain ⟨type, htype⟩ := Option.isSome_iff_exists.mp ht
    obtain ⟨c, hc, -, hrules⟩ := exists_mem_noted_note open_ s htype
    simp only [ask, hn, if_true]
    exact ⟨c, hc, hrules⟩
  | either a b iha _ =>
    obtain ⟨c, hc, hrules⟩ := iha hn ht
    rw [ask_either]
    split
    · exact ⟨c, hc, hrules⟩
    · exact ⟨c, (ask_notes ..).subset hc, hrules⟩
  | both a b iha _ =>
    obtain ⟨c, hc, hrules⟩ := iha hn ht
    rw [ask_both]
    split
    · exact ⟨c, (ask_notes ..).subset hc, hrules⟩
    · exact ⟨c, hc, hrules⟩
  | negated a ih => exact ih hn ht
  | aheadIs | aheadTagged | atEnd => cases ht

end Lookahead

end

/-! ### Over the same tokens -/

/-- How both end over the same tokens: done, with what is then known, or stopped. Then a
hint means that the tokens have ended below a marked rule, and the other way round unless
the rules are nested too deep. -/
inductive Breaking (m : Marking) (v : Vocabulary) (marked : Bool) (x : Course) :
    Outcome → Outcome → Prop
  | done {s s' : State} {k : Bearing} : x.after = some k → s.rest = s'.rest →
      s.error = none → k.Fits m marked s' → Breaking m v marked x (.done s) (.done s')
  | halted {s s' : State} {e : SyntaxError} : s.error = some e →
      (s'.Hinted m → s.rest = [] ∧ m.covers e.rules = true) →
      (s.rest = [] → m.covers e.rules = true → e.message ≠ Complaint.tooDeep.message v →
        s'.Hinted m) →
      Breaking m v marked x (.halted s) (.halted s')

section
variable {m : Marking} {v : Vocabulary} {g : Grammar} {marked : Bool} {x y : Course}
  {hinted : Bool} {k : Bearing} {o o' : Outcome} {s s' : State} {size size' : Nat}
  {open_ : List String} {p : Phrase}

/-- Over the same tokens, both answer alike, at the end as well. -/
theorem Lookahead.ask_eq (g : Grammar) (v : Vocabulary) (size size' : Nat)
    (open_ : List String) (h : s.rest = s'.rest) {test : Lookahead} (hg : test.grounded = true) :
    (test.ask (g.parsing v size) open_ s).1 = (test.ask (g.assisting v size') open_ s').1 := by
  by_cases hend : s.rest = []
  · rw [test.ask_at_end rfl hend hg, test.ask_at_end rfl (h ▸ hend) hg]
  · exact (test.ask_parallel g v size size' open_ open_ h hend).1

/-- Away from marked rules there is no new hint; below one, a question that leaves a note
at the end leaves a hint. -/
theorem Lookahead.hinted_ask {test : Lookahead} (hm : m.covers open_ = marked)
    (hhint : hinted = true → s'.rest = [] → s'.Hinted m)
    (h : (hinted || marked && test.leavesNote v) = true)
    (hend : (test.ask (g.assisting v size') open_ s').2.rest = []) :
    (test.ask (g.assisting v size') open_ s').2.Hinted m := by
  have hnotes := test.ask_notes (g.assisting v size') open_ s'
  have hend : s'.rest = [] := hnotes.rest.symm.trans hend
  rcases Bool.or_eq_true_iff.mp h with h | h
  · exact (hhint h hend).mono hnotes.subset
  · obtain ⟨hmarked, ht⟩ := Bool.and_eq_true_iff.mp h
    have hnoting : s'.noting (g.assisting v size') = true := noting_at_end rfl hend
    obtain ⟨c, hc, hrules⟩ := exists_note hnoting ht
    exact ⟨c, hc, by rw [hrules, m.covers_reverse, hm, hmarked]⟩

theorem Breaking.mono (h : Breaking m v marked x o o')
    (ha : ∀ k, x.after = some k → ∃ l, y.after = some l ∧ k.Tells l) :
    Breaking m v marked y o o' := by
  cases h with
  | done hk hs he hfits =>
    obtain ⟨l, hl, htells⟩ := ha _ hk
    exact .done hl hs he (hfits.mono htells)
  | halted he hh hc => exact .halted he hh hc

/-- A complaint names the open rules, and there are hints only at the end and below marked
rules. -/
theorem breaking_complain {σ : Setting} {c : Complaint} (hs : s.rest = s'.rest)
    (he : s.error = none) (hm : m.covers open_ = marked) (hk : k.Fits m marked s')
    (hc : marked = true → s'.rest = [] → c ≠ .tooDeep → s'.Hinted m) :
    Breaking m v marked x (.halted (s.complain (g.parsing v size) open_ c))
      (.halted (s'.complain σ open_ c)) := by
  obtain ⟨e, he, hrules, hmessage⟩ :
      ∃ e, (s.complain (g.parsing v size) open_ c).error = some e ∧
        e.rules = open_.reverse ∧ e.message = c.message v := by
    refine ⟨_, by simp only [State.complain, parsing, he]; rfl, rfl, rfl⟩
  have hcovers : m.covers e.rules = marked := by rw [hrules, m.covers_reverse, hm]
  refine .halted he (fun hh => ?_) fun hend hmarked hdeep => ?_
  · rw [State.Hinted, complain_noted] at hh
    rw [complain_rest, hs, hcovers]
    constructor
    · by_contra hne
      exact hk.quiet (.inl hne) hh
    · by_contra hmarked
      exact hk.quiet (.inr fun h => absurd h hmarked) hh
  · rw [State.Hinted, complain_noted]
    rw [complain_rest, hs] at hend
    refine hc (hcovers ▸ hmarked) hend ?_
    rintro rfl
    exact hdeep hmessage

theorem Breaking.close {name : String} {outer outer' : List Tree}
    (h : Breaking m v (marked || m.rules.contains name) x o o')
    (hclean : ∀ l, x.after = some l → marked = false → m.rules.contains name = true →
      l.clean = true) :
    Breaking m v marked x (o.map (State.close name outer)) (o'.map (State.close name outer')) := by
  cases h with
  | done hl hs he hk => exact .done hl hs he (hk.close (hclean _ hl))
  | halted he hh hc => exact .halted he hh hc

/-- **Over the same tokens, there is a hint exactly where the parse stops at the end below
a marked rule.** -/
theorem breaking_of_runs (hh : Hints m v g) (hw : Forewarning m v g)
    (h : Runs (g.parsing v size) open_ p s o) (h' : Runs (g.assisting v size') open_ p s' o')
    (hm : m.covers open_ = marked) (hs : s.rest = s'.rest) (he : s.error = none)
    (hk : k.Fits m marked s') (hp : p.course m v g marked k = some x)
    (hhint : hinted = true → s'.rest = [] → s'.Hinted m)
    (hf : p.forewarns m v marked hinted = true) : Breaking m v marked x o o' := by
  induction h generalizing s' o' marked k x hinted with
  | empty =>
    cases h'
    cases hp
    exact .done rfl hs he hk
  | @take _ s =>
    cases h'
    simp only [Phrase.course] at hp
    split at hp
    next ha =>
      cases hp
      refine .done rfl (by rw [take_rest, take_rest, hs]) ?_ (hk.take ha)
      unfold State.take
      split <;> exact he
    next => cases hp
  | reject =>
    cases h'
    refine breaking_complain hs he hm hk fun hmarked hend _ => hhint ?_ hend
    simpa [Phrase.forewarns, hmarked] using hf
  | seq _ _ iha ihb =>
    obtain ⟨y, z, i, hya, hzb, -, rfl⟩ := exists_of_course_seq hp
    obtain ⟨hfa, hfb⟩ := Bool.and_eq_true_iff.mp hf
    obtain ⟨o₁', ha', hb'⟩ := h'.exists_onward
    cases iha ha' hm hs he hk hya hhint hfa with
    | done hl hs₁ he₁ hk₁ =>
      rw [hl, Option.elim_some] at hzb
      cases hb' with
      | done hb' =>
        exact (ihb hb' hm hs₁ he₁ hk₁ hzb (by rintro ⟨⟩) hfb).mono fun k hk =>
          ⟨k, hk, .refl k⟩
  | seqHalt _ ih =>
    obtain ⟨y, z, i, hya, -, -, rfl⟩ := exists_of_course_seq hp
    obtain ⟨hfa, -⟩ := Bool.and_eq_true_iff.mp hf
    obtain ⟨o₁', ha', hb'⟩ := h'.exists_onward
    cases ih ha' hm hs he hk hya hhint hfa with
    | halted he₁ hh hc =>
      cases hb'
      exact .halted he₁ hh hc
  | @chooseYes open_ test _ _ s _ hy _ ih =>
    obtain ⟨⟨hgr, -, hn⟩, y, z, i, hya, -, -, rfl⟩ := course_choose.mp hp
    rw [test.ask_eq g v size size' open_ hs hgr] at hy
    rw [ask_parsing] at ih
    have hne : s'.rest ≠ [] := fun hend => by cases hy.symm.trans (hk.ask_at_end hn hend)
    obtain ⟨u, us, hrest⟩ := List.exists_cons_of_ne_nil hne
    have hrun' := h'.of_yes hy
    rw [test.ask_quiet (noting_of_cons hrest)] at hrun'
    exact (ih hrun' hm hs he (hk.yes _ hne) hya (fun _ hend => absurd hend hne)
      (Bool.and_eq_true_iff.mp hf).1).mono exists_joinAfter_left
  | @chooseNo open_ test _ _ s _ hn _ ih =>
    obtain ⟨⟨hgr, -, -⟩, y, z, i, -, hzb, -, rfl⟩ := course_choose.mp hp
    rw [test.ask_eq g v size size' open_ hs hgr] at hn
    rw [ask_parsing] at ih
    have hs₁ : s.rest = (test.ask (g.assisting v size') open_ s').2.rest :=
      hs.trans (test.ask_notes ..).rest.symm
    exact (ih (h'.of_no hn) hm hs₁ he (hk.no hm) hzb (test.hinted_ask hm hhint)
      (Bool.and_eq_true_iff.mp hf).2).mono exists_joinAfter_right
  | loop _ ih =>
    obtain ⟨hafter, y, hy, -⟩ := exists_course_unrollLoop hp
    cases h' with
    | loop h' =>
      exact (ih h' hm hs he (hk.mono k.tells_nothing) hy (by rintro ⟨⟩)
        (forewarns_unrollLoop hf)).mono fun l _ => ⟨{}, hafter, l.tells_nothing⟩
  | chain _ ih =>
    obtain ⟨rfl, y, hy⟩ := exists_course_unrollChain hp
    cases h' with
    | chain h' =>
      exact (ih h' hm hs he (hk.mono k.tells_nothing) hy (by rintro ⟨⟩)
        (forewarns_unrollChain hf)).mono fun l _ => ⟨{}, rfl, l.tells_nothing⟩
  | tooDeep hd =>
    cases h' with
    | tooDeep => exact breaking_complain hs he hm hk fun _ _ hdeep => absurd rfl hdeep
    | node hd' | nodeHalt hd' => omega
  | @node open_ name _ _ _ hd _ ih | @nodeHalt open_ name _ _ _ hd _ ih =>
    obtain ⟨o₁', hbody, rfl⟩ := h'.of_node hd
    obtain ⟨hcourse, hclean⟩ := course_node hp
    exact (ih hbody (m.covers_below hm name) hs he (hk.reopen _) hcourse hhint hf).close hclean
  | call _ ih =>
    obtain ⟨l, y, htells, hy, -⟩ := hh.exists_course_rule hp
    obtain ⟨rfl, -, -⟩ := course_call hp
    cases h' with
    | call h' =>
      exact (ih h' hm hs he (hk.mono htells) hy (by rintro ⟨⟩) (hw.rule _ _)).mono
        fun l _ => ⟨{}, rfl, l.tells_nothing⟩

section
variable {tokens : List Token} {root : String}

/-- How a document's tokens break off. -/
theorem breaking_entry (hh : Hints m v g) (hw : Forewarning m v g)
    (hroot : m.rules.contains root = false)
    (h : Runs (g.parsing v size) [root] g.entry { rest := tokens } o)
    (h' : Runs (g.assisting v size') [root] g.entry { rest := tokens } o') :
    ∃ x, Breaking m v false x o o' := by
  obtain ⟨x, hx⟩ := Option.isSome_iff_exists.mp hh.entry
  refine ⟨x, breaking_of_runs hh hw h h' (by simpa using hroot) rfl rfl ?_ hx (by rintro ⟨⟩)
    hw.entry⟩
  exact ⟨by rintro ⟨⟩, fun _ hh => by simp [State.Hinted] at hh⟩

/-- **Where content assist asks for something below a marked rule, a parse of the same
tokens takes them all and stops below one.** -/
theorem error_of_hinted (hh : Hints m v g) (hw : Forewarning m v g) (hprog : Progressive g)
    (hroot : m.rules.contains root = false)
    (h : ∃ c ∈ g.assist v root tokens, m.covers c.rules = true) :
    (g.parse v root size tokens).1.leaves = tokens ∧
      ∃ e, (g.parse v root size tokens).2 = some e ∧ m.covers e.rules = true := by
  obtain ⟨o, ho⟩ := hprog.exists_runs_document v root size tokens
  obtain ⟨o', ho'⟩ := hprog.exists_runs_entry v root tokens
  have hhinted : o'.state.Hinted m := by
    obtain ⟨c, hc, hm⟩ := h
    rw [assist_of_runs ho', List.mem_reverse] at hc
    exact ⟨c, hc, hm⟩
  rw [leaves_parse_eq_iff ho, parse_of_runs ho]
  cases ho with
  | seq hentry _ =>
    obtain ⟨x, hx⟩ := breaking_entry hh hw hroot hentry ho'
    cases hx with
    | done _ _ _ hk₁ => exact absurd hhinted (hk₁.quiet (.inr (by rintro ⟨⟩)))
  | seqHalt hentry =>
    obtain ⟨x, hx⟩ := breaking_entry hh hw hroot hentry ho'
    cases hx with
    | halted he hhint _ =>
      obtain ⟨hrest, hcovers⟩ := hhint hhinted
      exact ⟨hrest, _, he, hcovers⟩

/-- **Where a parse takes all tokens and stops below a marked rule, content assist asks
for something below one, unless the rules are nested too deep.** -/
theorem hinted_of_error (hh : Hints m v g) (hw : Forewarning m v g) (hprog : Progressive g)
    (hroot : m.rules.contains root = false) {e : SyntaxError}
    (hall : (g.parse v root size tokens).1.leaves = tokens)
    (he : (g.parse v root size tokens).2 = some e) (hc : m.covers e.rules = true)
    (hdeep : e.message ≠ Complaint.tooDeep.message v) :
    ∃ c ∈ g.assist v root tokens, m.covers c.rules = true := by
  obtain ⟨o, ho⟩ := hprog.exists_runs_document v root size tokens
  obtain ⟨o', ho'⟩ := hprog.exists_runs_entry v root tokens
  have hrest : o.state.rest = [] := (leaves_parse_eq_iff ho).mp hall
  rw [parse_of_runs ho] at he
  have hhinted : o'.state.Hinted m := by
    cases ho with
    | seq hentry hfinish =>
      obtain ⟨x, hx⟩ := breaking_entry hh hw hroot hentry ho'
      cases hx with
      | done _ _ he₁ _ =>
        -- at the end there is nothing left over to complain of
        cases hfinish with
        | chooseYes _ hdone =>
          cases hdone
          cases he₁.symm.trans he
        | chooseNo hno hleft =>
          cases hleft
          rw [Outcome.state, complain_rest] at hrest
          have hrest : _ = [] := (Lookahead.ask_notes ..).rest.symm.trans hrest
          simp [Lookahead.ask, hrest] at hno
    | seqHalt hentry =>
      obtain ⟨x, hx⟩ := breaking_entry hh hw hroot hentry ho'
      cases hx with
      | halted he₁ _ hhint =>
        obtain rfl := Option.some.inj (he₁.symm.trans he)
        exact hhint hrest hc hdeep
  obtain ⟨c, hc, hm⟩ := hhinted
  exact ⟨c, by rwa [assist_of_runs ho', List.mem_reverse], hm⟩

end

end

end GraphLanguages.Grammar
