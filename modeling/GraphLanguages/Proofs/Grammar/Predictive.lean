import GraphLanguages.Proofs.Grammar.Productions
import GraphLanguages.Proofs.Grammar.Widen

/-! Predictive grammars.

A phrase fits its surroundings if every question tells the two ways on apart by what lies
ahead of each, and every loop its next round from what comes behind it (`Phrase.fits`).
All of that is decided from the outlooks of forms. A phrase that fits consumes every word
of its form, unless rules nest too deep (`arrives_of_runs`). So a grammar whose phrases fit
accepts what its productions derive and nothing else, and the productions may as well be
written in any other way that comes out alike (`Describes.exact`). -/
namespace GraphLanguages.Grammar

/-- What can be seen in front of the named phrases, if they start with tokens. -/
def heads (g : Grammar) (v : Vocabulary) : List (String × Outlook) :=
  (g.productions v).map fun r => (r.1, r.2.ahead [] [])

section
variable (v : Vocabulary) (g : Grammar) (follow : List (String × Outlook))

/-- Given what is known in front of the phrase and what may come behind it, can a parse
tell which way to go? Named phrases have what may come behind them in `follow`. -/
def Phrase.fits : Phrase → Outlook → Outlook → Bool
  | .empty, _, _ | .reject _, _, _ => true
  | .take, κ, _ => κ.ensures (· != "EOF") 0
  | .seq a b, κ, k =>
    a.fits κ ((b.form v g (a.after κ)).ahead (g.heads v) k) && b.fits (a.after κ) k
  | .choose test a b, κ, k =>
    test.sure v true ((a.form v g (test.narrow v true κ)).ahead (g.heads v) k) &&
      test.sure v false ((b.form v g (test.narrow v false κ)).ahead (g.heads v) k) &&
      a.fits (test.narrow v true κ) k && b.fits (test.narrow v false κ) k
  | .loop test body, _, k =>
    let κ := test.narrow v true []
    let rounds := (Phrase.loop test body).form v g []
    (body.after κ).isEmpty &&
      test.sure v true ((Form.seq (body.form v g κ) rounds).ahead (g.heads v) k) &&
      test.sure v false k && body.fits κ (rounds.ahead (g.heads v) k)
  | .chain item separator gap more, _, k =>
    let κ := (Lookahead.is separator).narrow v true []
    let chain := (Phrase.chain item separator gap more).form v g []
    let more' := Form.alt chain .empty
    let tail := Form.seq (.ofNext v κ) (.seq (gap.form v g []) more')
    item.fits [] ((Form.alt tail .empty).ahead (g.heads v) k) &&
      (Lookahead.is separator).sure v true (tail.ahead (g.heads v) k) &&
      (Lookahead.is separator).sure v false k && κ.ensures (· != "EOF") 0 &&
      gap.fits [] (more'.ahead (g.heads v) k) &&
      more.sure v true (chain.ahead (g.heads v) k) && more.sure v false k
  | .node _ body, κ, k => body.fits κ k
  | .call name, _, k => ((follow.lookup name).getD []).covers k

/-- All phrases of the grammar fit, and the outlooks of the named ones are right. -/
structure Predictive : Prop where
  heads : Heads (g.productions v) (g.heads v)
  entry : g.entry.fits v g follow [] .last = true
  rules : ∀ r ∈ g.rules, r.2.fits v g follow [] ((follow.lookup r.1).getD []) = true

instance : Decidable (Predictive v g follow) :=
  decidable_of_iff
    (Heads (g.productions v) (g.heads v) ∧ g.entry.fits v g follow [] .last = true ∧
      ∀ r ∈ g.rules, r.2.fits v g follow [] ((follow.lookup r.1).getD []) = true)
    ⟨fun h => ⟨h.1, h.2.1, h.2.2⟩, fun h => ⟨h.heads, h.entry, h.rules⟩⟩

end

section
variable {v : Vocabulary} {g : Grammar} {follow : List (String × Outlook)}

/-! ### Repetitions fit as they are run -/

theorem sure_nil (test : Lookahead) (answer : Bool) : test.sure v answer [] = false := by
  unfold Lookahead.sure
  split
  next place _ => cases place <;> rfl
  next => rfl

theorem fits_unrollLoop {test : Lookahead} {body : Phrase} {κ k : Outlook}
    (h : (Phrase.loop test body).fits v g follow κ k = true) :
    (Phrase.unrollLoop test body).fits v g follow [] k = true := by
  have hloop : (Phrase.loop test body).fits v g follow [] k = true := h
  rw [Phrase.fits] at h
  simp only [Bool.and_eq_true, List.isEmpty_iff] at h
  obtain ⟨⟨⟨hafter, hyes⟩, hno⟩, hbody⟩ := h
  have hseq : (Phrase.seq body (.loop test body)).fits v g follow (test.narrow v true []) k =
      true := by
    rw [Phrase.fits, hafter, hbody, hloop]
    rfl
  have hform : (Phrase.seq body (.loop test body)).form v g (test.narrow v true []) =
      .seq (body.form v g (test.narrow v true [])) ((Phrase.loop test body).form v g []) := by
    rw [Phrase.form, hafter]
  rw [Phrase.unrollLoop, Phrase.fits, hform, hyes, hseq]
  simp only [Bool.true_and, Bool.and_true]
  exact Bool.and_eq_true_iff.mpr ⟨hno, rfl⟩

theorem fits_unrollChain {item gap : Phrase} {separator : String} {more : Lookahead}
    {κ k : Outlook} (h : (Phrase.chain item separator gap more).fits v g follow κ k = true) :
    (Phrase.unrollChain item separator gap more).fits v g follow [] k = true := by
  have hchain : (Phrase.chain item separator gap more).fits v g follow
      (more.narrow v true []) k = true := h
  rw [Phrase.fits] at h
  simp only [Bool.and_eq_true] at h
  obtain ⟨⟨⟨⟨⟨⟨hitem, hsep⟩, hno⟩, htake⟩, hgap⟩, hmore⟩, hlast⟩ := h
  have hagain : (Phrase.choose more (.chain item separator gap more) .empty).fits v g follow
      [] k = true := by
    rw [Phrase.fits]
    simp only [Bool.and_eq_true]
    exact ⟨⟨⟨hmore, hlast⟩, hchain⟩, rfl⟩
  have hrest : (Phrase.seq gap (.choose more (.chain item separator gap more) .empty)).fits
      v g follow [] k = true := by
    rw [Phrase.fits, after_nil, hagain, Bool.and_true]
    simpa only [Phrase.form] using hgap
  have hseq : (Phrase.seq .take (.seq gap (.choose more (.chain item separator gap more)
      .empty))).fits v g follow ((Lookahead.is separator).narrow v true []) k = true := by
    rw [Phrase.fits, after_take, tail_narrow_is, hrest, Bool.and_true]
    exact htake
  have htail : (Phrase.chainTail item separator gap more).fits v g follow [] k = true := by
    rw [Phrase.chainTail, Phrase.fits]
    simp only [Bool.and_eq_true]
    refine ⟨⟨⟨?_, hno⟩, hseq⟩, rfl⟩
    simpa only [Phrase.form, after_take, tail_narrow_is, after_nil] using hsep
  rw [Phrase.unrollChain, Phrase.fits, after_nil, htail, Bool.and_true]
  simpa only [Phrase.chainTail, Phrase.form, after_take, tail_narrow_is, after_nil] using hitem

/-! ### What fits is consumed -/

/-- The run is done with these names left, or rules nest too deep. -/
inductive Arrives (v : Vocabulary) (w : Word) : Outcome → Prop
  | done {s : State} : names s.rest = w → Arrives v w (.done s)
  | tooDeep {s : State} : TooDeep v s → Arrives v w (.halted s)

theorem derives_ofNext {rules : List (String × Form)} {κ : Outlook} {w : Word}
    (hκ : κ.ensures (· != "EOF") 0 = true) (h : Derives rules (.ofNext v κ) w) : ∃ u, w = [u] := by
  cases κ with
  | nil => cases hκ
  | cons names κ =>
    have hend : ¬ (names.contains "EOF" = true) := by
      intro he
      have := List.all_eq_true.mp hκ _ (List.contains_iff_mem.mp he)
      simp at this
    rw [Form.ofNext, List.headD_cons, if_neg hend] at h
    obtain ⟨u, -, rfl⟩ := derives_token.mp h
    exact ⟨u, rfl⟩

/-- **A phrase that fits consumes any word of its form, whatever may follow, unless rules
nest too deep.** The run may be under another vocabulary that knows the same of the tokens. -/
theorem arrives_of_runs {v' : Vocabulary} {size : Nat} (hp : Predictive v g follow)
    (hv : v.WellNamed) (hknow : ∀ s, UnderWay v s → KnowSame v' v (names s.rest))
    {open_ : List String} {p : Phrase} {s : State} {o : Outcome}
    (h : Runs (g.parsing v' size) open_ p s o) (hs : UnderWay v s) {κ k : Outlook}
    (hf : p.fits v g follow κ k = true) {w r : Word}
    (hw : Derives (g.productions v) (p.form v g κ) w) (hrest : names s.rest = w ++ r)
    (hr : Sees k r) : Arrives v' r o := by
  induction h generalizing κ k w r with
  | empty =>
    rw [Phrase.form, derives_empty] at hw
    exact .done (by rw [hrest, hw]; rfl)
  | take =>
    obtain ⟨u, rfl⟩ := derives_ofNext hf hw
    exact .done (by rw [names_take, hrest]; rfl)
  | reject => exact absurd hw not_derives_never
  | @seq _ a b s s₁ o ha _ iha ihb =>
    obtain ⟨w₁, w₂, h₁, h₂, rfl⟩ := derives_seq.mp hw
    simp only [Phrase.fits, Bool.and_eq_true] at hf
    rw [List.append_assoc] at hrest
    cases iha hs hf.1 h₁ hrest (sees_ahead hp.heads h₂ hr) with
    | done hrest₁ => exact ihb (hs.done ha) hf.2 h₂ hrest₁ hr
  | @seqHalt _ a b s s₁ _ ih =>
    obtain ⟨w₁, w₂, h₁, h₂, rfl⟩ := derives_seq.mp hw
    simp only [Phrase.fits, Bool.and_eq_true] at hf
    rw [List.append_assoc] at hrest
    cases ih hs hf.1 h₁ hrest (sees_ahead hp.heads h₂ hr) with
    | tooDeep hd => exact .tooDeep hd
  | @chooseYes _ test a b s o hy _ ih =>
    simp only [Phrase.fits, Bool.and_eq_true] at hf
    rw [ask_parsing] at ih
    rcases derives_alt.mp hw with hw | hw
    · exact ih hs hf.1.2 hw hrest hr
    · have hsees := hrest ▸ sees_ahead hp.heads hw hr
      rw [Lookahead.ask_widen (hknow s hs), hsees.sure hs hv hf.1.1.2] at hy
      cases hy
  | @chooseNo _ test a b s o hn _ ih =>
    simp only [Phrase.fits, Bool.and_eq_true] at hf
    rw [ask_parsing] at ih
    rcases derives_alt.mp hw with hw | hw
    · have hsees := hrest ▸ sees_ahead hp.heads hw hr
      rw [Lookahead.ask_widen (hknow s hs), hsees.sure hs hv hf.1.1.1] at hn
      cases hn
    · exact ih hs hf.2 hw hrest hr
  | @loop _ test body s o _ ih =>
    refine ih hs (fits_unrollLoop hf) ?_ hrest hr
    have hafter : body.after (test.narrow v true []) = [] := by
      simp only [Phrase.fits, Bool.and_eq_true, List.isEmpty_iff] at hf
      exact hf.1.1.1
    simp only [Phrase.unrollLoop, Phrase.form, hafter, sure_nil, Bool.false_eq_true, if_false]
    exact derives_many.mp (derives_many_of_loop hw)
  | @chain _ item separator gap more s o _ ih =>
    refine ih hs (fits_unrollChain hf) ?_ hrest hr
    simpa only [Phrase.unrollChain, Phrase.chainTail, Phrase.form, after_nil, after_take,
      tail_narrow_is] using derives_chain.mp hw
  | tooDeep => exact .tooDeep (tooDeep_complain hs.error)
  | node _ _ ih =>
    cases ih ⟨hs.typed, hs.error⟩ hf hw hrest hr with
    | done hrest₁ => exact .done hrest₁
  | nodeHalt _ _ ih =>
    cases ih ⟨hs.typed, hs.error⟩ hf hw hrest hr with
    | tooDeep hd => exact .tooDeep hd.close
  | @call _ name s o h ih =>
    rw [Phrase.form] at hw
    by_cases hsome : (g.rules.lookup name).isSome = true
    · rw [if_pos hsome, derives_rule] at hw
      obtain ⟨φ, hl, hw⟩ := hw
      rw [lookup_productions, if_pos hsome] at hl
      cases hl
      obtain ⟨p, hlookup⟩ := Option.isSome_iff_exists.mp hsome
      obtain ⟨l₁, l₂, hrules, _⟩ := List.lookup_eq_some_iff.mp hlookup
      have hrule : g.rule name = p := by rw [Grammar.rule, hlookup]; rfl
      have hfits := hp.rules (name, p) (by simp [hrules])
      exact ih hs (hrule ▸ hfits) hw hrest (hr.covered hf)
    · rw [if_neg hsome, derives_empty] at hw
      change Runs _ _ (g.rule name) s o at h
      rw [rule_eq_empty hsome] at h
      cases h
      exact .done (by rw [hrest, hw]; rfl)

/-! ### Whole documents -/

variable {root : String} {size : Nat} {tokens : List Token}

/-- What is parsed without an error derives from the entry. -/
theorem derives_of_parse (hg : Progressive g) (hv : v.WellNamed)
    (htokens : ∀ u ∈ tokens, u.type ∈ v.types)
    (h : (g.parse v root size tokens).2 = none) :
    Derives (g.productions v) (g.entry.form v g []) (names tokens) := by
  obtain ⟨o, hruns⟩ := hg.exists_runs_document v root size tokens
  rw [parse_of_runs hruns] at h
  have hs : UnderWay v { rest := tokens } := ⟨htokens, rfl⟩
  cases o with
  | done s' =>
    obtain ⟨s₁, hentry, hfinish⟩ := hruns.of_seq
    have hrest₁ : s₁.rest = [] := hfinish.of_finish.1 ▸ hfinish.of_finish.2 s' rfl
    obtain ⟨w, hw, hd⟩ := consumed_of_runs hg hv hentry hg.entry hs rfl (sees_nil _)
    rw [hrest₁] at hw
    have : w = names tokens := by simpa [names] using hw.symm
    exact this ▸ hd
  | halted s' =>
    obtain ⟨e, he⟩ := (hruns.halts rfl rfl).2 s' rfl
    cases he.error.symm.trans h
  | spent => cases hruns.ended

/-- What derives from the entry is parsed without an error, unless rules nest too deep. -/
theorem parse_of_derives (hp : Predictive v g follow) (hg : Progressive g)
    (hv : v.WellNamed) (htokens : ∀ u ∈ tokens, u.type ∈ v.types)
    (h : Derives (g.productions v) (g.entry.form v g []) (names tokens)) :
    (g.parse v root size tokens).2 = none ∨
      ∃ e, (g.parse v root size tokens).2 = some e ∧ e.message = Complaint.tooDeep.message v := by
  obtain ⟨o, hruns⟩ := hg.exists_runs_document v root size tokens
  rw [parse_of_runs hruns]
  have hs : UnderWay v { rest := tokens } := ⟨htokens, rfl⟩
  have hrest : names tokens = names tokens ++ [] := (List.append_nil _).symm
  have hknow : ∀ s, UnderWay v s → KnowSame v v (names s.rest) := fun _ _ _ _ => rfl
  cases hruns with
  | seq hentry hfinish =>
    cases arrives_of_runs hp hv hknow hentry hs hp.entry h hrest sees_last with
    | done hrest₁ =>
      have hempty := List.map_eq_nil_iff.mp hrest₁
      cases hfinish with
      | chooseYes _ hdone =>
        cases hdone
        left
        rw [ask_parsing]
        exact (hs.done hentry).error
      | chooseNo hno _ => simp [Lookahead.ask, hempty] at hno
  | seqHalt hentry =>
    cases arrives_of_runs hp hv hknow hentry hs hp.entry h hrest sees_last with
    | tooDeep hd => exact .inr hd

end

/-- The grammar is predictive, with what may come behind its named phrases, and comes out
like these productions with this start. -/
structure Describes (v : Vocabulary) (g : Grammar) (follow : List (String × Outlook))
    (rules : List (String × Form)) (start : Form) : Prop where
  predictive : Predictive v g follow
  no_end : "EOF" ∉ v.names
  rules : normalRules v.names (g.productions v) = normalRules v.names rules
  start : (g.entry.form v g []).normal v.names = start.normal v.names

section
variable {v : Vocabulary} {g : Grammar} {follow : List (String × Outlook)}
  {rules : List (String × Form)} {start : Form}

instance : Decidable (Describes v g follow rules start) :=
  decidable_of_iff
    (Predictive v g follow ∧ "EOF" ∉ v.names ∧
      normalRules v.names (g.productions v) = normalRules v.names rules ∧
      (g.entry.form v g []).normal v.names = start.normal v.names)
    ⟨fun h => ⟨h.1, h.2.1, h.2.2.1, h.2.2.2⟩,
      fun h => ⟨h.predictive, h.no_end, h.rules, h.start⟩⟩

/-- Productions that describe a grammar derive what it accepts. -/
theorem Describes.exact (h : Describes v g follow rules start) (hg : Progressive g)
    (hv : v.Distinct) {root : String} {size : Nat} {tokens : List Token}
    (htokens : ∀ u ∈ tokens, u.type ∈ v.types) :
    ((g.parse v root size tokens).2 = none → Derives rules start (names tokens)) ∧
      (Derives rules start (names tokens) →
        (g.parse v root size tokens).2 = none ∨
          ∃ e, (g.parse v root size tokens).2 = some e ∧
            e.message = Complaint.tooDeep.message v) := by
  have hderives : Derives (g.productions v) (g.entry.form v g []) (names tokens) ↔
      Derives rules start (names tokens) := derives_iff_of_normal h.rules h.start
  rw [← hderives]
  exact ⟨derives_of_parse hg ⟨hv, h.no_end⟩ htokens,
    parse_of_derives h.predictive hg ⟨hv, h.no_end⟩ htokens⟩

end

end GraphLanguages.Grammar
