import GraphLanguages.Proofs.Grammar.Kept

/-! Errors that stand however the text goes on.

A parse decides on the next token what to do with it, but a few questions look further
ahead. In a `Steady` grammar such a question is asked only where the next token is taken
in any case, unless rules nest too deep (`Phrase.grips`). So the parses of two texts that
agree up to a token go alike until they take it (`fate_of_runs`), and an error there is
the same for both (`parse_eq_of_failsAt`). -/
namespace GraphLanguages.Grammar

/-! ### What is known of the next token -/

namespace Lookahead

/-- The questions of which one has to be answered yes. -/
def options : Lookahead → List Lookahead
  | .either a b => a.options ++ b.options
  | test => [test]

/-- Is the answer yes, when one of the questions known is? -/
def assured (test : Lookahead) (known : Option (List Lookahead)) : Bool :=
  known.any (·.all (test.options.contains ·))

/-- What is known once the question is answered yes. -/
def learnYes (test : Lookahead) (known : Option (List Lookahead)) : Option (List Lookahead) :=
  if test.reach = 0 then some test.options else known

def learnNo (test : Lookahead) (known : Option (List Lookahead)) : Option (List Lookahead) :=
  known.map (·.filter (!test.options.contains ·))

end Lookahead

/-- One of the questions known is answered yes. -/
def Assures (σ : Setting) (s : State) (known : Option (List Lookahead)) : Prop :=
  ∀ qs ∈ known, ∃ q ∈ qs, (q.ask σ [] s).1 = true

section
variable {g : Grammar} {v : Vocabulary} {size : Nat} {open_ open' : List String}
  {s s' : State} {known : Option (List Lookahead)} {test : Lookahead}

/-- In a parse, answers depend on the tokens ahead alone. -/
theorem ask_eq_of_rest (h : s.rest = s'.rest) (test : Lookahead) :
    (test.ask (g.parsing v size) open_ s).1 = (test.ask (g.parsing v size) open' s').1 :=
  (Lookahead.Matches.of_rest (.refl _) h (noting_congr h) test.reach).ask_congr rfl

theorem ask_eq_true_iff : (test.ask (g.parsing v size) open_ s).1 = true ↔
    ∃ q ∈ test.options, (q.ask (g.parsing v size) open_ s).1 = true := by
  induction test with
  | either a b iha ihb =>
    simp only [Lookahead.options, List.mem_append, or_and_right, exists_or, ← iha, ← ihb,
      Lookahead.ask_either, ask_parsing]
    cases (a.ask (g.parsing v size) open_ s).1 <;> simp
  | _ => simp only [Lookahead.options, List.mem_singleton, exists_eq_left]

theorem assures_none : Assures (g.parsing v size) s none := by
  rintro _ ⟨⟩

theorem Assures.congr (hk : Assures (g.parsing v size) s known) (h : s.rest = s'.rest) :
    Assures (g.parsing v size) s' known := by
  intro qs hqs
  obtain ⟨q, hq, hy⟩ := hk qs hqs
  exact ⟨q, hq, (ask_eq_of_rest h q).symm.trans hy⟩

theorem Assures.assured (hk : Assures (g.parsing v size) s known) (h : test.assured known = true) :
    (test.ask (g.parsing v size) open_ s).1 = true := by
  obtain ⟨qs, rfl, hall⟩ := Option.any_eq_true .. |>.mp h
  obtain ⟨q, hq, hy⟩ := hk qs rfl
  rw [ask_eq_true_iff]
  exact ⟨q, by simpa using List.all_eq_true.mp hall q hq, (ask_eq_of_rest rfl q).trans hy⟩

theorem Assures.yes (hk : Assures (g.parsing v size) s known)
    (hy : (test.ask (g.parsing v size) open_ s).1 = true) :
    Assures (g.parsing v size) s (test.learnYes known) := by
  unfold Lookahead.learnYes
  split
  next =>
    rintro _ ⟨⟩
    exact ask_eq_true_iff.mp ((ask_eq_of_rest rfl test).trans hy)
  next => exact hk

theorem Assures.no (hk : Assures (g.parsing v size) s known)
    (hn : (test.ask (g.parsing v size) open_ s).1 = false) :
    Assures (g.parsing v size) s (test.learnNo known) := by
  intro qs' hqs
  obtain ⟨qs, rfl, rfl⟩ := Option.map_eq_some_iff.mp hqs
  obtain ⟨q, hq, hy⟩ := hk qs rfl
  refine ⟨q, List.mem_filter.mpr ⟨hq, ?_⟩, hy⟩
  by_contra hmem
  have hyes : (test.ask (g.parsing v size) open_ s).1 = true :=
    ask_eq_true_iff.mpr ⟨q, by simpa using hmem, (ask_eq_of_rest rfl q).trans hy⟩
  exact Bool.false_ne_true (hn.symm.trans hyes)

end

/-! ### Phrases that take the next token -/

/-- Given a token and what is known of it, does the phrase take it, unless rules nest too
deep? If not `strict`, it may also be done without it. -/
def Phrase.grips (strict : Bool) : Phrase → Option (List Lookahead) → Bool
  | .empty, _ => !strict
  | .take, _ => true
  | .seq a b, known => a.grips true known || a.grips false known && b.grips strict known
  | .choose test a b, known =>
    if test.assured known then a.grips strict known
    else a.grips strict (test.learnYes known) && b.grips strict (test.learnNo known)
  | .node _ body, known => body.grips strict known
  | .reject _, _ | .loop .., _ | .chain .., _ | .call _, _ => false

/-- How a run of such a phrase ends: with the token taken, too deep, or without it. -/
inductive Gripped (v : Vocabulary) (strict : Bool) (s : State) : Outcome → Prop
  | took {o : Outcome} : o.state.rest.length < s.rest.length → Gripped v strict s o
  | tooDeep {s' : State} : TooDeep v s' → Gripped v strict s (.halted s')
  | left {s' : State} : strict = false → s'.rest = s.rest → s'.error = none →
      Gripped v strict s (.done s')

section
variable {g : Grammar} {v : Vocabulary} {size : Nat} {open_ : List String} {s : State}
  {strict : Bool}

theorem Gripped.close {name : String} {o : Outcome}
    (h : Gripped v strict { s with forest := [] } o) :
    Gripped v strict s (o.map (State.close name s.forest)) := by
  cases h with
  | @took o hlt => exact .took (by cases o <;> exact hlt)
  | tooDeep hd => exact .tooDeep hd.close
  | left hs hr he => exact .left hs hr he

theorem gripped_of_runs {p : Phrase} {o : Outcome} {known : Option (List Lookahead)}
    (h : Runs (g.parsing v size) open_ p s o) (he : s.error = none) (hne : s.rest ≠ [])
    (hk : Assures (g.parsing v size) s known) (hp : p.grips strict known = true) :
    Gripped v strict s o := by
  induction h generalizing strict known with
  | empty => exact .left (by simpa [Phrase.grips] using hp) rfl he
  | @take _ s =>
    apply Gripped.took
    have := List.length_pos_iff.mpr hne
    rw [Outcome.state, take_rest, List.length_tail]
    omega
  | reject | loop | chain | call => cases hp
  | @seq _ a b s s₁ o ha hb iha ihb =>
    have htook : s₁.rest.length < s.rest.length → Gripped v strict s o := fun hlt =>
      .took (Nat.lt_of_le_of_lt hb.rest_suffix.length_le hlt)
    simp only [Phrase.grips, Bool.or_eq_true, Bool.and_eq_true] at hp
    rcases hp with hp | ⟨hpa, hpb⟩
    · cases iha he hne hk hp with
      | took hlt => exact htook hlt
      | left hs => cases hs
    · cases iha he hne hk hpa with
      | took hlt => exact htook hlt
      | left _ hr he₁ =>
        cases ihb he₁ (hr ▸ hne) (hk.congr hr.symm) hpb with
        | took hlt => exact .took (hr ▸ hlt)
        | tooDeep hd => exact .tooDeep hd
        | left hs hr₁ he₂ => exact .left hs (hr₁.trans hr) he₂
  | seqHalt _ ih =>
    simp only [Phrase.grips, Bool.or_eq_true, Bool.and_eq_true] at hp
    rcases hp with hp | ⟨hp, -⟩
    · cases ih he hne hk hp with
      | took hlt => exact .took hlt
      | tooDeep hd => exact .tooDeep hd
    · cases ih he hne hk hp with
      | took hlt => exact .took hlt
      | tooDeep hd => exact .tooDeep hd
  | chooseYes hy _ ih =>
    rw [ask_parsing] at ih
    rw [Phrase.grips] at hp
    split at hp
    next => exact ih he hne hk hp
    next => exact ih he hne (hk.yes hy) (Bool.and_eq_true_iff.mp hp).1
  | chooseNo hn _ ih =>
    rw [ask_parsing] at ih
    rw [Phrase.grips] at hp
    split at hp
    next hassured => cases hn.symm.trans (hk.assured hassured)
    next => exact ih he hne (hk.no hn) (Bool.and_eq_true_iff.mp hp).2
  | tooDeep => exact .tooDeep (tooDeep_complain he)
  | node _ _ ih | nodeHalt _ _ ih => exact (ih he hne (hk.congr rfl) hp).close

end

/-! ### The check -/

/-- A question about a token further ahead is one about the second token, and is asked
only where the first is taken. Being pledged, a phrase may leave it to what follows. -/
def Phrase.steady : Phrase → (pledged : Bool) → Option (List Lookahead) → Bool
  | .empty, _, _ | .take, _, _ | .reject _, _, _ | .call _, _, _ => true
  | .seq a b, _, known => a.steady (b.grips true known) known && b.steady false none
  | .choose test a b, pledged, known =>
    (test.reach == 0 || test.reach == 1 && (Phrase.choose test a b).grips (!pledged) known) &&
      a.steady pledged (test.learnYes known) && b.steady pledged (test.learnNo known)
  | .loop test body, _, _ => test.reach == 0 && body.steady false (test.learnYes none)
  | .chain item _ gap more, _, _ =>
    more.reach == 0 && item.steady false none && gap.steady false none
  | .node _ body, pledged, known => body.steady pledged known

structure Steady (g : Grammar) : Prop where
  entry : g.entry.steady false none = true
  rules : ∀ r ∈ g.rules, r.2.steady false none = true

instance (g : Grammar) : Decidable (Steady g) :=
  decidable_of_iff
    (g.entry.steady false none = true ∧ ∀ r ∈ g.rules, r.2.steady false none = true)
    ⟨fun h => ⟨h.1, h.2⟩, fun h => ⟨h.entry, h.rules⟩⟩

theorem Steady.rule {g : Grammar} (hg : Steady g) (name : String) :
    (g.rule name).steady false none = true :=
  forall_rule (P := fun p => p.steady false none = true) rfl hg.rules name

theorem steady_unrollLoop {test : Lookahead} {body : Phrase} {pledged : Bool}
    {known : Option (List Lookahead)} (h : (Phrase.loop test body).steady pledged known = true) :
    (Phrase.unrollLoop test body).steady false none = true := by
  obtain ⟨hr, hb⟩ := Bool.and_eq_true_iff.mp h
  simp [Phrase.unrollLoop, Phrase.steady, Phrase.grips, hr, hb]

theorem steady_unrollChain {item gap : Phrase} {separator : String} {more : Lookahead}
    {pledged : Bool} {known : Option (List Lookahead)}
    (h : (Phrase.chain item separator gap more).steady pledged known = true) :
    (Phrase.unrollChain item separator gap more).steady false none = true := by
  obtain ⟨hri, hg⟩ := Bool.and_eq_true_iff.mp h
  obtain ⟨hr, hi⟩ := Bool.and_eq_true_iff.mp hri
  simp [Phrase.unrollChain, Phrase.chainTail, Phrase.steady, Phrase.grips, Lookahead.reach,
    Lookahead.assured, hr, hi, hg]

/-! ### Two texts with the same beginning -/

/-- The states of two parses that differ in what is behind the tokens they share. -/
structure Twin (shared behind behind' : List Token) (s s' : State) : Prop where
  rest : s.rest = shared ++ behind
  eq : s' = { s with rest := shared ++ behind' }

namespace Twin
variable {g : Grammar} {v : Vocabulary} {size size' : Nat} {open_ : List String}
  {shared behind behind' : List Token} {s s' : State}

theorem take {t : Token} (h : Twin (t :: shared) behind behind' s s') :
    Twin shared behind behind' s.take s'.take := by
  obtain ⟨hr, rfl⟩ := h
  simp only [State.take, hr, List.cons_append]
  exact ⟨rfl, rfl⟩

theorem peek (h : Twin shared behind behind' s s') {d : Nat} (hd : d < shared.length) :
    s.peek (g.parsing v size) d = s'.peek (g.parsing v size') d := by
  obtain ⟨hr, rfl⟩ := h
  simp only [State.peek, hr]
  rw [List.getElem?_append_left hd, List.getElem?_append_left hd, List.getElem?_eq_getElem hd]
  rfl

theorem complain (h : Twin shared behind behind' s s') (hne : shared ≠ []) (c : Complaint) :
    Twin shared behind behind' (s.complain (g.parsing v size) open_ c)
      (s'.complain (g.parsing v size') open_ c) := by
  refine ⟨(complain_rest ..).trans h.rest, ?_⟩
  have hpeek : s.peek (g.parsing v size) 0 = s'.peek (g.parsing v size') 0 :=
    h.peek (List.length_pos_iff.mpr hne)
  obtain ⟨hr, rfl⟩ := h
  by_cases he : s.error.isSome = true
  · simp only [State.complain, he, Bool.or_true, if_true]
  · simp only [State.complain, he, Bool.or_false, hpeek]
    rfl

theorem forest (h : Twin shared behind behind' s s') : s.forest = s'.forest := by
  obtain ⟨-, rfl⟩ := h
  rfl

theorem reopen (h : Twin shared behind behind' s s') :
    Twin shared behind behind' { s with forest := [] } { s' with forest := [] } := by
  obtain ⟨hr, rfl⟩ := h
  exact ⟨hr, rfl⟩

theorem close {s₁ s₁' : State} {outer : List Tree} (h : Twin shared behind behind' s₁ s₁')
    (name : String) :
    Twin shared behind behind' (s₁.close name outer) (s₁'.close name outer) := by
  obtain ⟨hr, rfl⟩ := h
  exact ⟨hr, rfl⟩

/-- A question about the shared tokens is answered alike. -/
theorem ask_eq (h : Twin shared behind behind' s s') {test : Lookahead}
    (hd : test.reach < shared.length) :
    (test.ask (g.parsing v size) open_ s).1 = (test.ask (g.parsing v size') open_ s').1 := by
  have hsame : Lookahead.Matches (g.parsing v size) (g.parsing v size') test.reach s s' := by
    refine ⟨fun d hle => congrArg Token.type (h.peek (Nat.lt_of_le_of_lt hle hd)), ?_, ?_⟩
    · obtain ⟨t, ts, rfl⟩ := List.exists_cons_of_length_pos (Nat.zero_lt_of_lt hd)
      obtain ⟨hr, rfl⟩ := h
      rw [hr]
      rfl
    · rw [noting_of_parsing rfl, noting_of_parsing rfl]
  exact hsame.ask_congr rfl

end Twin

/-- Outcomes of two such parses that are alike, with shared tokens left where they are done. -/
inductive Twins (behind behind' : List Token) : Outcome → Outcome → Prop
  | done {shared : List Token} {s s' : State} : shared ≠ [] → Twin shared behind behind' s s' →
      Twins behind behind' (.done s) (.done s')
  | halted {shared : List Token} {s s' : State} : Twin shared behind behind' s s' →
      Twins behind behind' (.halted s) (.halted s')

theorem Twins.close {behind behind' : List Token} {o o' : Outcome} (h : Twins behind behind' o o')
    (name : String) (outer : List Tree) :
    Twins behind behind' (o.map (State.close name outer)) (o'.map (State.close name outer)) := by
  cases h with
  | done hne h => exact .done hne (h.close name)
  | halted h => exact .halted (h.close name)

/-- How the first parse ends beside the second: with all shared tokens taken, too deep,
done with the last of them left to what follows, or like the second. -/
inductive Fate (v : Vocabulary) (behind behind' : List Token) (pledged : Bool) (s : State)
    (second : Outcome → Prop) : Outcome → Prop
  | past {o : Outcome} : o.state.rest.length ≤ behind.length →
      Fate v behind behind' pledged s second o
  | tooDeep {s₁ : State} : TooDeep v s₁ → Fate v behind behind' pledged s second (.halted s₁)
  | left {s₁ : State} : pledged = true → s₁.rest = s.rest → s₁.error = none →
      s.rest.length = behind.length + 1 → Fate v behind behind' pledged s second (.done s₁)
  | twin {o o' : Outcome} : second o' → Twins behind behind' o o' →
      Fate v behind behind' pledged s second o

section
variable {g : Grammar} {v : Vocabulary} {size size' : Nat} {open_ : List String}
  {shared behind behind' : List Token} {s s' : State} {pledged : Bool}
  {known : Option (List Lookahead)} {o : Outcome}

theorem Fate.imp {second second' : Outcome → Prop}
    (h : Fate v behind behind' pledged s second o) (himp : ∀ o', second o' → second' o') :
    Fate v behind behind' pledged s second' o := by
  cases h with
  | past hr => exact .past hr
  | tooDeep hd => exact .tooDeep hd
  | left hp hr he hl => exact .left hp hr he hl
  | twin h' ht => exact .twin (himp _ h') ht

/-- Where nothing is left over, nothing depends on the pledge. -/
theorem Fate.unpledged {second : Outcome → Prop}
    (h : Fate v behind behind' false s second o) :
    Fate v behind behind' pledged s second o := by
  cases h with
  | past hr => exact .past hr
  | tooDeep hd => exact .tooDeep hd
  | left hp => cases hp
  | twin h' ht => exact .twin h' ht

theorem Fate.close {second second' : Outcome → Prop} {name : String}
    (h : Fate v behind behind' pledged { s with forest := [] } second o)
    (hclose : ∀ o', second o' → second' (o'.map (State.close name s.forest))) :
    Fate v behind behind' pledged s second' (o.map (State.close name s.forest)) := by
  cases h with
  | @past o hr => exact .past (by cases o <;> exact hr)
  | tooDeep hd => exact .tooDeep hd.close
  | left hp hr he hl => exact .left hp hr he hl
  | twin h' ht => exact .twin (hclose _ h') (ht.close name s.forest)

/-- A question is answered alike, or it looks too far where the last token that is shared
is taken. -/
theorem ask_eq_or_fate {test : Lookahead} {a b : Phrase} {second : Outcome → Prop}
    (h : Runs (g.parsing v size) open_ (.choose test a b) s o)
    (ht : Twin shared behind behind' s s') (hne : shared ≠ []) (he : s.error = none)
    (hk : Assures (g.parsing v size) s known)
    (hlook : (test.reach == 0 ||
      test.reach == 1 && (Phrase.choose test a b).grips (!pledged) known) = true) :
    (test.ask (g.parsing v size) open_ s).1 = (test.ask (g.parsing v size') open_ s').1 ∨
      Fate v behind behind' pledged s second o := by
  have hpos := List.length_pos_iff.mpr hne
  by_cases hd : test.reach < shared.length
  · exact .inl (ht.ask_eq hd)
  simp only [Bool.or_eq_true, Bool.and_eq_true, beq_iff_eq] at hlook
  rcases hlook with hreach | ⟨hreach, hgrips⟩
  · exact absurd hpos (hreach ▸ hd)
  have hrest : s.rest.length = behind.length + 1 := by
    rw [ht.rest, List.length_append]
    omega
  cases gripped_of_runs h he (by simp [ht.rest, hne]) hk hgrips with
  | took hlt => exact .inr (.past (by omega))
  | tooDeep hd => exact .inr (.tooDeep hd)
  | left hs hr he => exact .inr (.left (by simpa using hs) hr he hrest)

/-- What follows a phrase that is done. -/
theorem fate_seq {a b : Phrase} {s₁ : State} (hb : Runs (g.parsing v size) open_ b s₁ o)
    (ha : Fate v behind behind' (b.grips true known) s
      (fun o' => Runs (g.parsing v size') open_ a s' o') (.done s₁))
    (hk : Assures (g.parsing v size) s known)
    (hnext : ∀ {shared₁ s₁'}, Twin shared₁ behind behind' s₁ s₁' → shared₁ ≠ [] →
      Fate v behind behind' false s₁ (fun o' => Runs (g.parsing v size') open_ b s₁' o') o) :
    Fate v behind behind' pledged s
      (fun o' => Runs (g.parsing v size') open_ (.seq a b) s' o') o := by
  cases ha with
  | past hr => exact .past (hb.rest_suffix.length_le.trans hr)
  | left hp hr he hl =>
    -- the second phrase was pledged to take the token
    have hne : s₁.rest ≠ [] := by
      rw [← List.length_pos_iff, hr, hl]
      exact Nat.succ_pos _
    cases gripped_of_runs hb he hne (hk.congr hr.symm) hp with
    | took hlt =>
      rw [hr, hl] at hlt
      exact .past (Nat.le_of_lt_succ hlt)
    | tooDeep hd => exact .tooDeep hd
    | left hs => cases hs
  | twin h' ht =>
    cases ht with
    | done hne₁ ht₁ =>
      cases hnext ht₁ hne₁ with
      | past hr => exact .past hr
      | tooDeep hd => exact .tooDeep hd
      | left hp => cases hp
      | twin h'' ht' => exact .twin (.seq h' h'') ht'

/-- In a steady grammar the parses of texts that agree on some tokens go alike until these
are taken. -/
theorem fate_of_runs (hg : Steady g) {p : Phrase} (h : Runs (g.parsing v size) open_ p s o)
    (ht : Twin shared behind behind' s s') (hne : shared ≠ []) (he : s.error = none)
    (hk : Assures (g.parsing v size) s known) (hp : p.steady pledged known = true) :
    Fate v behind behind' pledged s (fun o' => Runs (g.parsing v size') open_ p s' o') o := by
  induction h generalizing shared s' pledged known with
  | empty => exact .twin .empty (.done hne ht)
  | @take _ s =>
    obtain ⟨t, shared, rfl⟩ := List.exists_cons_of_ne_nil hne
    by_cases hlast : shared = []
    · refine .past (Nat.le_of_eq ?_)
      rw [Outcome.state, take_rest, ht.rest, hlast]
      rfl
    · exact .twin .take (.done hlast ht.take)
  | reject => exact .twin .reject (.halted (ht.complain hne _))
  | seq ha hb iha ihb =>
    obtain ⟨hpa, hpb⟩ := Bool.and_eq_true_iff.mp hp
    have he₁ := (ha.halts rfl he).1 _ rfl
    exact fate_seq hb (iha ht hne he hk hpa) hk fun ht₁ hne₁ => ihb ht₁ hne₁ he₁ assures_none hpb
  | seqHalt ha ih =>
    obtain ⟨hpa, -⟩ := Bool.and_eq_true_iff.mp hp
    cases ih ht hne he hk hpa with
    | past hr => exact .past hr
    | tooDeep hd => exact .tooDeep hd
    | twin h' ht' =>
      cases ht' with
      | halted ht₁ => exact .twin (.seqHalt h') (.halted ht₁)
  | @chooseYes open_ test a b s o hy h ih =>
    simp only [Phrase.steady, Bool.and_eq_true] at hp
    obtain ⟨⟨hlook, hpa⟩, -⟩ := hp
    rcases ask_eq_or_fate (.chooseYes hy h) ht hne he hk hlook with heq | hfate
    · rw [ask_parsing] at ih
      refine (ih ht hne he (hk.yes hy) hpa).imp fun o' h' => .chooseYes (heq.symm.trans hy) ?_
      rwa [ask_parsing]
    · exact hfate
  | @chooseNo open_ test a b s o hn h ih =>
    simp only [Phrase.steady, Bool.and_eq_true] at hp
    obtain ⟨⟨hlook, -⟩, hpb⟩ := hp
    rcases ask_eq_or_fate (.chooseNo hn h) ht hne he hk hlook with heq | hfate
    · rw [ask_parsing] at ih
      refine (ih ht hne he (hk.no hn) hpb).imp fun o' h' => .chooseNo (heq.symm.trans hn) ?_
      rwa [ask_parsing]
    · exact hfate
  | loop _ ih =>
    exact (ih ht hne he assures_none (steady_unrollLoop hp)).unpledged.imp fun _ => .loop
  | chain _ ih =>
    exact (ih ht hne he assures_none (steady_unrollChain hp)).unpledged.imp fun _ => .chain
  | tooDeep => exact .tooDeep (tooDeep_complain he)
  | node hd _ ih | nodeHalt hd _ ih =>
    refine (ih ht.reopen hne he (hk.congr rfl) hp).close fun o' h' => ?_
    rw [ht.forest]
    exact h'.in_node hd
  | @call _ name _ _ _ ih =>
    exact (ih ht hne he assures_none (hg.rule name)).unpledged.imp fun _ => .call

end

/-! ### Errors -/

/-- The parse takes so many tokens and has its error at the next one. -/
structure FailsAt (g : Grammar) (v : Vocabulary) (root : String) (size : Nat)
    (tokens : List Token) (k : Nat) (e : SyntaxError) : Prop where
  error : (g.parse v root size tokens).2 = some e
  token : tokens[k]? = some e.token
  leaves : (g.parse v root size tokens).1.leaves = tokens.take k

theorem Steady.document {g : Grammar} (hg : Steady g) : g.document.steady false none = true := by
  simpa [Grammar.document, Phrase.finish, Phrase.steady, Phrase.grips, Lookahead.assured,
    Lookahead.reach] using hg.entry

/-- An error depends on the tokens up to the offending one alone, unless rules nest too deep. -/
theorem parse_eq_of_failsAt {g : Grammar} (hg : Steady g) (hprog : Progressive g) {v : Vocabulary}
    {root : String} {size size' k : Nat} {tokens tokens' : List Token} {e : SyntaxError}
    (hf : FailsAt g v root size tokens k e) (he : e.message ≠ Complaint.tooDeep.message v)
    (heq : tokens'.take (k + 1) = tokens.take (k + 1)) :
    g.parse v root size' tokens' = g.parse v root size tokens := by
  obtain ⟨hk, -⟩ := List.getElem?_eq_some_iff.mp hf.token
  obtain ⟨o, h⟩ := hprog.exists_runs_document v root size tokens
  have hrest : o.state.rest.length = (tokens.drop (k + 1)).length + 1 := by
    have hlength := congrArg List.length (leaves_parse_of_runs h)
    rw [hf.leaves, List.length_append, List.length_take] at hlength
    rw [List.length_drop]
    omega
  have htwin : Twin (tokens.take (k + 1)) (tokens.drop (k + 1)) (tokens'.drop (k + 1))
      { rest := tokens } { rest := tokens' } :=
    ⟨(List.take_append_drop ..).symm, by rw [← heq, List.take_append_drop]⟩
  have hne : tokens.take (k + 1) ≠ [] := by
    rw [← List.length_pos_iff, List.length_take]
    omega
  have hfate : Fate v (tokens.drop (k + 1)) (tokens'.drop (k + 1)) false { rest := tokens }
      (fun o' => Runs (g.parsing v size') [root] g.document { rest := tokens' } o') o :=
    fate_of_runs hg h htwin hne rfl assures_none hg.document
  cases hfate with
  | past hr => omega
  | tooDeep hd =>
    obtain ⟨e', he', hm⟩ := hd
    have herror := hf.error
    rw [parse_of_runs h] at herror
    obtain rfl : e' = e := Option.some.inj (he'.symm.trans herror)
    exact absurd hm he
  | left hp => cases hp
  | twin h' ht =>
    rw [parse_of_runs h, parse_of_runs h']
    cases ht with
    | done _ ht | halted ht =>
      obtain ⟨-, rfl⟩ := ht
      rfl

end GraphLanguages.Grammar
