import GraphLanguages.Proofs.Grammar.Runs

/-! Grammars whose every run ends.

A phrase `moves` if it does not finish without taking a token, given one. A grammar
makes progress if its loops go round only on a token and their bodies move, and if
its named phrases open a rule, so that recursion runs into the depth limit
(`Progressive`). Every run of such a grammar ends, on any tokens and under any
vocabulary (`exists_runs`). -/
namespace GraphLanguages.Grammar

/-! ### Phrases that move -/

/-- Given a token, the phrase does not finish without taking one. -/
def Phrase.moves (g : Grammar) : Phrase → Bool
  | .take | .reject _ => true
  | .seq a b => a.moves g || b.moves g
  | .choose _ a b => a.moves g && b.moves g
  | .chain item .. => item.moves g
  | .node _ body => body.moves g
  | .call name => (g.rules.lookup name).isSome
  | .empty | .loop .. => false

/-- Loops go round on a token only, and their bodies move. -/
def Phrase.progressive (g : Grammar) : Phrase → Bool
  | .empty | .take | .reject _ | .call _ => true
  | .seq a b | .choose _ a b => a.progressive g && b.progressive g
  | .loop test body => test.grounded && !test.endAnswer && body.moves g && body.progressive g
  | .chain item separator gap _ =>
    separator != "EOF" && item.progressive g && gap.progressive g
  | .node _ body => body.progressive g

def Phrase.opensRule : Phrase → Bool
  | .node .. => true
  | _ => false

theorem node_of_opensRule {p : Phrase} (h : p.opensRule = true) :
    ∃ name body, p = .node name body := by
  cases p with
  | node name body => exact ⟨name, body, rfl⟩
  | _ => cases h

/-- A grammar that makes progress. -/
structure Progressive (g : Grammar) : Prop where
  entry : g.entry.progressive g = true
  rules : ∀ r ∈ g.rules, r.2.opensRule = true ∧ r.2.moves g = true ∧ r.2.progressive g = true

instance (g : Grammar) : Decidable (Progressive g) :=
  decidable_of_iff
    (g.entry.progressive g = true ∧
      ∀ r ∈ g.rules, r.2.opensRule = true ∧ r.2.moves g = true ∧ r.2.progressive g = true)
    ⟨fun h => ⟨h.1, h.2⟩, fun h => ⟨h.entry, h.rules⟩⟩

theorem rule_of_lookup {g : Grammar} {name : String} (h : (g.rules.lookup name).isSome = true) :
    ∃ r ∈ g.rules, g.rule name = r.2 := by
  obtain ⟨p, hp⟩ := Option.isSome_iff_exists.mp h
  obtain ⟨l₁, l₂, hl, _⟩ := List.lookup_eq_some_iff.mp hp
  exact ⟨(name, p), by simp [hl], by simp [Grammar.rule, hp]⟩

/-- A question answered yes has a token to be about. -/
theorem rest_ne_nil_of_yes {σ : Setting} {size : Nat} (hs : σ.sentinel = Token.endOfInput size)
    {open_ : List String} {test : Lookahead} {s : State} (hg : test.grounded = true)
    (he : test.endAnswer = false) (hy : (test.ask σ open_ s).1 = true) : s.rest ≠ [] := by
  intro hr
  rw [Lookahead.ask_at_end hs test hr hg, he] at hy
  cases hy

/-- What moves takes a token before it is done. -/
theorem shorter_of_moves {σ : Setting} (hg : Progressive σ.grammar) {open_ : List String}
    {p : Phrase} {s : State} {o : Outcome} (h : Runs σ open_ p s o)
    (hp : p.moves σ.grammar = true) (hr : s.rest ≠ []) :
    ∀ s₁, o = .done s₁ → s₁.rest.length < s.rest.length := by
  induction h with
  | empty | loop => cases hp
  | take =>
    rintro s₁ ⟨⟩
    have := List.length_pos_iff.mpr hr
    rw [take_rest, List.length_tail]
    omega
  | reject | seqHalt | tooDeep | nodeHalt => rintro s₁ ⟨⟩
  | @seq _ a b s s₁ o ha hb iha ihb =>
    intro s₂ ho
    simp only [Phrase.moves, Bool.or_eq_true] at hp
    have hle := hb.rest_suffix.length_le
    rw [ho] at hle
    rcases hp with hp | hp
    · exact Nat.lt_of_le_of_lt hle (iha hp hr s₁ rfl)
    · by_cases hr₁ : s₁.rest = []
      · rw [hr₁] at hle
        exact Nat.lt_of_le_of_lt hle (List.length_pos_iff.mpr hr)
      · exact Nat.lt_of_lt_of_le (ihb hp hr₁ s₂ ho) ha.rest_suffix.length_le
  | chooseYes _ _ ih =>
    simp only [Phrase.moves, Bool.and_eq_true] at hp
    rw [(Lookahead.ask_notes ..).rest] at ih
    exact ih hp.1 hr
  | chooseNo _ _ ih =>
    simp only [Phrase.moves, Bool.and_eq_true] at hp
    rw [(Lookahead.ask_notes ..).rest] at ih
    exact ih hp.2 hr
  | chain _ ih =>
    refine ih ?_ hr
    simp only [Phrase.moves] at hp
    simp [Phrase.unrollChain, Phrase.moves, hp]
  | @node _ _ _ _ s₁ _ _ ih =>
    rintro s₂ ⟨⟩
    exact ih hp hr s₁ rfl
  | call _ ih =>
    obtain ⟨r, hmem, hrule⟩ := rule_of_lookup hp
    exact ih (by rw [hrule]; exact (hg.rules r hmem).2.1) hr

/-! ### Runs that end -/

theorem le_foldl_size (rules : List (String × Phrase)) (n : Nat) :
    n ≤ rules.foldl (fun n r => n + r.2.size) n := by
  induction rules generalizing n with
  | nil => exact Nat.le_refl n
  | cons q qs ih => exact Nat.le_trans (Nat.le_add_right n _) (ih _)

theorem size_le_foldl_size {rules : List (String × Phrase)} {r : String × Phrase} (h : r ∈ rules)
    (n : Nat) : r.2.size ≤ rules.foldl (fun n r => n + r.2.size) n := by
  induction rules generalizing n with
  | nil => cases h
  | cons q qs ih =>
    rw [List.foldl_cons]
    rcases List.mem_cons.mp h with rfl | h
    · exact Nat.le_trans (Nat.le_add_left _ n) (le_foldl_size qs _)
    · exact ih h _

theorem size_pos (p : Phrase) : 0 < p.size := by
  cases p <;> simp [Phrase.size]

theorem grammar_size_pos (g : Grammar) : 0 < g.size :=
  Nat.lt_of_lt_of_le (size_pos g.entry) (le_foldl_size g.rules _)

/-- Fuel for a phrase with so many rules left to open and so many tokens ahead. -/
def allowance (g : Grammar) (size left ahead : Nat) : Nat :=
  size + left * g.size + ahead * g.size + 1

/-- A part of a phrase needs less than the phrase. -/
theorem allowance_part {g : Grammar} {part whole left ahead ahead' : Nat} (hs : part < whole)
    (ha : ahead' ≤ ahead) :
    allowance g part left ahead' + 1 ≤ allowance g whole left ahead := by
  have := Nat.mul_le_mul_right g.size ha
  unfold allowance
  omega

/-- A token less ahead pays for running a phrase again. -/
theorem allowance_again {g : Grammar} (hg : 0 < g.size) {size left ahead ahead' : Nat}
    (ha : ahead' < ahead) : allowance g size left ahead' + 1 ≤ allowance g size left ahead := by
  have := Nat.mul_le_mul_right g.size (Nat.succ_le_of_lt ha)
  rw [Nat.succ_mul] at this
  unfold allowance
  omega

theorem allowance_node {g : Grammar} {name : String} {body : Phrase} {open_ : List String}
    {ahead : Nat} :
    allowance g body.size (maxDepth - (name :: open_).length) ahead + 1 ≤
      allowance g (Phrase.node name body).size (maxDepth - open_.length) ahead := by
  have hle : maxDepth - (name :: open_).length ≤ maxDepth - open_.length := by
    simp only [List.length_cons]
    omega
  have := Nat.mul_le_mul_right g.size hle
  simp only [allowance, Phrase.size]
  omega

/-- The rule that a call opens pays for its body. -/
theorem allowance_call {g : Grammar} {name ruleName : String} {body : Phrase}
    {open_ : List String} {ahead : Nat} (hd : open_.length < maxDepth)
    (hs : (Phrase.node ruleName body).size ≤ g.size) :
    allowance g body.size (maxDepth - (ruleName :: open_).length) ahead + 2 ≤
      allowance g (Phrase.call name).size (maxDepth - open_.length) ahead := by
  have hleft : maxDepth - open_.length = (maxDepth - (ruleName :: open_).length) + 1 := by
    simp only [List.length_cons]
    omega
  simp only [allowance, Phrase.size, hleft, Nat.succ_mul] at hs ⊢
  omega

theorem ended_andThen {o : Outcome} {f : State → Outcome} (ho : o.ended = true)
    (hf : ∀ s, o = .done s → (f s).ended = true) : (o.andThen f).ended = true := by
  cases o with
  | done s => exact hf s rfl
  | halted => rfl
  | spent => cases ho

section
variable {σ : Setting} {size n : Nat} {open_ : List String} {s : State}

/-- A loop ends if its body does, and the loop does with fewer tokens ahead. -/
theorem ended_loop (hs : σ.sentinel = Token.endOfInput size) (hg : Progressive σ.grammar)
    {test : Lookahead} {body : Phrase} (hgr : test.grounded = true) (hend : test.endAnswer = false)
    (hmoves : body.moves σ.grammar = true)
    (hbody : (Phrase.run σ n open_ body (test.ask σ open_ s).2).ended = true)
    (hloop : ∀ s₁ : State, s₁.rest.length < s.rest.length →
      (Phrase.run σ n open_ (.loop test body) s₁).ended = true) :
    (Phrase.run σ (n + 1) open_ (.loop test body) s).ended = true := by
  have hrest : (test.ask σ open_ s).2.rest = s.rest := (Lookahead.ask_notes ..).rest
  rw [run_loop]
  split
  next hy =>
    have hne : s.rest ≠ [] := rest_ne_nil_of_yes hs hgr hend hy
    refine ended_andThen hbody fun s₁ hb => hloop s₁ ?_
    have := shorter_of_moves hg (runs_of_run hb rfl) hmoves (by rwa [hrest]) s₁ rfl
    rwa [hrest] at this
  next => rfl

/-- A separator that is asked for and taken is a token less. -/
theorem shorter_of_separator (hs : σ.sentinel = Token.endOfInput size) {separator : String}
    (hsep : separator ≠ "EOF") (hy : ((Lookahead.is separator).ask σ open_ s).1 = true) :
    ((Lookahead.is separator).ask σ open_ s).2.take.rest.length < s.rest.length := by
  have hne : s.rest ≠ [] :=
    rest_ne_nil_of_yes hs (by simpa [Lookahead.grounded] using hsep) rfl hy
  have := List.length_pos_iff.mpr hne
  rw [take_rest, List.length_tail, (Lookahead.ask_notes ..).rest]
  omega

/-- A chain ends if its item does, and gap and chain do with fewer tokens ahead. -/
theorem ended_chain (hs : σ.sentinel = Token.endOfInput size) {item gap : Phrase}
    {separator : String} {more : Lookahead} (hsep : separator ≠ "EOF")
    (hitem : (Phrase.run σ n open_ item s).ended = true)
    (hgap : ∀ s₁ : State, s₁.rest.length < s.rest.length →
      (Phrase.run σ n open_ gap s₁).ended = true)
    (hchain : ∀ s₁ : State, s₁.rest.length < s.rest.length →
      (Phrase.run σ n open_ (.chain item separator gap more) s₁).ended = true) :
    (Phrase.run σ (n + 1) open_ (.chain item separator gap more) s).ended = true := by
  rw [run_chain]
  refine ended_andThen hitem fun s₁ hi => ?_
  have hle₁ : s₁.rest.length ≤ s.rest.length := (runs_of_run hi rfl).rest_suffix.length_le
  split
  next hy =>
    have htake := Nat.lt_of_lt_of_le (shorter_of_separator hs hsep hy) hle₁
    refine ended_andThen (hgap _ htake) fun s₂ hr => ?_
    have hle₂ := (runs_of_run hr rfl).rest_suffix.length_le
    split
    · refine hchain _ ?_
      rw [(Lookahead.ask_notes ..).rest]
      exact Nat.lt_of_le_of_lt hle₂ htake
    · rfl
  next => rfl

/-- A call ends if the body of the rule that it opens does. -/
theorem ended_call (hg : Progressive σ.grammar) {name : String}
    (hbody : ∀ ruleName body, body.progressive σ.grammar = true →
      (Phrase.node ruleName body).size ≤ σ.grammar.size → open_.length < maxDepth →
      (Phrase.run σ n (ruleName :: open_) body { s with forest := [] }).ended = true) :
    (Phrase.run σ (n + 2) open_ (.call name) s).ended = true := by
  rw [run_call]
  cases hl : σ.grammar.rules.lookup name with
  | none =>
    have hrule : σ.grammar.rule name = .empty := by simp [Grammar.rule, hl]
    rw [hrule]
    rfl
  | some q =>
    have hsome : (σ.grammar.rules.lookup name).isSome = true := by
      rw [hl]
      rfl
    obtain ⟨r, hr, hrule⟩ := rule_of_lookup hsome
    obtain ⟨hopens, -, hprog⟩ := hg.rules r hr
    have hsize : r.2.size ≤ σ.grammar.size := size_le_foldl_size hr _
    obtain ⟨ruleName, body, hq⟩ := node_of_opensRule hopens
    rw [hq] at hprog hsize
    rw [hrule, hq, run_node]
    split
    next => rfl
    next hd =>
      rw [Outcome.ended_map]
      exact hbody ruleName body (by simpa [Phrase.progressive] using hprog) hsize
        (Nat.lt_of_not_le hd)

end

/-- With its allowance of fuel a run ends. -/
theorem run_ended {σ : Setting} {size : Nat} (hs : σ.sentinel = Token.endOfInput size)
    (hg : Progressive σ.grammar) {n : Nat} {open_ : List String} {p : Phrase} {s : State}
    (hp : p.progressive σ.grammar = true)
    (hn : allowance σ.grammar p.size (maxDepth - open_.length) s.rest.length ≤ n) :
    (Phrase.run σ n open_ p s).ended = true := by
  induction n using Nat.strongRecOn generalizing open_ p s with
  | ind n ih =>
  obtain ⟨n, rfl⟩ : ∃ m, n = m + 1 := ⟨n - 1, by unfold allowance at hn; omega⟩
  have enough : ∀ {q : Phrase} {s₁ : State}, q.size < p.size → s₁.rest.length ≤ s.rest.length →
      q.progressive σ.grammar = true → (Phrase.run σ n open_ q s₁).ended = true := by
    intro q s₁ hsize hle hq
    exact ih n (Nat.lt_succ_self n) hq
      (Nat.le_of_succ_le_succ (Nat.le_trans (allowance_part hsize hle) hn))
  have again : ∀ s₁ : State, s₁.rest.length < s.rest.length →
      (Phrase.run σ n open_ p s₁).ended = true := fun _ hlt =>
    ih n (Nat.lt_succ_self n) hp
      (Nat.le_of_succ_le_succ (Nat.le_trans (allowance_again (grammar_size_pos _) hlt) hn))
  cases p with
  | empty | take | reject => rfl
  | seq a b =>
    simp only [Phrase.progressive, Bool.and_eq_true] at hp
    rw [run_seq]
    refine ended_andThen (enough (by simp only [Phrase.size]; omega) (Nat.le_refl _) hp.1)
      fun s₁ ha => enough (by simp only [Phrase.size]; omega) ?_ hp.2
    exact (runs_of_run ha rfl).rest_suffix.length_le
  | choose test a b =>
    simp only [Phrase.progressive, Bool.and_eq_true] at hp
    have hrest : (test.ask σ open_ s).2.rest = s.rest := (Lookahead.ask_notes ..).rest
    rw [run_choose]
    split
    · exact enough (by simp only [Phrase.size]; omega) (Nat.le_of_eq (by rw [hrest])) hp.1
    · exact enough (by simp only [Phrase.size]; omega) (Nat.le_of_eq (by rw [hrest])) hp.2
  | loop test body =>
    have hl := hp
    simp only [Phrase.progressive, Bool.and_eq_true, Bool.not_eq_true'] at hl
    obtain ⟨⟨⟨hgr, hend⟩, hmoves⟩, hbody⟩ := hl
    have hrest : (test.ask σ open_ s).2.rest = s.rest := (Lookahead.ask_notes ..).rest
    exact ended_loop hs hg hgr hend hmoves
      (enough (by simp only [Phrase.size]; omega) (Nat.le_of_eq (by rw [hrest])) hbody) again
  | chain item separator gap more =>
    have hc := hp
    simp only [Phrase.progressive, Bool.and_eq_true, bne_iff_ne] at hc
    obtain ⟨⟨hsep, hitem⟩, hgap⟩ := hc
    exact ended_chain hs hsep
      (enough (by simp only [Phrase.size]; omega) (Nat.le_refl _) hitem)
      (fun s₁ hlt => enough (by simp only [Phrase.size]; omega) (Nat.le_of_lt hlt) hgap) again
  | node name body =>
    rw [run_node]
    split
    next => rfl
    next hd =>
      rw [Outcome.ended_map]
      exact ih n (Nat.lt_succ_self n) (by simpa [Phrase.progressive] using hp)
        (Nat.le_of_succ_le_succ (Nat.le_trans allowance_node hn))
  | call name =>
    -- a call and the node it opens take a unit of fuel each
    obtain ⟨n, rfl⟩ : ∃ m, n = m + 1 :=
      ⟨n - 1, by simp only [allowance, Phrase.size] at hn; omega⟩
    refine ended_call hg fun ruleName body hbody hsize hd => ih n (by omega) hbody ?_
    exact Nat.le_of_succ_le_succ (Nat.le_of_succ_le_succ
      (Nat.le_trans (allowance_call hd hsize) hn))

/-- Every phrase of a grammar that makes progress has a run. -/
theorem exists_runs {σ : Setting} {size : Nat} (hs : σ.sentinel = Token.endOfInput size)
    (hg : Progressive σ.grammar) (open_ : List String) {p : Phrase}
    (hp : p.progressive σ.grammar = true) (s : State) : ∃ o, Runs σ open_ p s o :=
  ⟨_, runs_of_run rfl (run_ended hs hg hp (Nat.le_refl _))⟩

end GraphLanguages.Grammar
