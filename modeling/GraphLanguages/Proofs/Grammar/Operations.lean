import GraphLanguages.Proofs.Grammar.ParseTree
import GraphLanguages.Proofs.Grammar.Progress
import Mathlib.Algebra.Order.BigOperators.Group.List
import Mathlib.Algebra.Order.Ring.Nat

/-! How long a run takes.

The operations of a run are the phrases that it enters, the tokens that it takes and the
questions that it asks (`Phrase.operations`). Under a grammar that makes progress there is a
bound on them that depends on the number of tokens alone (`Phrase.bound`, `operations_le`): a
round of a loop takes a token (`shorter_of_round`), so there are no more rounds than tokens,
and a call opens a node, so calls nest no deeper than rules may (`operations_rule_le`). -/
namespace GraphLanguages.Grammar

/-! ### Counting -/

/-- Number of types and categories asked for. -/
def Lookahead.operations (σ : Setting) (open_ : List String) : Lookahead → State → Nat
  | .is _, _ | .tagged .., _ | .aheadIs .., _ | .aheadTagged .., _ | .atEnd, _ => 1
  | .anyOf names, _ => names.length
  | .either a b, s =>
    a.operations σ open_ s +
      if (a.ask σ open_ s).1 then 0 else b.operations σ open_ (a.ask σ open_ s).2
  | .both a b, s =>
    a.operations σ open_ s +
      if (a.ask σ open_ s).1 then b.operations σ open_ (a.ask σ open_ s).2 else 0
  | .negated a, s => a.operations σ open_ s

/-- The question, and what follows its answer. -/
def Lookahead.branchCount (σ : Setting) (open_ : List String) (test : Lookahead)
    (yes no : State → Nat) (s : State) : Nat :=
  test.operations σ open_ s +
    if (test.ask σ open_ s).1 then yes (test.ask σ open_ s).2 else no (test.ask σ open_ s).2

/-- What follows where the first run is done. -/
def Outcome.thenCount (o : Outcome) (f : State → Nat) : Nat :=
  match o with
  | .done s => f s
  | .halted _ | .spent _ => 0

/-- Number of operations of `Phrase.run`: a unit for every phrase entered, and what the
phrase takes and asks for. -/
def Phrase.operations (σ : Setting) : (fuel : Nat) → List String → Phrase → State → Nat
  | 0, _, _, _ => 0
  | fuel + 1, open_, phrase, s =>
    1 + match phrase with
    | .empty | .reject _ => 0
    | .take => 1
    | .seq a b =>
      operations σ fuel open_ a s + (a.run σ fuel open_ s).thenCount (operations σ fuel open_ b)
    | .choose test a b =>
      test.branchCount σ open_ (operations σ fuel open_ a) (operations σ fuel open_ b) s
    | .loop test body =>
      test.branchCount σ open_
        (fun s => operations σ fuel open_ body s +
          (body.run σ fuel open_ s).thenCount (operations σ fuel open_ (.loop test body)))
        (fun _ => 0) s
    | .chain item separator gap more =>
      operations σ fuel open_ item s + (item.run σ fuel open_ s).thenCount
        ((Lookahead.is separator).branchCount σ open_
          (fun s => 1 + operations σ fuel open_ gap s.take +
            (gap.run σ fuel open_ s.take).thenCount
              (more.branchCount σ open_
                (operations σ fuel open_ (.chain item separator gap more)) fun _ => 0))
          fun _ => 0)
    | .node name body =>
      if maxDepth ≤ open_.length then 0
      else operations σ fuel (name :: open_) body { s with forest := [] }
    | .call name => operations σ fuel open_ (σ.grammar.rule name) s

/-- Number of types and categories that a question may ask for. -/
def Lookahead.size : Lookahead → Nat
  | .is _ | .tagged .. | .aheadIs .. | .aheadTagged .. | .atEnd => 1
  | .anyOf names => names.length
  | .either a b | .both a b => a.size + b.size
  | .negated a => a.size

theorem Lookahead.operations_le (σ : Setting) (open_ : List String) (test : Lookahead)
    (s : State) : test.operations σ open_ s ≤ test.size := by
  induction test generalizing s with
  | is | tagged | aheadIs | aheadTagged | atEnd | anyOf => exact Nat.le_refl _
  | either a b iha ihb | both a b iha ihb =>
    have ha := iha s
    have hb := ihb (a.ask σ open_ s).2
    rw [operations, size]
    split <;> omega
  | negated a ih => exact ih s

/-- Most operations of a phrase with so many tokens ahead, given what a call may take. -/
def Phrase.most (ahead calls : Nat) : Phrase → Nat
  | .empty | .reject _ => 1
  | .take => 2
  | .seq a b => 1 + a.most ahead calls + b.most ahead calls
  | .choose test a b => 1 + test.size + a.most ahead calls + b.most ahead calls
  | .loop test body => (ahead + 1) * (1 + test.size + body.most ahead calls)
  | .chain item _ gap more =>
    (ahead + 1) * (3 + item.most ahead calls + gap.most ahead calls + more.size)
  | .node _ body => 1 + body.most ahead calls
  | .call _ => 1 + calls

/-- Most operations of the phrase of a name, with so many rules left to open. -/
def mostOfCall (g : Grammar) (ahead : Nat) : (left : Nat) → Nat
  | 0 => 1
  | left + 1 => 1 + (g.rules.map fun r => r.2.most ahead (mostOfCall g ahead left)).sum

/-- Most operations of a phrase with so many rules left to open and tokens ahead. -/
def Phrase.bound (g : Grammar) (left ahead : Nat) (p : Phrase) : Nat :=
  p.most ahead (mostOfCall g ahead left)

theorem Phrase.most_mono {ahead ahead' calls calls' : Nat} (ha : ahead ≤ ahead')
    (hc : calls ≤ calls') (p : Phrase) : p.most ahead calls ≤ p.most ahead' calls' := by
  induction p with
  | empty | take | reject => exact Nat.le_refl _
  | seq a b iha ihb | choose test a b iha ihb =>
    simp only [most]
    omega
  | loop test body ih =>
    exact Nat.mul_le_mul (Nat.succ_le_succ ha) (Nat.add_le_add_left ih _)
  | chain item separator gap more ihi ihg =>
    apply Nat.mul_le_mul (Nat.succ_le_succ ha)
    omega
  | node name body ih => exact Nat.add_le_add_left ih 1
  | call => exact Nat.add_le_add_left hc 1

theorem mostOfCall_mono (g : Grammar) {ahead ahead' : Nat} (ha : ahead ≤ ahead') (left : Nat) :
    mostOfCall g ahead left ≤ mostOfCall g ahead' left := by
  induction left with
  | zero => exact Nat.le_refl 1
  | succ left ih =>
    exact Nat.add_le_add_left (List.sum_le_sum fun r _ => r.2.most_mono ha ih) 1

theorem Phrase.bound_mono (g : Grammar) (left : Nat) {ahead ahead' : Nat} (ha : ahead ≤ ahead')
    (p : Phrase) : p.bound g left ahead ≤ p.bound g left ahead' :=
  p.most_mono ha (mostOfCall_mono g ha left)

theorem bound_le_mostOfCall {g : Grammar} {r : String × Phrase} (hr : r ∈ g.rules)
    (left ahead : Nat) : r.2.bound g left ahead ≤ mostOfCall g ahead (left + 1) :=
  Nat.le_add_left_of_le (List.le_sum_of_mem (List.mem_map.mpr ⟨r, hr, rfl⟩))

theorem thenCount_le {o : Outcome} {f : State → Nat} {n : Nat}
    (h : ∀ s, o = .done s → f s ≤ n) : o.thenCount f ≤ n := by
  cases o with
  | done s => exact h s rfl
  | halted | spent => exact Nat.zero_le n

theorem branchCount_le {σ : Setting} {open_ : List String} {test : Lookahead}
    {yes no : State → Nat} {s : State} {n : Nat}
    (hy : (test.ask σ open_ s).1 = true → yes (test.ask σ open_ s).2 ≤ n)
    (hn : (test.ask σ open_ s).1 = false → no (test.ask σ open_ s).2 ≤ n) :
    test.branchCount σ open_ yes no s ≤ test.size + n := by
  apply Nat.add_le_add (test.operations_le σ open_ s)
  split
  next h => exact hy h
  next h => exact hn (by simpa using h)

/-! ### Rounds -/

/-- The loop or the chain goes round once. -/
inductive Round (σ : Setting) (open_ : List String) : Phrase → State → Outcome → Prop
  | loop {test body s o} : (test.ask σ open_ s).1 = true →
      Runs σ open_ body (test.ask σ open_ s).2 o → Round σ open_ (.loop test body) s o
  /-- An item, the separator behind it, and the gap. -/
  | chain {item separator gap more s s₁ o} : Runs σ open_ item s (.done s₁) →
      ((Lookahead.is separator).ask σ open_ s₁).1 = true →
      Runs σ open_ gap ((Lookahead.is separator).ask σ open_ s₁).2.take o →
      Round σ open_ (.chain item separator gap more) s o
  | chainHalt {item separator gap more s s₁} : Runs σ open_ item s (.halted s₁) →
      Round σ open_ (.chain item separator gap more) s (.halted s₁)

theorem Round.ended {σ : Setting} {open_ : List String} {p : Phrase} {s : State} {o : Outcome}
    (h : Round σ open_ p s o) : o.ended = true := by
  cases h with
  | loop _ h | chain _ _ h => exact h.ended
  | chainHalt => rfl

/-- A round that is done has taken a token. -/
theorem shorter_of_round {σ : Setting} {size : Nat} (hs : σ.sentinel = Token.endOfInput size)
    (hg : Progressive σ.grammar) {open_ : List String} {p : Phrase} {s s' : State}
    (hp : p.progressive σ.grammar = true) (h : Round σ open_ p s (.done s')) :
    s'.rest.length < s.rest.length := by
  cases h with
  | @loop test body _ _ hy h =>
    simp only [Phrase.progressive, Bool.and_eq_true, Bool.not_eq_true'] at hp
    obtain ⟨⟨⟨hgr, hend⟩, hmoves⟩, -⟩ := hp
    have hrest : (test.ask σ open_ s).2.rest = s.rest := (Lookahead.ask_notes ..).rest
    have hne : s.rest ≠ [] := rest_ne_nil_of_yes hs hgr hend hy
    have hlt := shorter_of_moves hg h hmoves (by rwa [hrest]) s' rfl
    rwa [hrest] at hlt
  | @chain item separator gap more _ s₁ _ hitem hy hgap =>
    simp only [Phrase.progressive, Bool.and_eq_true, bne_iff_ne] at hp
    have hitem : s₁.rest.length ≤ s.rest.length := hitem.rest_suffix.length_le
    exact Nat.lt_of_le_of_lt hgap.rest_suffix.length_le
      (Nat.lt_of_lt_of_le (shorter_of_separator hs hp.1.1 hy) hitem)

theorem progressive_of_mem_parts {g : Grammar} {p q : Phrase} (hp : p.progressive g = true)
    (hq : q ∈ p.parts) : q.progressive g = true := by
  induction p with
  | empty | take | reject | call =>
    obtain rfl := List.mem_singleton.mp hq
    rfl
  | seq a b iha ihb | choose _ a b iha ihb =>
    rcases List.mem_cons.mp hq with rfl | hq
    · exact hp
    simp only [Phrase.progressive, Bool.and_eq_true] at hp
    exact (List.mem_append.mp hq).elim (iha hp.1) (ihb hp.2)
  | loop test body ih =>
    rcases List.mem_cons.mp hq with rfl | hq
    · exact hp
    simp only [Phrase.progressive, Bool.and_eq_true] at hp
    exact ih hp.2 hq
  | chain item _ gap _ ihi ihg =>
    rcases List.mem_cons.mp hq with rfl | hq
    · exact hp
    simp only [Phrase.progressive, Bool.and_eq_true] at hp
    exact (List.mem_append.mp hq).elim (ihi hp.1.2) (ihg hp.2)
  | node name body ih =>
    rcases List.mem_cons.mp hq with rfl | hq
    · exact hp
    · exact ih hp hq

/-! ### Bounds -/

section
variable {σ : Setting} {size fuel left : Nat} {open_ : List String} {s : State}

/-- One round of a loop, and the loop with fewer tokens ahead. -/
theorem operations_loop_le (hs : σ.sentinel = Token.endOfInput size) (hg : Progressive σ.grammar)
    {test : Lookahead} {body : Phrase} (hp : (Phrase.loop test body).progressive σ.grammar = true)
    (hbody : ∀ s₁ : State, s₁.rest = s.rest →
      body.operations σ fuel open_ s₁ ≤ body.bound σ.grammar left s.rest.length)
    (hloop : ∀ s₁ : State, s₁.rest.length < s.rest.length →
      (Phrase.loop test body).operations σ fuel open_ s₁ ≤
        (Phrase.loop test body).bound σ.grammar left s₁.rest.length) :
    (Phrase.loop test body).operations σ (fuel + 1) open_ s ≤
      (Phrase.loop test body).bound σ.grammar left s.rest.length := by
  have hrest : (test.ask σ open_ s).2.rest = s.rest := (Lookahead.ask_notes ..).rest
  have hbound : (Phrase.loop test body).bound σ.grammar left s.rest.length =
      s.rest.length * (1 + test.size + body.bound σ.grammar left s.rest.length) +
        (1 + test.size + body.bound σ.grammar left s.rest.length) := Nat.succ_mul ..
  suffices hcount : (Phrase.loop test body).operations σ (fuel + 1) open_ s ≤
      1 + (test.size + (body.bound σ.grammar left s.rest.length +
        s.rest.length * (1 + test.size + body.bound σ.grammar left s.rest.length))) by omega
  refine Nat.add_le_add_left (branchCount_le (fun hy => ?_) fun _ => Nat.zero_le _) 1
  refine Nat.add_le_add (hbody _ hrest) (thenCount_le fun s₁ hb => ?_)
  have hlt : s₁.rest.length < s.rest.length :=
    shorter_of_round hs hg hp (.loop hy (runs_of_run hb rfl))
  -- the rounds left are no more than the tokens ahead
  exact (hloop s₁ hlt).trans (Nat.mul_le_mul hlt
    (Nat.add_le_add_left (body.bound_mono σ.grammar left (Nat.le_of_lt hlt)) _))

/-- One item of a chain, and the chain with fewer tokens ahead. -/
theorem operations_chain_le (hs : σ.sentinel = Token.endOfInput size) (hg : Progressive σ.grammar)
    {item gap : Phrase} {separator : String} {more : Lookahead}
    (hp : (Phrase.chain item separator gap more).progressive σ.grammar = true)
    (hitem : item.operations σ fuel open_ s ≤ item.bound σ.grammar left s.rest.length)
    (hgap : ∀ s₁ : State, s₁.rest.length < s.rest.length →
      gap.operations σ fuel open_ s₁ ≤ gap.bound σ.grammar left s₁.rest.length)
    (hchain : ∀ s₁ : State, s₁.rest.length < s.rest.length →
      (Phrase.chain item separator gap more).operations σ fuel open_ s₁ ≤
        (Phrase.chain item separator gap more).bound σ.grammar left s₁.rest.length) :
    (Phrase.chain item separator gap more).operations σ (fuel + 1) open_ s ≤
      (Phrase.chain item separator gap more).bound σ.grammar left s.rest.length := by
  have hmono : ∀ {q : Phrase} {s₁ : State}, s₁.rest.length < s.rest.length →
      q.bound σ.grammar left s₁.rest.length ≤ q.bound σ.grammar left s.rest.length :=
    fun hlt => Phrase.bound_mono σ.grammar left (Nat.le_of_lt hlt) _
  generalize hround : 3 + item.bound σ.grammar left s.rest.length +
    gap.bound σ.grammar left s.rest.length + more.size = round
  have hbound : (Phrase.chain item separator gap more).bound σ.grammar left s.rest.length =
      s.rest.length * round + round := by
    rw [← hround]
    exact Nat.succ_mul ..
  suffices hcount : (Phrase.chain item separator gap more).operations σ (fuel + 1) open_ s ≤
      1 + (item.bound σ.grammar left s.rest.length + (1 + (1 +
        gap.bound σ.grammar left s.rest.length +
          (more.size + s.rest.length * round)))) by omega
  refine Nat.add_le_add_left (Nat.add_le_add hitem (thenCount_le fun s₁ hi => ?_)) 1
  have hle₁ : s₁.rest.length ≤ s.rest.length := (runs_of_run hi rfl).rest_suffix.length_le
  refine branchCount_le (fun hy => ?_) fun _ => Nat.zero_le _
  have hsep : separator ≠ "EOF" := by
    simp only [Phrase.progressive, Bool.and_eq_true, bne_iff_ne] at hp
    exact hp.1.1
  have htake := Nat.lt_of_lt_of_le (shorter_of_separator hs hsep hy) hle₁
  refine Nat.add_le_add (Nat.add_le_add_left ((hgap _ htake).trans (hmono htake)) 1)
    (thenCount_le fun s₂ hr => ?_)
  have hlt : (more.ask σ open_ s₂).2.rest.length < s.rest.length := by
    rw [(Lookahead.ask_notes ..).rest]
    exact shorter_of_round hs hg hp (.chain (runs_of_run hi rfl) hy (runs_of_run hr rfl))
  refine branchCount_le (fun _ => (hchain _ hlt).trans ?_) fun _ => Nat.zero_le _
  refine Nat.mul_le_mul hlt ?_
  have hitem := hmono (q := item) hlt
  have hgap := hmono (q := gap) hlt
  rw [← hround]
  unfold Phrase.bound at hitem hgap ⊢
  omega

theorem operations_node_le {name : String} {body : Phrase} {n : Nat}
    (h : open_.length < maxDepth →
      body.operations σ fuel (name :: open_) { s with forest := [] } ≤ n) :
    (Phrase.node name body).operations σ (fuel + 1) open_ s ≤ 1 + n := by
  unfold Phrase.operations
  apply Nat.add_le_add_left
  dsimp only
  split
  next => exact Nat.zero_le n
  next hd => exact h (Nat.lt_of_not_le hd)

/-- A call takes a unit for the node that it opens, and what the body of the node takes. -/
theorem operations_rule_le (hg : Progressive σ.grammar) (name : String)
    (hleft : maxDepth ≤ open_.length + left)
    (hbody : ∀ {left' : Nat} {ruleName : String} {body : Phrase},
      body.progressive σ.grammar = true → maxDepth ≤ (ruleName :: open_).length + left' →
      body.operations σ fuel (ruleName :: open_) { s with forest := [] } ≤
        body.bound σ.grammar left' s.rest.length) :
    (σ.grammar.rule name).operations σ (fuel + 1) open_ s ≤
      mostOfCall σ.grammar s.rest.length left := by
  rcases rule_eq_empty_or_mem σ.grammar name with hrule | ⟨r, hr, hrule⟩
  · rw [hrule]
    cases left with
    | zero => exact Nat.le_refl 1
    | succ left => exact Nat.le_add_right 1 _
  obtain ⟨hopens, -, hprog⟩ := hg.rules r hr
  obtain ⟨ruleName, body, hnode⟩ := node_of_opensRule hopens
  rw [hnode] at hprog
  cases left with
  | zero =>
    have hle : (Phrase.node ruleName body).operations σ (fuel + 1) open_ s ≤ 1 + 0 :=
      operations_node_le fun hd => absurd hleft (Nat.not_le_of_lt hd)
    rwa [hrule, hnode]
  | succ left =>
    have hle : (Phrase.node ruleName body).operations σ (fuel + 1) open_ s ≤
        (Phrase.node ruleName body).bound σ.grammar left s.rest.length :=
      operations_node_le fun _ => hbody hprog (by rw [List.length_cons]; omega)
    rw [hrule, hnode]
    exact hle.trans (hnode ▸ bound_le_mostOfCall hr left s.rest.length)

end

/-- A run takes no more operations than the bound, with as much fuel as may be. -/
theorem operations_le {σ : Setting} {size : Nat} (hs : σ.sentinel = Token.endOfInput size)
    (hg : Progressive σ.grammar) {fuel left : Nat} {open_ : List String} {p : Phrase} {s : State}
    (hp : p.progressive σ.grammar = true) (hleft : maxDepth ≤ open_.length + left) :
    p.operations σ fuel open_ s ≤ p.bound σ.grammar left s.rest.length := by
  induction fuel using Nat.strongRecOn generalizing left open_ p s with
  | ind fuel ih =>
  cases fuel with
  | zero => exact Nat.zero_le _
  | succ fuel =>
    have below := @ih fuel (Nat.lt_succ_self fuel)
    cases p with
    | empty | take | reject => exact Nat.le_refl _
    | seq a b =>
      simp only [Phrase.progressive, Bool.and_eq_true] at hp
      have hcount : (Phrase.seq a b).operations σ (fuel + 1) open_ s ≤
          1 + (a.bound σ.grammar left s.rest.length + b.bound σ.grammar left s.rest.length) := by
        refine Nat.add_le_add_left
          (Nat.add_le_add (below hp.1 hleft) (thenCount_le fun s₁ ha => ?_)) 1
        exact (below hp.2 hleft).trans (b.bound_mono σ.grammar left
          (runs_of_run ha rfl).rest_suffix.length_le)
      exact hcount.trans (Nat.le_of_eq (Nat.add_assoc ..).symm)
    | choose test a b =>
      simp only [Phrase.progressive, Bool.and_eq_true] at hp
      have hrest : (test.ask σ open_ s).2.rest = s.rest := (Lookahead.ask_notes ..).rest
      have hcount : (Phrase.choose test a b).operations σ (fuel + 1) open_ s ≤
          1 + (test.size +
            (a.bound σ.grammar left s.rest.length + b.bound σ.grammar left s.rest.length)) := by
        refine Nat.add_le_add_left (branchCount_le (fun _ => ?_) fun _ => ?_) 1
        · exact Nat.le_add_right_of_le (hrest ▸ below hp.1 hleft)
        · exact Nat.le_add_left_of_le (hrest ▸ below hp.2 hleft)
      unfold Phrase.bound at hcount ⊢
      rw [Phrase.most]
      omega
    | loop test body =>
      have hbody : body.progressive σ.grammar = true := (Bool.and_eq_true_iff.mp hp).2
      exact operations_loop_le hs hg hp (fun s₁ hrest => hrest ▸ below hbody hleft)
        fun s₁ _ => below hp hleft
    | chain item separator gap more =>
      obtain ⟨hitem, hgap⟩ := Bool.and_eq_true_iff.mp hp
      exact operations_chain_le hs hg hp (below (Bool.and_eq_true_iff.mp hitem).2 hleft)
        (fun s₁ _ => below hgap hleft) fun s₁ _ => below hp hleft
    | node name body =>
      exact operations_node_le fun _ => @ih fuel (Nat.lt_succ_self fuel) left (name :: open_) body
        { s with forest := [] } hp (by rw [List.length_cons]; omega)
    | call name =>
      refine Nat.add_le_add_left ?_ 1
      -- the call and the node that it opens take a unit of fuel each
      cases fuel with
      | zero => exact Nat.zero_le _
      | succ fuel => exact operations_rule_le hg name hleft fun hp hl => ih fuel (by omega) hp hl

/-! ### Parsing and content assist -/

/-- The setting is one of a parse or of content assist with the grammar. -/
inductive Uses (g : Grammar) : Setting → Prop
  | parsing (v : Vocabulary) (size : Nat) : Uses g (g.parsing v size)
  | assisting (v : Vocabulary) (size : Nat) : Uses g (g.assisting v size)

/-- A run over some tokens, below a root, ends after so many operations at most. -/
structure EndsWithin (n : Nat) (σ : Setting) (root : String) (body : Phrase)
    (tokens : List Token) : Prop where
  ended : (runRoot σ root body tokens).ended = true
  operations : (Phrase.node root body).operations σ (σ.grammar.fuel tokens.length) []
    { rest := tokens } ≤ n

/-- A round of a loop or of a chain takes a token or halts. -/
def RoundsMove (g : Grammar) : Prop :=
  ∀ σ, g.Uses σ → ∀ p ∈ vicinity g g.document, ∀ open_ s o, Round σ open_ p s o →
    (∃ s', o = .halted s') ∨ ∃ s', o = .done s' ∧ s'.rest.length < s.rest.length

/-- Every named phrase is a node, so a call of it opens one rule more, or halts because rules
nest too deep. -/
def CallsOpen (g : Grammar) : Prop :=
  ∀ name, (g.rules.lookup name).isSome = true →
    ∃ rule body, g.rule name = .node rule body ∧
      ∀ σ, g.Uses σ → ∀ open_ s o, Runs σ open_ (.call name) s o →
        (maxDepth ≤ open_.length ∧ ∃ s', o = .halted s') ∨
          open_.length < maxDepth ∧ ∃ o',
            Runs σ (rule :: open_) body { s with forest := [] } o' ∧
              o = o'.map (State.close rule s.forest)

section
variable {g : Grammar} {σ : Setting}

theorem EndsWithin.mono {n n' : Nat} {root : String} {body : Phrase} {tokens : List Token}
    (h : EndsWithin n σ root body tokens) (hn : n ≤ n') : EndsWithin n' σ root body tokens :=
  ⟨h.ended, h.operations.trans hn⟩

theorem Uses.grammar (h : g.Uses σ) : σ.grammar = g := by
  cases h <;> rfl

theorem Uses.sentinel (h : g.Uses σ) : ∃ size, σ.sentinel = Token.endOfInput size := by
  cases h <;> exact ⟨_, rfl⟩

theorem Progressive.of_mem_vicinity (hg : Progressive g) {p : Phrase}
    (hp : p ∈ vicinity g g.document) : p.progressive g = true := by
  rcases List.mem_cons.mp hp with rfl | hp
  · rfl
  rcases List.mem_append.mp hp with hp | hp
  · exact progressive_of_mem_parts hg.document hp
  · obtain ⟨r, hr, hp⟩ := List.mem_flatMap.mp hp
    exact progressive_of_mem_parts (hg.rules r hr).2.2 hp

theorem Progressive.roundsMove (hg : Progressive g) : g.RoundsMove := by
  rintro σ hσ p hp open_ s o h
  obtain ⟨size, hs⟩ := hσ.sentinel
  obtain rfl := hσ.grammar
  cases o with
  | done s' => exact .inr ⟨s', rfl, shorter_of_round hs hg (hg.of_mem_vicinity hp) h⟩
  | halted s' => exact .inl ⟨s', rfl⟩
  | spent => cases h.ended

theorem Progressive.callsOpen (hg : Progressive g) : g.CallsOpen := by
  intro name hname
  obtain ⟨r, hr, hrule⟩ := rule_of_lookup hname
  obtain ⟨rule, body, hnode⟩ := node_of_opensRule (hg.rules r hr).1
  refine ⟨rule, body, hrule.trans hnode, fun σ hσ open_ s o h => ?_⟩
  obtain rfl := hσ.grammar
  cases h with
  | call h =>
    rw [hrule, hnode] at h
    by_cases hd : open_.length < maxDepth
    · exact .inr ⟨hd, h.of_node hd⟩
    · cases h with
      | tooDeep hd => exact .inl ⟨hd, _, rfl⟩
      | node hd' | nodeHalt hd' => exact absurd hd' hd

/-- A phrase no larger than the document ends within its bound. -/
theorem Progressive.endsWithin (hg : Progressive g) (hσ : g.Uses σ) (root : String)
    {body : Phrase} (hp : body.progressive g = true) (hsize : body.size ≤ g.entry.size + 6)
    (tokens : List Token) :
    EndsWithin ((Phrase.node root body).bound g maxDepth tokens.length) σ root body tokens := by
  obtain ⟨size, hs⟩ := hσ.sentinel
  obtain rfl := hσ.grammar
  obtain ⟨o, h⟩ := exists_runs hs hg [] (p := .node root body) hp { rest := tokens }
  refine ⟨?_, operations_le hs hg hp (Nat.le_add_left ..)⟩
  rw [runRoot_of_runs hsize h]
  exact h.ended

end

end GraphLanguages.Grammar
