import GraphLanguages.Proofs.Grammar.Lookahead

/-! Runs without fuel.

`Runs σ open_ p s o` says that the phrase, run below the open rules from a state,
ends with the outcome. A repetition runs as its unfolding does. The relation is what
the interpreter computes when its fuel lasts: `runs_of_run` and `exists_run` are the
two directions, and `run_mono` says that more fuel changes nothing. -/
namespace GraphLanguages.Grammar

/-- The setting of a parse. -/
def parsing (g : Grammar) (v : Vocabulary) (size : Nat) : Setting :=
  ⟨v, g, Token.endOfInput size, false⟩

/-- The setting of content assist. -/
def assisting (g : Grammar) (v : Vocabulary) (size : Nat) : Setting :=
  ⟨v, g, Token.endOfInput size, true⟩

theorem rule_eq_empty_or_mem (g : Grammar) (name : String) :
    g.rule name = .empty ∨ ∃ r ∈ g.rules, g.rule name = r.2 := by
  unfold Grammar.rule
  cases h : g.rules.lookup name with
  | none => exact .inl rfl
  | some p =>
    obtain ⟨l₁, l₂, hl, _⟩ := List.lookup_eq_some_iff.mp h
    exact .inr ⟨(name, p), by simp [hl], rfl⟩

/-- What holds of the empty phrase and of every rule holds of the phrase of any name. -/
theorem forall_rule {g : Grammar} {P : Phrase → Prop} (hempty : P .empty)
    (hrules : ∀ r ∈ g.rules, P r.2) (name : String) : P (g.rule name) := by
  rcases rule_eq_empty_or_mem g name with hr | ⟨r, hmem, hr⟩
  · exact hr ▸ hempty
  · exact hr ▸ hrules r hmem

theorem rule_eq_empty {g : Grammar} {name : String}
    (h : ¬(g.rules.lookup name).isSome = true) : g.rule name = .empty := by
  rw [rule, Option.not_isSome_iff_eq_none.mp h]
  rfl

namespace Outcome

/-- The fuel lasted. -/
def ended : Outcome → Bool
  | .done _ | .halted _ => true
  | .spent _ => false

/-- Goes on where the first run is done; a run that stopped before stays as it is. -/
def andThen (o : Outcome) (f : State → Outcome) : Outcome :=
  match o with
  | .done s => f s
  | stopped => stopped

theorem ended_of_andThen {o : Outcome} {f : State → Outcome} (h : (o.andThen f).ended = true) :
    o.ended = true := by
  cases o <;> first | rfl | exact h

theorem ended_map (o : Outcome) (f : State → State) : (o.map f).ended = o.ended := by
  cases o <;> rfl

/-- How two runs in a row end, when the fuel lasts. -/
theorem andThen_cases {o r : Outcome} {f : State → Outcome} (h : o.andThen f = r)
    (hr : r.ended = true) :
    (∃ s, o = .done s ∧ f s = r) ∨ ∃ s, o = .halted s ∧ r = .halted s := by
  subst h
  cases o with
  | done s => exact .inl ⟨s, rfl, rfl⟩
  | halted s => exact .inr ⟨s, rfl, rfl⟩
  | spent s => cases hr

theorem andThen_congr {o o' : Outcome} {f f' : State → Outcome} (ho : o' = o)
    (hf : ∀ s, o = .done s → f' s = f s) : o'.andThen f' = o.andThen f := by
  subst ho
  cases o' with
  | done s => exact hf s rfl
  | halted | spent => rfl

end Outcome

namespace Phrase

/-- One round of a loop, with the loop behind it. -/
def unrollLoop (test : Lookahead) (body : Phrase) : Phrase :=
  .choose test (.seq body (.loop test body)) .empty

/-- What follows an item of a chain. -/
def chainTail (item : Phrase) (separator : String) (gap : Phrase) (more : Lookahead) : Phrase :=
  .choose (.is separator)
    (.seq .take (.seq gap (.choose more (.chain item separator gap more) .empty))) .empty

def unrollChain (item : Phrase) (separator : String) (gap : Phrase) (more : Lookahead) : Phrase :=
  .seq item (chainTail item separator gap more)

end Phrase

inductive Runs (σ : Setting) : List String → Phrase → State → Outcome → Prop
  | empty {open_ s} : Runs σ open_ .empty s (.done s)
  | take {open_ s} : Runs σ open_ .take s (.done s.take)
  | reject {open_ c s} : Runs σ open_ (.reject c) s (.halted (s.complain σ open_ c))
  | seq {open_ a b s s₁ o} : Runs σ open_ a s (.done s₁) → Runs σ open_ b s₁ o →
      Runs σ open_ (.seq a b) s o
  | seqHalt {open_ a b s s₁} : Runs σ open_ a s (.halted s₁) →
      Runs σ open_ (.seq a b) s (.halted s₁)
  | chooseYes {open_ test a b s o} : (test.ask σ open_ s).1 = true →
      Runs σ open_ a (test.ask σ open_ s).2 o → Runs σ open_ (.choose test a b) s o
  | chooseNo {open_ test a b s o} : (test.ask σ open_ s).1 = false →
      Runs σ open_ b (test.ask σ open_ s).2 o → Runs σ open_ (.choose test a b) s o
  | loop {open_ test body s o} : Runs σ open_ (Phrase.unrollLoop test body) s o →
      Runs σ open_ (.loop test body) s o
  | chain {open_ item separator gap more s o} :
      Runs σ open_ (Phrase.unrollChain item separator gap more) s o →
      Runs σ open_ (.chain item separator gap more) s o
  | tooDeep {open_ name body s} : maxDepth ≤ open_.length →
      Runs σ open_ (.node name body) s (.halted (s.complain σ open_ .tooDeep))
  | node {open_ name body s s₁} : open_.length < maxDepth →
      Runs σ (name :: open_) body { s with forest := [] } (.done s₁) →
      Runs σ open_ (.node name body) s (.done (s₁.close name s.forest))
  | nodeHalt {open_ name body s s₁} : open_.length < maxDepth →
      Runs σ (name :: open_) body { s with forest := [] } (.halted s₁) →
      Runs σ open_ (.node name body) s (.halted (s₁.close name s.forest))
  | call {open_ name s o} : Runs σ open_ (σ.grammar.rule name) s o →
      Runs σ open_ (.call name) s o

section
variable {σ : Setting} {open_ : List String} {s : State}

/-! ### What the steps leave alone -/

theorem take_rest (s : State) : s.take.rest = s.rest.tail := by
  unfold State.take
  split
  next h => simp [h]
  next h => simp [h]

theorem take_rest_suffix (s : State) : s.take.rest <:+ s.rest := by
  rw [take_rest]
  exact List.tail_suffix _

theorem complain_rest (σ : Setting) (open_ : List String) (c : Complaint) (s : State) :
    (s.complain σ open_ c).rest = s.rest := by
  unfold State.complain
  split <;> rfl

theorem take_noted (s : State) : s.take.noted = s.noted := by
  unfold State.take
  split <;> rfl

theorem complain_noted (σ : Setting) (open_ : List String) (c : Complaint) (s : State) :
    (s.complain σ open_ c).noted = s.noted := by
  unfold State.complain
  split <;> rfl

/-! ### The interpreter, one phrase at a time -/

theorem run_seq (n : Nat) (a b : Phrase) :
    Phrase.run σ (n + 1) open_ (.seq a b) s =
      (Phrase.run σ n open_ a s).andThen (Phrase.run σ n open_ b) := by
  rw [Phrase.run]
  rfl

theorem run_take (n : Nat) : Phrase.run σ (n + 1) open_ .take s = .done s.take := rfl

theorem run_choose (n : Nat) (test : Lookahead) (a b : Phrase) :
    Phrase.run σ (n + 1) open_ (.choose test a b) s =
      if (test.ask σ open_ s).1 then Phrase.run σ n open_ a (test.ask σ open_ s).2
      else Phrase.run σ n open_ b (test.ask σ open_ s).2 := by
  rw [Phrase.run]
  rcases test.ask σ open_ s with ⟨_ | _, s₁⟩ <;> rfl

theorem run_loop (n : Nat) (test : Lookahead) (body : Phrase) :
    Phrase.run σ (n + 1) open_ (.loop test body) s =
      if (test.ask σ open_ s).1 then
        (Phrase.run σ n open_ body (test.ask σ open_ s).2).andThen
          (Phrase.run σ n open_ (.loop test body))
      else .done (test.ask σ open_ s).2 := by
  rw [Phrase.run]
  rcases test.ask σ open_ s with ⟨_ | _, s₁⟩ <;> rfl

theorem run_chain (n : Nat) (item : Phrase) (separator : String) (gap : Phrase)
    (more : Lookahead) :
    Phrase.run σ (n + 1) open_ (.chain item separator gap more) s =
      (Phrase.run σ n open_ item s).andThen fun s₁ =>
        if ((Lookahead.is separator).ask σ open_ s₁).1 then
          (Phrase.run σ n open_ gap ((Lookahead.is separator).ask σ open_ s₁).2.take).andThen
            fun s₂ =>
              if (more.ask σ open_ s₂).1 then
                Phrase.run σ n open_ (.chain item separator gap more) (more.ask σ open_ s₂).2
              else .done (more.ask σ open_ s₂).2
        else .done ((Lookahead.is separator).ask σ open_ s₁).2 := by
  rw [Phrase.run]
  cases Phrase.run σ n open_ item s with
  | halted | spent => rfl
  | done s₁ =>
    obtain ⟨answer, s₁', ha⟩ : ∃ answer s₁',
        Lookahead.askFor σ open_ separator s₁ = (answer, s₁') := ⟨_, _, rfl⟩
    simp only [Outcome.andThen, Lookahead.ask, ha]
    cases answer with
    | false => rfl
    | true =>
      simp only [if_true]
      cases Phrase.run σ n open_ gap s₁'.take with
      | halted | spent => rfl
      | done s₂ =>
        obtain ⟨answer, s₂', hm⟩ : ∃ answer s₂', more.ask σ open_ s₂ = (answer, s₂') :=
          ⟨_, _, rfl⟩
        simp only [hm]
        cases answer <;> rfl

theorem run_node (n : Nat) (name : String) (body : Phrase) :
    Phrase.run σ (n + 1) open_ (.node name body) s =
      if maxDepth ≤ open_.length then .halted (s.complain σ open_ .tooDeep)
      else (Phrase.run σ n (name :: open_) body { s with forest := [] }).map
        (State.close name s.forest) := by
  rw [Phrase.run]

theorem run_call (n : Nat) (name : String) :
    Phrase.run σ (n + 1) open_ (.call name) s =
      Phrase.run σ n open_ (σ.grammar.rule name) s := by
  rw [Phrase.run]

end

/-! ### From the interpreter to the relation -/

/-- What the interpreter answers with fuel to spare is a run. -/
theorem runs_of_run {σ : Setting} {n : Nat} {open_ : List String} {p : Phrase} {s : State}
    {o : Outcome} (h : Phrase.run σ n open_ p s = o) (ho : o.ended = true) :
    Runs σ open_ p s o := by
  induction n generalizing open_ p s o with
  | zero =>
    subst h
    cases ho
  | succ n ih =>
    cases p with
    | empty => exact h ▸ .empty
    | take => exact h ▸ .take
    | reject c => exact h ▸ .reject
    | seq a b =>
      rw [run_seq] at h
      rcases Outcome.andThen_cases h ho with ⟨s₁, ha, hb⟩ | ⟨s₁, ha, rfl⟩
      · exact .seq (ih ha rfl) (ih hb ho)
      · exact .seqHalt (ih ha rfl)
    | choose test a b =>
      rw [run_choose] at h
      split at h
      next ht => exact .chooseYes ht (ih h ho)
      next ht => exact .chooseNo (by simpa using ht) (ih h ho)
    | loop test body =>
      rw [run_loop] at h
      apply Runs.loop
      split at h
      next ht =>
        apply Runs.chooseYes ht
        rcases Outcome.andThen_cases h ho with ⟨s₁, hb, hl⟩ | ⟨s₁, hb, rfl⟩
        · exact .seq (ih hb rfl) (ih hl ho)
        · exact .seqHalt (ih hb rfl)
      next ht => exact .chooseNo (by simpa using ht) (h ▸ .empty)
    | chain item separator gap more =>
      rw [run_chain] at h
      apply Runs.chain
      rcases Outcome.andThen_cases h ho with ⟨s₁, hi, ht⟩ | ⟨s₁, hi, rfl⟩
      · apply Runs.seq (ih hi rfl)
        split at ht
        next hs =>
          apply Runs.chooseYes hs (.seq .take _)
          rcases Outcome.andThen_cases ht ho with ⟨s₂, hg, hm⟩ | ⟨s₂, hg, rfl⟩
          · apply Runs.seq (ih hg rfl)
            split at hm
            next hy => exact .chooseYes hy (ih hm ho)
            next hy => exact .chooseNo (by simpa using hy) (hm ▸ .empty)
          · exact .seqHalt (ih hg rfl)
        next hs => exact .chooseNo (by simpa using hs) (ht ▸ .empty)
      · exact .seqHalt (ih hi rfl)
    | node name body =>
      rw [run_node] at h
      split at h
      next hd => exact h ▸ .tooDeep hd
      next hd =>
        have hd' : open_.length < maxDepth := Nat.lt_of_not_le hd
        cases hb : Phrase.run σ n (name :: open_) body { s with forest := [] } with
        | done s₁ =>
          rw [hb] at h
          exact h ▸ .node hd' (ih hb rfl)
        | halted s₁ =>
          rw [hb] at h
          exact h ▸ .nodeHalt hd' (ih hb rfl)
        | spent s₁ =>
          rw [hb] at h
          subst h
          cases ho
    | call name =>
      rw [run_call] at h
      exact .call (ih h ho)

/-! ### From the relation to the interpreter -/

theorem run_succ {σ : Setting} {n : Nat} {open_ : List String} {p : Phrase} {s : State}
    (h : (Phrase.run σ n open_ p s).ended = true) :
    Phrase.run σ (n + 1) open_ p s = Phrase.run σ n open_ p s := by
  induction n generalizing open_ p s with
  | zero => cases h
  | succ n ih =>
    cases p with
    | empty | take | reject => rfl
    | seq a b =>
      rw [run_seq] at h ⊢
      rw [run_seq]
      refine Outcome.andThen_congr (ih (Outcome.ended_of_andThen h)) fun s₁ ha => ih ?_
      simpa only [ha, Outcome.andThen] using h
    | choose test a b =>
      rw [run_choose] at h ⊢
      rw [run_choose]
      cases ht : (test.ask σ open_ s).1 <;>
        simp only [ht, Bool.false_eq_true, if_true, if_false] at h ⊢ <;>
        exact ih h
    | loop test body =>
      rw [run_loop] at h ⊢
      rw [run_loop]
      cases ht : (test.ask σ open_ s).1 <;>
        simp only [ht, Bool.false_eq_true, if_true, if_false] at h ⊢
      refine Outcome.andThen_congr (ih (Outcome.ended_of_andThen h)) fun s₁ hb => ih ?_
      simpa only [hb, Outcome.andThen] using h
    | chain item separator gap more =>
      rw [run_chain] at h ⊢
      rw [run_chain]
      refine Outcome.andThen_congr (ih (Outcome.ended_of_andThen h)) fun s₁ hi => ?_
      simp only [hi, Outcome.andThen] at h
      cases hs : ((Lookahead.is separator).ask σ open_ s₁).1 <;>
        simp only [hs, Bool.false_eq_true, if_true, if_false] at h ⊢
      refine Outcome.andThen_congr (ih (Outcome.ended_of_andThen h)) fun s₂ hg => ?_
      simp only [hg] at h
      cases hm : (more.ask σ open_ s₂).1 <;>
        simp only [hm, Bool.false_eq_true, if_true, if_false] at h ⊢
      exact ih h
    | node name body =>
      rw [run_node] at h ⊢
      rw [run_node]
      by_cases hd : maxDepth ≤ open_.length
      · simp only [hd, if_true]
      · simp only [hd, if_false, Outcome.ended_map] at h ⊢
        rw [ih h]
    | call name =>
      rw [run_call] at h ⊢
      rw [run_call, ih h]

/-- A run that ended is not changed by more fuel. -/
theorem run_mono {σ : Setting} {n m : Nat} {open_ : List String} {p : Phrase} {s : State}
    (h : (Phrase.run σ n open_ p s).ended = true) (hm : n ≤ m) :
    Phrase.run σ m open_ p s = Phrase.run σ n open_ p s := by
  induction hm with
  | refl => rfl
  | step _ ih => rw [run_succ (by rw [ih, h]), ih]

section Unrolled
variable {σ : Setting} {n : Nat} {open_ : List String} {s : State}

theorem run_empty (h : (Phrase.run σ n open_ .empty s).ended = true) :
    Phrase.run σ n open_ .empty s = .done s := by
  cases n with
  | zero => cases h
  | succ n => rfl

theorem run_loop_eq_unroll {test : Lookahead} {body : Phrase}
    (h : (Phrase.run σ n open_ (Phrase.unrollLoop test body) s).ended = true) :
    Phrase.run σ n open_ (.loop test body) s =
      Phrase.run σ n open_ (Phrase.unrollLoop test body) s := by
  cases n with
  | zero => cases h
  | succ n =>
    rw [Phrase.unrollLoop, run_choose] at h ⊢
    rw [run_loop]
    cases ht : (test.ask σ open_ s).1 with
    | false =>
      simp only [ht, Bool.false_eq_true, if_false] at h ⊢
      rw [run_empty h]
    | true =>
      simp only [ht, if_true] at h ⊢
      cases n with
      | zero => cases h
      | succ n =>
        rw [run_seq] at h ⊢
        refine Outcome.andThen_congr (run_succ (Outcome.ended_of_andThen h)) fun s₁ hb => ?_
        simp only [hb, Outcome.andThen] at h
        exact run_succ h

theorem run_chain_eq_unroll {item : Phrase} {separator : String} {gap : Phrase}
    {more : Lookahead}
    (h : (Phrase.run σ n open_ (Phrase.unrollChain item separator gap more) s).ended = true) :
    Phrase.run σ n open_ (.chain item separator gap more) s =
      Phrase.run σ n open_ (Phrase.unrollChain item separator gap more) s := by
  cases n with
  | zero => cases h
  | succ n =>
    rw [Phrase.unrollChain, run_seq] at h ⊢
    rw [run_chain]
    refine Outcome.andThen_congr rfl fun s₁ hi => ?_
    simp only [hi, Outcome.andThen] at h
    match n with
    | 0 => cases h
    | n + 1 =>
    rw [Phrase.chainTail, run_choose] at h ⊢
    cases hs : ((Lookahead.is separator).ask σ open_ s₁).1 with
    | false =>
      simp only [hs, Bool.false_eq_true, if_false] at h ⊢
      rw [run_empty h]
    | true =>
      simp only [hs, if_true] at h ⊢
      match n with
      | 0 | 1 => cases h
      | n + 2 =>
      rw [run_seq, run_take] at h ⊢
      simp only [Outcome.andThen] at h ⊢
      rw [run_seq] at h ⊢
      refine Outcome.andThen_congr (run_mono (Outcome.ended_of_andThen h) (by omega))
        fun s₂ hg => ?_
      simp only [hg, Outcome.andThen] at h
      cases n with
      | zero => cases h
      | succ n =>
        rw [run_choose] at h ⊢
        cases hm : (more.ask σ open_ s₂).1 with
        | false =>
          simp only [hm, Bool.false_eq_true, if_false] at h ⊢
          rw [run_empty h]
        | true =>
          simp only [hm, if_true] at h ⊢
          exact run_mono h (by omega)

end Unrolled

/-- A run is what the interpreter answers, given fuel. -/
theorem exists_run {σ : Setting} {open_ : List String} {p : Phrase} {s : State} {o : Outcome}
    (h : Runs σ open_ p s o) : o.ended = true ∧ ∃ n, Phrase.run σ n open_ p s = o := by
  induction h with
  | empty | take | reject => exact ⟨rfl, 1, rfl⟩
  | @seq open_ a b s s₁ o _ _ iha ihb =>
    obtain ⟨_, n, ha⟩ := iha
    obtain ⟨ho, m, hb⟩ := ihb
    refine ⟨ho, max n m + 1, ?_⟩
    rw [run_seq, run_mono (by rw [ha]; rfl) (Nat.le_max_left n m), ha]
    simp only [Outcome.andThen]
    rw [run_mono (by rw [hb, ho]) (Nat.le_max_right n m), hb]
  | seqHalt _ ih =>
    obtain ⟨_, n, ha⟩ := ih
    exact ⟨rfl, n + 1, by rw [run_seq, ha]; rfl⟩
  | chooseYes ht _ ih =>
    obtain ⟨ho, n, ha⟩ := ih
    exact ⟨ho, n + 1, by rw [run_choose, if_pos ht, ha]⟩
  | chooseNo ht _ ih =>
    obtain ⟨ho, n, hb⟩ := ih
    exact ⟨ho, n + 1, by rw [run_choose, ht, if_neg (by decide), hb]⟩
  | loop _ ih =>
    obtain ⟨ho, n, hl⟩ := ih
    exact ⟨ho, n, by rw [run_loop_eq_unroll (by rw [hl, ho]), hl]⟩
  | chain _ ih =>
    obtain ⟨ho, n, hc⟩ := ih
    exact ⟨ho, n, by rw [run_chain_eq_unroll (by rw [hc, ho]), hc]⟩
  | tooDeep hd => exact ⟨rfl, 1, by rw [run_node, if_pos hd]⟩
  | node hd _ ih | nodeHalt hd _ ih =>
    obtain ⟨_, n, hb⟩ := ih
    exact ⟨rfl, n + 1, by rw [run_node, if_neg (Nat.not_le_of_lt hd), hb]; rfl⟩
  | call _ ih =>
    obtain ⟨ho, n, hc⟩ := ih
    exact ⟨ho, n + 1, by rw [run_call, hc]⟩

/-- A run only ever moves forward. -/
theorem Runs.rest_suffix {σ : Setting} {open_ : List String} {p : Phrase} {s : State}
    {o : Outcome} (h : Runs σ open_ p s o) : o.state.rest <:+ s.rest := by
  induction h with
  | empty => exact List.suffix_refl _
  | @take _ s => exact take_rest_suffix s
  | reject | tooDeep => simp only [Outcome.state, complain_rest, List.suffix_refl]
  | seq _ _ iha ihb => exact ihb.trans iha
  | seqHalt _ ih | loop _ ih | chain _ ih | call _ ih | node _ _ ih | nodeHalt _ _ ih => exact ih
  | chooseYes _ _ ih | chooseNo _ _ ih => rwa [(Lookahead.ask_notes ..).rest] at ih

/-- What a run notes are types of the vocabulary in place of what is at the cursor. -/
theorem Runs.noted_isNote {σ : Setting} {open_ : List String} {p : Phrase} {s : State}
    {o : Outcome} (h : Runs σ open_ p s o) (hs : ∀ c ∈ s.noted, c.IsNote σ.vocabulary) :
    ∀ c ∈ o.state.noted, c.IsNote σ.vocabulary := by
  induction h with
  | empty => exact hs
  | take => rwa [Outcome.state, take_noted]
  | reject | tooDeep => rwa [Outcome.state, complain_noted]
  | seq _ _ iha ihb => exact ihb (iha hs)
  | seqHalt _ ih | loop _ ih | chain _ ih | call _ ih | node _ _ ih | nodeHalt _ _ ih => exact ih hs
  | chooseYes _ _ ih | chooseNo _ _ ih => exact ih ((Lookahead.ask_notes ..).isNote hs)

/-- A run never takes a note back. -/
theorem Runs.noted_subset {σ : Setting} {open_ : List String} {p : Phrase} {s : State}
    {o : Outcome} (h : Runs σ open_ p s o) : s.noted ⊆ o.state.noted := by
  induction h with
  | empty => exact List.Subset.refl _
  | take =>
    rw [Outcome.state, take_noted]
    exact List.Subset.refl _
  | reject | tooDeep =>
    rw [Outcome.state, complain_noted]
    exact List.Subset.refl _
  | seq _ _ iha ihb => exact List.Subset.trans iha ihb
  | seqHalt _ ih | loop _ ih | chain _ ih | call _ ih | node _ _ ih | nodeHalt _ _ ih => exact ih
  | chooseYes _ _ ih | chooseNo _ _ ih =>
    exact List.Subset.trans (Lookahead.ask_notes ..).subset ih

theorem Runs.rest_eq_nil {σ : Setting} {open_ : List String} {p : Phrase} {s : State}
    {o : Outcome} (h : Runs σ open_ p s o) (hs : s.rest = []) : o.state.rest = [] := by
  have := h.rest_suffix
  rw [hs] at this
  exact List.suffix_nil.mp this

theorem Runs.ended {σ : Setting} {open_ : List String} {p : Phrase} {s : State} {o : Outcome}
    (h : Runs σ open_ p s o) : o.ended = true :=
  (exists_run h).1

/-- Two phrases that are done were done one after the other. -/
theorem Runs.of_seq {σ : Setting} {open_ : List String} {a b : Phrase} {s s' : State}
    (h : Runs σ open_ (.seq a b) s (.done s')) :
    ∃ s₁, Runs σ open_ a s (.done s₁) ∧ Runs σ open_ b s₁ (.done s') := by
  cases h with
  | seq ha hb => exact ⟨_, ha, hb⟩

/-- How a phrase goes on behind another: it runs from where that is done, and does not run
where that has stopped. -/
inductive Onward (σ : Setting) (open_ : List String) (b : Phrase) : Outcome → Outcome → Prop
  | done {s : State} {o : Outcome} : Runs σ open_ b s o → Onward σ open_ b (.done s) o
  | halted {s : State} : Onward σ open_ b (.halted s) (.halted s)

/-- A sequence runs as its first phrase does, and then goes on. -/
theorem Runs.exists_onward {σ : Setting} {open_ : List String} {a b : Phrase} {s : State}
    {o : Outcome} (h : Runs σ open_ (.seq a b) s o) :
    ∃ o₁, Runs σ open_ a s o₁ ∧ Onward σ open_ b o₁ o := by
  cases h with
  | seq ha hb => exact ⟨_, ha, .done hb⟩
  | seqHalt ha => exact ⟨_, ha, .halted⟩

section
variable {σ : Setting} {open_ : List String} {b : Phrase} {o₁ o : Outcome}

theorem Onward.noted_subset (h : Onward σ open_ b o₁ o) : o₁.state.noted ⊆ o.state.noted := by
  cases h with
  | done hb => exact hb.noted_subset
  | halted => exact List.Subset.refl _

theorem Onward.rest_eq_nil (h : Onward σ open_ b o₁ o) (hr : o₁.state.rest = []) :
    o.state.rest = [] := by
  cases h with
  | done hb => exact hb.rest_eq_nil hr
  | halted => exact hr

end

/-- A choice whose question is answered yes runs as its first way on. -/
theorem Runs.of_yes {σ : Setting} {open_ : List String} {test : Lookahead} {a b : Phrase}
    {s : State} {o : Outcome} (h : Runs σ open_ (.choose test a b) s o)
    (hy : (test.ask σ open_ s).1 = true) : Runs σ open_ a (test.ask σ open_ s).2 o := by
  cases h with
  | chooseYes _ ha => exact ha
  | chooseNo hn _ => cases hy.symm.trans hn

/-- A choice whose question is answered no runs as its second way on. -/
theorem Runs.of_no {σ : Setting} {open_ : List String} {test : Lookahead} {a b : Phrase}
    {s : State} {o : Outcome} (h : Runs σ open_ (.choose test a b) s o)
    (hn : (test.ask σ open_ s).1 = false) : Runs σ open_ b (test.ask σ open_ s).2 o := by
  cases h with
  | chooseYes hy _ => cases hn.symm.trans hy
  | chooseNo _ hb => exact hb

/-- A node that may be opened runs as its body does, and is closed then. -/
theorem Runs.of_node {σ : Setting} {open_ : List String} {name : String} {body : Phrase}
    {s : State} {o : Outcome} (h : Runs σ open_ (.node name body) s o)
    (hd : open_.length < maxDepth) :
    ∃ o₁, Runs σ (name :: open_) body { s with forest := [] } o₁ ∧
      o = o₁.map (State.close name s.forest) := by
  cases h with
  | tooDeep hd' => omega
  | node _ h => exact ⟨_, h, rfl⟩
  | nodeHalt _ h => exact ⟨_, h, rfl⟩

/-- The run of a body, as one of the node around it. -/
theorem Runs.in_node {σ : Setting} {open_ : List String} {name : String} {body : Phrase}
    {s : State} {o : Outcome} (h : Runs σ (name :: open_) body { s with forest := [] } o)
    (hd : open_.length < maxDepth) :
    Runs σ open_ (.node name body) s (o.map (State.close name s.forest)) := by
  cases o with
  | done => exact .node hd h
  | halted => exact .nodeHalt hd h
  | spent => cases h.ended

/-- A phrase has one run from a state. -/
theorem Runs.unique {σ : Setting} {open_ : List String} {p : Phrase} {s : State} {o o' : Outcome}
    (h : Runs σ open_ p s o) (h' : Runs σ open_ p s o') : o = o' := by
  obtain ⟨ho, n, hn⟩ := exists_run h
  obtain ⟨ho', m, hm⟩ := exists_run h'
  rw [← hn, ← hm, ← run_mono (by rw [hn, ho]) (Nat.le_max_left n m),
    ← run_mono (by rw [hm, ho']) (Nat.le_max_right n m)]

end GraphLanguages.Grammar
