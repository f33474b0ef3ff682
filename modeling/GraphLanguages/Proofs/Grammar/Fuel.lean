import GraphLanguages.Proofs.Grammar.Runs
import Mathlib.Data.Finset.Prod
import Mathlib.Data.Nat.Find

/-! The fuel of a grammar is enough.

What a run does depends on the phrase, the number of open rules and the tokens ahead
(`run_shape`); a run that needs all its fuel passes through a different such place
for each unit of it (`places_of_needs`). There are only so many places, hence a run
that ends at all ends with the fuel that a grammar asks for (`runRoot_of_runs`). So
parsing and content assist answer what their runs say (`parse_of_runs`,
`assist_of_runs`). -/
namespace GraphLanguages.Grammar

/-! ### What a run depends on -/

/-- How a run ends and what it leaves of the tokens. -/
def Outcome.shape : Outcome → Option Bool × List Token
  | .done s => (some true, s.rest)
  | .halted s => (some false, s.rest)
  | .spent s => (none, s.rest)

theorem Outcome.ended_of_shape {o o' : Outcome} (h : o.shape = o'.shape) :
    o.ended = o'.ended := by
  cases o <;> cases o' <;> simp_all [Outcome.shape, Outcome.ended]

theorem Outcome.shape_done {s s' : State} (h : s.rest = s'.rest) :
    (Outcome.done s).shape = (Outcome.done s').shape :=
  congrArg (some true, ·) h

theorem Outcome.exists_done_of_shape {o : Outcome} {ts : List Token}
    (h : o.shape = (some true, ts)) : ∃ s, o = .done s ∧ s.rest = ts := by
  cases o with
  | done s => exact ⟨s, rfl, congrArg Prod.snd h⟩
  | halted | spent => simp [Outcome.shape] at h

theorem Outcome.shape_andThen {o o' : Outcome} {f f' : State → Outcome}
    (ho : o.shape = o'.shape)
    (hf : ∀ s s' : State, s.rest = s'.rest → (f s).shape = (f' s').shape) :
    (o.andThen f).shape = (o'.andThen f').shape := by
  cases o <;> cases o' <;> simp only [Outcome.shape, Prod.mk.injEq, reduceCtorEq, false_and,
    Option.some.injEq, Bool.true_eq_false, Bool.false_eq_true, true_and] at ho
  · exact hf _ _ ho
  · exact congrArg (some false, ·) ho
  · exact congrArg (none, ·) ho

theorem Outcome.shape_map_close (o : Outcome) (name : String) (outer : List Tree) :
    (o.map (State.close name outer)).shape = o.shape := by
  cases o <;> rfl

theorem ask_shape {σ : Setting} (test : Lookahead) {s s' : State} (open_ open' : List String)
    (h : s.rest = s'.rest) :
    (test.ask σ open_ s).1 = (test.ask σ open' s').1 ∧
      (test.ask σ open_ s).2.rest = (test.ask σ open' s').2.rest := by
  refine ⟨(Lookahead.Matches.of_rest (.refl σ) h (noting_congr h) _).ask_congr rfl, ?_⟩
  rw [(Lookahead.ask_notes ..).rest, (Lookahead.ask_notes ..).rest, h]

theorem run_shape {σ : Setting} (n : Nat) {open_ open' : List String} (p : Phrase) {s s' : State}
    (hl : open_.length = open'.length) (h : s.rest = s'.rest) :
    (Phrase.run σ n open_ p s).shape = (Phrase.run σ n open' p s').shape := by
  induction n generalizing open_ open' p s s' with
  | zero => exact congrArg (none, ·) h
  | succ n ih =>
    cases p with
    | empty => exact Outcome.shape_done h
    | take =>
      rw [run_take, run_take]
      exact Outcome.shape_done (by rw [take_rest, take_rest, h])
    | reject c => simp only [Phrase.run, Outcome.shape, complain_rest, h]
    | seq a b =>
      rw [run_seq, run_seq]
      exact Outcome.shape_andThen (ih a hl h) fun s s' h => ih b hl h
    | choose test a b =>
      obtain ⟨ha, hr⟩ := ask_shape test open_ open' h
      rw [run_choose, run_choose, ha]
      cases (test.ask σ open' s').1 with
      | true => exact ih a hl hr
      | false => exact ih b hl hr
    | loop test body =>
      obtain ⟨ha, hr⟩ := ask_shape test open_ open' h
      rw [run_loop, run_loop, ha]
      cases (test.ask σ open' s').1 with
      | true => exact Outcome.shape_andThen (ih body hl hr) fun s s' h => ih _ hl h
      | false => exact Outcome.shape_done hr
    | chain item separator gap more =>
      rw [run_chain, run_chain]
      refine Outcome.shape_andThen (ih item hl h) fun s s' h => ?_
      obtain ⟨ha, hr⟩ := ask_shape (.is separator) open_ open' h
      rw [ha]
      cases ((Lookahead.is separator).ask σ open' s').1 with
      | false => exact Outcome.shape_done hr
      | true =>
        refine Outcome.shape_andThen (ih gap hl (by rw [take_rest, take_rest, hr])) fun s s' h => ?_
        obtain ⟨ha, hr⟩ := ask_shape more open_ open' h
        rw [ha]
        cases (more.ask σ open' s').1 with
        | true => exact ih _ hl hr
        | false => exact Outcome.shape_done hr
    | node name body =>
      rw [run_node, run_node, hl]
      split
      · simp only [Outcome.shape, complain_rest, h]
      · rw [Outcome.shape_map_close, Outcome.shape_map_close]
        exact ih body (by simp [hl]) h
    | call name =>
      rw [run_call, run_call]
      exact ih _ hl h

/-! ### Phrases that a run comes across -/

/-- The phrases that a phrase runs right away. -/
def callees (g : Grammar) : Phrase → List Phrase
  | .empty | .take | .reject _ => []
  | .seq a b | .choose _ a b => [a, b]
  | .loop test body => [body, .loop test body]
  | .chain item separator gap more => [item, gap, .chain item separator gap more]
  | .node _ body => [body]
  | .call name => [g.rule name]

/-- A phrase with all phrases inside it. -/
def Phrase.parts : Phrase → List Phrase
  | .seq a b => .seq a b :: (a.parts ++ b.parts)
  | .choose test a b => .choose test a b :: (a.parts ++ b.parts)
  | .loop test body => .loop test body :: body.parts
  | .chain item separator gap more =>
    .chain item separator gap more :: (item.parts ++ gap.parts)
  | .node name body => .node name body :: body.parts
  | p => [p]

theorem mem_parts_self (p : Phrase) : p ∈ p.parts := by
  cases p <;> simp [Phrase.parts]

theorem length_parts (p : Phrase) : p.parts.length = p.size := by
  induction p with
  | empty | take | reject | call => rfl
  | seq a b iha ihb | choose _ a b iha ihb | chain a _ b _ iha ihb =>
    simp [Phrase.parts, Phrase.size, iha, ihb]
  | loop _ a ih | node _ a ih => simp [Phrase.parts, Phrase.size, ih]

/-- What a part runs right away is a part as well, or the phrase of a name. -/
theorem callees_parts (g : Grammar) {p q r : Phrase} (hq : q ∈ p.parts) (hr : r ∈ callees g q) :
    r ∈ p.parts ∨ ∃ name, r = g.rule name := by
  induction p with
  | empty | take | reject =>
    obtain rfl := List.mem_singleton.mp hq
    cases hr
  | call name =>
    obtain rfl := List.mem_singleton.mp hq
    exact .inr ⟨name, List.mem_singleton.mp hr⟩
  | seq a b iha ihb | choose _ a b iha ihb =>
    simp only [Phrase.parts, List.mem_cons, List.mem_append] at hq ⊢
    rcases hq with rfl | hq | hq
    · simp only [callees, List.mem_cons, List.not_mem_nil, or_false] at hr
      rcases hr with rfl | rfl
      · exact .inl (.inr (.inl (mem_parts_self _)))
      · exact .inl (.inr (.inr (mem_parts_self _)))
    · exact (iha hq).imp_left fun h => .inr (.inl h)
    · exact (ihb hq).imp_left fun h => .inr (.inr h)
  | chain a _ b _ iha ihb =>
    simp only [Phrase.parts, List.mem_cons, List.mem_append] at hq ⊢
    rcases hq with rfl | hq | hq
    · simp only [callees, List.mem_cons, List.not_mem_nil, or_false] at hr
      rcases hr with rfl | rfl | rfl
      · exact .inl (.inr (.inl (mem_parts_self _)))
      · exact .inl (.inr (.inr (mem_parts_self _)))
      · exact .inl (.inl rfl)
    · exact (iha hq).imp_left fun h => .inr (.inl h)
    · exact (ihb hq).imp_left fun h => .inr (.inr h)
  | loop _ a ih =>
    simp only [Phrase.parts, List.mem_cons] at hq ⊢
    rcases hq with rfl | hq
    · simp only [callees, List.mem_cons, List.not_mem_nil, or_false] at hr
      rcases hr with rfl | rfl
      · exact .inl (.inr (mem_parts_self _))
      · exact .inl (.inl rfl)
    · exact (ih hq).imp_left .inr
  | node _ a ih =>
    simp only [Phrase.parts, List.mem_cons] at hq ⊢
    rcases hq with rfl | hq
    · obtain rfl := List.mem_singleton.mp hr
      exact .inl (.inr (mem_parts_self _))
    · exact (ih hq).imp_left .inr

/-- All phrases that a run of `root` may come across. -/
def vicinity (g : Grammar) (root : Phrase) : List Phrase :=
  .empty :: (root.parts ++ g.rules.flatMap fun r => r.2.parts)

theorem rule_mem_vicinity (g : Grammar) (root : Phrase) (name : String) :
    g.rule name ∈ vicinity g root := by
  rcases rule_eq_empty_or_mem g name with h | ⟨r, hr, h⟩
  · simp [vicinity, h]
  · rw [h]
    exact List.mem_cons_of_mem _ (List.mem_append_right _
      (List.mem_flatMap.mpr ⟨r, hr, mem_parts_self _⟩))

theorem callees_vicinity {g : Grammar} {root q r : Phrase} (hq : q ∈ vicinity g root)
    (hr : r ∈ callees g q) : r ∈ vicinity g root := by
  rcases List.mem_cons.mp hq with rfl | hq
  · cases hr
  rcases List.mem_append.mp hq with hq | hq
  · rcases callees_parts g hq hr with h | ⟨name, rfl⟩
    · exact List.mem_cons_of_mem _ (List.mem_append_left _ h)
    · exact rule_mem_vicinity g root name
  · obtain ⟨rule, hrule, hq⟩ := List.mem_flatMap.mp hq
    rcases callees_parts g hq hr with h | ⟨name, rfl⟩
    · exact List.mem_cons_of_mem _ (List.mem_append_right _
        (List.mem_flatMap.mpr ⟨rule, hrule, h⟩))
    · exact rule_mem_vicinity g root name

theorem length_vicinity (g : Grammar) (root : Phrase) :
    (vicinity g root).length + g.entry.size = root.size + g.size + 1 := by
  have hrules : ∀ (rules : List (String × Phrase)) (n : Nat),
      rules.foldl (fun n r => n + r.2.size) n =
        n + (rules.flatMap fun r => r.2.parts).length := by
    intro rules
    induction rules with
    | nil => intro n; rfl
    | cons r rs ih =>
      intro n
      rw [List.foldl_cons, ih, List.flatMap_cons, List.length_append, length_parts]
      omega
  rw [vicinity, List.length_cons, List.length_append, length_parts, Grammar.size, hrules]
  omega

/-! ### Runs that need all their fuel -/

/-- The run ends with one more unit of fuel than `n`, and not with `n`. -/
def Needs (σ : Setting) (n : Nat) (open_ : List String) (p : Phrase) (s : State) : Prop :=
  (Phrase.run σ (n + 1) open_ p s).ended = true ∧ (Phrase.run σ n open_ p s).ended = false

/-- Where fuel runs out between two runs in a row: in the first, or in the second. -/
theorem needs_andThen {σ : Setting} {n : Nat} {open_ : List String} {p : Phrase} {s : State}
    {f f' : State → Outcome}
    (h : ((Phrase.run σ (n + 1) open_ p s).andThen f').ended = true)
    (hn : ((Phrase.run σ n open_ p s).andThen f).ended = false) :
    Needs σ n open_ p s ∨
      ∃ s₁, s₁.rest <:+ s.rest ∧ (f' s₁).ended = true ∧ (f s₁).ended = false := by
  cases hp : Phrase.run σ n open_ p s with
  | spent s₁ => exact .inl ⟨Outcome.ended_of_andThen h, by rw [hp]; rfl⟩
  | halted s₁ =>
    rw [hp] at hn
    cases hn
  | done s₁ =>
    rw [run_succ (by rw [hp]; rfl), hp] at h
    rw [hp] at hn
    exact .inr ⟨s₁, (runs_of_run hp rfl).rest_suffix, h, hn⟩

/-- A run that needs all its fuel starts one that needs all but one unit. -/
theorem exists_callee_needs {σ : Setting} {n : Nat} {open_ : List String} {p : Phrase} {s : State}
    (h : Needs σ (n + 1) open_ p s) (hl : open_.length ≤ maxDepth) :
    ∃ open' q s', q ∈ callees σ.grammar p ∧ open'.length ≤ maxDepth ∧ s'.rest <:+ s.rest ∧
      Needs σ n open' q s' := by
  obtain ⟨h, hn⟩ := h
  have hask : ∀ (test : Lookahead) (s : State), (test.ask σ open_ s).2.rest = s.rest :=
    fun test s => (test.ask_notes σ open_ s).rest
  cases p with
  | empty | take | reject => cases hn
  | seq a b =>
    rw [run_seq] at h hn
    rcases needs_andThen h hn with ha | ⟨s₁, hs, hb⟩
    · exact ⟨open_, a, s, by simp [callees], hl, List.suffix_refl _, ha⟩
    · exact ⟨open_, b, s₁, by simp [callees], hl, hs, hb⟩
  | choose test a b =>
    rw [run_choose] at h hn
    cases ht : (test.ask σ open_ s).1 with
    | true =>
      rw [ht] at h hn
      exact ⟨open_, a, _, by simp [callees], hl, by rw [hask], h, hn⟩
    | false =>
      rw [ht] at h hn
      exact ⟨open_, b, _, by simp [callees], hl, by rw [hask], h, hn⟩
  | loop test body =>
    rw [run_loop] at h hn
    cases ht : (test.ask σ open_ s).1 with
    | false =>
      rw [ht] at hn
      cases hn
    | true =>
      rw [ht] at h hn
      rcases needs_andThen h hn with hb | ⟨s₁, hs, hb⟩
      · exact ⟨open_, body, _, by simp [callees], hl, by rw [hask], hb⟩
      · exact ⟨open_, _, s₁, by simp [callees], hl, by rwa [hask] at hs, hb⟩
  | chain item separator gap more =>
    rw [run_chain] at h hn
    rcases needs_andThen h hn with hi | ⟨s₁, hs, h, hn⟩
    · exact ⟨open_, item, s, by simp [callees], hl, List.suffix_refl _, hi⟩
    cases hq : ((Lookahead.is separator).ask σ open_ s₁).1 with
    | false =>
      rw [hq] at hn
      cases hn
    | true =>
      rw [hq] at h hn
      have hs' : ((Lookahead.is separator).ask σ open_ s₁).2.take.rest <:+ s.rest :=
        (take_rest_suffix _).trans (by rwa [hask])
      rcases needs_andThen h hn with hg | ⟨s₂, hs₂, h, hn⟩
      · exact ⟨open_, gap, _, by simp [callees], hl, hs', hg⟩
      cases hm : (more.ask σ open_ s₂).1 with
      | false =>
        rw [hm] at hn
        cases hn
      | true =>
        simp only [hm, if_true] at h hn
        exact ⟨open_, _, _, by simp [callees], hl, by rw [hask]; exact hs₂.trans hs', h, hn⟩
  | node name body =>
    rw [run_node] at h hn
    by_cases hd : maxDepth ≤ open_.length
    · rw [if_pos hd] at hn
      cases hn
    · rw [if_neg hd, Outcome.ended_map] at h hn
      exact ⟨name :: open_, body, { s with forest := [] }, by simp [callees],
        Nat.lt_of_not_le hd, List.suffix_refl _, h, hn⟩
  | call name =>
    rw [run_call] at h hn
    exact ⟨open_, _, s, by simp [callees], hl, List.suffix_refl _, h, hn⟩

/-- Where a run stands. -/
abbrev Place := Phrase × Nat × List Token

/-- A place with a run that needs exactly the fuel. -/
def Place.Needs (σ : Setting) (n : Nat) (place : Place) : Prop :=
  ∃ open_ s, open_.length = place.2.1 ∧ s.rest = place.2.2 ∧
    Grammar.Needs σ n open_ place.1 s

theorem Place.needs_unique {σ : Setting} {n m : Nat} {place : Place} (h : place.Needs σ n)
    (h' : place.Needs σ m) : n = m := by
  obtain ⟨open_, s, hl, hs, hn⟩ := h
  obtain ⟨open', s', hl', hs', hm⟩ := h'
  have hshape : ∀ k, (Phrase.run σ k open_ place.1 s).ended =
      (Phrase.run σ k open' place.1 s').ended := fun k => Outcome.ended_of_shape
    (run_shape k place.1 (hl.trans hl'.symm) (hs.trans hs'.symm))
  have grow : ∀ {i j : Nat}, i ≤ j → (Phrase.run σ i open_ place.1 s).ended = true →
      (Phrase.run σ j open_ place.1 s).ended = true := fun hij hi => by rw [run_mono hi hij, hi]
  by_contra hne
  rcases Nat.lt_or_gt_of_ne hne with hlt | hlt
  · have := grow (Nat.succ_le_of_lt hlt) hn.1
    rw [hshape, hm.2] at this
    cases this
  · have := grow (Nat.succ_le_of_lt hlt) (by rw [hshape]; exact hm.1)
    rw [hn.2] at this
    cases this

/-- The places of runs over some tokens. -/
def places (g : Grammar) (root : Phrase) (tokens : List Token) : Finset Place :=
  (vicinity g root).toFinset ×ˢ
    (Finset.range (maxDepth + 1) ×ˢ tokens.tails.toFinset)

theorem card_places (g : Grammar) (root : Phrase) (tokens : List Token) :
    (places g root tokens).card ≤
      (vicinity g root).length * (tokens.length + 1) * (maxDepth + 1) := by
  rw [places, Finset.card_product, Finset.card_product, Finset.card_range, Nat.mul_assoc,
    Nat.mul_comm (tokens.length + 1)]
  refine Nat.mul_le_mul (List.toFinset_card_le _) (Nat.mul_le_mul_left _ ?_)
  exact (List.toFinset_card_le _).trans (by rw [List.length_tails])

/-- A run that needs its fuel comes by a place for every smaller amount. -/
theorem places_of_needs {σ : Setting} {root : Phrase} {tokens : List Token} (n : Nat)
    {place : Place} (hp : place ∈ places σ.grammar root tokens) (hn : place.Needs σ n) :
    ∀ j ≤ n, ∃ place' ∈ places σ.grammar root tokens, place'.Needs σ j := by
  induction n generalizing place with
  | zero =>
    intro j hj
    obtain rfl := Nat.le_zero.mp hj
    exact ⟨place, hp, hn⟩
  | succ n ih =>
    intro j hj
    rcases Nat.le_succ_iff.mp hj with hj | rfl
    · obtain ⟨open_, s, hl, hs, hn⟩ := hn
      simp only [places, Finset.mem_product, List.mem_toFinset, Finset.mem_range,
        List.mem_tails] at hp
      obtain ⟨hv, hd, ht⟩ := hp
      obtain ⟨open', q, s', hq, hl', hs', hn'⟩ := exists_callee_needs hn (by omega)
      refine @ih (q, open'.length, s'.rest) ?_ ⟨open', s', rfl, rfl, hn'⟩ j hj
      simp only [places, Finset.mem_product, List.mem_toFinset, Finset.mem_range, List.mem_tails]
      exact ⟨callees_vicinity hv hq, by omega, hs'.trans (hs ▸ ht)⟩
    · exact ⟨place, hp, hn⟩

/-- No run over some tokens needs as much fuel as there are places. -/
theorem lt_card_places {σ : Setting} {root : Phrase} {tokens : List Token} {n : Nat}
    {place : Place} (hp : place ∈ places σ.grammar root tokens) (hn : place.Needs σ n) :
    n < (places σ.grammar root tokens).card := by
  have h := places_of_needs n hp hn
  have : Nonempty Place := ⟨place⟩
  choose! f hf using h
  have hinj : Set.InjOn f (Finset.range (n + 1)) := fun i hi j hj hij => by
    simp only [Finset.coe_range, Set.mem_Iio] at hi hj
    exact Place.needs_unique (hf i (by omega)).2 (hij ▸ (hf j (by omega)).2)
  have hmaps : ∀ i ∈ Finset.range (n + 1), f i ∈ places σ.grammar root tokens := fun i hi =>
    (hf i (Nat.le_of_lt_succ (Finset.mem_range.mp hi))).1
  have := Finset.card_le_card_of_injOn f hmaps hinj
  rw [Finset.card_range] at this
  omega

/-- **A run that ends at all ends with the fuel of its grammar.** -/
theorem runRoot_of_runs {σ : Setting} {root : String} {body : Phrase} {tokens : List Token}
    {o : Outcome} (hb : body.size ≤ σ.grammar.entry.size + 6)
    (h : Runs σ [] (.node root body) { rest := tokens } o) :
    runRoot σ root body tokens = o := by
  obtain ⟨ho, n, hn⟩ := exists_run h
  have hex : ∃ n, (Phrase.run σ n [] (.node root body) { rest := tokens }).ended = true :=
    ⟨n, by rw [hn, ho]⟩
  cases hk : Nat.find hex with
  | zero => cases hk ▸ Nat.find_spec hex
  | succ k =>
    have hneeds : Place.Needs σ k (.node root body, 0, tokens) :=
      ⟨[], { rest := tokens }, rfl, rfl, hk ▸ Nat.find_spec hex,
        Bool.eq_false_of_not_eq_true (Nat.find_min hex (by omega))⟩
    have hplace : (.node root body, 0, tokens) ∈ places σ.grammar (.node root body) tokens := by
      simp [places, vicinity, mem_parts_self]
    have hcard := (lt_card_places hplace hneeds).trans_le (card_places ..)
    have hv := length_vicinity σ.grammar (.node root body)
    simp only [Phrase.size] at hv
    have hfuel : k + 1 ≤ σ.grammar.fuel tokens.length :=
      hcard.trans_le (Nat.mul_le_mul_right _ (Nat.mul_le_mul_right _ (by omega)))
    have hend : (runRoot σ root body tokens).ended = true := by
      rw [runRoot, run_mono (hk ▸ Nat.find_spec hex) hfuel]
      exact hk ▸ Nat.find_spec hex
    exact (runs_of_run rfl hend).unique h

/-! ### Parsing and content assist -/

/-- All of a document. -/
def document (g : Grammar) : Phrase :=
  .seq g.entry .finish

/-- Where the last token ends, which is all that content assist knows of the text. -/
def stopOf (tokens : List Token) : Nat :=
  (tokens.getLast?.map Token.stop).getD 0

/-- The parse ends, given fuel. -/
def Terminates (g : Grammar) (v : Vocabulary) (root : String) (size : Nat)
    (tokens : List Token) : Prop :=
  ∃ n, (Phrase.run (g.parsing v size) n [] (.node root g.document) { rest := tokens }).ended = true

/-- A run below the root, as one of the root. -/
theorem Runs.root {σ : Setting} {root : String} {p : Phrase} {s : State} {o : Outcome}
    (h : Runs σ [root] p { s with forest := [] } o) :
    Runs σ [] (.node root p) s (o.map (State.close root s.forest)) :=
  h.in_node (by decide)

section
variable {g : Grammar} {v : Vocabulary} {root : String} {size : Nat} {tokens : List Token}

theorem terminates_iff_runs : g.Terminates v root size tokens ↔
    ∃ o, Runs (g.parsing v size) [root] g.document { rest := tokens } o := by
  constructor
  · rintro ⟨n, hn⟩
    obtain ⟨o, ho⟩ : ∃ o, Runs (g.parsing v size) [] (.node root g.document)
        { rest := tokens } o := ⟨_, runs_of_run rfl hn⟩
    cases ho with
    | tooDeep hd => exact absurd hd (by decide)
    | node _ h | nodeHalt _ h => exact ⟨_, h⟩
  · rintro ⟨o, h⟩
    obtain ⟨ho, n, hn⟩ := exists_run (Runs.root (s := { rest := tokens }) h)
    exact ⟨n, by rw [hn, ho]⟩

theorem parse_of_runs {o : Outcome}
    (h : Runs (g.parsing v size) [root] g.document { rest := tokens } o) :
    g.parse v root size tokens = (.node root o.state.forest.reverse, o.state.error) := by
  have hrun := runRoot_of_runs (by simp [document, Phrase.size, Phrase.finish, parsing])
    (Runs.root (s := { rest := tokens }) h)
  change ((runRoot (g.parsing v size) root g.document tokens).state.forest.head?.getD _,
    (runRoot (g.parsing v size) root g.document tokens).state.error) = _
  rw [hrun]
  cases o <;> rfl

theorem assist_of_runs {o : Outcome}
    (h : Runs (g.assisting v (stopOf tokens)) [root] g.entry { rest := tokens } o) :
    g.assist v root tokens = o.state.noted.reverse := by
  have hrun := runRoot_of_runs (Nat.le_add_right _ 6) (Runs.root (s := { rest := tokens }) h)
  change (runRoot (g.assisting v (stopOf tokens)) root g.entry tokens).state.noted.reverse = _
  rw [show runRoot _ root g.entry tokens = _ from hrun]
  cases o <;> rfl

end

end GraphLanguages.Grammar
