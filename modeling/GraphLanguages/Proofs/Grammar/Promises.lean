import GraphLanguages.Proofs.Grammar.Words

/-! What a grammar promises.

A parse of one token more runs in step with content assist until a question comes to
which the name of its last token matters. From there the parse owes the word of the
tokens it has left: it must take all of them. What it leaves of a word is found by
following the phrase (`Phrase.solo`), and so are the words that may be owed when a
phrase is done (`Phrase.owed`). A grammar is `Honest` if nothing is owed in the end. -/
namespace GraphLanguages.Grammar

/-! ### A parse on its own -/

/-- The names that a phrase seems to start with. -/
def Phrase.starts (v : Vocabulary) : Phrase → List String
  | .seq (.choose test a .empty) b => starts v (.choose test a .empty) ++ starts v b
  | .seq a _ => starts v a
  | .choose test _ b => test.asked v 0 ++ starts v b
  | .chain item .. => starts v item
  | .node _ body => starts v body
  | _ => []

/-- What a parse leaves of a word when it is done with the phrase; nothing if it may
stop before the end of the word. -/
def Phrase.solo (v : Vocabulary) (g : Grammar) : Phrase → Word → Option Word
  | _, [] => some []
  | .empty, w => some w
  | .take, _ :: w => some w
  | .reject _, _ => none
  | .seq a b, w =>
    match a.solo v g w with
    | some w => b.solo v g w
    | none => none
  | .choose test a b, w =>
    if test.grounded then
      if test.holdsOn v w then a.solo v g w else b.solo v g w
    else none
  | .loop test body, w =>
    if test.grounded then
      if test.holdsOn v w then
        match body.solo v g w with
        | some [] => some []
        | _ => none
      else some w
    else none
  | .chain item separator _ _, w =>
    match item.solo v g w with
    | some [] => some []
    | some [u] => if separator = "EOF" then none else if u = separator then some [] else some [u]
    | _ => none
  | .node _ body, w => body.solo v g w
  | .call name, w =>
    match w with
    | [u] => if u ∈ (g.rule name).starts v then some [] else none
    | _ => none

theorem Phrase.solo_nil (v : Vocabulary) (g : Grammar) (p : Phrase) : p.solo v g [] = some [] := by
  cases p <;> rfl

section
variable {v : Vocabulary} {g : Grammar}

theorem solo_seq {a b : Phrase} {w w' : Word} (h : (Phrase.seq a b).solo v g w = some w') :
    ∃ w₁, a.solo v g w = some w₁ ∧ b.solo v g w₁ = some w' := by
  cases w with
  | nil => exact ⟨[], Phrase.solo_nil .., by rwa [Phrase.solo_nil] at h ⊢⟩
  | cons u us =>
    simp only [Phrase.solo] at h
    split at h
    next w₁ ha => exact ⟨w₁, ha, h⟩
    next => cases h

theorem solo_choose {test : Lookahead} {a b : Phrase} {w w' : Word}
    (h : (Phrase.choose test a b).solo v g w = some w') :
    w = [] ∨ test.grounded = true ∧
      (if test.holdsOn v w then a.solo v g w else b.solo v g w) = some w' := by
  cases w with
  | nil => exact .inl rfl
  | cons u us =>
    simp only [Phrase.solo] at h
    split at h
    next hg => exact .inr ⟨hg, h⟩
    next => cases h

theorem solo_node {name : String} {body : Phrase} {w w' : Word}
    (h : (Phrase.node name body).solo v g w = some w') : body.solo v g w = some w' := by
  cases w with
  | nil => rwa [Phrase.solo_nil] at h ⊢
  | cons u us => exact h

theorem solo_call {name : String} {w w' : Word}
    (h : (Phrase.call name).solo v g w = some w') :
    w = [] ∨ ∃ u, w = [u] ∧ u ∈ (g.rule name).starts v ∧ w' = [] := by
  match w with
  | [] => exact .inl rfl
  | [u] =>
    simp only [Phrase.solo] at h
    split at h
    next hu => exact .inr ⟨u, rfl, hu, by simpa using h.symm⟩
    next => cases h
  | _ :: _ :: _ => cases h

/-- What a loop leaves, its rounds leave. -/
theorem solo_unrollLoop {test : Lookahead} {body : Phrase} {w w' : Word}
    (h : (Phrase.loop test body).solo v g w = some w') :
    (Phrase.unrollLoop test body).solo v g w = some w' := by
  cases w with
  | nil => rwa [Phrase.solo_nil] at h ⊢
  | cons u us =>
    simp only [Phrase.unrollLoop, Phrase.solo] at h ⊢
    split at h
    next hg =>
      rw [if_pos hg]
      split at h
      next hy =>
        rw [if_pos hy]
        split at h
        next hb =>
          rw [hb]
          exact (Phrase.solo_nil ..).trans h
        next => cases h
      next hy => rwa [if_neg hy]
    next => cases h

theorem solo_unrollChain {item gap : Phrase} {separator : String} {more : Lookahead} {w w' : Word}
    (h : (Phrase.chain item separator gap more).solo v g w = some w') :
    (Phrase.unrollChain item separator gap more).solo v g w = some w' := by
  cases w with
  | nil => rwa [Phrase.solo_nil] at h ⊢
  | cons u us =>
    simp only [Phrase.unrollChain, Phrase.solo] at h ⊢
    split at h
    next hi =>
      rw [hi]
      exact (Phrase.solo_nil ..).trans h
    next u hi =>
      simp only [hi]
      by_cases he : separator = "EOF"
      · simp [he] at h
      · by_cases hu : u = separator
        · simpa [Phrase.chainTail, Phrase.solo, Lookahead.grounded, Lookahead.holdsOn, he, hu]
            using h
        · simpa [Phrase.chainTail, Phrase.solo, Lookahead.grounded, Lookahead.holdsOn, he, hu]
            using h
    next => cases h

end

/-! ### What may be owed -/

/-- What a parse on its own leaves of some words, those left out of which nothing is
left. -/
def settle (v : Vocabulary) (g : Grammar) (p : Phrase) : List Word → Option (List Word)
  | [] => some []
  | w :: ws =>
    match p.solo v g w, settle v g p ws with
    | some [], some left => some left
    | some (u :: us), some left => some ((u :: us) :: left)
    | _, _ => none

/-- The words that a parse has left where the question matters to its last token, when
the token before is one of those known. -/
def Lookahead.opens (v : Vocabulary) (test : Lookahead) (known : Option (List String)) :
    Option (List Word) :=
  match test.reach, known with
  | 0, _ => some ((test.asked v 0).map ([·]))
  | 1, some known =>
    some ((test.asked v 0).map ([·]) ++ known.flatMap fun u => (test.asked v 1).map ([u, ·]))
  | _, _ => none

/-- What is known of the next token once the question is answered yes. -/
def Lookahead.ifYes (v : Vocabulary) (test : Lookahead) (known : Option (List String)) :
    Option (List String) :=
  if test.reach = 0 then
    match known with
    | some known => some (known.filter (test.holdsOn v [·]))
    | none =>
      if test.holdsOn v [] then none else some ((test.asked v 0).filter (test.holdsOn v [·]))
  else known

def Lookahead.ifNo (v : Vocabulary) (test : Lookahead) (known : Option (List String)) :
    Option (List String) :=
  if test.reach = 0 then known.map (·.filter (!test.holdsOn v [·])) else known

/-- The words that a parse may owe when it is done with the phrase, having been in step
before it; nothing if it cannot be said. -/
def Phrase.owed (v : Vocabulary) (g : Grammar) :
    Phrase → Option (List String) → Option (List Word)
  | .empty, _ | .take, _ | .reject _, _ | .call _, _ => some []
  | .seq a b, known => do
    let x ← a.owed v g known
    let x ← settle v g b x
    let y ← b.owed v g none
    return x ++ y
  | .choose test a b, known =>
    if test.grounded then do
      let x ← test.opens v known
      let x ← settle v g (.choose test a b) x
      let y ← a.owed v g (test.ifYes v known)
      let z ← b.owed v g (test.ifNo v known)
      return x ++ y ++ z
    else none
  | .loop test body, _ =>
    if test.grounded then do
      let x ← test.opens v none
      let y ← body.owed v g (test.ifYes v none)
      settle v g (.loop test body) (x ++ y)
    else none
  | .chain item separator gap more, _ =>
    if separator ≠ "EOF" ∧ more.grounded then do
      let x ← item.owed v g none
      let y ← (Lookahead.is separator).opens v none
      let x ← settle v g (.chainTail item separator gap more) (x ++ y)
      let y ← gap.owed v g none
      let z ← more.opens v none
      let y ← settle v g (.choose more (.chain item separator gap more) .empty) (y ++ z)
      return x ++ y
    else none
  | .node _ body, known => body.owed v g known

/-- Nothing is owed in the end, and the calls are as they seem. -/
structure Honest (v : Vocabulary) (g : Grammar) : Prop where
  entry : g.entry.owed v g none = some []
  rules : ∀ r ∈ g.rules, r.2.owed v g none = some []
  starts : ∀ r ∈ g.rules, ∀ u ∈ r.2.starts v, r.2.solo v g [u] = some []

instance (v : Vocabulary) (g : Grammar) : Decidable (Honest v g) :=
  decidable_of_iff
    (g.entry.owed v g none = some [] ∧
      ∀ r ∈ g.rules, r.2.owed v g none = some [] ∧
        ∀ u ∈ r.2.starts v, r.2.solo v g [u] = some [])
    ⟨fun h => ⟨h.1, fun r hr => (h.2 r hr).1, fun r hr => (h.2 r hr).2⟩,
      fun h => ⟨h.entry, fun r hr => ⟨h.rules r hr, h.starts r hr⟩⟩⟩

section
variable {v : Vocabulary} {g : Grammar}

theorem Honest.rule (h : Honest v g) (name : String) :
    (g.rule name).owed v g none = some [] ∧
      ∀ u ∈ (g.rule name).starts v, (g.rule name).solo v g [u] = some [] :=
  forall_rule
    (P := fun p => p.owed v g none = some [] ∧ ∀ u ∈ p.starts v, p.solo v g [u] = some [])
    ⟨rfl, fun u hu => by cases hu⟩ (fun r hr => ⟨h.rules r hr, h.starts r hr⟩) name

/-- The phrase leaves nothing of the word, or one of these words. -/
def Leaves (v : Vocabulary) (g : Grammar) (p : Phrase) (ws : List Word) (w : Word) : Prop :=
  ∃ w', p.solo v g w = some w' ∧ (w' = [] ∨ w' ∈ ws)

theorem leaves_of_settle {p : Phrase} {ws rs : List Word} (h : settle v g p ws = some rs) :
    ∀ w ∈ ws, Leaves v g p rs w := by
  induction ws generalizing rs with
  | nil => exact fun w hw => by cases hw
  | cons w ws ih =>
    rw [settle] at h
    split at h
    next left hw hws =>
      cases h
      intro w' hw'
      rcases List.mem_cons.mp hw' with rfl | hw'
      · exact ⟨[], hw, .inl rfl⟩
      · exact ih hws w' hw'
    next u us left hw hws =>
      cases h
      intro w' hw'
      rcases List.mem_cons.mp hw' with rfl | hw'
      · exact ⟨u :: us, hw, .inr (List.mem_cons_self ..)⟩
      · obtain ⟨r, hr, hm⟩ := ih hws w' hw'
        exact ⟨r, hr, hm.imp_right (List.mem_cons_of_mem _)⟩
    next => cases h

theorem exists_settle {p : Phrase} {ws rs : List Word} (h : ∀ w ∈ ws, Leaves v g p rs w) :
    ∃ rs', settle v g p ws = some rs' ∧ rs' ⊆ rs := by
  induction ws with
  | nil => exact ⟨[], rfl, List.nil_subset _⟩
  | cons w ws ih =>
    obtain ⟨left, hleft, hsub⟩ := ih fun w' hw' => h w' (List.mem_cons_of_mem _ hw')
    obtain ⟨w', hw', hm⟩ := h w (List.mem_cons_self ..)
    rw [settle, hw', hleft]
    cases w' with
    | nil => exact ⟨left, rfl, hsub⟩
    | cons u us =>
      refine ⟨_, rfl, List.cons_subset.mpr ⟨?_, hsub⟩⟩
      exact hm.resolve_left (by simp)

theorem owed_seq {a b : Phrase} {known : Option (List String)} {ws : List Word} :
    (Phrase.seq a b).owed v g known = some ws ↔
      ∃ x x' y, a.owed v g known = some x ∧ settle v g b x = some x' ∧
        b.owed v g none = some y ∧ x' ++ y = ws := by
  simp [Phrase.owed, Option.bind_eq_some_iff]

theorem owed_choose {test : Lookahead} {a b : Phrase} {known : Option (List String)}
    {ws : List Word} :
    (Phrase.choose test a b).owed v g known = some ws ↔
      test.grounded = true ∧ ∃ x x' y z, test.opens v known = some x ∧
        settle v g (.choose test a b) x = some x' ∧ a.owed v g (test.ifYes v known) = some y ∧
        b.owed v g (test.ifNo v known) = some z ∧ x' ++ y ++ z = ws := by
  by_cases hg : test.grounded = true <;> simp [Phrase.owed, Option.bind_eq_some_iff, hg]

theorem owed_loop {test : Lookahead} {body : Phrase} {known : Option (List String)}
    {ws : List Word} :
    (Phrase.loop test body).owed v g known = some ws ↔
      test.grounded = true ∧ ∃ x y, test.opens v none = some x ∧
        body.owed v g (test.ifYes v none) = some y ∧
        settle v g (.loop test body) (x ++ y) = some ws := by
  by_cases hg : test.grounded = true <;> simp [Phrase.owed, Option.bind_eq_some_iff, hg]

theorem owed_chain {item gap : Phrase} {separator : String} {more : Lookahead}
    {known : Option (List String)} {ws : List Word} :
    (Phrase.chain item separator gap more).owed v g known = some ws ↔
      (separator ≠ "EOF" ∧ more.grounded = true) ∧
        ∃ x y x' z z' y', item.owed v g none = some x ∧
          (Lookahead.is separator).opens v none = some y ∧
          settle v g (.chainTail item separator gap more) (x ++ y) = some x' ∧
          gap.owed v g none = some z ∧ more.opens v none = some z' ∧
          settle v g (.choose more (.chain item separator gap more) .empty) (z ++ z') = some y' ∧
          x' ++ y' = ws := by
  by_cases hg : separator ≠ "EOF" ∧ more.grounded = true <;>
    simp [Phrase.owed, Option.bind_eq_some_iff, hg]

theorem exists_settle_append {p q : Phrase} {ws us rs : List Word}
    (h : settle v g p (ws ++ us) = some rs)
    (hq : ∀ {w w'}, p.solo v g w = some w' → q.solo v g w = some w') :
    (∃ rs', settle v g q ws = some rs' ∧ rs' ⊆ rs) ∧
      ∃ rs', settle v g q us = some rs' ∧ rs' ⊆ rs := by
  have hl := leaves_of_settle h
  have leaves : ∀ w ∈ ws ++ us, Leaves v g q rs w := fun w hw => by
    obtain ⟨w', hs, hm⟩ := hl w hw
    exact ⟨w', hq hs, hm⟩
  exact ⟨exists_settle fun w hw => leaves w (List.mem_append_left _ hw),
    exists_settle fun w hw => leaves w (List.mem_append_right _ hw)⟩

/-- A loop owes what its rounds owe. -/
theorem exists_owed_unrollLoop {test : Lookahead} {body : Phrase} {known : Option (List String)}
    {ws : List Word} (h : (Phrase.loop test body).owed v g known = some ws) :
    ∃ ws', (Phrase.unrollLoop test body).owed v g none = some ws' ∧ ws' ⊆ ws := by
  obtain ⟨hg, x, y, hx, hy, hs⟩ := owed_loop.mp h
  obtain ⟨⟨x', hx', hsubx⟩, -⟩ := exists_settle_append hs solo_unrollLoop
  obtain ⟨-, y', hy', hsuby⟩ := exists_settle_append hs id
  have hbody : (Phrase.seq body (.loop test body)).owed v g (test.ifYes v none) =
      some (y' ++ ws) := owed_seq.mpr ⟨y, y', ws, hy, hy', h, rfl⟩
  refine ⟨_, owed_choose.mpr ⟨hg, x, x', _, [], hx, hx', hbody, rfl, rfl⟩, ?_⟩
  simp [hsubx, hsuby]

theorem exists_owed_unrollChain {item gap : Phrase} {separator : String} {more : Lookahead}
    {known : Option (List String)} {ws : List Word}
    (h : (Phrase.chain item separator gap more).owed v g known = some ws) :
    ∃ ws', (Phrase.unrollChain item separator gap more).owed v g none = some ws' ∧
      ws' ⊆ ws := by
  obtain ⟨⟨hsep, hg⟩, x, y, x', z, z', y', hx, hy, hxy, hz, hz', hzz, rfl⟩ := owed_chain.mp h
  obtain ⟨⟨a, ha, hsuba⟩, b, hb, hsubb⟩ := exists_settle_append hxy id
  obtain ⟨⟨c, hc, hsubc⟩, d, hd, hsubd⟩ := exists_settle_append hzz id
  have hmore : (Phrase.choose more (.chain item separator gap more) .empty).owed v g none =
      some (d ++ (x' ++ y') ++ []) :=
    owed_choose.mpr ⟨hg, z', d, x' ++ y', [], hz', hd, h, rfl, rfl⟩
  have hgap := owed_seq.mpr ⟨z, c, _, hz, hc, hmore, rfl⟩
  have htake : (Phrase.seq .take (.seq gap
      (.choose more (.chain item separator gap more) .empty))).owed v g
        ((Lookahead.is separator).ifYes v none) = _ :=
    owed_seq.mpr ⟨[], [], _, rfl, rfl, hgap, rfl⟩
  have htail : (Phrase.chainTail item separator gap more).owed v g none = _ :=
    owed_choose.mpr ⟨by simpa [Lookahead.grounded] using hsep, y, b, _, [], hy, hb, htake, rfl, rfl⟩
  refine ⟨_, owed_seq.mpr ⟨x, a, _, hx, ha, htail, rfl⟩, ?_⟩
  have hl : x' ⊆ x' ++ y' := List.subset_append_left ..
  have hr : y' ⊆ x' ++ y' := List.subset_append_right ..
  simp only [List.append_nil, List.nil_append, List.append_subset]
  exact ⟨List.Subset.trans hsuba hl, List.Subset.trans hsubb hl, List.Subset.trans hsubc hr,
    List.Subset.trans hsubd hr, hl, hr⟩

end

end GraphLanguages.Grammar
