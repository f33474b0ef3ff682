import GraphLanguages.Proofs.Grammar.Progress

/-! The tree and the error of a parse.

A run, however it ends, puts the tokens it takes under what the open node holds, in
order and no deeper than rules may nest (`Runs.grows`). A parse that stops has
recorded an error at the token it stopped before, with rules that lead down the last
rules of the tree built so far (`Runs.halts`); closing the open nodes keeps it so. -/
namespace GraphLanguages

namespace Tree

/-! ### Leaves, nesting and the last rules -/

theorem leavesOf_append (ts us : List Tree) :
    leavesOf (ts ++ us) = leavesOf ts ++ leavesOf us := by
  induction ts with
  | nil => rfl
  | cons t ts ih => simp [leavesOf, ih]

mutual

/-- How many rules lie around the innermost of them. -/
def nesting : Tree → Nat
  | .leaf _ => 0
  | .node _ children => nestingOf children + 1

def nestingOf : List Tree → Nat
  | [] => 0
  | t :: ts => max (nesting t) (nestingOf ts)

end

theorem nestingOf_le {ts : List Tree} {n : Nat} : nestingOf ts ≤ n ↔ ∀ t ∈ ts, t.nesting ≤ n := by
  induction ts with
  | nil => simp [nestingOf]
  | cons t ts ih => simp only [nestingOf, Nat.max_le, ih, List.forall_mem_cons]

def isRule : Tree → Bool
  | .leaf _ => false
  | .node .. => true

/-- The names on a way from the root down that goes on to the last rule each time. -/
inductive LastRules : Tree → List String → Prop
  | here (name : String) (children : List Tree) : LastRules (.node name children) [name]
  | down {name : String} {children : List Tree} {last : Tree} {names : List String} :
      children.reverse.find? isRule = some last → LastRules last names →
      LastRules (.node name children) (name :: names)

theorem LastRules.isRule {t : Tree} {names : List String} (h : t.LastRules names) :
    t.isRule = true := by
  cases h <;> rfl

end Tree

namespace Grammar
open GraphLanguages.Tree

/-! ### What a run adds to the forest -/

/-- From one state to the other, these trees were added below the open rules. -/
structure Grows (open_ : List String) (s s' : State) (trees : List Tree) : Prop where
  forest : s'.forest = trees.reverse ++ s.forest
  rest : s.rest = leavesOf trees ++ s'.rest
  shallow : ∀ t ∈ trees, t.nesting + open_.length ≤ maxDepth
  previous : s'.previous = (leavesOf trees).getLast?.or s.previous

namespace Grows
variable {open_ : List String} {s s' s'' : State}

theorem nothing (hf : s'.forest = s.forest) (hr : s'.rest = s.rest)
    (hp : s'.previous = s.previous) : Grows open_ s s' [] :=
  ⟨by simp [hf], by simp [leavesOf, hr], by simp, by simp [leavesOf, hp]⟩

theorem trans {trees trees' : List Tree} (h : Grows open_ s s' trees)
    (h' : Grows open_ s' s'' trees') : Grows open_ s s'' (trees ++ trees') where
  forest := by rw [h'.forest, h.forest, List.reverse_append, List.append_assoc]
  rest := by rw [h.rest, h'.rest, leavesOf_append, List.append_assoc]
  shallow t ht := (List.mem_append.mp ht).elim (h.shallow t) (h'.shallow t)
  previous := by
    rw [h'.previous, h.previous, leavesOf_append, List.getLast?_append, Option.or_assoc]

theorem of_notes {v : Vocabulary} (h : s.Notes v s') : Grows open_ s s' [] :=
  nothing h.forest h.rest h.previous

theorem take (h : open_.length ≤ maxDepth) (s : State) :
    ∃ trees, Grows open_ s s.take trees := by
  cases hr : s.rest with
  | nil =>
    have htake : s.take = s := by simp [State.take, hr]
    exact ⟨[], nothing (by rw [htake]) (by rw [htake]) (by rw [htake])⟩
  | cons t ts =>
    exact ⟨[.leaf t], by simp [State.take, hr], by simp [State.take, hr, leavesOf, leaves],
      by simpa [nesting] using h, by simp [State.take, hr, leavesOf, leaves]⟩

/-- A closed rule is one tree more. -/
theorem close {name : String} {trees : List Tree} (hd : open_.length < maxDepth)
    (h : Grows (name :: open_) { s with forest := [] } s' trees) :
    Grows open_ s (s'.close name s.forest) [.node name trees] where
  forest := by simp [State.close, h.forest]
  rest := by simpa [State.close, leavesOf, leaves] using h.rest
  shallow t ht := by
    obtain rfl := List.mem_singleton.mp ht
    have : nestingOf trees ≤ maxDepth - (name :: open_).length := nestingOf_le.mpr fun t ht => by
      have := h.shallow t ht
      omega
    simp only [nesting, List.length_cons] at this ⊢
    omega
  previous := by simpa [State.close, leavesOf, leaves] using h.previous

end Grows

theorem grows_complain (σ : Setting) (open_ : List String) (c : Complaint) (s : State) :
    Grows open_ s (s.complain σ open_ c) [] := by
  unfold State.complain
  split
  · exact .nothing rfl rfl rfl
  · exact .nothing rfl rfl rfl

/-- A run puts the tokens it takes into the forest. -/
theorem Runs.grows {σ : Setting} {open_ : List String} {p : Phrase} {s : State} {o : Outcome}
    (h : Runs σ open_ p s o) (hd : open_.length ≤ maxDepth) :
    ∃ trees, Grows open_ s o.state trees := by
  induction h with
  | empty => exact ⟨[], .nothing rfl rfl rfl⟩
  | @take _ s => exact Grows.take hd s
  | reject | tooDeep => exact ⟨[], grows_complain ..⟩
  | seq _ _ iha ihb =>
    obtain ⟨_, ha⟩ := iha hd
    obtain ⟨_, hb⟩ := ihb hd
    exact ⟨_, ha.trans hb⟩
  | seqHalt _ ih | loop _ ih | chain _ ih | call _ ih => exact ih hd
  | chooseYes _ _ ih | chooseNo _ _ ih =>
    obtain ⟨_, h⟩ := ih hd
    exact ⟨_, (Grows.of_notes (Lookahead.ask_notes ..)).trans h⟩
  | node hlt _ ih | nodeHalt hlt _ ih =>
    obtain ⟨_, h⟩ := ih hlt
    exact ⟨_, h.close hlt⟩

/-! ### Where a parse stops -/

/-- The error was recorded here, and its rules lead into the newest tree. -/
structure StoppedAt (σ : Setting) (open_ : List String) (s : State) (e : SyntaxError) : Prop where
  error : s.error = some e
  token : e.token = s.peek σ 0
  previous : e.previous = if e.kind = .earlyExit then s.previous else none
  rules : e.rules = open_.reverse ∨
    ∃ last ∈ s.forest.head?, ∃ names, last.LastRules names ∧ e.rules = open_.reverse ++ names

theorem stoppedAt_complain {σ : Setting} (hp : σ.assisting = false) (open_ : List String)
    (c : Complaint) {s : State} (he : s.error = none) :
    ∃ e, StoppedAt σ open_ (s.complain σ open_ c) e := by
  have hc : s.complain σ open_ c =
      { s with
        error := some
          { kind := c.kind, message := c.message σ.vocabulary, token := s.peek σ 0,
            rules := open_.reverse,
            previous := if c.namesPrevious then s.previous else none } } := by
    simp [State.complain, hp, he]
  rw [hc]
  exact ⟨_, rfl, rfl, by cases c <;> rfl, .inl rfl⟩

section
variable {σ : Setting} {open_ : List String} {name : String} {s : State} {e : SyntaxError}

/-- The rules of the error lead down from the innermost open rule, once it is closed. -/
theorem StoppedAt.lastRules (h : StoppedAt σ (name :: open_) s e) :
    ∃ names, (Tree.node name s.forest.reverse).LastRules names ∧
      e.rules = open_.reverse ++ names := by
  rcases h.rules with hr | ⟨last, hlast, names, hnames, hr⟩
  · exact ⟨[name], .here .., by simpa using hr⟩
  · refine ⟨name :: names, .down ?_ hnames, by simpa using hr⟩
    obtain ⟨older, hf⟩ := List.head?_eq_some_iff.mp hlast
    simp [hf, hnames.isRule]

theorem StoppedAt.close (h : StoppedAt σ (name :: open_) s e) (outer : List Tree) :
    StoppedAt σ open_ (s.close name outer) e :=
  ⟨h.error, h.token, h.previous, .inr ⟨_, rfl, h.lastRules⟩⟩

end

/-- A parse that has no error yet has none when it is done, and one when it stops. -/
theorem Runs.halts {σ : Setting} (hp : σ.assisting = false) {open_ : List String} {p : Phrase}
    {s : State} {o : Outcome} (h : Runs σ open_ p s o) (he : s.error = none) :
    (∀ s', o = .done s' → s'.error = none) ∧
      ∀ s', o = .halted s' → ∃ e, StoppedAt σ open_ s' e := by
  induction h with
  | empty => exact ⟨by rintro _ ⟨⟩; exact he, by rintro _ ⟨⟩⟩
  | @take _ s =>
    refine ⟨?_, by rintro _ ⟨⟩⟩
    rintro _ ⟨⟩
    unfold State.take
    split <;> exact he
  | reject | tooDeep => exact ⟨by rintro _ ⟨⟩, by rintro _ ⟨⟩; exact stoppedAt_complain hp _ _ he⟩
  | seq _ _ iha ihb => exact ihb ((iha he).1 _ rfl)
  | seqHalt _ ih => exact ⟨by rintro _ ⟨⟩, (ih he).2⟩
  | chooseYes _ _ ih | chooseNo _ _ ih =>
    exact ih ((Lookahead.ask_notes ..).error.trans he)
  | loop _ ih | chain _ ih | call _ ih => exact ih he
  | @node _ _ _ _ s₁ _ _ ih => exact ⟨by rintro _ ⟨⟩; exact (ih he).1 s₁ rfl, by rintro _ ⟨⟩⟩
  | @nodeHalt _ _ _ _ s₁ _ _ ih =>
    refine ⟨by rintro _ ⟨⟩, ?_⟩
    rintro _ ⟨⟩
    obtain ⟨e, h⟩ := (ih he).2 s₁ rfl
    exact ⟨e, h.close _⟩

end Grammar

end GraphLanguages
