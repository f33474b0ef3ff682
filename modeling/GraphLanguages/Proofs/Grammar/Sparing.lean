import GraphLanguages.Proofs.Grammar.ParseTree

/-! Tokens that a parse never takes.

A phrase spares a type of tokens if it takes a token only where the questions before it
have ruled out that the token is of this type (`Phrase.sparing`). No run of a grammar made
of such phrases takes a token of the type (`Runs.spares`), so none gets into a tree, and a
parse that meets one has an error (`Sparing.error_of_mem`). -/
namespace GraphLanguages.Grammar
open GraphLanguages.Tree

/-! ### What answers rule out -/

/-- The next token, if there is one, is of another type. -/
def State.Clear (T : TokenType) (s : State) : Prop :=
  ∀ t ∈ s.rest.head?, t.type ≠ T

theorem State.Clear.congr {T : TokenType} {s s' : State} (h : s.Clear T)
    (hr : s'.rest = s.rest) : s'.Clear T :=
  fun t ht => h t (hr ▸ ht)

namespace Lookahead

/-- Does the answer rule out that the next token is of the type? -/
def excludes (T : TokenType) : Lookahead → Bool → Bool
  | .is name, answer => answer && name != T.name
  | .anyOf names, answer => answer && !names.contains T.name
  | .tagged category _, answer => answer && !T.has category
  | .either a b, true => a.excludes T true && b.excludes T true
  | .either a b, false => a.excludes T false || b.excludes T false
  | .both a b, true => a.excludes T true || b.excludes T true
  | .both a b, false => a.excludes T false && b.excludes T false
  | .negated a, answer => a.excludes T !answer
  | .aheadIs .., _ | .aheadTagged .., _ => false
  | .atEnd, answer => answer

section
variable {σ : Setting} {open_ : List String} {T : TokenType} {s : State}

theorem name_of_askFor (hσ : σ.assisting = false) {name : String}
    (h : (askFor σ open_ name s).1 = true) : ∀ t ∈ s.rest.head?, t.name = name := by
  intro t ht
  obtain ⟨ts, hr⟩ := List.head?_eq_some_iff.mp ht
  rw [askFor, noting_of_parsing hσ, if_neg (by decide), peek_zero_cons hr] at h
  simp only [Bool.and_eq_true, beq_iff_eq] at h
  exact h.1

theorem name_of_foldl_alsoAsk (hσ : σ.assisting = false) {names : List String} {a : Bool × State}
    (h : (names.foldl (alsoAsk σ open_) a).1 = true) :
    a.1 = true ∨ ∀ t ∈ a.2.rest.head?, t.name ∈ names := by
  induction names generalizing a with
  | nil => exact .inl h
  | cons n ns ih =>
    rcases ih h with h | h
    · rcases Bool.or_eq_true_iff.mp h with h | h
      · exact .inl h
      · exact .inr fun t ht => name_of_askFor hσ h t ht ▸ List.mem_cons_self ..
    · have hrest : (alsoAsk σ open_ a n).2.rest = a.2.rest := (askFor_notes σ open_ n a.2).rest
      exact .inr fun t ht => List.mem_cons_of_mem n (h t (hrest ▸ ht))

/-- An answer of a parse that rules the type out is given only where another token, or
none, comes next. -/
theorem clear_of_ask (hσ : σ.assisting = false) (test : Lookahead) {answer : Bool}
    (hx : test.excludes T answer = true) (ha : (test.ask σ open_ s).1 = answer) : s.Clear T := by
  induction test generalizing s answer with
  | is name =>
    simp only [excludes, Bool.and_eq_true, bne_iff_ne] at hx
    obtain ⟨rfl, hne⟩ := hx
    exact fun t ht he => hne ((name_of_askFor hσ ha t ht).symm.trans (congrArg (·.name) he))
  | anyOf names =>
    simp only [excludes, Bool.and_eq_true, Bool.not_eq_true', List.contains_eq_mem,
      decide_eq_false_iff_not] at hx
    obtain ⟨rfl, hne⟩ := hx
    intro t ht he
    have hmem : t.name ∈ names :=
      (name_of_foldl_alsoAsk (a := (false, s)) hσ ha).resolve_left Bool.false_ne_true t ht
    exact hne (he ▸ hmem)
  | tagged category offered =>
    simp only [excludes, Bool.and_eq_true, Bool.not_eq_true'] at hx
    obtain ⟨rfl, hne⟩ := hx
    intro t ht he
    obtain ⟨ts, hr⟩ := List.head?_eq_some_iff.mp ht
    rw [ask, noting_of_parsing hσ, if_neg (by decide), peek_zero_cons hr] at ha
    rw [← he] at hne
    exact Bool.false_ne_true (hne.symm.trans ha)
  | either a b iha ihb =>
    rw [ask_either] at ha
    have hrest := (ask_notes σ open_ a s).rest
    cases answer with
    | true =>
      simp only [excludes, Bool.and_eq_true] at hx
      split at ha
      next hy => exact iha hx.1 hy
      next => exact (ihb hx.2 ha).congr hrest.symm
    | false =>
      split at ha
      next => cases ha
      next hn =>
        rcases Bool.or_eq_true_iff.mp hx with hx | hx
        · exact iha hx (by simpa using hn)
        · exact (ihb hx ha).congr hrest.symm
  | both a b iha ihb =>
    rw [ask_both] at ha
    have hrest := (ask_notes σ open_ a s).rest
    cases answer with
    | true =>
      split at ha
      next hy =>
        rcases Bool.or_eq_true_iff.mp hx with hx | hx
        · exact iha hx hy
        · exact (ihb hx ha).congr hrest.symm
      next => cases ha
    | false =>
      simp only [excludes, Bool.and_eq_true] at hx
      split at ha
      next => exact (ihb hx.2 ha).congr hrest.symm
      next hn => exact iha hx.1 (by simpa using hn)
  | negated a ih => exact ih hx (by rw [← ha]; exact (Bool.not_not _).symm)
  | aheadIs | aheadTagged => cases hx
  | atEnd =>
    obtain rfl : answer = true := hx
    have hr : s.rest = [] := List.isEmpty_iff.mp ha
    intro t ht
    rw [hr] at ht
    cases ht

/-- What is known behind a question is what was known before it, or what the answer says. -/
theorem clear_answered (hσ : σ.assisting = false) (test : Lookahead) {answer sure : Bool}
    (ha : (test.ask σ open_ s).1 = answer) (hs : sure = true → s.Clear T)
    (h : (sure || test.excludes T answer) = true) : (test.ask σ open_ s).2.Clear T := by
  refine State.Clear.congr ?_ (test.ask_notes σ open_ s).rest
  exact (Bool.or_eq_true_iff.mp h).elim hs (test.clear_of_ask hσ · ha)

end

end Lookahead

/-! ### Phrases that spare a type -/

/-- Follows a phrase and knows whether the next token is surely of another type: it must
be so where a token is taken. Answers what is known when the phrase is done, and nothing
if a token is taken that may be of the type. -/
def Phrase.sparing (T : TokenType) : Phrase → Bool → Option Bool
  | .empty, sure => some sure
  | .take, sure => if sure then some false else none
  | .reject _, _ => some true
  | .seq a b, sure => (a.sparing T sure).bind (b.sparing T)
  | .choose test a b, sure =>
    match a.sparing T (sure || test.excludes T true),
      b.sparing T (sure || test.excludes T false) with
    | some x, some y => some (x && y)
    | _, _ => none
  | .loop test body, _ =>
    (body.sparing T (test.excludes T true)).map fun _ => test.excludes T false
  | .chain item separator gap _, _ =>
    if separator != T.name && (item.sparing T false).isSome && (gap.sparing T false).isSome then
      some false else none
  | .node _ body, sure => body.sparing T sure
  | .call _, _ => some false

/-- A grammar whose phrases spare the type. -/
structure Sparing (T : TokenType) (g : Grammar) : Prop where
  entry : (g.entry.sparing T false).isSome = true
  rules : ∀ r ∈ g.rules, (r.2.sparing T false).isSome = true

instance (T : TokenType) (g : Grammar) : Decidable (Sparing T g) :=
  decidable_of_iff
    ((g.entry.sparing T false).isSome = true ∧
      ∀ r ∈ g.rules, (r.2.sparing T false).isSome = true)
    ⟨fun h => ⟨h.1, h.2⟩, fun h => ⟨h.entry, h.rules⟩⟩

section
variable {T : TokenType} {g : Grammar}

theorem Sparing.rule (hg : Sparing T g) (name : String) :
    ((g.rule name).sparing T false).isSome = true :=
  forall_rule (P := fun p => (p.sparing T false).isSome = true) rfl hg.rules name

/-- Nothing is known in front of a round of a loop but what its test says. -/
theorem sparing_unrollLoop {test : Lookahead} {body : Phrase} {sure x : Bool}
    (h : (Phrase.loop test body).sparing T sure = some x) :
    (Phrase.unrollLoop test body).sparing T false = some x := by
  obtain ⟨y, hy, rfl⟩ := Option.map_eq_some_iff.mp h
  simp only [Phrase.unrollLoop, Phrase.sparing, Bool.false_or, hy, Option.bind_some,
    Option.map_some, Bool.and_self]

theorem sparing_unrollChain {item gap : Phrase} {separator : String} {more : Lookahead}
    {sure x : Bool} (h : (Phrase.chain item separator gap more).sparing T sure = some x) :
    (Phrase.unrollChain item separator gap more).sparing T false = some x := by
  simp only [Phrase.sparing, Bool.and_eq_true, Option.isSome_iff_exists] at h
  split at h
  next hc =>
    obtain ⟨⟨hseparator, y, hy⟩, z, hz⟩ := hc
    simp [Phrase.unrollChain, Phrase.chainTail, Phrase.sparing, Lookahead.excludes, hseparator,
      hy, hz, ← h]
  next => cases h

end

/-! ### What a run takes -/

/-- From one state to the other, no token of the type was taken. -/
def Spared (T : TokenType) (s s' : State) : Prop :=
  ∃ taken, s.rest = taken ++ s'.rest ∧ ∀ t ∈ taken, t.type ≠ T

namespace Spared
variable {T : TokenType} {s s₁ s' : State}

theorem of_rest (h : s'.rest = s.rest) : Spared T s s' :=
  ⟨[], h.symm, by simp⟩

theorem trans (h : Spared T s s₁) (h' : Spared T s₁ s') : Spared T s s' := by
  obtain ⟨taken, hr, ht⟩ := h
  obtain ⟨taken', hr', ht'⟩ := h'
  refine ⟨taken ++ taken', by rw [hr, hr', List.append_assoc], fun t hmem => ?_⟩
  exact (List.mem_append.mp hmem).elim (ht t) (ht' t)

theorem take (h : s.Clear T) : Spared T s s.take := by
  cases hr : s.rest with
  | nil => exact of_rest (by rw [take_rest, hr]; rfl)
  | cons t ts =>
    refine ⟨[t], by rw [take_rest, hr]; rfl, fun u hu => ?_⟩
    obtain rfl := List.mem_singleton.mp hu
    exact h u (by rw [hr]; rfl)

end Spared

/-- A parse by phrases that spare a type takes no token of it, and what is said to be
known when it is done is so. -/
theorem Runs.spares {σ : Setting} {T : TokenType} (hσ : σ.assisting = false)
    (hg : Sparing T σ.grammar) {open_ : List String} {p : Phrase} {s : State} {o : Outcome}
    (h : Runs σ open_ p s o) {sure x : Bool} (hp : p.sparing T sure = some x)
    (hs : sure = true → s.Clear T) :
    Spared T s o.state ∧ ∀ s', o = .done s' → x = true → s'.Clear T := by
  induction h generalizing sure x with
  | empty =>
    obtain rfl : sure = x := Option.some.inj hp
    exact ⟨.of_rest rfl, by rintro _ ⟨⟩; exact hs⟩
  | take =>
    simp only [Phrase.sparing] at hp
    split at hp
    next hsure =>
      cases hp
      exact ⟨.take (hs hsure), by rintro _ - ⟨⟩⟩
    next => cases hp
  | reject => exact ⟨.of_rest (complain_rest ..), by rintro _ ⟨⟩⟩
  | seq _ _ iha ihb =>
    obtain ⟨y, ha, hb⟩ := Option.bind_eq_some_iff.mp hp
    obtain ⟨hspared, hclear⟩ := iha ha hs
    obtain ⟨hspared', hclear'⟩ := ihb hb (hclear _ rfl)
    exact ⟨hspared.trans hspared', hclear'⟩
  | seqHalt _ ih =>
    obtain ⟨y, ha, -⟩ := Option.bind_eq_some_iff.mp hp
    exact ⟨(ih ha hs).1, by rintro _ ⟨⟩⟩
  | @chooseYes open_ test _ _ s _ ha _ ih =>
    simp only [Phrase.sparing] at hp
    split at hp
    next y z hy _ =>
      cases hp
      obtain ⟨hspared, hclear⟩ := ih hy (test.clear_answered hσ ha hs)
      refine ⟨(Spared.of_rest (test.ask_notes σ open_ s).rest).trans hspared, ?_⟩
      exact fun s' hs' hx => hclear s' hs' (Bool.and_eq_true_iff.mp hx).1
    next => cases hp
  | @chooseNo open_ test _ _ s _ ha _ ih =>
    simp only [Phrase.sparing] at hp
    split at hp
    next y z _ hz =>
      cases hp
      obtain ⟨hspared, hclear⟩ := ih hz (test.clear_answered hσ ha hs)
      refine ⟨(Spared.of_rest (test.ask_notes σ open_ s).rest).trans hspared, ?_⟩
      exact fun s' hs' hx => hclear s' hs' (Bool.and_eq_true_iff.mp hx).2
    next => cases hp
  | loop _ ih => exact ih (sparing_unrollLoop hp) (by simp)
  | chain _ ih => exact ih (sparing_unrollChain hp) (by simp)
  | tooDeep => exact ⟨.of_rest (complain_rest ..), by rintro _ ⟨⟩⟩
  | @node _ _ _ _ s₁ _ _ ih =>
    obtain ⟨hspared, hclear⟩ := ih hp hs
    refine ⟨hspared, ?_⟩
    rintro _ ⟨⟩
    exact hclear s₁ rfl
  | nodeHalt _ _ ih => exact ⟨(ih hp hs).1, by rintro _ ⟨⟩⟩
  | call _ ih =>
    cases hp
    obtain ⟨y, hy⟩ := Option.isSome_iff_exists.mp (hg.rule _)
    exact ⟨(ih hy (by simp)).1, by rintro _ - ⟨⟩⟩

namespace Sparing
variable {T : TokenType} {g : Grammar} {v : Vocabulary} {root : String} {size : Nat}
  {tokens : List Token}

/-- No leaf is of a type that the grammar spares. -/
theorem leaves (hg : Sparing T g) (hp : Progressive g) :
    ∀ t ∈ (g.parse v root size tokens).1.leaves, t.type ≠ T := by
  obtain ⟨o, hruns⟩ := hp.exists_runs_document v root size tokens
  obtain ⟨x, hx⟩ := Option.isSome_iff_exists.mp hg.entry
  have hdocument : g.document.sparing T false = some true := by
    simp [document, Phrase.finish, Phrase.sparing, hx, Lookahead.excludes]
  obtain ⟨⟨taken, hrest, htaken⟩, -⟩ := hruns.spares rfl hg hdocument (by simp)
  have htree : (g.parse v root size tokens).1.leaves = taken :=
    List.append_cancel_right ((leaves_parse_of_runs hruns).trans hrest)
  exact htree ▸ htaken

/-- A parse that meets a token of a type that the grammar spares has an error. -/
theorem error_of_mem (hg : Sparing T g) (hp : Progressive g) {t : Token} (ht : t ∈ tokens)
    (hT : t.type = T) : (g.parse v root size tokens).2 ≠ none := by
  intro hnone
  obtain ⟨k, hk⟩ := exists_parsedUpTo (terminates_iff_runs.mpr
    (hp.exists_runs_document v root size tokens))
  have hall : (g.parse v root size tokens).1.leaves = tokens := by
    rw [hk.leaves, hk.all hnone, List.take_length]
  exact hg.leaves hp t (hall ▸ ht) hT

end Sparing

end GraphLanguages.Grammar
