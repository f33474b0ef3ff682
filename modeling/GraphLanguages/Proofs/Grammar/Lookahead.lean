import GraphLanguages.Grammar.Run
import GraphLanguages.Proofs.Vocabulary

/-! What questions see and what they change.

A question changes nothing but the notes (`ask_notes`), and changes nothing at all
while there are tokens to answer from (`ask_quiet`). Its answer depends on the
tokens within its reach alone (`Matches.ask_congr`). When they are used up it is the
same in every run (`ask_at_end`), provided the question is not about the sentinel. -/
namespace GraphLanguages.Grammar

/-! ### The sentinel -/

@[simp] theorem endOfInput_name (size : Nat) : (Token.endOfInput size).name = "EOF" := rfl

theorem endOfInput_has (size : Nat) (c : Category) :
    (Token.endOfInput size).has c = (c == .endOfInput) := by
  cases c <;> rfl

theorem endOfInput_isEndOfInput (size : Nat) : (Token.endOfInput size).isEndOfInput = true := rfl

/-! ### Looking ahead -/

section Peek
variable {σ σ' : Setting} {s s' : State}

theorem peek_zero_cons {t : Token} {ts : List Token} (h : s.rest = t :: ts) :
    s.peek σ 0 = t := by
  simp [State.peek, h]

theorem peek_of_length_le {d : Nat} (h : s.rest.length ≤ d) : s.peek σ d = σ.sentinel := by
  simp [State.peek, List.getElem?_eq_none h]

theorem peek_at_end {size : Nat} (hs : σ.sentinel = Token.endOfInput size) (h : s.rest = [])
    (d : Nat) : s.peek σ d = Token.endOfInput size := by
  rw [peek_of_length_le (by simp [h]), hs]

theorem peek_congr (h : s.rest = s'.rest) (d : Nat) : s.peek σ d = s'.peek σ d := by
  simp [State.peek, h]

theorem noting_congr (h : s.rest = s'.rest) : s.noting σ = s'.noting σ := by
  simp [State.noting, h]

theorem noting_of_parsing (h : σ.assisting = false) : s.noting σ = false := by
  simp [State.noting, h]

theorem noting_of_cons {t : Token} {ts : List Token} (h : s.rest = t :: ts) :
    s.noting σ = false := by
  simp [State.noting, h]

theorem noting_at_end (ha : σ.assisting = true) (h : s.rest = []) : s.noting σ = true := by
  simp [State.noting, ha, h]

end Peek

/-! ### Notes -/

/-- A note of a type of the vocabulary, which replaces what is at the cursor. -/
def Candidate.IsNote (v : Vocabulary) (c : Candidate) : Prop :=
  c.type ∈ v.types ∧ c.replace = none

/-- The second state is the first with more notes. -/
def State.Notes (v : Vocabulary) (s s' : State) : Prop :=
  ∃ more, s' = { s with noted := more ++ s.noted } ∧ ∀ c ∈ more, c.IsNote v

namespace State.Notes
variable {v : Vocabulary} {s s' s'' : State}

theorem refl (v : Vocabulary) (s : State) : s.Notes v s :=
  ⟨[], rfl, by simp⟩

theorem trans (h : s.Notes v s') (h' : s'.Notes v s'') : s.Notes v s'' := by
  obtain ⟨more, rfl, hm⟩ := h
  obtain ⟨more', rfl, hm'⟩ := h'
  exact ⟨more' ++ more, by simp, fun c hc => (List.mem_append.mp hc).elim (hm' c) (hm c)⟩

theorem rest (h : s.Notes v s') : s'.rest = s.rest := by
  obtain ⟨more, rfl, -⟩ := h
  rfl

theorem previous (h : s.Notes v s') : s'.previous = s.previous := by
  obtain ⟨more, rfl, -⟩ := h
  rfl

theorem forest (h : s.Notes v s') : s'.forest = s.forest := by
  obtain ⟨more, rfl, -⟩ := h
  rfl

theorem error (h : s.Notes v s') : s'.error = s.error := by
  obtain ⟨more, rfl, -⟩ := h
  rfl

theorem subset (h : s.Notes v s') : s.noted ⊆ s'.noted := by
  obtain ⟨more, rfl, -⟩ := h
  exact List.subset_append_right more s.noted

theorem isNote (h : s.Notes v s') (hs : ∀ c ∈ s.noted, c.IsNote v) :
    ∀ c ∈ s'.noted, c.IsNote v := by
  obtain ⟨more, rfl, hm⟩ := h
  exact fun c hc => (List.mem_append.mp hc).elim (hm c) (hs c)

end State.Notes

theorem note_notes (σ : Setting) (open_ : List String) (name : String) (s : State) :
    s.Notes σ.vocabulary (s.note σ open_ name) := by
  unfold State.note
  split
  · exact .refl _ s
  next type hg =>
    refine ⟨[_], rfl, fun c hc => ?_⟩
    obtain rfl := List.mem_singleton.mp hc
    exact ⟨(Vocabulary.mem_of_get? hg).1, rfl⟩

theorem mem_noted_note {σ : Setting} {open_ : List String} {name : String} {s : State}
    {c : Candidate} (h : c ∈ (s.note σ open_ name).noted) :
    c ∈ s.noted ∨ σ.vocabulary.get? name = some c.type := by
  unfold State.note at h
  split at h
  · exact .inl h
  next type hg =>
    rcases List.mem_cons.mp h with rfl | h
    · exact .inr hg
    · exact .inl h

theorem exists_mem_noted_note {σ : Setting} (open_ : List String) {name : String} (s : State)
    {type : TokenType} (h : σ.vocabulary.get? name = some type) :
    ∃ c ∈ (s.note σ open_ name).noted, c.type = type ∧ c.rules = open_.reverse := by
  simp only [State.note, h]
  exact ⟨_, List.mem_cons_self .., rfl, rfl⟩

namespace Lookahead
variable {σ σ' : Setting} {open_ open' : List String}

theorem ask_either (a b : Lookahead) (s : State) :
    (either a b).ask σ open_ s =
      if (a.ask σ open_ s).1 then (true, (a.ask σ open_ s).2)
      else b.ask σ open_ (a.ask σ open_ s).2 := by
  rw [ask]
  rcases a.ask σ open_ s with ⟨_ | _, s₁⟩ <;> rfl

theorem ask_both (a b : Lookahead) (s : State) :
    (both a b).ask σ open_ s =
      if (a.ask σ open_ s).1 then b.ask σ open_ (a.ask σ open_ s).2
      else (false, (a.ask σ open_ s).2) := by
  rw [ask]
  rcases a.ask σ open_ s with ⟨_ | _, s₁⟩ <;> rfl

/-! ### What a question changes -/

theorem askFor_notes (σ : Setting) (open_ : List String) (name : String) (s : State) :
    s.Notes σ.vocabulary (askFor σ open_ name s).2 := by
  unfold askFor
  split
  · exact note_notes σ open_ name s
  · exact .refl _ s

/-- One more name asked for, behind the answer so far. -/
def alsoAsk (σ : Setting) (open_ : List String) (answer : Bool × State) (name : String) :
    Bool × State :=
  let (hit, s) := askFor σ open_ name answer.2
  (answer.1 || hit, s)

theorem foldl_alsoAsk_notes (names : List String) (answer : Bool × State) :
    answer.2.Notes σ.vocabulary (names.foldl (alsoAsk σ open_) answer).2 := by
  induction names generalizing answer with
  | nil => exact .refl _ _
  | cons n ns ih => exact (askFor_notes σ open_ n answer.2).trans (ih _)

/-- A question changes the notes at most. -/
theorem ask_notes (σ : Setting) (open_ : List String) (test : Lookahead) (s : State) :
    s.Notes σ.vocabulary (test.ask σ open_ s).2 := by
  induction test generalizing s with
  | is name => exact askFor_notes σ open_ name s
  | anyOf names => exact foldl_alsoAsk_notes names (false, s)
  | tagged category offered =>
    unfold ask
    split
    · exact note_notes σ open_ offered s
    · exact .refl _ s
  | either a b iha ihb =>
    rw [ask_either]
    split
    · exact iha s
    · exact (iha s).trans (ihb _)
  | both a b iha ihb =>
    rw [ask_both]
    split
    · exact (iha s).trans (ihb _)
    · exact iha s
  | negated a ih => exact ih s
  | aheadIs | aheadTagged | atEnd => exact .refl _ s

theorem askFor_quiet {s : State} (h : s.noting σ = false) (name : String) :
    (askFor σ open_ name s).2 = s := by
  simp [askFor, h]

theorem foldl_alsoAsk_quiet {a : Bool × State} (h : a.2.noting σ = false) (names : List String) :
    (names.foldl (alsoAsk σ open_) a).2 = a.2 := by
  induction names generalizing a with
  | nil => rfl
  | cons n ns ih =>
    have hn : (alsoAsk σ open_ a n).2 = a.2 := askFor_quiet h n
    rw [List.foldl_cons, ih (by rwa [hn]), hn]

/-- Nothing is noted while there are tokens to answer from. -/
theorem ask_quiet {s : State} (h : s.noting σ = false) (test : Lookahead) :
    (test.ask σ open_ s).2 = s := by
  induction test with
  | is name => exact askFor_quiet h name
  | anyOf names => exact foldl_alsoAsk_quiet (a := (false, s)) h names
  | tagged category offered => simp [ask, h]
  | either a b iha ihb =>
    rw [ask_either, iha]
    split
    · rfl
    · exact ihb
  | both a b iha ihb =>
    rw [ask_both, iha]
    split
    · exact ihb
    · rfl
  | negated a ih => exact ih
  | aheadIs | aheadTagged | atEnd => rfl

/-! ### What an answer depends on -/

/-- Settings that answer questions alike where neither takes notes. -/
structure Alike (σ σ' : Setting) : Prop where
  vocabulary : σ.vocabulary = σ'.vocabulary
  sentinel : σ.sentinel.type = σ'.sentinel.type

theorem Alike.refl (σ : Setting) : Alike σ σ := ⟨rfl, rfl⟩

/-- How far behind the next token the question looks. -/
def reach : Lookahead → Nat
  | .is _ | .anyOf _ | .tagged .. | .atEnd => 0
  | .either a b | .both a b => max a.reach b.reach
  | .negated a => a.reach
  | .aheadIs distance _ | .aheadTagged distance _ => distance

/-- The states look the same from the next token up to the distance. -/
structure Matches (σ σ' : Setting) (distance : Nat) (s s' : State) : Prop where
  type : ∀ d ≤ distance, (s.peek σ d).type = (s'.peek σ' d).type
  empty : s.rest.isEmpty = s'.rest.isEmpty
  noting : s.noting σ = s'.noting σ'

namespace Matches
variable {d e : Nat} {s s' s₁ s₁' : State}

theorem mono (h : Matches σ σ' d s s') (he : e ≤ d) : Matches σ σ' e s s' :=
  ⟨fun k hk => h.type k (Nat.le_trans hk he), h.empty, h.noting⟩

theorem notes (h : Matches σ σ' d s s') (hs : s.Notes σ.vocabulary s₁)
    (hs' : s'.Notes σ'.vocabulary s₁') :
    Matches σ σ' d s₁ s₁' where
  type k hk := by rw [peek_congr hs.rest, peek_congr hs'.rest, h.type k hk]
  empty := by rw [hs.rest, hs'.rest, h.empty]
  noting := by rw [noting_congr hs.rest, noting_congr hs'.rest, h.noting]

theorem of_rest (ha : Alike σ σ') (h : s.rest = s'.rest) (hn : s.noting σ = s'.noting σ')
    (d : Nat) : Matches σ σ' d s s' where
  type k _ := by
    simp only [State.peek, h]
    cases s'.rest[k]? with
    | none => exact ha.sentinel
    | some t => rfl
  empty := by rw [h]
  noting := hn

end Matches

theorem askFor_congr (hv : σ.vocabulary = σ'.vocabulary) {s s' : State}
    (h : Matches σ σ' 0 s s') (name : String) :
    (askFor σ open_ name s).1 = (askFor σ' open' name s').1 := by
  unfold askFor
  rw [h.noting]
  cases s'.noting σ'
  · simp only [Bool.false_eq_true, if_false, Token.name, h.type 0 (Nat.le_refl 0), hv]
  · rfl

theorem foldl_alsoAsk_congr (hv : σ.vocabulary = σ'.vocabulary) (a a' : Bool × State)
    (ha : a.1 = a'.1) (h : Matches σ σ' 0 a.2 a'.2) (names : List String) :
    (names.foldl (alsoAsk σ open_) a).1 = (names.foldl (alsoAsk σ' open') a').1 := by
  induction names generalizing a a' with
  | nil => exact ha
  | cons n ns ih =>
    apply ih
    · have hn : (askFor σ open_ n a.2).1 = (askFor σ' open' n a'.2).1 := askFor_congr hv h n
      simp only [alsoAsk, ha, hn]
    · exact h.notes (askFor_notes σ open_ n a.2) (askFor_notes σ' open' n a'.2)

/-- An answer depends on the tokens within reach, and on whether notes are taken. -/
theorem Matches.ask_congr {test : Lookahead} {s s' : State} (h : Matches σ σ' test.reach s s')
    (hv : σ.vocabulary = σ'.vocabulary) :
    (test.ask σ open_ s).1 = (test.ask σ' open' s').1 := by
  induction test generalizing s s' with
  | is name => exact askFor_congr hv h name
  | anyOf names => exact foldl_alsoAsk_congr hv (false, s) (false, s') rfl h names
  | tagged category offered =>
    unfold ask
    rw [h.noting]
    cases s'.noting σ'
    · simp only [Bool.false_eq_true, if_false, Token.has, h.type 0 (Nat.le_refl 0)]
    · rfl
  | either a b iha ihb =>
    have ha := iha (h.mono (Nat.le_max_left ..))
    have hb := ihb ((h.mono (Nat.le_max_right ..)).notes (ask_notes σ open_ a s)
      (ask_notes σ' open' a s'))
    rw [ask_either, ask_either, ha]
    split
    · rfl
    · exact hb
  | both a b iha ihb =>
    have ha := iha (h.mono (Nat.le_max_left ..))
    have hb := ihb ((h.mono (Nat.le_max_right ..)).notes (ask_notes σ open_ a s)
      (ask_notes σ' open' a s'))
    rw [ask_both, ask_both, ha]
    split
    · exact hb
    · rfl
  | negated a ih => exact congrArg not (ih h)
  | aheadIs distance name =>
    simp only [ask, Token.name, h.type distance (Nat.le_refl distance)]
  | aheadTagged distance category =>
    simp only [ask, Token.has, h.type distance (Nat.le_refl distance)]
  | atEnd => simp only [ask, h.empty]

/-! ### When the tokens are used up -/

/-- The question is about tokens, and none of them the sentinel. -/
def grounded : Lookahead → Bool
  | .is name | .aheadIs _ name => name != "EOF"
  | .anyOf names => names.all (· != "EOF")
  | .tagged category _ | .aheadTagged _ category => category != .endOfInput
  | .either a b | .both a b => a.grounded && b.grounded
  | .negated a => a.grounded
  | .atEnd => false

/-- The answer when the tokens are used up. -/
def endAnswer : Lookahead → Bool
  | .is _ | .anyOf _ | .tagged .. | .aheadIs .. | .aheadTagged .. => false
  | .either a b => a.endAnswer || b.endAnswer
  | .both a b => a.endAnswer && b.endAnswer
  | .negated a => !a.endAnswer
  | .atEnd => true

theorem askFor_at_end {size : Nat} (hs : σ.sentinel = Token.endOfInput size) {s : State}
    (h : s.rest = []) {name : String} (hg : name ≠ "EOF") : (askFor σ open_ name s).1 = false := by
  unfold askFor
  split
  · rfl
  · simp [peek_at_end hs h, hg.symm]

theorem foldl_alsoAsk_at_end {size : Nat} (hs : σ.sentinel = Token.endOfInput size)
    {a : Bool × State} (h : a.2.rest = []) {names : List String} (hg : ∀ n ∈ names, n ≠ "EOF") :
    (names.foldl (alsoAsk σ open_) a).1 = a.1 := by
  induction names generalizing a with
  | nil => rfl
  | cons n ns ih =>
    have hn : (askFor σ open_ n a.2).1 = false :=
      askFor_at_end hs h (hg n (List.mem_cons_self ..))
    have hrest : (alsoAsk σ open_ a n).2.rest = [] := (askFor_notes σ open_ n a.2).rest.trans h
    rw [List.foldl_cons, ih hrest fun m hm => hg m (List.mem_cons_of_mem n hm)]
    simp [alsoAsk, hn]

theorem ask_at_end {size : Nat} (hs : σ.sentinel = Token.endOfInput size) (test : Lookahead)
    {s : State} (h : s.rest = []) (hg : test.grounded = true) :
    (test.ask σ open_ s).1 = test.endAnswer := by
  induction test generalizing s with
  | is name => exact askFor_at_end hs h (by simpa [grounded] using hg)
  | anyOf names =>
    exact foldl_alsoAsk_at_end (a := (false, s)) hs h (by simpa [grounded] using hg)
  | tagged category offered =>
    unfold ask
    split
    · rfl
    · simpa [peek_at_end hs h, endOfInput_has, grounded, endAnswer] using hg
  | either a b iha ihb =>
    simp only [grounded, Bool.and_eq_true] at hg
    have ha := iha h hg.1
    have hb := ihb ((ask_notes σ open_ a s).rest.trans h) hg.2
    rw [ask_either, endAnswer, ← ha, ← hb]
    cases (a.ask σ open_ s).1 <;> rfl
  | both a b iha ihb =>
    simp only [grounded, Bool.and_eq_true] at hg
    have ha := iha h hg.1
    have hb := ihb ((ask_notes σ open_ a s).rest.trans h) hg.2
    rw [ask_both, endAnswer, ← ha, ← hb]
    cases (a.ask σ open_ s).1 <;> rfl
  | negated a ih => exact congrArg not (ih h hg)
  | aheadIs distance name =>
    have hne : name ≠ "EOF" := by simpa [grounded] using hg
    simp [ask, peek_at_end hs h, endAnswer, hne.symm]
  | aheadTagged distance category =>
    simpa [ask, peek_at_end hs h, endAnswer, endOfInput_has, grounded] using hg
  | atEnd => cases hg

end Lookahead

end GraphLanguages.Grammar
