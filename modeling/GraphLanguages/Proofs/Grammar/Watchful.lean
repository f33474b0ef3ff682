import GraphLanguages.Proofs.Grammar.InStep
import GraphLanguages.Proofs.Grammar.LastLeaf
import GraphLanguages.Proofs.Grammar.ParseTree
import GraphLanguages.Proofs.Vocabulary

/-! Content assist beside the parse of one token more.

A phrase is watchful if it takes a token only behind a question that asked for it and left
a note, or behind one of some choices that turn on the token after the next. While content
assist runs in step with the parse of one token more, a watchful phrase that takes this
token has noted a type that serves it before, or made such a choice without it
(`beside_of_runs`). -/
namespace GraphLanguages.Grammar

/-- What is expected of content assist. -/
structure Watch where
  /-- Does a candidate of the first type serve for tokens of the second? -/
  serves : TokenType → TokenType → Bool
  /-- Choices that look further than at the next token, and what follows where the answer
  is yes. -/
  excused : List (Lookahead × Phrase)
  /-- The rules around the token that such a choice turns on. -/
  places : List (List String)

/-- There is a note that serves for the token, taken below the open rules. -/
def ServedBelow (w : Watch) (open_ : List String) (t : Token) (s : State) : Prop :=
  ∃ c ∈ s.noted, w.serves c.type t.type = true ∧ c.rules = open_.reverse

/-- There is a note that serves for the token. -/
def Served (w : Watch) (t : Token) (s : State) : Prop :=
  ∃ c ∈ s.noted, w.serves c.type t.type = true

section
variable {w : Watch} {open_ : List String} {t : Token} {s s' : State}

theorem ServedBelow.mono (h : ServedBelow w open_ t s) (hs : s.noted ⊆ s'.noted) :
    ServedBelow w open_ t s' := by
  obtain ⟨c, hc, hfits⟩ := h
  exact ⟨c, hs hc, hfits⟩

theorem ServedBelow.served (h : ServedBelow w open_ t s) : Served w t s := by
  obtain ⟨c, hc, hserves, -⟩ := h
  exact ⟨c, hc, hserves⟩

theorem Served.mono (h : Served w t s) (hs : s.noted ⊆ s'.noted) : Served w t s' := by
  obtain ⟨c, hc, hserves⟩ := h
  exact ⟨c, hs hc, hserves⟩

end

/-! ### Questions that leave a note -/

namespace Lookahead

/-- The question asks for everything it answers yes to. -/
def heeded (w : Watch) (v : Vocabulary) : Lookahead → Bool
  | .is _ | .anyOf _ => true
  | .tagged category offered =>
    v.types.all fun U => !U.has category || (v.get? offered).any (w.serves · U)
  | .either a b | .both (.negated a) b => a.heeded w v && b.heeded w v
  | _ => false

variable {w : Watch} {g : Grammar} {v : Vocabulary} {size size' : Nat}
  {open_ open' : List String} {t : Token} {s s' : State}

theorem foldl_alsoAsk_of_noting {σ : Setting} {a : Bool × State} (hn : a.2.noting σ = true)
    (names : List String) : (names.foldl (alsoAsk σ open_) a).1 = a.1 := by
  induction names generalizing a with
  | nil => rfl
  | cons n ns ih =>
    have hnoting : (alsoAsk σ open_ a n).2.noting σ = true :=
      (noting_congr (askFor_notes σ open_ n a.2).rest).trans hn
    rw [List.foldl_cons, ih hnoting]
    simp [alsoAsk, askFor, hn]

/-- At the end content assist answers no and takes notes instead. -/
theorem ask_of_heeded {σ : Setting} (hn : s.noting σ = true) (test : Lookahead)
    (ht : test.heeded w v = true) : (test.ask σ open_ s).1 = false := by
  fun_induction heeded w v test generalizing s with
  | case1 name => simp [ask, askFor, hn]
  | case2 names => exact foldl_alsoAsk_of_noting (a := (false, s)) hn names
  | case3 => simp [ask, hn]
  | case4 a b iha ihb =>
    simp only [Bool.and_eq_true] at ht
    have hna : (a.ask σ open_ s).2.noting σ = true := by
      rwa [noting_congr (ask_notes ..).rest]
    simp [ask_either, iha hn ht.1, ihb hna ht.2]
  | case5 a b iha ihb =>
    simp only [Bool.and_eq_true] at ht
    have hna : (a.ask σ open_ s).2.noting σ = true := by
      rwa [noting_congr (ask_notes ..).rest]
    simp [ask, iha hn ht.1, ihb hna ht.2]
  | case6 => cases ht

theorem reach_of_heeded (test : Lookahead) (ht : test.heeded w v = true) : test.reach = 0 := by
  fun_induction heeded w v test with
  | case1 | case2 | case3 => rfl
  | case4 a b iha ihb | case5 a b iha ihb =>
    simp only [Bool.and_eq_true] at ht
    simp [reach, iha ht.1, ihb ht.2]
  | case6 => cases ht

theorem served_askFor (hw : ∀ T ∈ v.types, w.serves T T = true) (hv : v.Distinct)
    (ht : t.type ∈ v.types) (hs : s.rest = [t]) (hs' : s'.rest = []) {name : String}
    (hy : (askFor (g.parsing v size) open_ name s).1 = true) :
    ServedBelow w open' t (askFor (g.assisting v size') open' name s').2 := by
  have hquiet : s.noting (g.parsing v size) = false := noting_of_parsing rfl
  have hnoting : s'.noting (g.assisting v size') = true := noting_at_end rfl hs'
  have hname : t.type.name = name := by
    simp only [askFor, hquiet, Bool.false_eq_true, if_false, peek_zero_cons hs, Bool.and_eq_true,
      beq_iff_eq] at hy
    exact hy.1
  have hget : (g.assisting v size').vocabulary.get? name = some t.type := hname ▸ hv t.type ht
  obtain ⟨c, hc, htype, hrules⟩ := exists_mem_noted_note open' s' hget
  simp only [askFor, hnoting, if_true]
  exact ⟨c, hc, htype ▸ hw t.type ht, hrules⟩

theorem served_foldl_alsoAsk (open_ : List String) (hw : ∀ T ∈ v.types, w.serves T T = true)
    (hv : v.Distinct) (ht : t.type ∈ v.types) (a a' : Bool × State) (hs : a.2.rest = [t])
    (hs' : a'.2.rest = []) (hf : a.1 = true → ServedBelow w open' t a'.2) {names : List String}
    (hy : (names.foldl (alsoAsk (g.parsing v size) open_) a).1 = true) :
    ServedBelow w open' t (names.foldl (alsoAsk (g.assisting v size') open') a').2 := by
  induction names generalizing a a' with
  | nil => exact hf hy
  | cons n ns ih =>
    have hnoting : a.2.noting (g.parsing v size) = false := noting_of_parsing rfl
    have hquiet : (alsoAsk (g.parsing v size) open_ a n).2 = a.2 := by
      show (askFor (g.parsing v size) open_ n a.2).2 = a.2
      exact askFor_quiet hnoting n
    have hnotes := askFor_notes (g.assisting v size') open' n a'.2
    refine ih _ _ (by rwa [hquiet]) (hnotes.rest.trans hs') ?_ hy
    intro hor
    simp only [alsoAsk, Bool.or_eq_true] at hor
    rcases hor with h | h
    · exact (hf h).mono hnotes.subset
    · exact served_askFor hw hv ht hs hs' h

/-- What the parse answers yes to, content assist has noted. -/
theorem served_of_yes (hw : ∀ T ∈ v.types, w.serves T T = true) (hv : v.Distinct)
    (ht : t.type ∈ v.types) (test : Lookahead) (hn : test.heeded w v = true) (hs : s.rest = [t])
    (hs' : s'.rest = []) (hy : (test.ask (g.parsing v size) open_ s).1 = true) :
    ServedBelow w open' t (test.ask (g.assisting v size') open' s').2 := by
  have hquiet : s.noting (g.parsing v size) = false := noting_of_parsing rfl
  have hnoting : s'.noting (g.assisting v size') = true := noting_at_end rfl hs'
  fun_induction heeded w v test generalizing s' with
  | case1 name => exact served_askFor hw hv ht hs hs' hy
  | case2 names =>
    exact served_foldl_alsoAsk open_ hw hv ht (false, s) (false, s') hs hs' (by simp) hy
  | case3 category offered =>
    simp only [ask, hquiet, Bool.false_eq_true, if_false, peek_zero_cons hs] at hy
    have hhas : t.type.has category = true := hy
    have hserves := List.all_eq_true.mp hn t.type ht
    rw [hhas, Bool.not_true, Bool.false_or, Option.any_eq_true] at hserves
    obtain ⟨T, hT, hserves⟩ := hserves
    have hget : (g.assisting v size').vocabulary.get? offered = some T := hT
    obtain ⟨c, hc, rfl, hrules⟩ := exists_mem_noted_note open' s' hget
    simp only [ask, hnoting, if_true]
    exact ⟨c, hc, hserves, hrules⟩
  | case4 a b iha ihb =>
    simp only [Bool.and_eq_true] at hn
    have hno : (a.ask (g.assisting v size') open' s').1 = false := ask_of_heeded hnoting a hn.1
    have hrest := (ask_notes (g.assisting v size') open' a s').rest.trans hs'
    rw [ask_either, hno, if_neg (by decide)]
    rw [ask_either] at hy
    by_cases hya : (a.ask (g.parsing v size) open_ s).1 = true
    · exact (iha hn.1 hs' hya hnoting).mono (ask_notes ..).subset
    · rw [if_neg hya, ask_quiet hquiet] at hy
      exact ihb hn.2 hrest hy (noting_at_end rfl hrest)
  | case5 a b iha ihb =>
    simp only [Bool.and_eq_true] at hn
    have hno : (a.ask (g.assisting v size') open' s').1 = false := ask_of_heeded hnoting a hn.1
    have hrest := (ask_notes (g.assisting v size') open' a s').rest.trans hs'
    have hyes : ((negated a).ask (g.assisting v size') open' s').1 = true := by
      simp [ask, hno]
    have hstate : ((negated a).ask (g.parsing v size) open_ s).2 = s := ask_quiet hquiet _
    rw [ask_both, if_pos hyes]
    rw [ask_both, hstate] at hy
    split at hy
    next => exact ihb hn.2 hrest hy (noting_at_end rfl hrest)
    next => cases hy
  | case6 => cases hn

end Lookahead

/-! ### Phrases that leave notes -/

/-- Follows a phrase and knows whether the next token has been asked for with success: it
must have been where a token is taken, or where a choice looks further. Answers what is known
when the phrase is done, and nothing if a token is taken unasked. -/
def Phrase.watchful (w : Watch) (v : Vocabulary) : Phrase → Bool → Option Bool
  | .empty, asked => some asked
  | .take, asked => if asked then some false else none
  | .reject _, _ => some true
  | .seq a b, asked =>
    match a.watchful w v asked with
    | some asked => b.watchful w v asked
    | none => none
  | .choose test a b, asked =>
    if test.reach == 0 && (asked || test.heeded w v) || asked && w.excused.contains (test, a) then
      match a.watchful w v true, b.watchful w v asked with
      | some x, some y => some (x && y)
      | _, _ => none
    else none
  | .loop test body, _ =>
    if test.heeded w v && (body.watchful w v true).isSome then some false else none
  | .chain item _ gap more, asked =>
    if more.heeded w v && (item.watchful w v asked).isSome && (item.watchful w v true).isSome &&
      (gap.watchful w v false).isSome then some false else none
  | .node _ body, asked => body.watchful w v asked
  | .call _, _ => some false

/-- What a watchful phrase asks of a choice: its question is about the next token alone, and
asks for that if it has not been asked for, or it may look further. -/
def Watch.Allows (w : Watch) (v : Vocabulary) (asked : Bool) (test : Lookahead)
    (body : Phrase) : Prop :=
  test.reach = 0 ∧ (asked = false → test.heeded w v = true) ∨
    asked = true ∧ (test, body) ∈ w.excused

/-- A grammar whose phrases are watchful. -/
structure Watchful (w : Watch) (v : Vocabulary) (g : Grammar) : Prop where
  serves_self : ∀ T ∈ v.types, w.serves T T = true
  entry : (g.entry.watchful w v false).isSome = true
  rules : ∀ r ∈ g.rules, (r.2.watchful w v false).isSome = true

instance (w : Watch) (v : Vocabulary) (g : Grammar) : Decidable (Watchful w v g) :=
  decidable_of_iff
    ((∀ T ∈ v.types, w.serves T T = true) ∧ (g.entry.watchful w v false).isSome = true ∧
      ∀ r ∈ g.rules, (r.2.watchful w v false).isSome = true)
    ⟨fun h => ⟨h.1, h.2.1, h.2.2⟩, fun h => ⟨h.serves_self, h.entry, h.rules⟩⟩

theorem Watchful.rule {w : Watch} {v : Vocabulary} {g : Grammar} (h : Watchful w v g)
    (name : String) : ((g.rule name).watchful w v false).isSome = true :=
  forall_rule (P := fun p => (p.watchful w v false).isSome = true) rfl h.rules name

section
variable {w : Watch} {v : Vocabulary}

theorem watchful_seq {a b : Phrase} {x z : Bool} (h : (Phrase.seq a b).watchful w v x = some z) :
    ∃ y, a.watchful w v x = some y ∧ b.watchful w v y = some z := by
  rw [Phrase.watchful] at h
  split at h
  next y hy => exact ⟨y, hy, h⟩
  next => cases h

theorem watchful_choose {test : Lookahead} {a b : Phrase} {x z : Bool}
    (h : (Phrase.choose test a b).watchful w v x = some z) :
    w.Allows v x test a ∧
      ∃ y y', a.watchful w v true = some y ∧ b.watchful w v x = some y' ∧ z = (y && y') := by
  rw [Phrase.watchful] at h
  split at h
  next ht =>
    simp only [Bool.or_eq_true, Bool.and_eq_true, beq_iff_eq, List.contains_iff_mem] at ht
    refine ⟨ht.imp_left fun ht => ⟨ht.1, fun hx => by simpa [hx] using ht.2⟩, ?_⟩
    split at h
    next y y' ha hb => exact ⟨y, y', ha, hb, by simpa using h.symm⟩
    next => cases h
  next => cases h

/-- A loop is followed as its rounds are. -/
theorem watchful_unrollLoop {test : Lookahead} {body : Phrase} {x z : Bool}
    (h : (Phrase.loop test body).watchful w v x = some z) :
    (Phrase.unrollLoop test body).watchful w v x = some z := by
  rw [Phrase.watchful] at h
  split at h
  next ht =>
    simp only [Bool.and_eq_true, Option.isSome_iff_exists] at ht
    obtain ⟨hn, y, hy⟩ := ht
    simpa [Phrase.unrollLoop, Phrase.watchful, hn, hy, Lookahead.reach_of_heeded test hn] using h
  next => cases h

theorem watchful_unrollChain {item gap : Phrase} {separator : String} {more : Lookahead}
    {x z : Bool} (h : (Phrase.chain item separator gap more).watchful w v x = some z) :
    (Phrase.unrollChain item separator gap more).watchful w v x = some z := by
  rw [Phrase.watchful] at h
  split at h
  next ht =>
    simp only [Bool.and_eq_true, Option.isSome_iff_exists] at ht
    obtain ⟨⟨⟨hn, y, hy⟩, y', hy'⟩, y'', hy''⟩ := ht
    simpa [Phrase.unrollChain, Phrase.chainTail, Phrase.watchful, Lookahead.heeded,
      Lookahead.reach, hn, hy, hy', hy'', Lookahead.reach_of_heeded more hn] using h
  next => cases h

end

/-! ### Choices that look further -/

/-- The rules around the token taken last have the property. -/
def State.LastAt (P : List String → Prop) (s : State) : Prop :=
  ∃ rules, s.lastRules? = some rules ∧ P rules

/-- If the run has taken all tokens, the rules around the last one have the property. -/
inductive Lapsed (P : List String → Prop) : Outcome → Prop
  | done {s : State} : s.rest = [] → s.LastAt P → Lapsed P (.done s)
  | halted {s : State} : (s.rest = [] → s.LastAt P) → Lapsed P (.halted s)

section
variable {P Q : List String → Prop} {g : Grammar} {v : Vocabulary} {size : Nat} {σ : Setting}
  {open_ : List String} {a b : Phrase} {s : State} {o : Outcome} {name : String}

theorem State.LastAt.close (h : s.LastAt P) (hQ : ∀ rules, P rules → Q (name :: rules))
    (outer : List Tree) : (s.close name outer).LastAt Q := by
  obtain ⟨rules, hrules, hP⟩ := h
  exact ⟨name :: rules, lastRules?_close hrules name outer, hQ rules hP⟩

theorem Lapsed.mono (h : Lapsed P o) (hQ : ∀ rules, P rules → Q rules) : Lapsed Q o := by
  cases h with
  | done hr hat => exact .done hr (hat.imp fun rules h => h.imp_right (hQ rules))
  | halted hat => exact .halted fun hr => (hat hr).imp fun rules h => h.imp_right (hQ rules)

theorem Lapsed.close (h : Lapsed P o) (hQ : ∀ rules, P rules → Q (name :: rules))
    (outer : List Tree) : Lapsed Q (o.map (State.close name outer)) := by
  cases h with
  | done hr hat => exact .done hr (hat.close hQ outer)
  | halted hat => exact .halted fun hr => (hat hr).close hQ outer

/-- Once all tokens are taken, the last one stays where it is. -/
theorem Lapsed.of_runs (h : Runs σ open_ a s o) (hd : open_.length ≤ maxDepth)
    (hs : s.rest = []) (hat : s.LastAt P) : Lapsed P o := by
  have hat' : o.state.LastAt P := by
    rw [State.LastAt, h.lastRules?_of_nil hd hs]
    exact hat
  cases o with
  | done s' => exact .done (h.rest_eq_nil hs) hat'
  | halted s' => exact .halted fun _ => hat'
  | spent s' => cases h.ended

theorem Lapsed.seq (h : Runs σ open_ (.seq a b) s o) (hd : open_.length ≤ maxDepth)
    (ha : ∀ {o}, Runs σ open_ a s o → Lapsed P o) : Lapsed P o := by
  cases h with
  | seq ha' hb =>
    cases ha ha' with
    | done hr hat => exact .of_runs hb hd hr hat
  | seqHalt ha' => exact ha ha'

theorem Lapsed.node (h : Runs σ open_ (.node name a) s o) (hs : s.rest ≠ [])
    (ha : ∀ {o}, open_.length < maxDepth → Runs σ (name :: open_) a { s with forest := [] } o →
      Lapsed P o)
    (hQ : ∀ rules, P rules → Q (name :: rules)) : Lapsed Q o := by
  cases h with
  | tooDeep => exact .halted fun hr => absurd (by rwa [complain_rest] at hr) hs
  | node hd h | nodeHalt hd h => exact (ha hd h).close hQ s.forest

/-- A token that is expected is taken, or nothing is. -/
theorem Runs.of_expect {test : Lookahead} {c : Complaint}
    (h : Runs (g.parsing v size) open_ (.choose test .take (.reject c)) s o) :
    o = .done s.take ∨ ∃ s', o = .halted s' ∧ s'.rest = s.rest := by
  cases h with
  | chooseYes _ h =>
    rw [ask_parsing] at h
    cases h
    exact .inl rfl
  | chooseNo _ h =>
    rw [ask_parsing] at h
    cases h
    exact .inr ⟨_, rfl, complain_rest ..⟩

/-- The last token is taken right below the open rules if it is expected there. -/
theorem Lapsed.expect {test : Lookahead} {c : Complaint} {t : Token}
    (h : Runs (g.parsing v size) open_ (.choose test .take (.reject c)) s o)
    (hs : s.rest = [t]) : Lapsed (· = []) o := by
  rcases h.of_expect with rfl | ⟨s', rfl, hr⟩
  · refine .done (by rw [take_rest, hs]; rfl) ⟨[], ?_, rfl⟩
    simp [State.take, hs, State.lastRules?, Tree.lastRulesIn?_append, Tree.lastRulesIn?,
      Tree.lastRules?]
  · refine .halted fun hr' => ?_
    rw [hr, hs] at hr'
    cases hr'

end

/-- One of the places lies around a token with these rules. -/
def Watch.At (w : Watch) (rules : List String) : Prop :=
  ∃ place ∈ w.places, place <:+ rules

theorem Watch.At.below {w : Watch} {rules : List String} (h : w.At rules) (name : String) :
    w.At (name :: rules) := by
  obtain ⟨place, hplace, hsuffix⟩ := h
  exact ⟨place, hplace, hsuffix.trans (List.suffix_cons name rules)⟩

/-- The choice turns on the token after the next. Without it, content assist takes the other
way; with it as the last one, the parse takes it at one of the places. -/
structure Excused (w : Watch) (v : Vocabulary) (g : Grammar) (test : Lookahead)
    (body : Phrase) : Prop where
  reach : test.reach ≤ 1
  blind : ∀ {size : Nat} {open_ : List String} {s : State}, s.rest.length ≤ 1 →
    (test.ask (g.assisting v size) open_ s).1 = false
  lapsed : ∀ {size : Nat} {open_ : List String} {s : State} {o : Outcome} {u t : Token},
    Runs (g.parsing v size) open_ body s o → open_.length ≤ maxDepth → s.rest = [u, t] →
      Lapsed w.At o

/-! ### The parse and content assist together -/

/-- Content assist has found something that serves for the token, or the token was taken at
one of the places, or else both runs end alike and in step; and if the next token has been
asked for, there is one. -/
inductive Beside (w : Watch) (t : Token) (asked : Bool) : Outcome → Outcome → Prop
  | served {o o' : Outcome} : Served w t o'.state → Beside w t asked o o'
  | lapsed {o o' : Outcome} : Lapsed w.At o → Beside w t asked o o'
  | done {s s' : State} : InStep t s s' → (asked = true → s'.rest ≠ []) →
      Beside w t asked (.done s) (.done s')
  | halted {s s' : State} : InStep t s s' → Beside w t asked (.halted s) (.halted s')

theorem Beside.mono {w : Watch} {t : Token} {asked asked' : Bool} {o o' : Outcome}
    (h : Beside w t asked o o') (ha : asked' = true → asked = true) : Beside w t asked' o o' := by
  cases h with
  | served hf => exact .served hf
  | lapsed hl => exact .lapsed hl
  | done hs hne => exact .done hs fun h => hne (ha h)
  | halted hs => exact .halted hs

theorem Beside.close {w : Watch} {t : Token} {asked : Bool} {o o' : Outcome}
    {name name' : String} {outer outer' : List Tree} (h : Beside w t asked o o') :
    Beside w t asked (o.map (State.close name outer)) (o'.map (State.close name' outer')) := by
  cases h with
  | @served _ o' hf => exact .served (by cases o' <;> exact hf)
  | lapsed hl => exact .lapsed (hl.close (fun _ hat => hat.below name) outer)
  | done hs hne => exact .done hs hne
  | halted hs => exact .halted hs

section
variable {w : Watch} {g : Grammar} {v : Vocabulary} {size size' : Nat} {t : Token}

/-- Where a watchful phrase chooses, a yes of the parse is about the awaited token, and has
left a note, or is a yes of content assist as well, or is about the awaited token behind the
next one. -/
theorem Watch.Allows.yes {open_ open' : List String} {test : Lookahead} {body : Phrase}
    {s s' : State} {x : Bool} (h : w.Allows v x test body)
    (hg : Watchful w v g) (hexcused : ∀ e ∈ w.excused, Excused w v g e.1 e.2)
    (hv : v.Distinct) (ht : t.type ∈ v.types) (hs : InStep t s s')
    (hx : x = true → s'.rest ≠ [])
    (hy : (test.ask (g.parsing v size) open_ s).1 = true) :
    Served w t (test.ask (g.assisting v size') open' s').2 ∨
      s'.rest ≠ [] ∧ (test.ask (g.assisting v size') open' s').1 = true ∨
      (test, body) ∈ w.excused ∧ ∃ u, s.rest = [u, t] := by
  by_cases hend : s'.rest = []
  · have hheeded : test.heeded w v = true := by
      rcases h with ⟨-, hn⟩ | ⟨hx', -⟩
      · exact hn (by simpa [hend] using hx)
      · exact absurd hend (hx hx')
    have hf : ServedBelow w open' t (test.ask (g.assisting v size') open' s').2 :=
      test.served_of_yes hg.serves_self hv ht hheeded (by simpa [InStep, hend] using hs) hend hy
    exact .inl hf.served
  by_cases hnear : test.reach < s'.rest.length
  · exact .inr (.inl ⟨hend, (hs.ask_eq test hnear).symm.trans hy⟩)
  · have hpos := List.length_pos_iff.mpr hend
    have hmem : (test, body) ∈ w.excused := by
      rcases h with ⟨hzero, -⟩ | ⟨-, hmem⟩
      · omega
      · exact hmem
    have hone : test.reach ≤ 1 := (hexcused (test, body) hmem).reach
    obtain ⟨u, hu⟩ := List.length_eq_one_iff.mp (show s'.rest.length = 1 by omega)
    exact .inr (.inr ⟨hmem, u, by simpa [InStep, hu] using hs⟩)

/-- Where a watchful phrase chooses, a no of the parse is a no of content assist. -/
theorem Watch.Allows.no {open_ open' : List String} {test : Lookahead} {body : Phrase}
    {s s' : State} {x : Bool} (h : w.Allows v x test body)
    (hexcused : ∀ e ∈ w.excused, Excused w v g e.1 e.2) (hs : InStep t s s')
    (hx : x = true → s'.rest ≠ [])
    (hn : (test.ask (g.parsing v size) open_ s).1 = false) :
    (test.ask (g.assisting v size') open' s').1 = false := by
  by_cases hnear : test.reach < s'.rest.length
  · rw [← hs.ask_eq test hnear, hn]
  · rcases h with ⟨hzero, hheeded⟩ | ⟨-, hmem⟩
    · have hend : s'.rest = [] := List.length_eq_zero_iff.mp (by omega)
      exact test.ask_of_heeded (noting_at_end rfl hend) (hheeded (by simpa [hend] using hx))
    · have hexcuse := hexcused (test, body) hmem
      have hone : test.reach ≤ 1 := hexcuse.reach
      exact hexcuse.blind (by omega)

/-- **In step, a watchful phrase that takes the awaited token has noted what serves for it, or
has taken it where a choice looks further.** -/
theorem beside_of_runs (hg : Watchful w v g)
    (hexcused : ∀ e ∈ w.excused, Excused w v g e.1 e.2) (hv : v.Distinct)
    (ht : t.type ∈ v.types) {open_ open' : List String} {p : Phrase} {s s' : State}
    {o o' : Outcome} {x y : Bool} (h : Runs (g.parsing v size) open_ p s o)
    (h' : Runs (g.assisting v size') open' p s' o') (hl : open_.length = open'.length)
    (hd : open_.length ≤ maxDepth) (hs : InStep t s s') (hp : p.watchful w v x = some y)
    (hx : x = true → s'.rest ≠ []) : Beside w t y o o' := by
  induction h generalizing open' s' o' x y with
  | empty =>
    cases h'
    cases hp
    exact .done hs hx
  | take =>
    cases h'
    cases x with
    | false => cases hp
    | true =>
      cases hp
      exact .done (hs.take (hx rfl)) (by simp)
  | reject =>
    cases h'
    exact .halted hs.complain
  | seq _ hb iha ihb =>
    obtain ⟨z, hpa, hpb⟩ := watchful_seq hp
    obtain ⟨o₁', ha', hb'⟩ := h'.exists_onward
    cases iha ha' hl hd hs hpa hx with
    | served hf => exact .served (hf.mono hb'.noted_subset)
    | lapsed hlapsed =>
      cases hlapsed with
      | done hr hat => exact .lapsed (.of_runs hb hd hr hat)
    | done hs₁ hx₁ =>
      cases hb' with
      | done hb' => exact ihb hb' hl hd hs₁ hpb hx₁
  | seqHalt _ ih =>
    obtain ⟨z, hpa, -⟩ := watchful_seq hp
    obtain ⟨o₁', ha', hb'⟩ := h'.exists_onward
    cases ih ha' hl hd hs hpa hx with
    | served hf => exact .served (hf.mono hb'.noted_subset)
    | lapsed hlapsed => exact .lapsed hlapsed
    | halted hs₁ =>
      cases hb'
      exact .halted hs₁
  | @chooseYes open_ test a _ s _ hy ha ih =>
    obtain ⟨hallows, z, z', hpa, _, rfl⟩ := watchful_choose hp
    have hs₁ := hs.ask (g.parsing v size) (g.assisting v size') open_ open' test
    have hrest := (test.ask_notes (g.assisting v size') open' s').rest
    rcases hallows.yes hg hexcused hv ht hs hx hy with hf | ⟨hne, hy'⟩ | ⟨hmem, u, hu⟩
    · cases h' with
      | chooseYes _ h' | chooseNo _ h' => exact .served (hf.mono h'.noted_subset)
    · exact (ih (h'.of_yes hy') hl hd hs₁ hpa fun _ => hrest ▸ hne).mono (by simp +contextual)
    · rw [ask_parsing] at ha
      exact .lapsed ((hexcused (test, a) hmem).lapsed ha hd hu)
  | @chooseNo open_ test _ _ s _ hn _ ih =>
    obtain ⟨hallows, z, z', _, hpb, rfl⟩ := watchful_choose hp
    have hs₁ := hs.ask (g.parsing v size) (g.assisting v size') open_ open' test
    have hx₁ : x = true → (test.ask (g.assisting v size') open' s').2.rest ≠ [] := by
      rwa [(test.ask_notes ..).rest]
    exact (ih (h'.of_no (hallows.no hexcused hs hx hn)) hl hd hs₁ hpb hx₁).mono
      (by simp +contextual)
  | loop _ ih =>
    cases h' with
    | loop h' => exact ih h' hl hd hs (watchful_unrollLoop hp) hx
  | chain _ ih =>
    cases h' with
    | chain h' => exact ih h' hl hd hs (watchful_unrollChain hp) hx
  | tooDeep hdeep =>
    cases h' with
    | tooDeep => exact .halted hs.complain
    | node hd' | nodeHalt hd' => omega
  | node hd₁ _ ih | nodeHalt hd₁ _ ih =>
    obtain ⟨o₁', hbody, rfl⟩ := h'.of_node (hl ▸ hd₁)
    exact (ih hbody (by simp [hl]) hd₁ hs hp hx).close
  | @call _ name _ _ _ ih =>
    cases h' with
    | call h' =>
      cases hp
      obtain ⟨z, hz⟩ := Option.isSome_iff_exists.mp (hg.rule name)
      exact (ih h' hl hd hs hz (by simp)).mono (by simp)

/-- **Under a watchful grammar, content assist has a candidate that serves for the token that
a parse takes next, or that token was taken where a choice turns on it.** -/
theorem exists_served (hg : Watchful w v g)
    (hexcused : ∀ e ∈ w.excused, Excused w v g e.1 e.2) (hprog : Progressive g)
    (hv : v.Distinct) (ht : t.type ∈ v.types) {tokens : List Token} {root root' : String}
    (h : (g.parse v root size (tokens ++ [t])).1.leaves = tokens ++ [t]) :
    (∃ c ∈ g.assist v root' tokens, w.serves c.type t.type = true) ∨
      ∃ rules, (g.parse v root size (tokens ++ [t])).1.lastRules? = some rules ∧ w.At rules := by
  obtain ⟨o, ho⟩ := hprog.exists_runs_document v root size (tokens ++ [t])
  obtain ⟨o', ho'⟩ := hprog.exists_runs_entry v root' tokens
  have hrest : o.state.rest = [] := (leaves_parse_eq_iff ho).mp h
  obtain ⟨y, hy⟩ := Option.isSome_iff_exists.mp hg.entry
  have hdepth : [root].length ≤ maxDepth := Nat.le_of_ble_eq_true rfl
  have hfound : Served w t o'.state ∨ o.state.LastAt w.At := by
    cases ho with
    | seq hentry hfinish =>
      cases beside_of_runs hg hexcused hv ht hentry ho' rfl hdepth rfl hy (by simp) with
      | served hf => exact .inl hf
      | lapsed hlapsed =>
        cases hlapsed with
        | done hr hat =>
          cases Lapsed.of_runs hfinish hdepth hr hat with
          | done _ hat => exact .inr hat
          | halted hat => exact .inr (hat hrest)
      | done hs _ => exact absurd (hfinish.of_finish.1.symm.trans hrest) hs.ne_nil
    | seqHalt hentry =>
      cases beside_of_runs hg hexcused hv ht hentry ho' rfl hdepth rfl hy (by simp) with
      | served hf => exact .inl hf
      | lapsed hlapsed =>
        cases hlapsed with
        | halted hat => exact .inr (hat hrest)
      | halted hs => exact absurd hrest hs.ne_nil
  rcases hfound with ⟨c, hc, hserves⟩ | ⟨rules, hrules, hat⟩
  · exact .inl ⟨c, by rwa [assist_of_runs ho', List.mem_reverse], hserves⟩
  · refine .inr ⟨root :: rules, ?_, hat.below root⟩
    have hlast : Tree.lastRulesIn? o.state.forest.reverse = some rules := hrules
    rw [parse_of_runs ho, Tree.lastRules?, hlast]
    rfl

end

end GraphLanguages.Grammar
