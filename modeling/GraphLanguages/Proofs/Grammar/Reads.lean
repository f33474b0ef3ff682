import GraphLanguages.Proofs.Grammar.Productions
import GraphLanguages.Proofs.Grammar.Widen

/-! What a parse reads.

Whether a parse gets done with a phrase depends on the names ahead and on how many rules
are open, and on nothing else. `Reads` is what is left of a run then: a relation between
the names before and behind the phrase, with one rule for every kind of phrase. A document
is parsed without an error just where its names are read (`parse_eq_none_iff`). What is
read below some open rules is read below fewer as well (`Reads.shallower`), which is how
grammars with different rules around the same phrases compare. -/
namespace GraphLanguages.Grammar

namespace Lookahead
variable {v : Vocabulary} {w : Word} {name : String} {names : List String}

theorem holdsOn_is : (is name).holdsOn v w = true ↔ ∃ rest, w = name :: rest := by
  cases w <;> simp [holdsOn]

theorem holdsOn_anyOf :
    (anyOf names).holdsOn v w = true ↔ ∃ u ∈ names, ∃ rest, w = u :: rest := by
  cases w <;> simp [holdsOn]

end Lookahead

/-- Below so many open rules, the phrase reads the first word up to the second. -/
inductive Reads (v : Vocabulary) (g : Grammar) : Nat → Phrase → Word → Word → Prop
  | empty {d w} : Reads v g d .empty w w
  | take {d w} : Reads v g d .take w w.tail
  | seq {d a b w w₁ w'} : Reads v g d a w w₁ → Reads v g d b w₁ w' → Reads v g d (.seq a b) w w'
  | chooseYes {d test a b w w'} : test.holdsOn v w = true → Reads v g d a w w' →
      Reads v g d (.choose test a b) w w'
  | chooseNo {d test a b w w'} : test.holdsOn v w = false → Reads v g d b w w' →
      Reads v g d (.choose test a b) w w'
  | loopDone {d test body w} : test.holdsOn v w = false → Reads v g d (.loop test body) w w
  | loopMore {d test body w w₁ w'} : test.holdsOn v w = true → Reads v g d body w w₁ →
      Reads v g d (.loop test body) w₁ w' → Reads v g d (.loop test body) w w'
  | chain {d item separator gap more w w'} :
      Reads v g d (Phrase.unrollChain item separator gap more) w w' →
      Reads v g d (.chain item separator gap more) w w'
  | node {d name body w w'} : d < maxDepth → Reads v g (d + 1) body w w' →
      Reads v g d (.node name body) w w'
  | call {d name w w'} : Reads v g d (g.rule name) w w' → Reads v g d (.call name) w w'

section
variable {v : Vocabulary} {g : Grammar} {d : Nat} {a b body : Phrase} {test : Lookahead}
  {name : String} {w w' : Word}

/-! ### One phrase at a time -/

theorem reads_empty : Reads v g d .empty w w' ↔ w' = w :=
  ⟨by rintro ⟨⟩; rfl, by rintro rfl; exact .empty⟩

theorem reads_take : Reads v g d .take w w' ↔ w' = w.tail :=
  ⟨by rintro ⟨⟩; rfl, by rintro rfl; exact .take⟩

theorem not_reads_reject (c : Complaint) : ¬ Reads v g d (.reject c) w w' := by
  rintro ⟨⟩

theorem reads_seq : Reads v g d (.seq a b) w w' ↔
    ∃ w₁, Reads v g d a w w₁ ∧ Reads v g d b w₁ w' := by
  constructor
  · rintro ⟨⟩
    exact ⟨_, ‹_›, ‹_›⟩
  · rintro ⟨w₁, ha, hb⟩
    exact .seq ha hb

theorem reads_choose : Reads v g d (.choose test a b) w w' ↔
    if test.holdsOn v w then Reads v g d a w w' else Reads v g d b w w' := by
  constructor
  · rintro (_ | _ | _ | ⟨h, ha⟩ | ⟨h, hb⟩)
    · rwa [if_pos h]
    · rwa [h, if_neg (by decide)]
  · intro h
    split at h
    next ht => exact .chooseYes ht h
    next ht => exact .chooseNo (by simpa using ht) h

theorem reads_node : Reads v g d (.node name body) w w' ↔
    d < maxDepth ∧ Reads v g (d + 1) body w w' := by
  constructor
  · rintro ⟨⟩
    exact ⟨‹_›, ‹_›⟩
  · rintro ⟨hd, h⟩
    exact .node hd h

/-- Reading a token of one type does not depend on the open rules. -/
theorem reads_expect : Reads v g d (.expect name) w w' ↔ w = name :: w' := by
  rw [Phrase.expect, reads_choose]
  cases w with
  | nil => simp [Lookahead.holdsOn, not_reads_reject]
  | cons u w =>
    by_cases hu : u = name
    · simp [Lookahead.holdsOn, hu, reads_take, eq_comm]
    · simp [Lookahead.holdsOn, hu, not_reads_reject]

/-- One round of a loop, with the loop behind it, is the loop. -/
theorem Reads.of_unrollLoop (h : Reads v g d (Phrase.unrollLoop test body) w w') :
    Reads v g d (.loop test body) w w' := by
  cases h with
  | chooseYes ht h =>
    obtain ⟨w₁, hbody, hloop⟩ := reads_seq.mp h
    exact .loopMore ht hbody hloop
  | chooseNo ht h =>
    obtain rfl := reads_empty.mp h
    exact .loopDone ht

/-! ### Other surroundings -/

/-- What is read below some open rules is read below fewer. -/
theorem Reads.shallower {p : Phrase} (h : Reads v g d p w w') {e : Nat} (he : e ≤ d) :
    Reads v g e p w w' := by
  induction h generalizing e with
  | empty => exact .empty
  | take => exact .take
  | seq _ _ iha ihb => exact .seq (iha he) (ihb he)
  | chooseYes ht _ ih => exact .chooseYes ht (ih he)
  | chooseNo ht _ ih => exact .chooseNo ht (ih he)
  | loopDone ht => exact .loopDone ht
  | loopMore ht _ _ ihb ihl => exact .loopMore ht (ihb he) (ihl he)
  | chain _ ih => exact .chain (ih he)
  | node hd _ ih => exact .node (Nat.lt_of_le_of_lt he hd) (ih (Nat.succ_le_succ he))
  | call _ ih => exact .call (ih he)

/-- A phrase reads alike in every grammar with the same named phrases. -/
theorem Reads.congr {p : Phrase} (h : Reads v g d p w w') {g' : Grammar}
    (hg : g'.rule = g.rule) : Reads v g' d p w w' := by
  induction h with
  | empty => exact .empty
  | take => exact .take
  | seq _ _ iha ihb => exact .seq iha ihb
  | chooseYes ht _ ih => exact .chooseYes ht ih
  | chooseNo ht _ ih => exact .chooseNo ht ih
  | loopDone ht => exact .loopDone ht
  | loopMore ht _ _ ihb ihl => exact .loopMore ht ihb ihl
  | chain _ ih => exact .chain ih
  | node hd _ ih => exact .node hd ih
  | call _ ih => exact .call (hg ▸ ih)

/-- A loop whose rounds are also rounds of another one reads what that one does, if the
other stops there as well. -/
theorem Reads.loop {g' : Grammar} {d' : Nat} {test' : Lookahead} {body' : Phrase}
    (h : Reads v g d (.loop test body) w w')
    (hround : ∀ w w₁, test.holdsOn v w = true → Reads v g d body w w₁ →
      test'.holdsOn v w = true ∧ Reads v g' d' body' w w₁)
    (hend : test'.holdsOn v w' = false) : Reads v g' d' (.loop test' body') w w' := by
  generalize hp : Phrase.loop test body = p at h
  induction h with
  | loopDone => exact .loopDone hend
  | loopMore ht hbody _ _ ih =>
    cases hp
    obtain ⟨ht', hbody'⟩ := hround _ _ ht hbody
    exact .loopMore ht' hbody' (ih hround hend rfl)
  | empty | take | seq | chooseYes | chooseNo | chain | node | call => cases hp

end

/-! ### Runs that are done -/

/-- All questions of the phrase are about tokens. -/
def Phrase.grounded : Phrase → Bool
  | .empty | .take | .reject _ | .call _ => true
  | .seq a b => a.grounded && b.grounded
  | .choose test a b => test.grounded && a.grounded && b.grounded
  | .loop test body => test.grounded && body.grounded
  | .chain item separator gap more =>
    separator != "EOF" && more.grounded && item.grounded && gap.grounded
  | .node _ body => body.grounded

structure Grounded (g : Grammar) : Prop where
  entry : g.entry.grounded = true
  rules : ∀ r ∈ g.rules, r.2.grounded = true

instance (g : Grammar) : Decidable (Grounded g) :=
  decidable_of_iff (g.entry.grounded = true ∧ ∀ r ∈ g.rules, r.2.grounded = true)
    ⟨fun h => ⟨h.1, h.2⟩, fun h => ⟨h.entry, h.rules⟩⟩

section
variable {v : Vocabulary} {g : Grammar} {size : Nat} {open_ : List String} {p : Phrase}
  {s s' : State}

theorem Grounded.rule (hg : Grounded g) (name : String) : (g.rule name).grounded = true :=
  forall_rule (P := fun p => p.grounded = true) rfl hg.rules name

theorem grounded_unrollLoop {test : Lookahead} {body : Phrase} :
    (Phrase.unrollLoop test body).grounded = (Phrase.loop test body).grounded := by
  simp only [Phrase.unrollLoop, Phrase.grounded]
  cases test.grounded <;> cases body.grounded <;> rfl

theorem grounded_unrollChain {item gap : Phrase} {separator : String} {more : Lookahead} :
    (Phrase.unrollChain item separator gap more).grounded =
      (Phrase.chain item separator gap more).grounded := by
  simp only [Phrase.unrollChain, Phrase.chainTail, Phrase.grounded, Lookahead.grounded]
  cases separator != "EOF" <;> cases more.grounded <;> cases item.grounded <;>
    cases gap.grounded <;> rfl

/-- A run that is done has read the names of the tokens it took. -/
theorem reads_of_runs (hv : v.Distinct) (hg : Grounded g) {o : Outcome}
    (h : Runs (g.parsing v size) open_ p s o) (ho : o = .done s') (hs : UnderWay v s)
    (hp : p.grounded = true) : Reads v g open_.length p (names s.rest) (names s'.rest) := by
  induction h generalizing s' with
  | empty =>
    cases ho
    exact .empty
  | take =>
    cases ho
    exact names_take _ ▸ .take
  | reject | seqHalt | tooDeep | nodeHalt => cases ho
  | seq ha _ iha ihb =>
    simp only [Phrase.grounded, Bool.and_eq_true] at hp
    exact .seq (iha rfl hs hp.1) (ihb ho (hs.done ha) hp.2)
  | chooseYes ht _ ih =>
    simp only [Phrase.grounded, Bool.and_eq_true] at hp
    rw [ask_parsing] at ih
    exact .chooseYes (hs.answer hv hp.1.1 ▸ ht) (ih ho hs hp.1.2)
  | chooseNo ht _ ih =>
    simp only [Phrase.grounded, Bool.and_eq_true] at hp
    rw [ask_parsing] at ih
    exact .chooseNo (hs.answer hv hp.1.1 ▸ ht) (ih ho hs hp.2)
  | loop _ ih => exact (ih ho hs (grounded_unrollLoop ▸ hp)).of_unrollLoop
  | chain _ ih => exact .chain (ih ho hs (grounded_unrollChain ▸ hp))
  | @node _ _ body _ s₁ hd _ ih =>
    cases ho
    have hbody : Reads v g _ body _ (names s₁.rest) := ih rfl ⟨hs.typed, hs.error⟩ hp
    exact .node hd hbody
  | call _ ih => exact .call (ih ho hs (hg.rule _))

/-- Where a phrase reads the names ahead, a run is done with it. -/
theorem exists_runs_of_reads (size : Nat) (hv : v.Distinct) (hg : Grounded g) {d : Nat}
    {w w' : Word} (h : Reads v g d p w w') (hd : open_.length = d) (hw : names s.rest = w)
    (hs : UnderWay v s) (hp : p.grounded = true) :
    ∃ s', Runs (g.parsing v size) open_ p s (.done s') ∧ names s'.rest = w' := by
  induction h generalizing open_ s with
  | empty => exact ⟨s, .empty, hw⟩
  | take => exact ⟨s.take, .take, hw ▸ names_take s⟩
  | seq _ _ iha ihb =>
    simp only [Phrase.grounded, Bool.and_eq_true] at hp
    obtain ⟨s₁, ha, hw₁⟩ := iha hd hw hs hp.1
    obtain ⟨s', hb, hw'⟩ := ihb hd hw₁ (hs.done ha) hp.2
    exact ⟨s', .seq ha hb, hw'⟩
  | chooseYes ht _ ih =>
    simp only [Phrase.grounded, Bool.and_eq_true] at hp
    obtain ⟨s', h, hw'⟩ := ih hd hw hs hp.1.2
    refine ⟨s', .chooseYes (hs.answer hv hp.1.1 ▸ hw ▸ ht) ?_, hw'⟩
    rwa [ask_parsing]
  | chooseNo ht _ ih =>
    simp only [Phrase.grounded, Bool.and_eq_true] at hp
    obtain ⟨s', h, hw'⟩ := ih hd hw hs hp.2
    refine ⟨s', .chooseNo (hs.answer hv hp.1.1 ▸ hw ▸ ht) ?_, hw'⟩
    rwa [ask_parsing]
  | loopDone ht =>
    simp only [Phrase.grounded, Bool.and_eq_true] at hp
    refine ⟨s, .loop (.chooseNo (hs.answer hv hp.1 ▸ hw ▸ ht) ?_), hw⟩
    rw [ask_parsing]
    exact .empty
  | loopMore ht _ _ ihb ihl =>
    have hloop := hp
    simp only [Phrase.grounded, Bool.and_eq_true] at hp
    obtain ⟨s₁, hb, hw₁⟩ := ihb hd hw hs hp.2
    obtain ⟨s', hl, hw'⟩ := ihl hd hw₁ (hs.done hb) hloop
    refine ⟨s', .loop (.chooseYes (hs.answer hv hp.1 ▸ hw ▸ ht) ?_), hw'⟩
    rw [ask_parsing]
    exact .seq hb hl
  | chain _ ih =>
    obtain ⟨s', h, hw'⟩ := ih hd hw hs (grounded_unrollChain.trans hp)
    exact ⟨s', .chain h, hw'⟩
  | @node d name body w w' hlt _ ih =>
    subst hd
    have hinside : UnderWay v { s with forest := [] } := ⟨hs.typed, hs.error⟩
    obtain ⟨s', h, hw'⟩ := ih (s := { s with forest := [] }) (List.length_cons (a := name)) hw
      hinside hp
    exact ⟨_, .node hlt h, hw'⟩
  | call _ ih =>
    obtain ⟨s', h, hw'⟩ := ih hd hw hs (hg.rule _)
    exact ⟨s', .call h, hw'⟩

/-- **A document is parsed without an error just where its names are read.** -/
theorem parse_eq_none_iff (hprogressive : Progressive g) (hv : v.Distinct) (hg : Grounded g)
    {root : String} {tokens : List Token} (htokens : ∀ u ∈ tokens, u.type ∈ v.types) :
    (g.parse v root size tokens).2 = none ↔ Reads v g 1 g.entry (names tokens) [] := by
  have hs : UnderWay v { rest := tokens } := ⟨htokens, rfl⟩
  constructor
  · intro h
    obtain ⟨s, hruns⟩ := exists_done_of_parse hprogressive h
    obtain ⟨s₁, hentry, hfinish⟩ := hruns.of_seq
    have hrest : s₁.rest = [] := hfinish.of_finish.1 ▸ hfinish.of_finish.2 s rfl
    have hreads := reads_of_runs hv hg hentry rfl hs hg.entry
    rwa [hrest] at hreads
  · intro h
    obtain ⟨s, hentry, hrest⟩ :=
      exists_runs_of_reads size hv hg h (List.length_singleton (a := root)) rfl hs hg.entry
    have hempty : s.rest = [] := List.map_eq_nil_iff.mp hrest
    refine parse_of_done (s := s) (.seq hentry (.chooseYes ?_ .empty))
    exact List.isEmpty_iff.mpr hempty

end

end GraphLanguages.Grammar
