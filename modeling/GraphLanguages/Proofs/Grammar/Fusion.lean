import GraphLanguages.Proofs.Grammar.Predictive
import GraphLanguages.Proofs.Grammar.Widen

/-! One name in place of two.

A vocabulary may have a single name for what is otherwise a name and one of a category
behind it. A grammar is made for that if only one phrase takes the first of the two, and
takes the single name as well (`Fusion.phrase`), while every question overlooks which of
them it sees (`Lookahead.overlooks`). Then a run over the two is followed by one over the
single name (`mirrored_of_runs`), and what is parsed without an error stays so when pairs
are fused (`parse_fused`). -/
namespace GraphLanguages.Grammar

/-- Names that stand for a first one with another behind it. -/
structure Fusion where
  first : String
  /-- What the second is. -/
  category : Category
  /-- What content assist notes for the second. -/
  offered : String
  fused : List String

namespace Fusion

/-- Takes the two names, or one that stands for them. -/
def phrase (f : Fusion) : Phrase :=
  .choose (.is f.first) (.seq .take (.expectTagged f.category f.offered)) .take

end Fusion

/-! ### Words -/

/-- The second word is the first with some of the pairs fused. -/
inductive Fused (v : Vocabulary) (f : Fusion) : Word → Word → Prop
  | nil : Fused v f [] []
  | keep {u w w'} : Fused v f w w' → Fused v f (u :: w) (u :: w')
  | fuse {n m w w'} : n ∈ v.carriers f.category → m ∈ f.fused → Fused v f w w' →
      Fused v f (f.first :: n :: w) (m :: w')

namespace Fused
variable {v : Vocabulary} {f : Fusion} {w w' : Word}

theorem of_nil (h : Fused v f [] w') : w' = [] := by
  cases h
  rfl

/-- Away from the first of a pair both words go on alike. -/
theorem tail (h : Fused v f w w') (hw : look w 0 ≠ f.first) :
    look w' 0 = look w 0 ∧ Fused v f w.tail w'.tail := by
  cases h with
  | nil => exact ⟨rfl, .nil⟩
  | keep h => exact ⟨rfl, h⟩
  | fuse => exact absurd rfl hw

/-- Behind the first of a pair the second may be kept, or both are fused. -/
theorem pair (h : Fused v f w w') (hw : look w 0 = f.first) (hend : f.first ≠ "EOF")
    (hsecond : look w.tail 0 ∈ v.carriers f.category) (hapart : f.first ∉ v.carriers f.category) :
    (look w' 0 = f.first ∧ look w'.tail 0 ∈ v.carriers f.category ∧
        Fused v f w.tail.tail w'.tail.tail) ∨
      look w' 0 ∈ f.fused ∧ Fused v f w.tail.tail w'.tail := by
  cases h with
  | nil => exact absurd hw.symm hend
  | keep h =>
    have hne : look _ 0 ≠ f.first := fun heq => hapart (heq ▸ hsecond)
    obtain ⟨hlook, htail⟩ := h.tail hne
    exact .inl ⟨hw, hlook ▸ hsecond, htail⟩
  | fuse _ hm h => exact .inr ⟨hm, h⟩

/-- Up to the first pair both words have the same names. -/
theorem look_cases (h : Fused v f w w') {place : Nat} (hw : ∀ d < place, look w d ≠ f.first) :
    look w' place = look w place ∨ look w place = f.first ∧ look w' place ∈ f.fused := by
  induction place generalizing w w' with
  | zero =>
    cases h with
    | nil | keep => exact .inl rfl
    | fuse _ hm => exact .inr ⟨rfl, hm⟩
  | succ place ih =>
    have htail := (h.tail (hw 0 (Nat.succ_pos place))).2
    rw [← look_tail, ← look_tail]
    exact ih htail fun d hd => by
      rw [look_tail]
      exact hw (d + 1) (Nat.succ_lt_succ hd)

end Fused

/-! ### Phrases -/

/-- Whichever of them comes first, a pair or what stands for it, the answer is the same. -/
def Lookahead.overlooks (v : Vocabulary) (f : Fusion) (test : Lookahead) (κ : Outlook) : Bool :=
  match test.place? with
  | some place =>
    (f.fused.all fun m => test.accepts v m == test.accepts v f.first) &&
      (List.range place).all fun d => κ.ensures (· != f.first) d
  | none => false

/-- Given what is known in front of the phrase, does a pair make no difference to it but
where it is taken? -/
def Phrase.overlooks (v : Vocabulary) (f : Fusion) : Phrase → Outlook → Bool
  | .empty, _ | .reject _, _ | .call _, _ => true
  | .take, κ => κ.ensures (· != f.first) 0
  | .seq a b, κ => a.overlooks v f κ && b.overlooks v f (a.after κ)
  | .choose test a b, κ =>
    Phrase.choose test a b == f.phrase ||
      test.overlooks v f κ && a.overlooks v f (test.narrow v true κ) &&
        b.overlooks v f (test.narrow v false κ)
  | .loop test body, _ => test.overlooks v f [] && body.overlooks v f (test.narrow v true [])
  | .chain .., _ => false
  | .node _ body, κ => body.overlooks v f κ

/-- A grammar to which it makes no difference whether pairs are fused. -/
structure Fusible (v : Vocabulary) (g : Grammar) (f : Fusion) : Prop where
  first_ne_end : f.first ≠ "EOF"
  category_ne_end : f.category ≠ .endOfInput
  /-- The first of a pair is not the second of another. -/
  apart : f.first ∉ v.carriers f.category
  first_not_fused : f.first ∉ f.fused
  entry : g.entry.overlooks v f [] = true
  rules : ∀ r ∈ g.rules, r.2.overlooks v f [] = true

instance (v : Vocabulary) (g : Grammar) (f : Fusion) : Decidable (Fusible v g f) :=
  decidable_of_iff
    (f.first ≠ "EOF" ∧ f.category ≠ .endOfInput ∧ f.first ∉ v.carriers f.category ∧
      f.first ∉ f.fused ∧ g.entry.overlooks v f [] = true ∧
      ∀ r ∈ g.rules, r.2.overlooks v f [] = true)
    ⟨fun h => ⟨h.1, h.2.1, h.2.2.1, h.2.2.2.1, h.2.2.2.2.1, h.2.2.2.2.2⟩,
      fun h => ⟨h.first_ne_end, h.category_ne_end, h.apart, h.first_not_fused, h.entry, h.rules⟩⟩

section
variable {v : Vocabulary} {g : Grammar} {f : Fusion} {size : Nat} {open_ : List String}
  {s s' q : State} {κ : Outlook}

theorem Fusible.rule (h : Fusible v g f) (name : String) :
    (g.rule name).overlooks v f [] = true :=
  forall_rule (P := fun p => p.overlooks v f [] = true) rfl h.rules name

theorem overlooks_unrollLoop {test : Lookahead} {body : Phrase}
    (h : (Phrase.loop test body).overlooks v f κ = true) :
    (Phrase.unrollLoop test body).overlooks v f [] = true := by
  have hloop : (Phrase.loop test body).overlooks v f (body.after (test.narrow v true [])) = true :=
    h
  rw [Phrase.overlooks, Bool.and_eq_true] at h
  have hround : (Phrase.seq body (.loop test body)).overlooks v f (test.narrow v true []) =
      true := by
    rw [Phrase.overlooks, h.2, hloop]
    rfl
  rw [Phrase.unrollLoop, Phrase.overlooks, h.1, hround]
  exact Bool.or_true _

/-! ### Runs -/

/-- The phrase is done over the second tokens as well, and leaves what it left of the
first, with pairs fused. -/
def Mirrored (v : Vocabulary) (g : Grammar) (f : Fusion) (size : Nat) (open_ : List String)
    (p : Phrase) (q s' : State) : Prop :=
  ∃ q', Runs (g.parsing v size) open_ p q (.done q') ∧ Fused v f (names s'.rest) (names q'.rest)

theorem UnderWay.answer_is (hs : UnderWay v s) (hv : v.WellNamed) {name : String}
    (hn : name ≠ "EOF") :
    ((Lookahead.is name).ask (g.parsing v size) open_ s).1 = (look (names s.rest) 0 == name) := by
  have hplace : (Lookahead.is name).place? = some 0 := if_neg hn
  rw [hs.answer_look hv hplace, Lookahead.accepts, Vocabulary.sameName_eq]

theorem UnderWay.answer_tagged (hs : UnderWay v s) (hv : v.WellNamed) {c : Category}
    (hc : c ≠ .endOfInput) {offered : String} :
    ((Lookahead.tagged c offered).ask (g.parsing v size) open_ s).1 =
      (v.carriers c).contains (look (names s.rest) 0) := by
  have hplace : (Lookahead.tagged c offered).place? = some 0 := if_neg hc
  rw [hs.answer_look hv hplace, Lookahead.accepts, Vocabulary.any_sameName]

/-- A question that overlooks pairs is answered alike. -/
theorem Fused.answer (hw : Fused v f (names s.rest) (names q.rest)) (hv : v.WellNamed)
    (hs : UnderWay v s) (hq : UnderWay v q) (hκ : Sees κ (names s.rest)) {test : Lookahead}
    (ht : test.overlooks v f κ = true) :
    (test.ask (g.parsing v size) open_ q).1 = (test.ask (g.parsing v size) open_ s).1 := by
  unfold Lookahead.overlooks at ht
  split at ht
  next place hp =>
    simp only [Bool.and_eq_true, List.all_eq_true, List.mem_range, beq_iff_eq] at ht
    rw [hs.answer_look hv hp, hq.answer_look hv hp]
    have hbefore : ∀ d < place, look (names s.rest) d ≠ f.first := fun d hd =>
      bne_iff_ne.mp (hκ.ensures (ht.2 d hd))
    rcases hw.look_cases hbefore with hsame | ⟨hfirst, hfused⟩
    · rw [hsame]
    · rw [hfirst, ht.1 _ hfused]
  next => cases ht

/-- Where no pair begins, the same token is taken. -/
theorem mirrored_take (hw : Fused v f (names s.rest) (names q.rest))
    (hfirst : look (names s.rest) 0 ≠ f.first) : Mirrored v g f size open_ .take q s.take :=
  ⟨q.take, .take, by
    rw [names_take, names_take]
    exact (hw.tail hfirst).2⟩

/-- The phrase of a pair takes what stands for it. -/
theorem mirrored_phrase (hf : Fusible v g f) (hv : v.WellNamed) (hs : UnderWay v s)
    (hq : UnderWay v q) (hw : Fused v f (names s.rest) (names q.rest))
    (h : Runs (g.parsing v size) open_ f.phrase s (.done s')) :
    Mirrored v g f size open_ f.phrase q s' := by
  have hanswer : ((Lookahead.is f.first).ask (g.parsing v size) open_ s).1 =
      (look (names s.rest) 0 == f.first) := hs.answer_is hv hf.first_ne_end
  have hanswer' : ((Lookahead.is f.first).ask (g.parsing v size) open_ q).1 =
      (look (names q.rest) 0 == f.first) := hq.answer_is hv hf.first_ne_end
  cases h with
  | chooseYes hy h =>
    rw [ask_parsing] at h
    obtain ⟨s₁, htake, hsecond⟩ := h.of_seq
    cases htake
    rw [hanswer, beq_iff_eq] at hy
    cases hsecond with
    | chooseYes hy' h =>
      rw [ask_parsing] at h
      cases h
      rw [hs.take.answer_tagged hv hf.category_ne_end, List.contains_iff_mem, names_take] at hy'
      rcases hw.pair hy hf.first_ne_end hy' hf.apart with ⟨hfirst, hsecond, hrest⟩ | ⟨hm, hrest⟩
      · -- the pair is kept
        refine ⟨q.take.take, .chooseYes (by rw [hanswer', hfirst, beq_self_eq_true]) ?_, ?_⟩
        · rw [ask_parsing]
          refine .seq .take (.chooseYes ?_ ?_)
          · rwa [hq.take.answer_tagged hv hf.category_ne_end, List.contains_iff_mem, names_take]
          · rw [ask_parsing]
            exact .take
        · rwa [names_take, names_take, names_take, names_take]
      · -- a single name stands for it
        have hne : look (names q.rest) 0 ≠ f.first := fun heq =>
          hf.first_not_fused (heq ▸ hm)
        refine ⟨q.take, .chooseNo (by rw [hanswer', beq_false_of_ne hne]) ?_, ?_⟩
        · rw [ask_parsing]
          exact .take
        · rwa [names_take, names_take, names_take]
    | chooseNo _ h => cases h
  | chooseNo hn h =>
    rw [ask_parsing] at h
    cases h
    rw [hanswer, beq_eq_false_iff_ne] at hn
    obtain ⟨q', htake, hrest⟩ := mirrored_take hw hn
    refine ⟨q', .chooseNo ?_ ?_, hrest⟩
    · rw [hanswer', (hw.tail hn).1]
      exact beq_false_of_ne hn
    · rwa [ask_parsing]

/-- **A run that is done is followed by one over the fused tokens.** -/
theorem mirrored_of_runs (hf : Fusible v g f) (hv : v.WellNamed) {p : Phrase} {o : Outcome}
    (h : Runs (g.parsing v size) open_ p s o) (ho : o = .done s') (hp : p.overlooks v f κ = true)
    (hκ : Sees κ (names s.rest)) (hs : UnderWay v s) (hq : UnderWay v q)
    (hw : Fused v f (names s.rest) (names q.rest)) : Mirrored v g f size open_ p q s' := by
  induction h generalizing κ s' q with
  | empty =>
    cases ho
    exact ⟨q, .empty, hw⟩
  | take =>
    cases ho
    exact mirrored_take hw (bne_iff_ne.mp (hκ.ensures hp))
  | reject | seqHalt | tooDeep | nodeHalt => cases ho
  | seq ha _ iha ihb =>
    rw [Phrase.overlooks, Bool.and_eq_true] at hp
    obtain ⟨q₁, ha', hw₁⟩ := iha rfl hp.1 hκ hs hq hw
    obtain ⟨q', hb', hw'⟩ := ihb ho hp.2 (hκ.after ha) (hs.done ha) (hq.done ha') hw₁
    exact ⟨q', .seq ha' hb', hw'⟩
  | @chooseYes _ test a b _ _ hy h ih =>
    rw [Phrase.overlooks, Bool.or_eq_true, beq_iff_eq] at hp
    rcases hp with hphrase | hp
    · have hruns := Runs.chooseYes (b := b) hy h
      rw [hphrase, ho] at hruns
      rw [hphrase]
      exact mirrored_phrase hf hv hs hq hw hruns
    · simp only [Bool.and_eq_true] at hp
      rw [ask_parsing] at ih
      obtain ⟨q', h', hw'⟩ := ih ho hp.1.2 (hκ.answered hs hv test hy) hs hq hw
      refine ⟨q', .chooseYes ((hw.answer hv hs hq hκ hp.1.1).trans hy) ?_, hw'⟩
      rwa [ask_parsing]
  | @chooseNo _ test a b _ _ hn h ih =>
    rw [Phrase.overlooks, Bool.or_eq_true, beq_iff_eq] at hp
    rcases hp with hphrase | hp
    · have hruns := Runs.chooseNo (a := a) hn h
      rw [hphrase, ho] at hruns
      rw [hphrase]
      exact mirrored_phrase hf hv hs hq hw hruns
    · simp only [Bool.and_eq_true] at hp
      rw [ask_parsing] at ih
      obtain ⟨q', h', hw'⟩ := ih ho hp.2 (hκ.answered hs hv test hn) hs hq hw
      refine ⟨q', .chooseNo ((hw.answer hv hs hq hκ hp.1.1).trans hn) ?_, hw'⟩
      rwa [ask_parsing]
  | loop _ ih =>
    obtain ⟨q', h', hw'⟩ := ih ho (overlooks_unrollLoop hp) (sees_nil _) hs hq hw
    exact ⟨q', .loop h', hw'⟩
  | chain => cases hp
  | @node _ name _ _ _ hd _ ih =>
    cases ho
    obtain ⟨q₁, h', hw'⟩ :=
      ih (q := { q with forest := [] }) rfl hp hκ ⟨hs.typed, hs.error⟩ ⟨hq.typed, hq.error⟩ hw
    exact ⟨q₁.close name q.forest, .node hd h', hw'⟩
  | @call _ name _ _ _ ih =>
    obtain ⟨q', h', hw'⟩ := ih ho (hf.rule name) (sees_nil _) hs hq hw
    exact ⟨q', .call h', hw'⟩

/-! ### Whole documents -/

/-- **What is parsed without an error is still so with pairs fused.** -/
theorem parse_fused {root : String} {tokens tokens' : List Token} (hg : Progressive g)
    (hf : Fusible v g f) (hv : v.WellNamed) (htokens : ∀ u ∈ tokens, u.type ∈ v.types)
    (htokens' : ∀ u ∈ tokens', u.type ∈ v.types) (hw : Fused v f (names tokens) (names tokens'))
    (h : (g.parse v root size tokens).2 = none) : (g.parse v root size tokens').2 = none := by
  obtain ⟨s, hruns⟩ := exists_done_of_parse hg h
  obtain ⟨s₁, hentry, hfinish⟩ := hruns.of_seq
  have hrest : s₁.rest = [] := hfinish.of_finish.1 ▸ hfinish.of_finish.2 s rfl
  obtain ⟨q, hentry', hw'⟩ := mirrored_of_runs (q := { rest := tokens' }) hf hv hentry rfl hf.entry
    (sees_nil _) ⟨htokens, rfl⟩ ⟨htokens', rfl⟩ hw
  rw [hrest] at hw'
  have hempty : q.rest = [] := List.map_eq_nil_iff.mp hw'.of_nil
  refine parse_of_done (s := q) (.seq hentry' (.chooseYes ?_ ?_))
  · simp [Lookahead.ask, hempty]
  · rw [ask_parsing]
    exact .empty

end

end GraphLanguages.Grammar
