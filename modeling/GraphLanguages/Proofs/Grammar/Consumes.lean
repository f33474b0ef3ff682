import GraphLanguages.Proofs.Grammar.Predictive
import GraphLanguages.Proofs.Grammar.Reads

/-! What every run of a phrase consumes.

A phrase consumes the names in front of some others if no run of it ends elsewhere, unless
rules nest too deep (`Consumes`). For a document this is what it takes to be parsed
(`parse_of_consumes`). Phrases that call each other only are run alike in a grammar with no
others (`Runs.confined`), so a part of a grammar that is predictive consumes what derives
from its form, whatever the other rules are like (`consumes_of_derives`). -/
namespace GraphLanguages

namespace Vocabulary

/-- Fewer types have names of their own as well. -/
theorem Distinct.of_subset {v v₀ : Vocabulary} (hv : v.Distinct) (h : v₀.types ⊆ v.types) :
    v₀.Distinct := by
  intro T hT
  obtain ⟨U, hU⟩ : ∃ U, v₀.get? T.name = some U :=
    exists_lastNamed (List.mem_map_of_mem hT)
  obtain ⟨hmem, hname⟩ := mem_of_get? hU
  rw [hU, hv.eq (h hmem) (h hT) hname]

end Vocabulary

namespace Grammar

/-- However the phrase is run on the first word, it is done with the second one left, or rules
nest too deep. -/
def Consumes (v : Vocabulary) (g : Grammar) (size : Nat) (p : Phrase) (w w' : Word) : Prop :=
  ∀ open_ s o, UnderWay v s → names s.rest = w → Runs (g.parsing v size) open_ p s o →
    Arrives v w' o

section
variable {v : Vocabulary} {g : Grammar} {size : Nat} {a b body : Phrase} {test : Lookahead}
  {name : String} {w w₁ w' : Word}

/-! ### One phrase at a time -/

theorem consumes_empty : Consumes v g size .empty w w := by
  intro open_ s o _ hw h
  cases h
  exact .done hw

theorem consumes_take {u : String} : Consumes v g size .take (u :: w) w := by
  intro open_ s o _ hw h
  cases h
  exact .done (by rw [names_take, hw]; rfl)

theorem Consumes.seq (ha : Consumes v g size a w w₁) (hb : Consumes v g size b w₁ w') :
    Consumes v g size (.seq a b) w w' := by
  intro open_ s o hs hw h
  cases h with
  | seq hruns h =>
    cases ha open_ s _ hs hw hruns with
    | done hw₁ => exact hb open_ _ o (hs.done hruns) hw₁ h
  | seqHalt hruns =>
    cases ha open_ s _ hs hw hruns with
    | tooDeep hdeep => exact .tooDeep hdeep

theorem Consumes.chooseYes (hv : v.Distinct) (hg : test.grounded = true)
    (ht : test.holdsOn v w = true) (ha : Consumes v g size a w w') :
    Consumes v g size (.choose test a b) w w' := by
  intro open_ s o hs hw h
  cases h with
  | chooseYes _ h =>
    rw [ask_parsing] at h
    exact ha open_ s o hs hw h
  | chooseNo hno _ =>
    rw [hs.answer hv hg, hw, ht] at hno
    cases hno

theorem Consumes.chooseNo (hv : v.Distinct) (hg : test.grounded = true)
    (ht : test.holdsOn v w = false) (hb : Consumes v g size b w w') :
    Consumes v g size (.choose test a b) w w' := by
  intro open_ s o hs hw h
  cases h with
  | chooseYes hyes _ =>
    rw [hs.answer hv hg, hw, ht] at hyes
    cases hyes
  | chooseNo _ h =>
    rw [ask_parsing] at h
    exact hb open_ s o hs hw h

theorem Consumes.node (h : Consumes v g size body w w') :
    Consumes v g size (.node name body) w w' := by
  intro open_ s o hs hw hruns
  have hinside : UnderWay v { s with forest := [] } := ⟨hs.typed, hs.error⟩
  cases hruns with
  | tooDeep => exact .tooDeep (tooDeep_complain hs.error)
  | node _ hruns =>
    cases h _ _ _ hinside hw hruns with
    | done hw' => exact .done hw'
  | nodeHalt _ hruns =>
    cases h _ _ _ hinside hw hruns with
    | tooDeep hdeep => exact .tooDeep hdeep.close

theorem Consumes.loopDone (hv : v.Distinct) (hg : test.grounded = true)
    (ht : test.holdsOn v w = false) : Consumes v g size (.loop test body) w w := by
  intro open_ s o hs hw h
  cases h with
  | loop h => exact Consumes.chooseNo hv hg ht consumes_empty open_ s o hs hw h

/-- A chain with nothing behind its item. -/
theorem Consumes.chain_last {item gap : Phrase} {separator : String} {more : Lookahead}
    (hv : v.Distinct) (hsep : separator ≠ "EOF") (hitem : Consumes v g size item w [])  :
    Consumes v g size (.chain item separator gap more) w [] := by
  intro open_ s o hs hw h
  cases h with
  | chain h =>
    have hlast : Consumes v g size (Phrase.chainTail item separator gap more) [] [] :=
      .chooseNo hv (by simpa [Lookahead.grounded] using hsep) rfl consumes_empty
    exact hitem.seq hlast open_ s o hs hw h

/-- A document that the entry consumes is parsed without an error, unless rules nest too
deep. -/
theorem parse_of_consumes (hg : Progressive g) {root : String} {tokens : List Token}
    (htokens : ∀ u ∈ tokens, u.type ∈ v.types)
    (h : Consumes v g size g.entry (names tokens) []) :
    (g.parse v root size tokens).2 = none ∨
      ∃ e, (g.parse v root size tokens).2 = some e ∧ e.message = Complaint.tooDeep.message v := by
  obtain ⟨o, hruns⟩ := hg.exists_runs_document v root size tokens
  rw [parse_of_runs hruns]
  have hs : UnderWay v { rest := tokens } := ⟨htokens, rfl⟩
  cases hruns with
  | seq hentry hfinish =>
    cases h _ _ _ hs rfl hentry with
    | done hrest =>
      have hempty := List.map_eq_nil_iff.mp hrest
      cases hfinish with
      | chooseYes _ hdone =>
        cases hdone
        left
        rw [ask_parsing]
        exact (hs.done hentry).error
      | chooseNo hno _ => simp [Lookahead.ask, hempty] at hno
  | seqHalt hentry =>
    cases h _ _ _ hs rfl hentry with
    | tooDeep hdeep => exact .inr hdeep

end

/-! ### A part of a grammar -/

/-- The phrase calls none but these. -/
def Phrase.callsOnly (known : List String) : Phrase → Bool
  | .empty | .take | .reject _ => true
  | .seq a b | .choose _ a b => a.callsOnly known && b.callsOnly known
  | .loop _ body | .node _ body => body.callsOnly known
  | .chain item _ gap _ => item.callsOnly known && gap.callsOnly known
  | .call name => known.contains name

/-- The part has rules of the grammar only, and these call no others. -/
structure Confined (part g : Grammar) : Prop where
  rules : ∀ r ∈ part.rules, g.rule r.1 = r.2 ∧ part.rule r.1 = r.2
  calls : ∀ r ∈ part.rules, r.2.callsOnly (part.rules.map Prod.fst) = true
  entry : part.entry.callsOnly (part.rules.map Prod.fst) = true

instance (part g : Grammar) : Decidable (Confined part g) :=
  decidable_of_iff
    ((∀ r ∈ part.rules, g.rule r.1 = r.2 ∧ part.rule r.1 = r.2) ∧
      (∀ r ∈ part.rules, r.2.callsOnly (part.rules.map Prod.fst) = true) ∧
      part.entry.callsOnly (part.rules.map Prod.fst) = true)
    ⟨fun h => ⟨h.1, h.2.1, h.2.2⟩, fun h => ⟨h.rules, h.calls, h.entry⟩⟩

section
variable {v : Vocabulary} {part g : Grammar} {size : Nat}

/-- No question looks at the grammar. -/
theorem ask_confined (test : Lookahead) (open_ : List String) (s : State) :
    test.ask (part.parsing v size) open_ s = test.ask (g.parsing v size) open_ s := by
  induction test generalizing s with
  | either a b iha ihb | both a b iha ihb => simp only [Lookahead.ask, iha, ihb]
  | negated a ih => simp only [Lookahead.ask, ih]
  | _ => rfl

/-- A phrase of the part is run as it is in the whole grammar. -/
theorem Runs.confined (hpart : Confined part g) {open_ : List String} {p : Phrase} {s : State}
    {o : Outcome} (h : Runs (g.parsing v size) open_ p s o)
    (hp : p.callsOnly (part.rules.map Prod.fst) = true) :
    Runs (part.parsing v size) open_ p s o := by
  induction h with
  | empty => exact .empty
  | take => exact .take
  | reject => exact .reject
  | seq _ _ iha ihb =>
    obtain ⟨ha, hb⟩ := Bool.and_eq_true_iff.mp hp
    exact .seq (iha ha) (ihb hb)
  | seqHalt _ ih => exact .seqHalt (ih (Bool.and_eq_true_iff.mp hp).1)
  | chooseYes ht _ ih =>
    rw [← ask_confined] at ht ih
    exact .chooseYes ht (ih (Bool.and_eq_true_iff.mp hp).1)
  | chooseNo ht _ ih =>
    rw [← ask_confined] at ht ih
    exact .chooseNo ht (ih (Bool.and_eq_true_iff.mp hp).2)
  | loop _ ih =>
    refine .loop (ih ?_)
    simp only [Phrase.callsOnly] at hp
    simp [Phrase.unrollLoop, Phrase.callsOnly, hp]
  | chain _ ih =>
    refine .chain (ih ?_)
    simp only [Phrase.callsOnly, Bool.and_eq_true] at hp
    simp [Phrase.unrollChain, Phrase.chainTail, Phrase.callsOnly, hp]
  | tooDeep hdeep => exact .tooDeep hdeep
  | node hd _ ih => exact .node hd (ih hp)
  | nodeHalt hd _ ih => exact .nodeHalt hd (ih hp)
  | @call open_ name s o _ ih =>
    obtain ⟨r, hr, rfl⟩ := List.mem_map.mp (List.contains_iff_mem.mp hp)
    obtain ⟨hrule, hrule'⟩ := hpart.rules r hr
    refine .call ?_
    have hruns := ih ((congrArg _ hrule).trans (hpart.calls r hr))
    have heq : (g.parsing v size).grammar.rule r.1 = part.rule r.1 := hrule.trans hrule'.symm
    rwa [heq] at hruns

/-- A predictive part of a grammar consumes what derives from its form, also under a vocabulary
that has more types than the form has tokens. -/
theorem consumes_of_derives {v₀ : Vocabulary} {follow : List (String × Outlook)}
    {rules : List (String × Form)} {start : Form} (hpart : Confined part g)
    (h : Describes v₀ part follow rules start) (hv : v.WellNamed) (hsubset : v₀.types ⊆ v.types)
    {w : Word} (hspells : v₀.Spells w) (hw : Derives rules start w) :
    Consumes v g size part.entry w [] := by
  intro open_ s o hs hrest hruns
  have hderives : Derives (part.productions v₀) (part.entry.form v₀ part []) w :=
    (derives_iff_of_normal h.rules h.start).mpr hw
  have hs₀ : UnderWay v₀ s := by
    refine ⟨fun t ht => ?_, hs.error⟩
    have hname : t.name ∈ v₀.names := hspells t.name (hrest ▸ List.mem_map_of_mem ht)
    obtain ⟨T, hT, hTname⟩ := List.mem_map.mp hname
    rwa [← hv.distinct.eq (hsubset hT) (hs.typed t ht) hTname]
  have hknow : ∀ s, UnderWay v₀ s → KnowSame v v₀ (names s.rest) := fun s hs u hu =>
    (KnowSame.of_subset (List.map_subset _ hsubset) hv.no_end hs.typed u hu).symm
  exact arrives_of_runs h.predictive ⟨hv.distinct.of_subset hsubset, h.no_end⟩ hknow
    (hruns.confined hpart hpart.entry) hs₀ h.predictive.entry hderives
    (by rw [hrest, List.append_nil]) sees_last

end

end Grammar

end GraphLanguages
