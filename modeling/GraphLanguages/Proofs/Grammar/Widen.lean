import GraphLanguages.Frontend
import GraphLanguages.Proofs.Grammar.InStep
import GraphLanguages.Proofs.Grammar.Outlook
import GraphLanguages.Proofs.Grammar.ParseTree

/-! The same tokens under another vocabulary.

A parse asks the vocabulary only whether it has a type of the name that comes next. So
tokens that are parsed without an error are parsed alike under every vocabulary that knows
as much of their names (`parse_widen`); what else it has makes no difference. -/
namespace GraphLanguages.Grammar
variable {g : Grammar} {v v' : Vocabulary} {root : String} {size : Nat} {open_ : List String}

/-! ### Parses without an error -/

/-- Tokens without an error are those over which the document is done. -/
theorem exists_done_of_parse {tokens : List Token} (hg : Progressive g)
    (h : (g.parse v root size tokens).2 = none) :
    ∃ s, Runs (g.parsing v size) [root] g.document { rest := tokens } (.done s) := by
  obtain ⟨o, hruns⟩ := hg.exists_runs_document v root size tokens
  rw [parse_of_runs hruns] at h
  cases o with
  | done s => exact ⟨s, hruns⟩
  | halted s =>
    obtain ⟨e, he⟩ := (hruns.halts rfl rfl).2 s rfl
    cases he.error.symm.trans h
  | spent => cases hruns.ended

theorem parse_of_done {tokens : List Token} {s : State}
    (h : Runs (g.parsing v size) [root] g.document { rest := tokens } (.done s)) :
    (g.parse v root size tokens).2 = none := by
  rw [parse_of_runs h]
  exact (h.halts rfl rfl).1 s rfl

/-! ### Two vocabularies -/

/-- Both vocabularies have a type of the name, or neither has. -/
def KnowSame (v v' : Vocabulary) (names : List String) : Prop :=
  ∀ u ∈ "EOF" :: names, v.contains u = v'.contains u

theorem KnowSame.mono {us ws : List String} (h : KnowSame v v' us) (hws : ws ⊆ us) :
    KnowSame v v' ws :=
  fun u hu => h u (List.cons_subset_cons "EOF" hws hu)

/-- A larger vocabulary knows the same of the tokens of a smaller one. -/
theorem KnowSame.of_subset {tokens : List Token} (hv : v.names ⊆ v'.names)
    (hend : "EOF" ∉ v'.names) (htokens : ∀ t ∈ tokens, t.type ∈ v.types) :
    KnowSame v v' (names tokens) := by
  intro u hu
  rcases List.mem_cons.mp hu with rfl | hu
  · have hsmall : v.contains "EOF" = false :=
      Bool.eq_false_iff.mpr fun h => hend (hv (Vocabulary.contains_iff.mp h))
    have hlarge : v'.contains "EOF" = false :=
      Bool.eq_false_iff.mpr fun h => hend (Vocabulary.contains_iff.mp h)
    rw [hsmall, hlarge]
  · obtain ⟨t, ht, rfl⟩ := List.mem_map.mp hu
    have hname : t.name ∈ v.names := List.mem_map_of_mem (htokens t ht)
    rw [Vocabulary.contains_iff.mpr hname, Vocabulary.contains_iff.mpr (hv hname)]

theorem KnowSame.next {s : State} (h : KnowSame v v' (names s.rest)) :
    v.contains (s.peek (g.parsing v size) 0).name =
      v'.contains (s.peek (g.parsing v size) 0).name := by
  apply h
  cases hr : s.rest with
  | nil =>
    rw [peek_of_length_le (by simp [hr])]
    exact List.mem_cons_self ..
  | cons t ts =>
    rw [peek_zero_cons hr]
    exact List.mem_cons_of_mem _ (List.mem_cons_self ..)

namespace Lookahead

theorem askFor_widen (g : Grammar) (size : Nat) (open_ : List String) {s : State}
    (h : KnowSame v v' (names s.rest)) (name : String) :
    (askFor (g.parsing v size) open_ name s).1 =
      (askFor (g.parsing v' size) open_ name s).1 := by
  have hnext : v.contains (s.peek (g.parsing v size) 0).name = _ := h.next
  show ((s.peek (g.parsing v size) 0).name == name && v.contains name) =
    ((s.peek (g.parsing v size) 0).name == name && v'.contains name)
  by_cases hname : (s.peek (g.parsing v size) 0).name = name
  · rw [← hname, hnext]
  · rw [beq_false_of_ne hname, Bool.false_and, Bool.false_and]

theorem foldl_alsoAsk_widen (open_ : List String) {s : State}
    (h : KnowSame v v' (names s.rest)) {a a' : Bool × State} (ha : a.1 = a'.1)
    (hs : a.2 = s) (hs' : a'.2 = s) (asked : List String) :
    (asked.foldl (alsoAsk (g.parsing v size) open_) a).1 =
      (asked.foldl (alsoAsk (g.parsing v' size) open_) a').1 := by
  induction asked generalizing a a' with
  | nil => exact ha
  | cons n ns ih =>
    subst hs
    apply ih
    · have hn := askFor_widen g size open_ h n
      simp only [alsoAsk, ha, hn, hs']
    · have hquiet : a.2.noting (g.parsing v size) = false := noting_of_parsing rfl
      show (askFor (g.parsing v size) open_ n a.2).2 = a.2
      exact askFor_quiet hquiet n
    · have hquiet : a'.2.noting (g.parsing v' size) = false := noting_of_parsing rfl
      rw [← hs']
      show (askFor (g.parsing v' size) open_ n a'.2).2 = a'.2
      exact askFor_quiet hquiet n

/-- Answers are the same under both. -/
theorem ask_widen {s : State} (h : KnowSame v v' (names s.rest)) (test : Lookahead) :
    (test.ask (g.parsing v size) open_ s).1 = (test.ask (g.parsing v' size) open_ s).1 := by
  induction test with
  | is name => exact askFor_widen g size open_ h name
  | anyOf asked => exact foldl_alsoAsk_widen open_ h rfl rfl rfl asked
  | tagged | aheadIs | aheadTagged | atEnd => rfl
  | either a b iha ihb =>
    rw [ask_either, ask_either, ask_parsing, ask_parsing, iha]
    split
    · rfl
    · exact ihb
  | both a b iha ihb =>
    rw [ask_both, ask_both, ask_parsing, ask_parsing, iha]
    split
    · exact ihb
    · rfl
  | negated a ih => exact congrArg not ih

end Lookahead

theorem names_subset {s s' : State} (h : s'.rest <:+ s.rest) : names s'.rest ⊆ names s.rest :=
  List.map_subset _ h.subset

/-- A run that is done is one under the other vocabulary as well. -/
theorem Runs.widen {p : Phrase} {s s' : State} {o : Outcome}
    (h : Runs (g.parsing v size) open_ p s o) (ho : o = .done s')
    (hk : KnowSame v v' (names s.rest)) : Runs (g.parsing v' size) open_ p s o := by
  induction h generalizing s' with
  | empty => exact .empty
  | take => exact .take
  | reject | seqHalt | tooDeep | nodeHalt => cases ho
  | seq ha _ iha ihb =>
    exact .seq (iha rfl hk) (ihb ho (hk.mono (names_subset ha.rest_suffix)))
  | chooseYes hy _ ih =>
    rw [ask_parsing] at ih
    refine .chooseYes (Lookahead.ask_widen hk _ ▸ hy) ?_
    rw [ask_parsing]
    exact ih ho hk
  | chooseNo hn _ ih =>
    rw [ask_parsing] at ih
    refine .chooseNo (Lookahead.ask_widen hk _ ▸ hn) ?_
    rw [ask_parsing]
    exact ih ho hk
  | loop _ ih => exact .loop (ih ho hk)
  | chain _ ih => exact .chain (ih ho hk)
  | node hd _ ih => exact .node hd (ih rfl hk)
  | call _ ih => exact .call (ih ho hk)

/-- **What is parsed without an error is parsed alike under a vocabulary that knows the
same of the tokens.** -/
theorem parse_widen {tokens : List Token} (hg : Progressive g) (hk : KnowSame v v' (names tokens))
    (h : (g.parse v root size tokens).2 = none) :
    g.parse v' root size tokens = g.parse v root size tokens := by
  obtain ⟨s, hruns⟩ := exists_done_of_parse hg h
  rw [parse_of_runs hruns, parse_of_runs (hruns.widen rfl hk)]

/-! ### Front-ends -/

/-- The tokens of the text that a front-end cuts. -/
def tokensOf (f : Frontend) (raw : List Char) : List Token :=
  f.lexer.tokenize (f.decode raw).text

/-- A document has the errors of its tokens, moved to where they are written. -/
theorem errors_parseDocument {f : Frontend} {raw : List Char} :
    (f.parseDocument raw).errors = [] ↔
      (f.grammar.parse f.vocabulary f.root (Text.bytes (f.decode raw).text)
        (tokensOf f raw)).2 = none := by
  have hparse : (f.parse raw).errors = [] ↔
      (f.grammar.parse f.vocabulary f.root (Text.bytes (f.decode raw).text)
        (tokensOf f raw)).2 = none := Option.toList_eq_nil_iff
  rw [← hparse, Frontend.parseDocument, ParseOutput.toRaw]
  split
  · exact Iff.rfl
  · exact List.map_eq_nil_iff

/-- **Front-ends that cut a document into the same tokens and know the same of them parse it
alike, if one of them does so without an error.** -/
theorem parseDocument_widen {f f' : Frontend} {raw : List Char} (hg : Progressive f.grammar)
    (hsame : f' = { f with vocabulary := f'.vocabulary })
    (htokens : tokensOf f' raw = tokensOf f raw)
    (hk : KnowSame f.vocabulary f'.vocabulary (names (tokensOf f raw)))
    (h : (f.parseDocument raw).errors = []) : f'.parseDocument raw = f.parseDocument raw := by
  obtain ⟨v, skipped, grammar, root, decodesEscapes, check⟩ := f'
  obtain ⟨rfl, rfl, rfl, rfl, rfl⟩ : skipped = f.skipped ∧ grammar = f.grammar ∧ root = f.root ∧
      decodesEscapes = f.decodesEscapes ∧ check = f.check := by simpa using hsame
  have hparse := parse_widen hg hk (errors_parseDocument.mp h)
  have hout : Frontend.parse { f with vocabulary := v } raw = f.parse raw := by
    have hdecode : Frontend.decode { f with vocabulary := v } raw = f.decode raw := rfl
    unfold tokensOf at htokens hparse
    rw [hdecode] at htokens
    simp only [Frontend.parse, hdecode, htokens, hparse]
  exact congrArg (ParseOutput.toRaw · raw) hout

end GraphLanguages.Grammar
