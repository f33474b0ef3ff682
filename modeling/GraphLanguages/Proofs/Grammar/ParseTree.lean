import GraphLanguages.Proofs.Grammar.Forest
import GraphLanguages.Proofs.Grammar.Fuel

/-! What a parse returns.

Any grammar whose parse of some tokens terminates returns a tree over the tokens up
to some place, and an error at that place unless it is the end (`ParsedUpTo`). -/
namespace GraphLanguages
open Grammar GraphLanguages.Tree

namespace Grammar

/-- The tree holds the first `k` tokens, and the error, if any, is about the next. -/
structure ParsedUpTo (k size : Nat) (tokens : List Token) (tree : Tree)
    (error : Option SyntaxError) : Prop where
  le : k ≤ tokens.length
  leaves : tree.leaves = tokens.take k
  nesting : tree.nesting ≤ maxDepth
  all : error = none → k = tokens.length
  token : ∀ e ∈ error, e.token = (tokens[k]?).getD (Token.endOfInput size)
  rules : ∀ e ∈ error, tree.LastRules e.rules
  previous : ∀ e ∈ error,
    e.previous = if e.kind = .earlyExit ∧ 0 < k then tokens[k - 1]? else none

section
variable {g : Grammar} {v : Vocabulary} {root : String} {size : Nat} {tokens : List Token}

theorem Progressive.document (hg : Progressive g) : g.document.progressive g = true := by
  simp [Grammar.document, Phrase.progressive, Phrase.finish, hg.entry]

/-- Under a grammar that makes progress every parse terminates. -/
theorem Progressive.exists_runs_document (hg : Progressive g) (v : Vocabulary) (root : String)
    (size : Nat) (tokens : List Token) :
    ∃ o, Runs (g.parsing v size) [root] g.document { rest := tokens } o := by
  have hg' : Progressive (g.parsing v size).grammar := hg
  exact exists_runs rfl hg' [root] hg.document _

theorem Progressive.exists_runs_entry (hg : Progressive g) (v : Vocabulary) (root : String)
    (tokens : List Token) :
    ∃ o, Runs (g.assisting v (stopOf tokens)) [root] g.entry { rest := tokens } o := by
  have hg' : Progressive (g.assisting v (stopOf tokens)).grammar := hg
  exact exists_runs rfl hg' [root] hg.entry _

/-- The end of a document takes no token, and is done only when there is none. -/
theorem Runs.of_finish {σ : Setting} {open_ : List String} {s : State} {o : Outcome}
    (h : Runs σ open_ .finish s o) :
    o.state.rest = s.rest ∧ ∀ s', o = .done s' → s'.rest = [] := by
  cases h with
  | chooseYes hy h =>
    cases h
    have : s.rest = [] := by simpa [Lookahead.ask] using hy
    refine ⟨rfl, ?_⟩
    rintro _ ⟨⟩
    exact this
  | chooseNo _ h =>
    cases h
    exact ⟨complain_rest .., by rintro _ ⟨⟩⟩

/-- The leaves of the tree and the tokens left over are all tokens. -/
theorem leaves_parse_of_runs {o : Outcome}
    (h : Runs (g.parsing v size) [root] g.document { rest := tokens } o) :
    (g.parse v root size tokens).1.leaves ++ o.state.rest = tokens := by
  obtain ⟨trees, hgrows⟩ := h.grows (Nat.le_of_ble_eq_true rfl)
  rw [parse_of_runs h]
  simpa [leaves, hgrows.forest] using hgrows.rest.symm

/-- All tokens are in the tree exactly if none are left over. -/
theorem leaves_parse_eq_iff {o : Outcome}
    (h : Runs (g.parsing v size) [root] g.document { rest := tokens } o) :
    (g.parse v root size tokens).1.leaves = tokens ↔ o.state.rest = [] := by
  have hleaves := leaves_parse_of_runs h
  constructor
  · intro hall
    rw [hall] at hleaves
    simpa using hleaves
  · intro hrest
    rwa [hrest, List.append_nil] at hleaves

/-- The tree and the error of a run below the root. -/
theorem parsedUpTo_of_runs {o : Outcome}
    (h : Runs (g.parsing v size) [root] g.document { rest := tokens } o) :
    ∃ k, ParsedUpTo k size tokens (.node root o.state.forest.reverse) o.state.error := by
  obtain ⟨trees, hgrows⟩ := h.grows (Nat.le_of_ble_eq_true rfl)
  obtain ⟨hdone, hhalted⟩ := h.halts rfl rfl
  have hrest : tokens = leavesOf trees ++ o.state.rest := hgrows.rest
  have hstop : ∀ e ∈ o.state.error, StoppedAt (g.parsing v size) [root] o.state e := by
    intro e he
    cases o with
    | done s => cases (hdone s rfl).symm.trans he
    | halted s =>
      obtain ⟨e', he'⟩ := hhalted s rfl
      cases he'.error.symm.trans he
      exact he'
    | spent s => cases h.ended
  have hforest : o.state.forest.reverse = trees := by simp [hgrows.forest]
  refine ⟨(leavesOf trees).length, ?_, ?_, ?_, ?_, ?_, ?_, ?_⟩
  · simp [hrest]
  · simp [hforest, leaves, hrest]
  · have : nestingOf trees ≤ maxDepth - 1 := nestingOf_le.mpr fun t ht => by
      have := hgrows.shallow t ht
      simp only [List.length_cons, List.length_nil] at this
      omega
    simp only [hforest, nesting]
    have : 0 < maxDepth := by decide
    omega
  · intro he
    cases o with
    | done s =>
      obtain ⟨s₁, _, hf⟩ := h.of_seq
      have : s.rest = [] := hf.of_finish.2 s rfl
      simp [hrest, Outcome.state, this]
    | halted s =>
      obtain ⟨e, he'⟩ := hhalted s rfl
      cases he'.error.symm.trans he
    | spent s => cases h.ended
  · intro e he
    have hk : tokens[(leavesOf trees).length]? = o.state.rest[0]? := by
      rw [hrest, List.getElem?_append_right (Nat.le_refl _), Nat.sub_self]
    rw [(hstop e he).token, State.peek, hk]
    rfl
  · intro e he
    obtain ⟨names, hnames, hr⟩ := (hstop e he).lastRules
    rw [hr]
    exact hnames
  · intro e he
    have hprev : o.state.previous = (leavesOf trees).getLast? := by simp [hgrows.previous]
    rw [(hstop e he).previous, hprev, List.getLast?_eq_getElem?]
    by_cases hk : 0 < (leavesOf trees).length
    · have : tokens[(leavesOf trees).length - 1]? =
          (leavesOf trees)[(leavesOf trees).length - 1]? := by
        rw [hrest, List.getElem?_append_left (by omega)]
      simp only [hk, and_true, this]
    · have : leavesOf trees = [] := List.eq_nil_of_length_eq_zero (by omega)
      simp [this]

/-- What a parse that terminates returns. -/
theorem exists_parsedUpTo (h : g.Terminates v root size tokens) :
    ∃ k, ParsedUpTo k size tokens (g.parse v root size tokens).1
      (g.parse v root size tokens).2 := by
  obtain ⟨o, hruns⟩ := terminates_iff_runs.mp h
  rw [parse_of_runs hruns]
  exact parsedUpTo_of_runs hruns

end

end Grammar

end GraphLanguages
