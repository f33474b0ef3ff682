import Mathlib.Data.List.Forall2
import GraphLanguages.Proofs.ParseOutput
import GraphLanguages.Proofs.Text.Positions

/-! Where diagnostics point.

The tokens of a parse lie in the document, so the span made of one leads back to it
(`Token.LiesIn.marks`). An error that has no token is at the end of the input. It names the
token before it only where an item is missing, and that one is the last token of the tree
(`previous_parseDocument`), on the raw text as on the decoded one. -/
namespace GraphLanguages
open Grammar Text

/-- The diagnostic leads back to where the token lies in the text. -/
structure Diagnostic.Marks (text : String) (d : Diagnostic) (t : Token) : Prop where
  span : d.span.Delimits (LineIndex.ofText text) t.start t.stop
  image : slice? t.start t.stop text.toList = some t.image.toList

/-- Where the input ends for an error: behind the last token that was taken if an item is
missing there, else at the end of a text of `size` bytes. -/
def ParseOutput.endFor (o : ParseOutput) (size : Nat) (e : SyntaxError) : Nat :=
  if e.kind = .earlyExit then (o.tree.leaves.getLast?.map Token.stop).getD size else size

/-- The diagnostic of an error: it marks the token, or is empty where the input ends. -/
structure Diagnostic.Reports (text : String) (o : ParseOutput) (e : SyntaxError)
    (d : Diagnostic) : Prop where
  message : d.message = e.message
  source : d.source = e.innermost?
  token : e.token.isEndOfInput = false → d.Marks text e.token
  ended : e.token.isEndOfInput = true →
    let place := o.endFor (bytes text.toList) e
    d.span.start = d.span.stop ∧ d.span.Delimits (LineIndex.ofText text) place place

/-! ### The token before an error -/

theorem Grammar.ParsedUpTo.previous_eq {k size : Nat} {tokens : List Token} {tree : Tree}
    {error : Option SyntaxError} (h : ParsedUpTo k size tokens tree error) :
    ∀ e ∈ error, e.previous = if e.kind = .earlyExit then tree.leaves.getLast? else none := by
  intro e he
  rw [h.previous e he, h.leaves]
  rcases Nat.eq_zero_or_pos k with rfl | hk
  · simp
  · have hlast : (tokens.take k).getLast? = tokens[k - 1]? := by
      have hlength : (tokens.take k).length = k := List.length_take_of_le h.le
      rw [List.getLast?_eq_getElem?, hlength, List.getElem?_take_of_lt (by omega)]
    simp only [hk, and_true, hlast]

namespace Frontend
variable {f : Frontend}

theorem previous_parse (hg : Progressive f.grammar) (raw : List Char) :
    ∀ e ∈ (f.parse raw).errors, e.previous =
      if e.kind = .earlyExit then (f.parse raw).tree.leaves.getLast? else none := by
  let tokens := f.lexer.tokenize (f.decode raw).text
  let size := bytes (f.decode raw).text
  obtain ⟨k, hk⟩ := exists_parsedUpTo (terminates_iff_runs.mpr
    (hg.exists_runs_document f.vocabulary f.root size tokens))
  exact fun e he => hk.previous_eq e (Option.mem_toList.mp he)

/-- An error names the last token that was taken if an item is missing, and else none. -/
theorem previous_parseDocument (hg : Progressive f.grammar) (raw : List Char) :
    ∀ e ∈ (f.parseDocument raw).errors, e.previous =
      if e.kind = .earlyExit then (f.parseDocument raw).tree.leaves.getLast? else none := by
  have hprevious := previous_parse hg raw
  unfold parseDocument ParseOutput.toRaw
  split
  next => exact hprevious
  next m _ =>
    intro e he
    obtain ⟨e₀, he₀, rfl⟩ := List.mem_map.mp he
    simp only [ParseOutput.errorToRaw, hprevious e₀ he₀, Tree.leaves_mapTokens,
      List.getLast?_map]
    split <;> rfl

theorem length_errors_parseDocument (raw : List Char) :
    (f.parseDocument raw).errors.length ≤ 1 := by
  have hparse : (f.parse raw).errors.length ≤ 1 := by
    simp only [parse]
    exact Option.length_toList_le
  unfold parseDocument ParseOutput.toRaw
  split
  next => exact hparse
  next => exact (List.length_map _).trans_le hparse

/-- What the checks of tokens find is about tokens, never about the end of the input. -/
theorem isEndOfInput_of_semantic (hc : f.ChecksTokens) (hs : f.HasNoSentinel) (raw : List Char) :
    ∀ e ∈ (f.parseDocument raw).semantic, e.token.isEndOfInput = false := by
  have hparse : ∀ e ∈ (f.parse raw).semantic, e.token.isEndOfInput = false := fun e he =>
    isEndOfInput_of_mem_parse hs e.token (hc _ e he).1
  unfold parseDocument ParseOutput.toRaw
  split
  next => exact hparse
  next m _ =>
    intro e he
    obtain ⟨e₀, he₀, rfl⟩ := List.mem_map.mp he
    have hend := hparse e₀ he₀
    simp only [ParseOutput.errorToRaw, hend, Bool.false_eq_true, if_false]
    exact (congrArg (·.has .endOfInput) (Token.type_toRaw ..)).trans hend

end Frontend

/-! ### Spans -/

section
variable {text : String} {t : Token} {d : Diagnostic} {e : SyntaxError}

theorem Token.LiesIn.marks (h : t.LiesIn text.toList) (hsize : bytes text.toList < 4294967296)
    (hd : d.span = (LineIndex.ofText text).span t.start t.stop) : d.Marks text t where
  span := by
    rw [hd]
    refine (LineIndex.lawful_ofText text).delimits_span hsize h.startBoundary ?_ ?_
    · exact h.stop_eq ▸ h.stopBoundary
    · exact h.stop_eq ▸ Nat.le_succ_of_le h.order
  image := h.stop_eq ▸ h.slice

theorem SyntaxError.span_of_liesIn {cs : List Char} (h : e.token.LiesIn cs)
    (he : e.token.isEndOfInput = false) : e.span (bytes cs) = (e.token.start, e.token.stop) := by
  have horder := h.order
  have hinside := h.inside
  have hstart : min e.token.start (bytes cs) = e.token.start := Nat.min_eq_left (by omega)
  have hstop : min e.token.stop (bytes cs) = e.token.stop := by
    rw [h.stop_eq]
    exact Nat.min_eq_left hinside
  have hmax : max e.token.stop e.token.start = e.token.stop := by
    rw [h.stop_eq]
    exact Nat.max_eq_left (Nat.le_succ_of_le horder)
  simp only [SyntaxError.span, he, Bool.false_eq_true, if_false, hstart, hstop, hmax]

/-- The end of the input is where the error says, and a boundary. -/
theorem ParseOutput.endFor_eq {o : ParseOutput} {cs : List Char} (ho : o.LiesIn cs)
    (hprevious : e.previous = if e.kind = .earlyExit then o.tree.leaves.getLast? else none)
    (he : e.token.isEndOfInput = true) :
    e.span (bytes cs) = (o.endFor (bytes cs) e, o.endFor (bytes cs) e) ∧
      IsBoundary (o.endFor (bytes cs) e) cs := by
  rw [SyntaxError.span, if_pos he, hprevious, ParseOutput.endFor]
  split
  · cases hlast : o.tree.leaves.getLast? with
    | none => exact ⟨rfl, .size cs⟩
    | some last =>
      have hlies := ho.tokens last (ho.shared.leaves.subset (List.mem_of_getLast? hlast))
      have hmin : min (last.last + 1) (bytes cs) = last.last + 1 := Nat.min_eq_left hlies.inside
      simp only [Option.map_some, Option.getD_some, hlies.stop_eq, hmin, true_and]
      exact hlies.stopBoundary
  · exact ⟨rfl, .size cs⟩

end

/-! ### The diagnostics of a document -/

namespace ParseOutput
variable {o : ParseOutput} {text : String}

theorem reports_ofError (ho : o.LiesIn text.toList) (hsize : bytes text.toList < 4294967296)
    {settings : DiagnosticSettings} (hsource : settings.source = SyntaxError.innermost?)
    {e : SyntaxError} (he : e ∈ o.errors ++ o.semantic)
    (hended : e.token.isEndOfInput = true →
      e.previous = if e.kind = .earlyExit then o.tree.leaves.getLast? else none) :
    (Diagnostic.ofError (LineIndex.ofText text) settings e).Reports text o e where
  message := rfl
  source := congrFun hsource e
  token hend := by
    have hlies : e.token.LiesIn text.toList := by
      rcases ho.shared.token e he with hmem | hsentinel
      · exact ho.tokens e.token hmem
      · rw [hsentinel] at hend
        cases hend
    refine hlies.marks hsize ?_
    have hspan : e.span (LineIndex.ofText text).size = (e.token.start, e.token.stop) :=
      SyntaxError.span_of_liesIn hlies hend
    simp only [Diagnostic.ofError, hspan]
  ended hend := by
    intro place
    obtain ⟨hspan, hboundary⟩ := endFor_eq ho (hended hend) hend
    have hspan : e.span (LineIndex.ofText text).size = (place, place) := hspan
    have hd : (Diagnostic.ofError (LineIndex.ofText text) settings e).span =
        (LineIndex.ofText text).span place place := by
      simp only [Diagnostic.ofError, hspan]
    rw [hd]
    refine ⟨?_, (LineIndex.lawful_ofText text).delimits_span hsize hboundary hboundary
      (Nat.le_refl place)⟩
    rw [LineIndex.span, Nat.max_self]

end ParseOutput

/-- **Diagnostics point at the text they are about.** In this order they mark all unknown
tokens, where the language reports them, and report the syntax error, if there is one, and
what the checks after parsing found. -/
theorem diagnose_reports (l : Language) (options : Options) (text : String) (htext : text ≠ "")
    (hsize : bytes text.toList < 4294967296) :
    let p := l.profile options
    let o := p.frontend.parseDocument text.toList
    o.errors.length ≤ 1 ∧ ∃ marking reporting, p.diagnose text = marking ++ reporting ∧
      List.Forall₂ (fun t (d : Diagnostic) => d.message = Diagnostic.unknownMessage ∧
          d.source = none ∧ d.Marks text t)
        (if l.reportsUnknown then o.tokens.filter (·.has .unknown) else []) marking ∧
      List.Forall₂ (Diagnostic.Reports text o) (o.errors ++ o.semantic) reporting := by
  intro p o
  have hl := l.lawful options
  have hc := l.checksTokens options
  have ho : o.LiesIn text.toList := hl.liesIn hc text.toList
  have hempty : text.isEmpty = false := String.isEmpty_eq_false_iff.mpr htext
  let index := LineIndex.ofText text
  let unknown := if l.reportsUnknown then o.tokens.filter (·.has .unknown) else []
  refine ⟨Frontend.length_errors_parseDocument _, unknown.map (Diagnostic.ofUnknown index),
    (o.errors ++ o.semantic).map (Diagnostic.ofError index p.diagnostics), ?_,
    List.forall₂_map_right_iff.mpr ?_, List.forall₂_map_right_iff.mpr ?_⟩
  · simp only [Profile.diagnose, ParseOutput.diagnostics, hempty, Bool.false_eq_true, if_false]
    rfl
  · refine List.forall₂_same.mpr fun t ht => ⟨rfl, rfl, ?_⟩
    have hmem : t ∈ o.tokens := by
      split at ht
      · exact List.mem_of_mem_filter ht
      · cases ht
    exact (ho.tokens t hmem).marks hsize rfl
  · refine List.forall₂_same.mpr fun e he => ParseOutput.reports_ofError ho hsize rfl he ?_
    intro hend
    rcases List.mem_append.mp he with he | he
    · exact Frontend.previous_parseDocument hl.progressive text.toList e he
    · have := Frontend.isEndOfInput_of_semantic hc hl.no_sentinel text.toList e he
      exact absurd (hend.symm.trans this) (by decide)

/-- Behind `select` variables are missing: the diagnostic is right there, not behind the line
end. -/
theorem diagnose_reports_select :
    let text := "select\r\n"
    let o := (Language.sparql.profile {}).frontend.parseDocument text.toList
    text ≠ "" ∧ bytes text.toList < 4294967296 ∧
      ∃ e d, o.errors ++ o.semantic = [e] ∧ e.kind = .earlyExit ∧
        e.token.isEndOfInput = true ∧ o.endFor (bytes text.toList) e = 6 ∧
        (Language.sparql.profile {}).diagnose text = [d] ∧
        d.span.start = d.span.stop ∧ d.span.Delimits (LineIndex.ofText text) 6 6 := by
  intro text o
  have htext : text ≠ "" := by decide
  have hsize : bytes text.toList < 4294967296 := by decide
  have hparse : (o.errors ++ o.semantic).length = 1 ∧ ∀ e ∈ o.errors ++ o.semantic,
      e.kind = .earlyExit ∧ e.token.isEndOfInput = true ∧ o.endFor (bytes text.toList) e = 6 := by
    decide +kernel
  obtain ⟨e, herrors⟩ := List.length_eq_one_iff.mp hparse.1
  obtain ⟨hkind, hend, hplace⟩ := hparse.2 e (herrors ▸ List.mem_singleton_self e)
  obtain ⟨-, marking, reporting, hdiagnose, hmarking, hreporting⟩ :=
    diagnose_reports .sparql {} text htext hsize
  obtain rfl : marking = [] := List.forall₂_nil_left_iff.mp hmarking
  have hreporting : List.Forall₂ (Diagnostic.Reports text o) [e] reporting := herrors ▸ hreporting
  obtain ⟨d, _, hd, hrest, rfl⟩ := List.forall₂_cons_left_iff.mp hreporting
  obtain rfl := List.forall₂_nil_left_iff.mp hrest
  obtain ⟨hempty, hdelimits⟩ := hd.ended hend
  rw [hplace] at hdelimits
  exact ⟨htext, hsize, e, d, herrors, hkind, hend, hplace, hdiagnose, hempty, hdelimits⟩

end GraphLanguages
