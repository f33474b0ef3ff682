import GraphLanguages.Proofs.Grammar.ParseTree
import GraphLanguages.Proofs.Languages
import GraphLanguages.Proofs.Lexer
import GraphLanguages.Proofs.Text.Escape

/-! Parse outputs in coordinates of the document.

The tokens of the decoded text cut it, and moved to the raw text they cut that
(`Cuts.toRaw`). Tree and errors are moved token by token, so what they share with the
list of tokens they share afterwards as well. -/
namespace GraphLanguages
open Grammar Text

/-! ### Moving tokens -/

theorem Cuts.toRaw {raw : List Char} {m : EscapeMap} (hm : m.isEmpty = false) {offset : Nat}
    {text : List Char} {ts : List Token} (h : Cuts offset text ts) {ps qs : List Piece}
    {before after : List Char} (hps : Written ps before) (hqs : Written qs after)
    (hmap : m = EscapeMap.ofPieces (ps ++ qs)) (hraw : raw = before ++ after)
    (ho : offset = bytes (decoded ps)) (ht : text = decoded qs) :
    Cuts (bytes before) after (ts.map (Token.toRaw m raw)) := by
  induction h generalizing ps qs before after with
  | done => exact .done ..
  | @skip offset gap cs _ _ ih =>
    obtain ⟨qs₁, qs₂, rfl, rfl, rfl⟩ := List.map_eq_append_iff.mp ht.symm
    obtain ⟨a, b, rfl, ha, hb⟩ := hqs.split
    refine .skip ?_
    rw [← bytes_append]
    exact ih (hps.append ha) hb (by rw [hmap, List.append_assoc])
      (by rw [hraw, List.append_assoc]) (by rw [ho, decoded_append, bytes_append]; rfl) rfl
  | @token offset image cs t ts hne hi hs hl _ ih =>
    obtain ⟨qs₁, qs₂, rfl, rfl, rfl⟩ := List.map_eq_append_iff.mp ht.symm
    obtain ⟨a, b, rfl, ha, hb⟩ := hqs.split
    have himage : 0 < bytes (decoded qs₁) := bytes_pos hne
    have hbytes : 0 < bytes a := by
      rw [ha.bytes_eq]
      omega
    have hempty : t.image.isEmpty = false := by
      rw [hi, String.isEmpty_eq_false_iff]
      exact fun h => hne (by simpa using congrArg String.toList h)
    have hstart : m.toRaw t.start = bytes before := by
      rw [hs, ho, hmap, EscapeMap.toRaw_bytes hps]
    have hstop : m.toRaw t.stop = bytes before + bytes a := by
      rw [Token.stop, if_neg (by simp [hempty]), hl, ho, ← bytes_append, ← bytes_append, hmap,
        ← List.append_assoc]
      exact (decoded_append ps qs₁).symm ▸ EscapeMap.toRaw_bytes (hps.append ha)
    have htoRaw : t.toRaw m raw =
        { t with
          image := String.ofList a
          start := bytes before
          last := max (bytes before + bytes a - 1) (bytes before) } := by
      simp only [Token.toRaw, hm, hempty, hstart, hstop, Bool.false_eq_true, if_false, hraw,
        ← List.append_assoc, slice?_append]
    rw [List.map_cons, htoRaw]
    refine .token ?_ rfl rfl ?_ ?_
    · rintro rfl
      exact absurd hbytes (by decide)
    · show max _ _ + 1 = _
      omega
    · rw [← bytes_append]
      exact ih (hps.append ha) hb (by rw [hmap, List.append_assoc])
        (by rw [hraw, List.append_assoc]) (by rw [ho, decoded_append, bytes_append]; rfl) rfl

mutual

theorem Tree.leaves_mapTokens (f : Token → Token) (t : Tree) :
    (t.mapTokens f).leaves = t.leaves.map f := by
  cases t with
  | leaf t => rfl
  | node name children => exact leavesOf_mapTokensOf f children

theorem Tree.leavesOf_mapTokensOf (f : Token → Token) (ts : List Tree) :
    leavesOf (mapTokensOf f ts) = (leavesOf ts).map f := by
  cases ts with
  | nil => rfl
  | cons t ts =>
    rw [mapTokensOf, leavesOf, leaves_mapTokens f t, leavesOf_mapTokensOf f ts, leavesOf,
      List.map_append]

end

@[simp] theorem Token.type_toRaw (m : EscapeMap) (raw : List Char) (t : Token) :
    (t.toRaw m raw).type = t.type := by
  unfold Token.toRaw
  split
  · rfl
  · split <;> rfl

/-! ### What tree, errors and tokens share -/

namespace ParseOutput

/-- The tree is over the first tokens, and errors are about tokens, or about the end of a
text of this size. -/
structure Coherent (size : Nat) (o : ParseOutput) : Prop where
  leaves : o.tree.leaves <+: o.tokens
  token : ∀ e ∈ o.errors ++ o.semantic, e.token ∈ o.tokens ∨ e.token = Token.endOfInput size
  previous : ∀ e ∈ o.errors ++ o.semantic, ∀ p ∈ e.previous, p ∈ o.tokens

theorem Coherent.toRaw {o : ParseOutput} {size : Nat} (h : o.Coherent size)
    (ht : ∀ t ∈ o.tokens, t.isEndOfInput = false) {m : EscapeMap} (hm : o.escapes = some m)
    (raw : List Char) : (o.toRaw raw).Coherent (bytes raw) := by
  have hout : o.toRaw raw =
      { tree := o.tree.mapTokens (Token.toRaw m raw)
        tokens := o.tokens.map (Token.toRaw m raw)
        errors := o.errors.map (errorToRaw m raw)
        semantic := o.semantic.map (errorToRaw m raw)
        escapes := none } := by
    simp only [ParseOutput.toRaw, hm]
  rw [hout]
  constructor
  · rw [Tree.leaves_mapTokens]
    exact h.leaves.map _
  · intro e he
    rw [← List.map_append] at he
    obtain ⟨e₀, he₀, rfl⟩ := List.mem_map.mp he
    rcases h.token e₀ he₀ with hmem | hend
    · refine .inl (List.mem_map.mpr ⟨e₀.token, hmem, ?_⟩)
      simp [errorToRaw, ht _ hmem]
    · refine .inr ?_
      simp only [errorToRaw, hend, endOfInput_isEndOfInput, if_true]
      rfl
  · intro e he p hp
    rw [← List.map_append] at he
    obtain ⟨e₀, he₀, rfl⟩ := List.mem_map.mp he
    obtain ⟨q, hq, rfl⟩ := Option.map_eq_some_iff.mp hp
    exact List.mem_map_of_mem (h.previous e₀ he₀ q hq)

end ParseOutput

namespace Frontend
variable {f : Frontend}

/-- A check of the tokens that is about tokens only. -/
def ChecksTokens (f : Frontend) : Prop :=
  ∀ tokens, ∀ e ∈ f.check tokens, e.token ∈ tokens ∧ e.previous = none

theorem coherent_parse (hg : Progressive f.grammar) (hc : f.ChecksTokens) (raw : List Char) :
    (f.parse raw).Coherent (bytes (f.decode raw).text) := by
  let tokens := f.lexer.tokenize (f.decode raw).text
  let size := bytes (f.decode raw).text
  obtain ⟨k, hk⟩ := exists_parsedUpTo (terminates_iff_runs.mpr
    (hg.exists_runs_document f.vocabulary f.root size tokens))
  have herrors : ∀ e ∈ (f.parse raw).errors ++ (f.parse raw).semantic,
      e ∈ (f.grammar.parse f.vocabulary f.root size tokens).2 ∨ e ∈ f.check tokens := by
    intro e he
    refine (List.mem_append.mp he).imp_left fun h => ?_
    exact Option.mem_toList.mp h
  constructor
  · show (f.grammar.parse f.vocabulary f.root size tokens).1.leaves <+: tokens
    rw [hk.leaves]
    exact List.take_prefix k tokens
  · intro e he
    rcases herrors e he with h | h
    · rw [hk.token e h]
      cases hget : tokens[k]? with
      | none => exact .inr rfl
      | some t => exact .inl (List.mem_of_getElem? hget)
    · exact .inl (hc tokens e h).1
  · intro e he p hp
    rcases herrors e he with h | h
    · rw [hk.previous e h] at hp
      split at hp
      next => exact List.mem_of_getElem? hp
      next => cases hp
    · rw [(hc tokens e h).2] at hp
      cases hp

/-- No type is one of the sentinel. -/
def HasNoSentinel (f : Frontend) : Prop :=
  ∀ T ∈ f.vocabulary.types, T.has .endOfInput = false

theorem isEndOfInput_of_mem_parse (hs : f.HasNoSentinel) {raw : List Char} :
    ∀ t ∈ (f.parse raw).tokens, t.isEndOfInput = false := by
  intro t ht
  rcases Lexer.type_of_mem_tokenize ht with h | h
  · exact hs _ h
  · rw [Token.isEndOfInput, Token.has, h]
    rfl

theorem isEndOfInput_of_mem_parseDocument (hs : f.HasNoSentinel) {raw : List Char} :
    ∀ t ∈ (f.parseDocument raw).tokens, t.isEndOfInput = false := by
  unfold parseDocument ParseOutput.toRaw
  split
  next => exact isEndOfInput_of_mem_parse hs
  next m _ =>
    intro t ht
    obtain ⟨u, hu, rfl⟩ := List.mem_map.mp ht
    exact (congrArg (·.has .endOfInput) (Token.type_toRaw ..)).trans
      (isEndOfInput_of_mem_parse hs u hu)

/-- The tokens of a document are of types of the vocabulary. -/
theorem type_of_mem_parseDocument {types : List TokenType} (hv : f.vocabulary = .ofTypes types)
    {raw : List Char} : ∀ t ∈ (f.parseDocument raw).tokens, t.type ∈ f.vocabulary.types := by
  have hlexed : ∀ t ∈ (f.parse raw).tokens, t.type ∈ f.vocabulary.types := by
    intro t ht
    have hlexer : f.lexer = Lexer.ofVocabulary (.ofTypes types) f.skipped := by
      rw [lexer, hv]
    rw [parse, hlexer] at ht
    rw [hv]
    exact Lexer.type_mem_of_tokenize ht
  intro t ht
  unfold parseDocument ParseOutput.toRaw at ht
  split at ht
  next => exact hlexed t ht
  next m _ =>
    obtain ⟨u, hu, rfl⟩ := List.mem_map.mp ht
    exact u.type_toRaw m raw ▸ hlexed u hu

theorem decode_text {raw : List Char} (h : (f.decode raw).escapes.isEmpty = true) :
    (f.decode raw).text = raw := by
  unfold decode at h ⊢
  split
  next hd =>
    rw [if_pos hd] at h
    exact unescape_text h
  next => rfl

/-- The tokens of a document cut it, and tree and errors share them. -/
theorem parseDocument_cuts (hg : Progressive f.grammar) (hc : f.ChecksTokens)
    (hs : f.HasNoSentinel) (raw : List Char) :
    Cuts 0 raw (f.parseDocument raw).tokens ∧ (f.parseDocument raw).Coherent (bytes raw) := by
  have hcuts : Cuts 0 (f.decode raw).text (f.parse raw).tokens := f.lexer.cuts_tokenize _
  have hcoherent := coherent_parse hg hc raw
  cases he : (f.decode raw).escapes.isEmpty with
  | true =>
    have hout : f.parseDocument raw = f.parse raw := by
      have : (f.parse raw).escapes = none := by
        simp only [parse, he, if_true]
      rw [parseDocument, ParseOutput.toRaw, this]
    rw [decode_text he] at hcuts hcoherent
    rw [hout]
    exact ⟨hcuts, hcoherent⟩
  | false =>
    have hescapes : (f.parse raw).escapes = some (f.decode raw).escapes := by
      simp only [parse, he, Bool.false_eq_true, if_false]
    have hdecode : f.decode raw = unescape raw := by
      unfold decode at he ⊢
      split
      next => rfl
      next hd =>
        rw [if_neg hd] at he
        cases he
    refine ⟨?_, hcoherent.toRaw (isEndOfInput_of_mem_parse hs) hescapes raw⟩
    have htokens : (f.parseDocument raw).tokens =
        (f.parse raw).tokens.map (Token.toRaw (f.decode raw).escapes raw) := by
      simp only [parseDocument, ParseOutput.toRaw, hescapes]
    rw [htokens]
    have hnil : Written [] [] := .nil
    have hmap : (f.decode raw).escapes = EscapeMap.ofPieces ([] ++ pieces raw) := by
      rw [hdecode]
      rfl
    exact hcuts.toRaw he hnil (written_pieces raw) hmap rfl rfl (by rw [hdecode]; rfl)

end Frontend

/-! ### The languages -/

theorem Turtle.undeclaredFrom_tokens (known : List String) (previous : Option Token)
    (tokens : List Token) : ∀ e ∈ Turtle.undeclaredFrom known previous tokens,
      e.token ∈ tokens ∧ e.previous = none := by
  induction tokens generalizing known previous with
  | nil => exact fun e he => by cases he
  | cons t ts ih =>
    intro e he
    rw [Turtle.undeclaredFrom] at he
    split at he
    next => exact (ih _ _ e he).imp_left (List.mem_cons_of_mem t)
    next =>
      split at he
      next =>
        rcases List.mem_cons.mp he with rfl | he
        · exact ⟨List.mem_cons_self .., rfl⟩
        · exact (ih _ _ e he).imp_left (List.mem_cons_of_mem t)
      next => exact (ih _ _ e he).imp_left (List.mem_cons_of_mem t)

theorem Language.checksTokens (l : Language) (options : Options) :
    (l.frontend options).ChecksTokens := by
  intro tokens e he
  cases l with
  | sparql | graphQL | shacl => cases he
  | turtle | trig => exact Turtle.undeclaredFrom_tokens [] none tokens e he

namespace ParseOutput

/-- Tokens with their places in a text, in order, and a tree and errors that share
them. -/
structure LiesIn (raw : List Char) (o : ParseOutput) : Prop where
  tokens : ∀ t ∈ o.tokens, t.LiesIn raw
  order : o.tokens.Pairwise fun a b => a.last < b.start
  shared : o.Coherent (bytes raw)

end ParseOutput

theorem Lawful.liesIn {f : Frontend} (h : Lawful f.vocabulary f.grammar) (hc : f.ChecksTokens)
    (raw : List Char) : (f.parseDocument raw).LiesIn raw := by
  obtain ⟨hcuts, hshared⟩ := Frontend.parseDocument_cuts h.progressive hc h.no_sentinel raw
  exact ⟨hcuts.liesIn [] rfl, hcuts.pairwise, hshared⟩

/-- **The parse of a document lies in the document.** -/
theorem parseDocument_liesIn (l : Language) (options : Options) (raw : List Char) :
    ((l.profile options).frontend.parseDocument raw).LiesIn raw :=
  (l.lawful options).liesIn (l.checksTokens options) raw

end GraphLanguages
