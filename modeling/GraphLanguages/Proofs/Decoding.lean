import Mathlib.Data.List.Forall2
import Mathlib.Data.List.Infix
import GraphLanguages.Proofs.ParseOutput

/-! Parsing commutes with decoding.

The parser only ever sees the decoded text, so the parse of a text is that of its decoded
form with every token moved (`parse_eq_decoded`). The escape map is increasing
(`toRaw_strictMono`), which makes a moved token end where the map leads its end; tree,
tokens and errors then correspond one by one (`Moved`). -/
namespace GraphLanguages
open Grammar Text

/-! ### The escape map is increasing -/

namespace Text

/-- The bytes lost before an offset, if so many were lost before the entries. -/
def lostBefore (displaced offset : Nat) (entries : List EscapeEntry) : Nat :=
  ((entries.takeWhile fun e => e.position ≤ offset).getLast?.map EscapeEntry.displaced).getD
    displaced

theorem EscapeMap.toRaw_eq (m : EscapeMap) (offset : Nat) :
    m.toRaw offset = offset + lostBefore 0 offset m.entries := by
  unfold toRaw lostBefore
  cases (m.entries.takeWhile fun e => e.position ≤ offset).getLast? <;> rfl

theorem EscapeMap.toRaw_of_isEmpty {m : EscapeMap} (h : m.isEmpty = true) (offset : Nat) :
    m.toRaw offset = offset := by
  rw [toRaw_eq, List.isEmpty_iff.mp h]
  rfl

theorem lostBefore_cons {displaced offset : Nat} {e : EscapeEntry} {es : List EscapeEntry} :
    lostBefore displaced offset (e :: es) =
      if e.position ≤ offset then lostBefore e.displaced offset es else displaced := by
  unfold lostBefore
  rw [List.takeWhile_cons]
  by_cases h : e.position ≤ offset
  · rw [if_pos (decide_eq_true h), if_pos h, List.getLast?_cons]
    cases (es.takeWhile fun e => e.position ≤ offset).getLast? <;> rfl
  · rw [if_neg (by simpa using h), if_neg h]
    rfl

theorem lostBefore_mono {a b : Nat} (hab : a ≤ b) (ps : List Piece) (position displaced : Nat) :
    displaced ≤ lostBefore displaced a (EscapeMap.entriesFrom position displaced ps) ∧
      lostBefore displaced a (EscapeMap.entriesFrom position displaced ps) ≤
        lostBefore displaced b (EscapeMap.entriesFrom position displaced ps) := by
  induction ps generalizing position displaced with
  | nil => exact ⟨Nat.le_refl _, Nat.le_refl _⟩
  | cons p ps ih =>
    have hrest := ih (position + p.char.utf8Size) (displaced + p.displaced)
    simp only [EscapeMap.entriesFrom]
    by_cases hp : p.displaced = 0
    · rw [if_pos hp]
      rwa [hp] at hrest ⊢
    · rw [if_neg hp, lostBefore_cons, lostBefore_cons]
      dsimp only
      -- An offset in front of the entry has lost `displaced` bytes, one behind it no less.
      split <;> split <;> omega

/-- Offsets stay apart when they are moved. -/
theorem EscapeMap.toRaw_strictMono (ps : List Piece) {a b : Nat} (h : a < b) :
    (ofPieces ps).toRaw a < (ofPieces ps).toRaw b := by
  have hlost := (lostBefore_mono (Nat.le_of_lt h) ps 0 0).2
  rw [toRaw_eq, toRaw_eq]
  exact Nat.add_lt_add_of_lt_of_le h hlost

/-! ### Texts without escapes -/

/-- Nothing in the text can be decoded. -/
def Plain (text : List Char) : Prop :=
  ∀ rest ∈ text.tails, escape? rest = none

instance (text : List Char) : Decidable (Plain text) :=
  inferInstanceAs (Decidable (∀ rest ∈ text.tails, _))

/-- The pieces of a text in which every character is written as it is. -/
theorem pieces_of_plain {text : List Char} (h : Plain text) :
    pieces text = text.map fun c => ⟨c, c.utf8Size⟩ := by
  induction text with
  | nil => rfl
  | cons c cs ih =>
    have hhead : escape? (c :: cs) = none := h _ ((List.mem_tails ..).mpr (List.suffix_refl _))
    have hrest : Plain cs := by
      intro rest hrest
      have hsuffix : rest <:+ cs := (List.mem_tails ..).mp hrest
      exact h rest ((List.mem_tails ..).mpr (hsuffix.trans (List.suffix_cons c cs)))
    rw [pieces, piecesFrom, hhead, List.map_cons, ← ih hrest]
    rfl

/-- Characters that are written as they are need no entries in the map. -/
theorem entriesFrom_of_verbatim (text : List Char) (position : Nat) :
    EscapeMap.entriesFrom position 0 (text.map fun c => ⟨c, c.utf8Size⟩) = [] := by
  induction text generalizing position with
  | nil => rfl
  | cons c cs ih =>
    have hzero : (⟨c, c.utf8Size⟩ : Piece).displaced = 0 := Nat.sub_self _
    simp only [List.map_cons, EscapeMap.entriesFrom, hzero, if_true]
    exact ih _

theorem unescape_of_plain {text : List Char} (h : Plain text) : unescape text = ⟨text, ⟨[]⟩⟩ := by
  show Unescaped.mk ((pieces text).map Piece.char) ⟨EscapeMap.entriesFrom 0 0 (pieces text)⟩ = _
  rw [pieces_of_plain h, entriesFrom_of_verbatim, List.map_map]
  exact congrArg (Unescaped.mk · ⟨[]⟩) (List.map_id text)

end Text

/-! ### What corresponds to what -/

/-- The second token is of the same type, and covers what the first is led to. -/
structure Token.Moved (m : EscapeMap) (t u : Token) : Prop where
  type : u.type = t.type
  start : u.start = m.toRaw t.start
  stop : u.stop = m.toRaw t.stop

mutual

/-- Trees of one shape, with the same names of rules and related leaves. -/
inductive Tree.Rel (R : Token → Token → Prop) : Tree → Tree → Prop
  | leaf {t u : Token} : R t u → Tree.Rel R (.leaf t) (.leaf u)
  | node {name : String} {ts us : List Tree} : Tree.RelOf R ts us →
      Tree.Rel R (.node name ts) (.node name us)

inductive Tree.RelOf (R : Token → Token → Prop) : List Tree → List Tree → Prop
  | nil : Tree.RelOf R [] []
  | cons {t u : Tree} {ts us : List Tree} : Tree.Rel R t u → Tree.RelOf R ts us →
      Tree.RelOf R (t :: ts) (u :: us)

end

mutual

theorem Tree.rel_mapTokens {R : Token → Token → Prop} {f : Token → Token} (t : Tree)
    (h : ∀ u ∈ t.leaves, R u (f u)) : Tree.Rel R t (t.mapTokens f) := by
  cases t with
  | leaf t => exact .leaf (h t (List.mem_singleton_self t))
  | node name children => exact .node (Tree.relOf_mapTokensOf children h)

theorem Tree.relOf_mapTokensOf {R : Token → Token → Prop} {f : Token → Token} (ts : List Tree)
    (h : ∀ u ∈ leavesOf ts, R u (f u)) : Tree.RelOf R ts (mapTokensOf f ts) := by
  cases ts with
  | nil => exact .nil
  | cons t ts =>
    exact .cons (Tree.rel_mapTokens t fun u hu => h u (List.mem_append_left _ hu))
      (Tree.relOf_mapTokensOf ts fun u hu => h u (List.mem_append_right _ hu))

end

mutual

theorem Tree.mapTokens_id (t : Tree) : t.mapTokens id = t := by
  cases t with
  | leaf t => rfl
  | node name children => exact congrArg (Tree.node name) (Tree.mapTokensOf_id children)

theorem Tree.mapTokensOf_id (ts : List Tree) : mapTokensOf id ts = ts := by
  cases ts with
  | nil => rfl
  | cons t ts => rw [mapTokensOf, mapTokens_id t, mapTokensOf_id ts]

end

/-- The second error says the same, about tokens that correspond. The sentinel is the one
behind a text of this size. -/
structure SyntaxError.Moved (m : EscapeMap) (size : Nat) (e e' : SyntaxError) : Prop where
  kind : e'.kind = e.kind
  message : e'.message = e.message
  rules : e'.rules = e.rules
  token : e.token.Moved m e'.token
  sentinel : e.token.isEndOfInput = true → e'.token = Token.endOfInput size
  previous : Option.Rel (Token.Moved m) e.previous e'.previous

/-- Two parses that agree but for where their tokens are. -/
structure ParseOutput.Moved (m : EscapeMap) (size : Nat) (o o' : ParseOutput) : Prop where
  tree : Tree.Rel (Token.Moved m) o.tree o'.tree
  tokens : List.Forall₂ (Token.Moved m) o.tokens o'.tokens
  errors : List.Forall₂ (SyntaxError.Moved m size) o.errors o'.errors
  semantic : List.Forall₂ (SyntaxError.Moved m size) o.semantic o'.semantic

/-! ### Moving a parse -/

theorem Token.moved_of_isEmpty {m : EscapeMap} (h : m.isEmpty = true) (t : Token) :
    t.Moved m t :=
  ⟨rfl, (EscapeMap.toRaw_of_isEmpty h _).symm, (EscapeMap.toRaw_of_isEmpty h _).symm⟩

/-- A token that covers something is moved to where the map leads both ends of it. -/
theorem Token.moved_toRaw {m : EscapeMap} {raw : List Char} {t : Token}
    (hmono : m.toRaw t.start < m.toRaw t.stop) (himage : t.image ≠ "")
    (hcovers : (t.toRaw m raw).image ≠ "") : t.Moved m (t.toRaw m raw) := by
  by_cases hm : m.isEmpty = true
  · rw [Token.toRaw, if_pos hm]
    exact moved_of_isEmpty hm t
  · have hempty : t.image.isEmpty = false := by simpa using himage
    have hstop : (t.toRaw m raw).stop = (t.toRaw m raw).last + 1 :=
      if_neg (by simpa using hcovers)
    rw [Token.toRaw, if_neg hm] at hstop ⊢
    dsimp only at hstop ⊢
    rw [hempty, if_neg (by decide)] at hstop ⊢
    refine ⟨rfl, rfl, hstop.trans ?_⟩
    show max _ _ + 1 = _
    omega

namespace ParseOutput
variable {m : EscapeMap} {raw : List Char} {size : Nat}

theorem moved_errorToRaw {e : SyntaxError} (hsize : m.toRaw size = bytes raw)
    (htoken : e.token.isEndOfInput = false ∧ e.token.Moved m (e.token.toRaw m raw) ∨
      e.token = Token.endOfInput size)
    (hprevious : ∀ p ∈ e.previous, p.Moved m (p.toRaw m raw)) :
    e.Moved m (bytes raw) (errorToRaw m raw e) := by
  have hprev : Option.Rel (Token.Moved m) e.previous (errorToRaw m raw e).previous := by
    show Option.Rel _ e.previous (e.previous.map (Token.toRaw m raw))
    cases hp : e.previous with
    | none => exact .none
    | some p => exact .some (hprevious p hp)
  rcases htoken with ⟨hend, hmoved⟩ | hend
  · have htoken : (errorToRaw m raw e).token = e.token.toRaw m raw := if_neg (by simp [hend])
    refine ⟨rfl, rfl, rfl, htoken ▸ hmoved, fun h => ?_, hprev⟩
    rw [hend] at h
    cases h
  · have htoken : (errorToRaw m raw e).token = Token.endOfInput (bytes raw) := by
      simp only [errorToRaw, hend, endOfInput_isEndOfInput, if_true]
      rfl
    refine ⟨rfl, rfl, rfl, ?_, fun _ => htoken, hprev⟩
    rw [htoken, hend]
    exact ⟨rfl, hsize.symm, hsize.symm⟩

/-- A parse is moved token by token, also when no escape was decoded. -/
theorem Coherent.toRaw_eq {o : ParseOutput} (h : o.Coherent size)
    (hends : ∀ t ∈ o.tokens, t.isEndOfInput = false) (hsize : m.toRaw size = bytes raw)
    (ho : o.escapes = if m.isEmpty then none else some m) :
    o.toRaw raw =
      { tree := o.tree.mapTokens (Token.toRaw m raw)
        tokens := o.tokens.map (Token.toRaw m raw)
        errors := o.errors.map (errorToRaw m raw)
        semantic := o.semantic.map (errorToRaw m raw)
        escapes := none } := by
  by_cases hm : m.isEmpty = true
  · rw [if_pos hm] at ho
    have htoken : Token.toRaw m raw = id := funext fun t => if_pos hm
    have herror : ∀ e ∈ o.errors ++ o.semantic, errorToRaw m raw e = e := by
      intro e he
      have hmoved : (if e.token.isEndOfInput then
          { e.token with start := bytes raw, last := bytes raw } else e.token) = e.token := by
        rcases h.token e he with hmem | hend
        · exact if_neg (by simp [hends _ hmem])
        · have hbytes : bytes raw = size := hsize ▸ EscapeMap.toRaw_of_isEmpty hm size
          rw [hend, hbytes]
          rfl
      simp only [errorToRaw, htoken, id, Option.map_id_fun, hmoved]
    have htree : o.tree.mapTokens (Token.toRaw m raw) = o.tree :=
      htoken ▸ Tree.mapTokens_id o.tree
    have hmap : ∀ es : List SyntaxError, es ⊆ o.errors ++ o.semantic →
        es.map (errorToRaw m raw) = es := fun es hes =>
      (List.map_congr_left fun e he => herror e (hes he)).trans (List.map_id es)
    rw [htree, htoken, List.map_id, hmap _ (List.subset_append_left ..),
      hmap _ (List.subset_append_right ..), ParseOutput.toRaw, ho]
    exact congrArg (ParseOutput.mk o.tree o.tokens o.errors o.semantic) ho
  · rw [if_neg hm] at ho
    simp only [ParseOutput.toRaw, ho]

/-- Moving a parse moves everything in it. -/
theorem Coherent.moved_toRaw {o : ParseOutput} (h : o.Coherent size)
    (hends : ∀ t ∈ o.tokens, t.isEndOfInput = false)
    (htokens : ∀ t ∈ o.tokens, t.Moved m (t.toRaw m raw)) (hsize : m.toRaw size = bytes raw)
    (ho : o.escapes = if m.isEmpty then none else some m) :
    Moved m (bytes raw) o (o.toRaw raw) := by
  have herror : ∀ e ∈ o.errors ++ o.semantic, e.Moved m (bytes raw) (errorToRaw m raw e) := by
    intro e he
    refine moved_errorToRaw hsize ?_ fun p hp => htokens p (h.previous e he p hp)
    exact (h.token e he).imp_left fun hmem => ⟨hends _ hmem, htokens _ hmem⟩
  rw [h.toRaw_eq hends hsize ho]
  constructor
  · exact Tree.rel_mapTokens o.tree fun t ht => htokens t (h.leaves.subset ht)
  · exact List.forall₂_map_right_iff.mpr (List.forall₂_same.mpr htokens)
  · exact List.forall₂_map_right_iff.mpr
      (List.forall₂_same.mpr fun e he => herror e (List.mem_append_left _ he))
  · exact List.forall₂_map_right_iff.mpr
      (List.forall₂_same.mpr fun e he => herror e (List.mem_append_right _ he))

end ParseOutput

/-! ### Parsing and decoding -/

namespace Frontend
variable {f : Frontend}

/-- The parse of a text is that of its decoded form, but for the escapes it remembers. -/
theorem parse_eq_decoded (hd : f.decodesEscapes = true) {raw : List Char}
    (hplain : Plain (unescape raw).text) :
    { f.parse raw with escapes := none } = f.parseDocument (unescape raw).text := by
  have hdecoded : f.decode (unescape raw).text = ⟨(unescape raw).text, ⟨[]⟩⟩ := by
    rw [decode, if_pos hd, unescape_of_plain hplain]
  have hraw : f.decode raw = unescape raw := if_pos hd
  have hparse : f.parse (unescape raw).text = { f.parse raw with escapes := none } := by
    simp only [parse, hdecoded, hraw]
    rfl
  rw [parseDocument, hparse]
  rfl

theorem escapes_parse (hd : f.decodesEscapes = true) (raw : List Char) :
    (f.parse raw).escapes =
      if (unescape raw).escapes.isEmpty then none else some (unescape raw).escapes := by
  have hraw : f.decode raw = unescape raw := if_pos hd
  rw [← hraw]
  rfl

theorem coherent_parse_unescape (hg : Progressive f.grammar) (hc : f.ChecksTokens)
    (hd : f.decodesEscapes = true) (raw : List Char) :
    (f.parse raw).Coherent (bytes (unescape raw).text) := by
  have hraw : f.decode raw = unescape raw := if_pos hd
  exact hraw ▸ coherent_parse hg hc raw

/-- A token of the decoded text is moved to what its characters are written as. -/
theorem moved_of_mem_parse (hg : Progressive f.grammar) (hc : f.ChecksTokens)
    (hs : f.HasNoSentinel) (hd : f.decodesEscapes = true) {raw : List Char} :
    ∀ t ∈ (f.parse raw).tokens,
      t.Moved (unescape raw).escapes (t.toRaw (unescape raw).escapes raw) := by
  intro t ht
  have hlies : t.LiesIn (f.decode raw).text := (f.lexer.cuts_tokenize _).liesIn [] rfl t ht
  have htokens : (f.parseDocument raw).tokens =
      (f.parse raw).tokens.map (Token.toRaw (unescape raw).escapes raw) :=
    congrArg ParseOutput.tokens ((coherent_parse_unescape hg hc hd raw).toRaw_eq
      (isEndOfInput_of_mem_parse hs) (toRaw_bytes_unescape raw) (escapes_parse hd raw))
  have hmoved : (t.toRaw (unescape raw).escapes raw).LiesIn raw :=
    (parseDocument_cuts hg hc hs raw).1.liesIn [] rfl _ (htokens ▸ List.mem_map_of_mem ht)
  have hstop : t.stop = t.last + 1 := if_neg (by simpa using hlies.image)
  have hspan : t.start < t.stop := hstop ▸ Nat.lt_succ_of_le hlies.order
  exact Token.moved_toRaw (EscapeMap.toRaw_strictMono (pieces raw) hspan) hlies.image hmoved.image

theorem moved_parseDocument (hg : Progressive f.grammar) (hc : f.ChecksTokens)
    (hs : f.HasNoSentinel) (hd : f.decodesEscapes = true) {raw : List Char}
    (hplain : Plain (unescape raw).text) :
    (f.parseDocument (unescape raw).text).Moved (unescape raw).escapes (bytes raw)
      (f.parseDocument raw) := by
  have hmoved := (coherent_parse_unescape hg hc hd raw).moved_toRaw (isEndOfInput_of_mem_parse hs)
    (moved_of_mem_parse hg hc hs hd) (toRaw_bytes_unescape raw) (escapes_parse hd raw)
  rw [← parse_eq_decoded hd hplain]
  exact ⟨hmoved.tree, hmoved.tokens, hmoved.errors, hmoved.semantic⟩

end Frontend

/-- **Parsing a query commutes with decoding it.** The parse of a text is that of its
decoded form, with every token where its characters are written. -/
theorem Sparql.parseDocument_unescape (dialect : Sparql.Dialect) {raw : List Char}
    (h : Plain (unescape raw).text) :
    ((Sparql.frontend dialect).parseDocument (unescape raw).text).Moved (unescape raw).escapes
      (bytes raw) ((Sparql.frontend dialect).parseDocument raw) := by
  have hl := Sparql.lawful dialect
  have hc : (Sparql.frontend dialect).ChecksTokens := fun _ _ he => by cases he
  exact Frontend.moved_parseDocument hl.progressive hc hl.no_sentinel rfl h

/-- A keyword, a space and a brace written as escapes, and an escape that names nothing. -/
theorem Sparql.parseDocument_unescape_ask :
    let raw := "\\u0041sk\\U00000020\\u007B ?s ?p '\\uD800' \x7d".toList
    Plain (unescape raw).text ∧
      ((Sparql.frontend .w3).parseDocument (unescape raw).text).Moved (unescape raw).escapes
        (bytes raw) ((Sparql.frontend .w3).parseDocument raw) := by
  intro raw
  have hplain : Plain (unescape raw).text := by decide
  exact ⟨hplain, Sparql.parseDocument_unescape .w3 hplain⟩

end GraphLanguages
