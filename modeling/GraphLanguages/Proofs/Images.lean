import GraphLanguages.Proofs.Lexer.Lossless
import GraphLanguages.Proofs.Sparql.AnyCase
import GraphLanguages.Proofs.Text.Cutting

/-! What the image of a token shows of its type.

A type with an expression takes only words of the expression, so the image of such a token is one
of them (`Lexer.accepts_image`). In a document whose escapes are decoded first, the image is what
is written. Without a backslash in it, nothing in it is decoded (`Token.image_toRaw`), and it is a
word of the expression as well (`Frontend.accepts_image`). -/
namespace GraphLanguages
open Text

/-! ### What types match -/

theorem Chooses.matches {v : Vocabulary} {cs : List Char} {n : Nat} {T : TokenType}
    (h : Chooses v cs n T) :
    T.Matches n cs ∨ T = (v.get? Vocabulary.unknownName).getD Vocabulary.unknownType := by
  cases h with
  | longest _ _ hmatches => exact .inl hmatches
  | unknown => exact .inr rfl

/-- What a type matches in front of a text is what it covers. -/
theorem TokenType.Matches.covers {T : TokenType} {image rest : List Char}
    (h : T.Matches image.length (image ++ rest)) : T.pattern.Covers image rest := by
  obtain ⟨image', rest', heq, hlength, hcovers⟩ := h
  obtain ⟨rfl, rfl⟩ := List.append_inj heq hlength.symm
  exact hcovers

/-- Every token is of a type that covers its image, or unknown. -/
theorem Lexes.covers {v : Vocabulary} {skipped : List Regex} {offset : Nat} {cs : List Char}
    {ts : List Token} (h : Lexes v skipped offset cs ts) :
    ∀ t ∈ ts, (∃ rest, t.type.pattern.Covers t.image.toList rest) ∨
      t.type = (v.get? Vocabulary.unknownName).getD Vocabulary.unknownType := by
  induction h with
  | last => exact fun t ht => absurd ht List.not_mem_nil
  | @token _ _ image rest _ _ _ _ hchoice _ ih =>
    intro t ht
    rcases List.mem_cons.mp ht with rfl | ht
    · refine hchoice.matches.imp_left fun hmatches => ⟨rest, ?_⟩
      show Pattern.Covers _ (String.ofList image).toList rest
      rw [String.toList_ofList]
      exact hmatches.covers
    · exact ih t ht

theorem Pattern.Covers.accepts {r : Regex} {image rest : List Char}
    (h : Pattern.Covers (.regex r) image rest) : r.expr.Accepts image := by
  cases h with
  | regex h =>
    obtain ⟨-, -, -, haccepts⟩ := Regex.accepts_of_match? h
    rwa [List.take_left] at haccepts

/-- The image of a token whose type has an expression is a word of that. -/
theorem Lexer.accepts_image {types : List TokenType} {skipped : List Regex} {cs : List Char}
    {t : Token} (ht : t ∈ (ofVocabulary (.ofTypes types) skipped).tokenize cs) {r : Regex}
    (hr : t.type.pattern = .regex r) (hname : t.name ≠ Vocabulary.unknownName) :
    r.expr.Accepts t.image.toList := by
  have hlexes : Lexes (.ofTypes types) skipped 0 cs _ := lexes_tokensFrom 0 (Nat.le_refl _)
  rcases hlexes.covers t ht with ⟨rest, hcovers⟩ | hunknown
  · exact (hr ▸ hcovers).accepts
  · obtain ⟨T, hT⟩ := Vocabulary.exists_unknown types
    rw [hT, Option.getD_some] at hunknown
    exact absurd ((congrArg TokenType.name hunknown).trans (Vocabulary.mem_of_get? hT).2) hname

/-! ### Images in documents -/

/-- The map leads the end of some decoded pieces to the end of what is written for them. -/
theorem Text.toRaw_of_pieces {raw front : List Char} {qs : List Piece}
    (h : pieces raw = pieces front ++ qs) :
    (unescape raw).escapes.toRaw (bytes (unescape front).text) = bytes front := by
  show (EscapeMap.ofPieces (pieces raw)).toRaw (bytes (decoded (pieces front))) = _
  rw [h]
  exact EscapeMap.toRaw_bytes (written_pieces front)

/-- What is written for a token decodes, on its own, to its image. -/
theorem Token.exists_written {raw : List Char} {t : Token} (ht : t.LiesIn (unescape raw).text) :
    ∃ part, slice? ((unescape raw).escapes.toRaw t.start) ((unescape raw).escapes.toRaw t.stop) raw =
        some part ∧ t.image.toList = (unescape part).text := by
  obtain ⟨front, middle, back, htext, hstart, hstop⟩ :=
    exists_between ht.startBoundary ht.stopBoundary (Nat.le_succ_of_le ht.order)
  have himage : t.image.toList = middle := by
    have hslice := ht.slice
    rw [htext, hstart, hstop, slice?_append] at hslice
    exact (Option.some.inj hslice).symm
  obtain ⟨ps, rs, hpieces, hps, -⟩ := List.map_eq_append_iff.mp htext
  obtain ⟨ps, qs, rfl, hfront, hmiddle⟩ := List.map_eq_append_iff.mp hps
  obtain ⟨written, after, rfl, hwritten, -⟩ := pieces_split hpieces
  obtain ⟨before, part, rfl, rfl, rfl⟩ := pieces_split hwritten
  refine ⟨part, ?_, himage.trans hmiddle.symm⟩
  have hbefore : (unescape (before ++ part ++ after)).escapes.toRaw t.start = bytes before := by
    rw [hstart, ← hfront]
    exact toRaw_of_pieces (hpieces.trans (List.append_assoc ..))
  have hbehind : (unescape (before ++ part ++ after)).escapes.toRaw t.stop =
      bytes before + bytes part := by
    rw [← hwritten] at hpieces
    rw [ht.stop_eq, hstop, ← hfront, ← hmiddle, ← bytes_append, ← List.map_append, ← hwritten,
      ← bytes_append]
    exact toRaw_of_pieces hpieces
  rw [hbefore, hbehind]
  exact slice?_append before part after

/-- Where no backslash is written, the image is that in the decoded text. -/
theorem Token.image_toRaw {raw : List Char} {t : Token} (ht : t.LiesIn (unescape raw).text)
    (hplain : '\\' ∉ (t.toRaw (unescape raw).escapes raw).image.toList) :
    (t.toRaw (unescape raw).escapes raw).image = t.image := by
  obtain ⟨part, hslice, himage⟩ := t.exists_written ht
  have hempty : t.image.isEmpty = false := by simpa using ht.image
  unfold Token.toRaw at hplain ⊢
  split
  next => rfl
  next hsome =>
    rw [if_neg hsome] at hplain
    simp only [hempty, Bool.false_eq_true, if_false, hslice] at hplain ⊢
    rw [String.toList_ofList] at hplain
    have hpart : t.image.toList = part := by
      rw [himage, unescape_of_plain (plain_of_no_backslash hplain)]
    rw [← hpart, String.ofList_toList]

/-- A token of a document is one of the decoded text, with the same image unless a backslash is
written in it. -/
theorem Frontend.exists_token_of_mem_parseDocument {f : Frontend} (hd : f.decodesEscapes = true)
    {raw : List Char} {t : Token} (ht : t ∈ (f.parseDocument raw).tokens) :
    ∃ u ∈ f.lexer.tokenize (unescape raw).text, t.type = u.type ∧
      ('\\' ∉ t.image.toList → t.image = u.image) := by
  have hraw : f.decode raw = unescape raw := if_pos hd
  have htokens : (f.parse raw).tokens = f.lexer.tokenize (unescape raw).text := by
    rw [← hraw]
    rfl
  rw [parseDocument, ParseOutput.toRaw, escapes_parse hd] at ht
  split at ht
  next hempty =>
    exact ⟨t, htokens ▸ ht, rfl, fun _ => rfl⟩
  next m hm =>
    obtain ⟨u, hu, rfl⟩ := List.mem_map.mp ht
    obtain rfl : (unescape raw).escapes = m := by
      split at hm
      · cases hm
      · exact Option.some.inj hm
    rw [htokens] at hu
    have hlies : u.LiesIn (unescape raw).text := (f.lexer.cuts_tokenize _).liesIn [] rfl u hu
    exact ⟨u, hu, u.type_toRaw _ raw, Token.image_toRaw hlies⟩

/-- The image of a token in a document is a word of the expression of its type, if no backslash is
written in it. -/
theorem Frontend.accepts_image {f : Frontend} (hd : f.decodesEscapes = true)
    {types : List TokenType} (hv : f.vocabulary = .ofTypes types) {raw : List Char} {t : Token}
    (ht : t ∈ (f.parseDocument raw).tokens) {r : Regex} (hr : t.type.pattern = .regex r)
    (hname : t.name ≠ Vocabulary.unknownName) (hplain : '\\' ∉ t.image.toList) :
    r.expr.Accepts t.image.toList := by
  obtain ⟨u, hu, htype, himage⟩ := exists_token_of_mem_parseDocument hd ht
  rw [lexer, hv] at hu
  rw [himage hplain]
  exact Lexer.accepts_image hu (htype ▸ hr) (by rwa [Token.name, ← htype])

end GraphLanguages
