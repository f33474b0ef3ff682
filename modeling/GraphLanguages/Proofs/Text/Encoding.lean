import Mathlib.Data.List.Forall2
import Mathlib.Data.Nat.Digits.Defs
import GraphLanguages.Proofs.Text.Escape

/-! Ways to write a text.

A character may be written as it is, unless it is a backslash, or as any escape that stands
for it (`Encodes`). Whatever way each character of a text takes, decoding finds one piece for
it, as wide as the way it is written (`pieces_append`). So decoding leads back to the text,
and the escape map from every character to the way it is written (`unescape_encoded`). -/
namespace GraphLanguages.Text

/-! ### Hexadecimal digits -/

/-- The character is the digit, in either case. -/
def IsHexDigit (d : Nat) (c : Char) : Prop :=
  d < 16 ∧ (c = Nat.digitChar d ∨ c = (Nat.digitChar d).toUpper)

instance (d : Nat) (c : Char) : Decidable (IsHexDigit d c) :=
  inferInstanceAs (Decidable (_ ∧ _))

/-- The characters are so many digits that make up the value. -/
def WritesHex (count value : Nat) (cs : List Char) : Prop :=
  ∃ ds, List.Forall₂ IsHexDigit ds cs ∧ ds.length = count ∧ Nat.ofDigits 16 ds.reverse = value

theorem hexDigit?_of_isHexDigit {d : Nat} {c : Char} (h : IsHexDigit d c) :
    hexDigit? c = some d := by
  have hall : ∀ d < 16, hexDigit? (Nat.digitChar d) = some d ∧
      hexDigit? (Nat.digitChar d).toUpper = some d := by decide
  obtain ⟨hd, rfl | rfl⟩ := h
  · exact (hall d hd).1
  · exact (hall d hd).2

theorem hexFrom?_of_digits {ds : List Nat} {cs : List Char} (h : List.Forall₂ IsHexDigit ds cs)
    (value : Nat) (rest : List Char) :
    hexFrom? value ds.length (cs ++ rest) = some (ds.foldl (fun v d => d + 16 * v) value) := by
  induction h generalizing value with
  | nil => rfl
  | @cons d c ds cs hd _ ih =>
    rw [List.length_cons, List.cons_append, hexFrom?, hexDigit?_of_isHexDigit hd, Option.bind_some,
      ih, List.foldl_cons, Nat.add_comm]

namespace WritesHex
variable {count value : Nat} {cs : List Char}

theorem hex? (h : WritesHex count value cs) (rest : List Char) :
    hex? count (cs ++ rest) = some value := by
  obtain ⟨ds, hds, rfl, rfl⟩ := h
  rw [Text.hex?, hexFrom?_of_digits hds, Nat.ofDigits_eq_foldr, List.foldr_reverse]
  rfl

theorem length (h : WritesHex count value cs) : cs.length = count := by
  obtain ⟨ds, hds, rfl, -⟩ := h
  exact hds.length_eq.symm

end WritesHex

/-! ### Characters -/

/-- The text is a way to write the character. -/
inductive Encodes (c : Char) : List Char → Prop
  | verbatim : c ≠ '\\' → Encodes c [c]
  | short {cs : List Char} : WritesHex 4 c.toNat cs → Encodes c ('\\' :: 'u' :: cs)
  | long {cs : List Char} : WritesHex 8 c.toNat cs → Encodes c ('\\' :: 'U' :: cs)
  /-- Two escapes, one for each half of a pair of surrogates. -/
  | pair {high low : Nat} {cs cs' : List Char} : isHighSurrogate high = true →
      isLowSurrogate low = true → c.toNat = 0x10000 + (high - 0xD800) * 0x400 + (low - 0xDC00) →
      WritesHex 4 high cs → WritesHex 4 low cs' →
      Encodes c ('\\' :: 'u' :: (cs ++ '\\' :: 'u' :: cs'))

theorem scalar?_toNat (c : Char) : scalar? c.toNat = some c := by
  have hvalid : c.toNat.isValidChar := c.valid
  rw [scalar?, dif_pos hvalid]
  exact congrArg some (Char.ext rfl)

theorem not_isHighSurrogate_toNat (c : Char) : isHighSurrogate c.toNat = false := by
  have hvalid : c.toNat.isValidChar := c.valid
  have : c.toNat < 0xD800 ∨ 0xDFFF < c.toNat ∧ c.toNat < 0x110000 := hvalid
  simp only [isHighSurrogate, Bool.and_eq_false_iff, decide_eq_false_iff_not]
  omega

theorem escape?_of_ne {c : Char} (h : c ≠ '\\') (rest : List Char) :
    escape? (c :: rest) = none := by
  unfold escape?
  split
  next heq => exact absurd (List.cons.inj heq).1 h
  next heq => exact absurd (List.cons.inj heq).1 h
  next => rfl

theorem lowSurrogate?_of_writesHex {low : Nat} {cs : List Char} (hlow : isLowSurrogate low = true)
    (h : WritesHex 4 low cs) (rest : List Char) :
    lowSurrogate? ('\\' :: 'u' :: (cs ++ rest)) = some low := by
  rw [lowSurrogate?, h.hex?, Option.filter_some, if_pos hlow]

/-- A character that is not written as it is, is written as an escape. -/
theorem Encodes.escape? {c : Char} {code : List Char} (h : Encodes c code) :
    code = [c] ∧ c ≠ '\\' ∨
      0 < code.length ∧ ∀ rest, escape? (code ++ rest) = some ⟨c, code.length⟩ := by
  cases h with
  | verbatim hc => exact .inl ⟨rfl, hc⟩
  | @short cs hcs =>
    refine .inr ⟨Nat.succ_pos _, fun rest => ?_⟩
    have hlength : ('\\' :: 'u' :: cs).length = 6 := congrArg (· + 2) hcs.length
    rw [hlength, List.cons_append, List.cons_append, Text.escape?, hcs.hex?, Option.bind_some,
      not_isHighSurrogate_toNat, if_neg (by decide), scalar?_toNat]
    rfl
  | @long cs hcs =>
    refine .inr ⟨Nat.succ_pos _, fun rest => ?_⟩
    have hlength : ('\\' :: 'U' :: cs).length = 10 := congrArg (· + 2) hcs.length
    rw [hlength, List.cons_append, List.cons_append, Text.escape?, hcs.hex?, Option.bind_some,
      scalar?_toNat]
    rfl
  | @pair high low cs cs' hhigh hlow hc hcs hcs' =>
    refine .inr ⟨Nat.succ_pos _, fun rest => ?_⟩
    have hlength : ('\\' :: 'u' :: (cs ++ '\\' :: 'u' :: cs')).length = 12 := by
      simp [hcs.length, hcs'.length]
    have hdrop : (cs ++ ('\\' :: 'u' :: cs' ++ rest)).drop 4 = '\\' :: 'u' :: (cs' ++ rest) :=
      hcs.length ▸ List.drop_left
    rw [hlength, List.cons_append, List.cons_append, List.append_assoc, Text.escape?, hcs.hex?,
      Option.bind_some, if_pos hhigh, hdrop, lowSurrogate?_of_writesHex hlow hcs',
      Option.bind_some, ← hc, scalar?_toNat]
    rfl

/-! ### Texts -/

/-- Decoding finds one piece for what a character is written as. -/
theorem pieces_of_encodes {c : Char} {code : List Char} (h : Encodes c code) (rest : List Char) :
    pieces (code ++ rest) = ⟨c, bytes code⟩ :: pieces rest := by
  rcases h.escape? with ⟨rfl, hc⟩ | ⟨hpos, hescape⟩
  · rw [List.singleton_append, pieces, piecesFrom, escape?_of_ne hc]
    rfl
  · have hbytes : bytes code = code.length := by
      have := (startsAscii_of_escape (hescape [])).1.bytes_take
      rwa [List.append_nil, List.take_length] at this
    obtain ⟨d, ds, rfl⟩ := List.exists_cons_of_length_pos hpos
    rw [List.cons_append, pieces, piecesFrom, ← List.cons_append, hescape]
    simp only [piecesFrom_eq_drop, List.length_cons, Nat.add_sub_cancel, List.drop_left, hbytes]

section
variable {s : List Char} {codes : List (List Char)}

theorem pieces_append (h : List.Forall₂ Encodes s codes) (rest : List Char) :
    pieces (codes.flatten ++ rest) = pieces codes.flatten ++ pieces rest := by
  induction h with
  | nil => rfl
  | cons hc _ ih =>
    rw [List.flatten_cons, List.append_assoc, pieces_of_encodes hc, pieces_of_encodes hc, ih,
      List.cons_append]

theorem decoded_pieces (h : List.Forall₂ Encodes s codes) : decoded (pieces codes.flatten) = s := by
  induction h with
  | nil => rfl
  | @cons c _ _ _ hc _ ih =>
    rw [List.flatten_cons, pieces_of_encodes hc]
    exact congrArg (c :: ·) ih

/-- **Whatever way each character of a text is written, decoding leads back to the text, and
the escape map from every boundary of it to the place between the same characters as they
are written.** -/
theorem unescape_encoded (h : List.Forall₂ Encodes s codes) :
    (unescape codes.flatten).text = s ∧
      ∀ i, (unescape codes.flatten).escapes.toRaw (bytes (s.take i)) =
        bytes (codes.take i).flatten := by
  refine ⟨decoded_pieces h, fun i => ?_⟩
  have hfront := List.forall₂_take i h
  have hsplit : codes.flatten = (codes.take i).flatten ++ (codes.drop i).flatten := by
    rw [← List.flatten_append, List.take_append_drop]
  show (EscapeMap.ofPieces (pieces codes.flatten)).toRaw _ = _
  rw [hsplit, pieces_append hfront, ← decoded_pieces hfront]
  exact EscapeMap.toRaw_bytes (written_pieces _)

/-- A backslash, an emoji as a pair of surrogates and as it is, and a letter. -/
theorem unescape_encoded_emoji :
    let s := ['\\', '😀', '😀', 'a']
    let codes := ["\\U0000005C".toList, "\\uD83d\\uDE00".toList, ['😀'], "\\u0061".toList]
    List.Forall₂ Encodes s codes ∧
      (unescape codes.flatten).text = s ∧
      ∀ i, (unescape codes.flatten).escapes.toRaw (bytes (s.take i)) =
        bytes (codes.take i).flatten := by
  intro s codes
  have h : List.Forall₂ Encodes s codes := by
    refine .cons (.long ⟨[0, 0, 0, 0, 0, 0, 5, 12], by decide, rfl, rfl⟩) (.cons ?_
      (.cons (.verbatim (by decide)) (.cons (.short ⟨[0, 0, 6, 1], by decide, rfl, rfl⟩) .nil)))
    have hhigh : WritesHex 4 0xD83D "D83d".toList := ⟨[13, 8, 3, 13], by decide, rfl, rfl⟩
    have hlow : WritesHex 4 0xDE00 "DE00".toList := ⟨[13, 14, 0, 0], by decide, rfl, rfl⟩
    exact .pair (by decide) (by decide) (by decide) hhigh hlow
  exact ⟨h, unescape_encoded h⟩

end

end GraphLanguages.Text
