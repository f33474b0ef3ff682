import GraphLanguages.Proofs.Text.Escape

/-! Cutting a raw text.

Whether a text starts with an escape is decided by the characters that the escape is
written with (`escape?_take_append`). So no escape is made or broken by cutting a raw text
between two of its pieces (`pieces_split`), and the escape map leads the boundaries of the
decoded text to such places. What lies between two of them decodes, on its own, to what
lies between the boundaries (`unescape_slice`). -/
namespace GraphLanguages.Text

/-! ### An escape and what follows it -/

theorem hexFrom?_take_append {value n k : Nat} {cs : List Char} (h : hexFrom? value n cs = some k)
    (rest : List Char) : hexFrom? value n (cs.take n ++ rest) = some k := by
  induction n generalizing value cs with
  | zero => exact h
  | succ n ih =>
    cases cs with
    | nil => cases h
    | cons c cs =>
      obtain ⟨d, hd, h⟩ := Option.bind_eq_some_iff.mp h
      rw [List.take_succ_cons, List.cons_append, hexFrom?, hd]
      exact ih h

theorem lowSurrogate?_take_append {cs : List Char} {unit : Nat} (h : lowSurrogate? cs = some unit)
    (rest : List Char) : lowSurrogate? (cs.take 6 ++ rest) = some unit := by
  unfold lowSurrogate? at h
  split at h
  next cs =>
    obtain ⟨hhex, hlow⟩ := Option.filter_eq_some_iff.mp h
    show (hex? 4 (cs.take 4 ++ rest)).filter _ = some unit
    rw [hex?, hexFrom?_take_append hhex]
    exact Option.filter_eq_some_iff.mpr ⟨rfl, hlow⟩
  next => cases h

/-- An escape is one whatever follows it. -/
theorem escape?_take_append {cs : List Char} {p : Piece} (h : escape? cs = some p)
    (rest : List Char) : escape? (cs.take p.width ++ rest) = some p := by
  unfold escape? at h
  split at h
  next cs =>
    obtain ⟨unit, hunit, h⟩ := Option.bind_eq_some_iff.mp h
    split at h
    next hhigh =>
      obtain ⟨low, hlow, h⟩ := Option.bind_eq_some_iff.mp h
      obtain ⟨c, hc, rfl⟩ := Option.map_eq_some_iff.mp h
      have hlength := (startsAscii_of_hexFrom hunit).1
      have hcut : cs.take 10 ++ rest = cs.take 4 ++ ((cs.drop 4).take 6 ++ rest) := by
        rw [← List.append_assoc, ← List.take_add]
      have hdrop : (cs.take 4 ++ ((cs.drop 4).take 6 ++ rest)).drop 4 =
          (cs.drop 4).take 6 ++ rest :=
        List.drop_left' (by rw [List.length_take, Nat.min_eq_left hlength])
      show escape? ('\\' :: 'u' :: (cs.take 10 ++ rest)) = _
      rw [hcut, escape?, hex?, hexFrom?_take_append hunit, Option.bind_some, if_pos hhigh, hdrop,
        lowSurrogate?_take_append hlow, Option.bind_some, hc]
      rfl
    next hhigh =>
      obtain ⟨c, hc, rfl⟩ := Option.map_eq_some_iff.mp h
      show escape? ('\\' :: 'u' :: (cs.take 4 ++ rest)) = _
      rw [escape?, hex?, hexFrom?_take_append hunit, Option.bind_some, if_neg hhigh, hc]
      rfl
  next cs =>
    obtain ⟨code, hcode, h⟩ := Option.bind_eq_some_iff.mp h
    obtain ⟨c, hc, rfl⟩ := Option.map_eq_some_iff.mp h
    show escape? ('\\' :: 'U' :: (cs.take 8 ++ rest)) = _
    rw [escape?, hex?, hexFrom?_take_append hcode, Option.bind_some, hc]
    rfl
  next => cases h

theorem escape?_append {cs : List Char} {p : Piece} (h : escape? cs = some p)
    (rest : List Char) : escape? (cs ++ rest) = some p := by
  have := escape?_take_append h (cs.drop p.width ++ rest)
  rwa [← List.append_assoc, List.take_append_drop] at this

/-! ### Between two pieces -/

theorem pieces_of_escape {cs : List Char} {p : Piece} (h : escape? cs = some p) :
    pieces cs = p :: pieces (cs.drop p.width) := by
  cases cs with
  | nil => cases h
  | cons c cs =>
    have hpos := (startsAscii_of_escape h).2
    obtain ⟨k, hk⟩ : ∃ k, p.width = k + 1 := ⟨p.width - 1, by omega⟩
    rw [pieces, piecesFrom, h]
    simp only [piecesFrom_eq_drop, hk, List.drop_succ_cons, Nat.add_sub_cancel]

theorem pieces_of_verbatim {c : Char} {cs : List Char} (h : escape? (c :: cs) = none) :
    pieces (c :: cs) = ⟨c, c.utf8Size⟩ :: pieces cs := by
  rw [pieces, piecesFrom, h]
  rfl

/-- A text cut between two of its pieces has the pieces on either side. -/
theorem pieces_split {cs : List Char} {ps qs : List Piece} (h : pieces cs = ps ++ qs) :
    ∃ a b, cs = a ++ b ∧ pieces a = ps ∧ pieces b = qs := by
  induction ps generalizing cs with
  | nil => exact ⟨[], cs, rfl, rfl, h⟩
  | cons p ps ih =>
    cases he : escape? cs with
    | some p' =>
      rw [pieces_of_escape he] at h
      obtain ⟨rfl, hrest⟩ := List.cons.inj h
      obtain ⟨a, b, hcut, ha, hb⟩ := ih hrest
      have hlength : (cs.take p'.width).length = p'.width := by
        rw [List.length_take, Nat.min_eq_left (startsAscii_of_escape he).1.1]
      refine ⟨cs.take p'.width ++ a, b, ?_, ?_, hb⟩
      · rw [List.append_assoc, ← hcut, List.take_append_drop]
      · rw [pieces_of_escape (escape?_take_append he a), List.drop_left' hlength, ha]
    | none =>
      cases cs with
      | nil => cases h
      | cons c cs =>
        rw [pieces_of_verbatim he] at h
        obtain ⟨rfl, hrest⟩ := List.cons.inj h
        obtain ⟨a, b, rfl, ha, hb⟩ := ih hrest
        -- the rest of the text turns no escape into a character
        have hverbatim : escape? (c :: a) = none := by
          cases ha : escape? (c :: a) with
          | none => rfl
          | some p => cases he.symm.trans (escape?_append ha b)
        exact ⟨c :: a, b, rfl, by rw [pieces_of_verbatim hverbatim, ha], hb⟩

/-! ### Between two boundaries -/

theorem eq_nil_of_bytes {cs : List Char} (h : bytes cs = 0) : cs = [] := by
  cases cs with
  | nil => rfl
  | cons c cs => exact absurd h (Nat.ne_of_gt (bytes_pos (List.cons_ne_nil c cs)))

/-- The text up to one boundary, between them, and behind the other. -/
theorem exists_between {a b : Nat} {cs : List Char} (ha : IsBoundary a cs) (hb : IsBoundary b cs)
    (hab : a ≤ b) :
    ∃ before part after, cs = before ++ part ++ after ∧ a = bytes before ∧
      b = bytes before + bytes part := by
  obtain ⟨before, after, rfl, rfl⟩ := ha
  obtain ⟨before', after', hcs, rfl⟩ := hb
  rcases List.append_eq_append_iff.mp hcs with ⟨part, rfl, rfl⟩ | ⟨part, rfl, rfl⟩
  · exact ⟨before, part, after', (List.append_assoc ..).symm, rfl, bytes_append ..⟩
  · rw [bytes_append] at hab
    obtain rfl : part = [] := eq_nil_of_bytes (by omega)
    exact ⟨before' ++ [], [], after, by simp, rfl, by simp [bytes]⟩

/-- **The escape map cuts the raw text where the decoded text is cut.** The map keeps the
order of boundaries and leads them to boundaries of the raw text, different ones to
different ones and the end to the end; and what is written between two of them decodes, on
its own, to the text between the boundaries. -/
theorem unescape_slice (raw : List Char) {a b : Nat} (ha : IsBoundary a (unescape raw).text)
    (hb : IsBoundary b (unescape raw).text) (hab : a ≤ b) :
    (unescape raw).escapes.toRaw a ≤ (unescape raw).escapes.toRaw b ∧
      (unescape raw).escapes.toRaw b ≤ bytes raw ∧
      IsBoundary ((unescape raw).escapes.toRaw a) raw ∧
      IsBoundary ((unescape raw).escapes.toRaw b) raw ∧
      ((unescape raw).escapes.toRaw a = (unescape raw).escapes.toRaw b → a = b) ∧
      (unescape raw).escapes.toRaw (bytes (unescape raw).text) = bytes raw ∧
      ∃ part, slice? ((unescape raw).escapes.toRaw a) ((unescape raw).escapes.toRaw b) raw =
          some part ∧
        slice? a b (unescape raw).text = some (unescape part).text := by
  obtain ⟨front, middle, back, htext, rfl, rfl⟩ := exists_between ha hb hab
  obtain ⟨ps, rs, hpieces, hps, -⟩ := List.map_eq_append_iff.mp htext
  obtain ⟨ps, qs, rfl, hfront, hmiddle⟩ := List.map_eq_append_iff.mp hps
  obtain ⟨x, after, hraw, hx, -⟩ := pieces_split hpieces
  obtain ⟨before, part, rfl, hbefore, hpart⟩ := pieces_split hx
  have hstart : (unescape raw).escapes.toRaw (bytes front) = bytes before := by
    have hmap : (EscapeMap.ofPieces (ps ++ (qs ++ rs))).toRaw (bytes (decoded ps)) =
        bytes before := EscapeMap.toRaw_bytes (hbefore ▸ written_pieces before)
    rwa [← List.append_assoc, ← hpieces, decoded, hfront] at hmap
  have hstop : (unescape raw).escapes.toRaw (bytes front + bytes middle) =
      bytes before + bytes part := by
    have hmap : (EscapeMap.ofPieces (ps ++ qs ++ rs)).toRaw (bytes (decoded (ps ++ qs))) =
        bytes (before ++ part) := EscapeMap.toRaw_bytes (hx ▸ written_pieces (before ++ part))
    rwa [← hpieces, decoded, List.map_append, hfront, hmiddle, bytes_append, bytes_append] at hmap
  rw [hstart, hstop]
  refine ⟨Nat.le_add_right .., ?_, ⟨before, part ++ after, by rw [hraw, List.append_assoc], rfl⟩,
    ⟨before ++ part, after, hraw, (bytes_append ..).symm⟩, fun heq => ?_,
    toRaw_bytes_unescape raw, part, ?_, ?_⟩
  · rw [hraw, bytes_append, bytes_append]
    omega
  · -- nothing is written between the two, so nothing lies between them
    obtain rfl : part = [] := eq_nil_of_bytes (by omega)
    obtain rfl : qs = [] := hpart.symm
    rw [← hmiddle]
    rfl
  · rw [hraw]
    exact slice?_append before part after
  · have hdecoded : (unescape part).text = middle := by
      rw [← hmiddle, ← hpart]
      rfl
    rw [htext, hdecoded]
    exact slice?_append front middle back

/-- A stray backslash before an escape, half of a pair of surrogates, and a whole pair. -/
theorem unescape_slice_surrogates :
    let raw := "\\\\u0041\\uD83Dé\\uD83D\\uDE00\\u00".toList
    IsBoundary 1 (unescape raw).text ∧ IsBoundary 14 (unescape raw).text ∧
      (unescape raw).escapes.toRaw 1 = 1 ∧ (unescape raw).escapes.toRaw 14 = 27 ∧
      ∃ part, slice? 1 27 raw = some part ∧
        slice? 1 14 (unescape raw).text = some (unescape part).text := by
  intro raw
  have htext : (unescape raw).text = ['\\'] ++ "A\\uD83Dé😀".toList ++ "\\u00".toList := by decide
  have hstart : IsBoundary 1 (unescape raw).text := ⟨['\\'], _, htext, by decide⟩
  have hstop : IsBoundary 14 (unescape raw).text := ⟨_, "\\u00".toList, htext, by decide⟩
  have h1 : (unescape raw).escapes.toRaw 1 = 1 := by decide
  have h14 : (unescape raw).escapes.toRaw 14 = 27 := by decide
  have hslice := unescape_slice raw hstart hstop (by decide)
  rw [h1, h14] at hslice
  exact ⟨hstart, hstop, h1, h14, hslice.2.2.2.2.2.2⟩

end GraphLanguages.Text
