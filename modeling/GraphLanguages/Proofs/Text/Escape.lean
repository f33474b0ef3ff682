import GraphLanguages.Proofs.Text.Bytes
import GraphLanguages.Text.Escape

/-! Decoded text and the way back.

The raw text is that of its pieces, one after another (`written_pieces`), and the escape
map leads from the end of some decoded characters to the end of the pieces they come
from (`toRaw_bytes`). A text without escapes decodes to itself. -/
namespace GraphLanguages.Text

/-! ### Escapes are written in ASCII -/

/-- The text starts with this many ASCII characters. -/
def StartsAscii (n : Nat) (cs : List Char) : Prop :=
  n ≤ cs.length ∧ ∀ c ∈ cs.take n, c.utf8Size = 1

namespace StartsAscii
variable {n m : Nat} {c : Char} {cs : List Char}

theorem zero (cs : List Char) : StartsAscii 0 cs :=
  ⟨Nat.zero_le _, by simp⟩

theorem cons (hc : c.utf8Size = 1) (h : StartsAscii n cs) : StartsAscii (n + 1) (c :: cs) :=
  ⟨Nat.succ_le_succ h.1, by simpa [hc] using h.2⟩

theorem add (h : StartsAscii n cs) (h' : StartsAscii m (cs.drop n)) :
    StartsAscii (n + m) cs := by
  refine ⟨?_, fun c hc => ?_⟩
  · have := h.1
    have := h'.1
    rw [List.length_drop] at this
    omega
  · rw [List.take_add, List.mem_append] at hc
    exact hc.elim (h.2 c) (h'.2 c)

theorem bytes_take (h : StartsAscii n cs) : bytes (cs.take n) = n := by
  have hsum : ∀ ds : List Char, (∀ c ∈ ds, c.utf8Size = 1) → bytes ds = ds.length := by
    intro ds
    induction ds with
    | nil => exact fun _ => rfl
    | cons d ds ih =>
      intro hd
      rw [bytes, hd d (by simp), ih fun c hc => hd c (by simp [hc]), List.length_cons, Nat.add_comm]
  rw [hsum _ h.2, List.length_take, Nat.min_eq_left h.1]

end StartsAscii

theorem utf8Size_of_hexDigit {c : Char} {d : Nat} (h : hexDigit? c = some d) :
    c.utf8Size = 1 := by
  have hle : c ≤ 'f' := by
    unfold hexDigit? at h
    split at h
    next hc =>
      simp only [Bool.and_eq_true, decide_eq_true_eq] at hc
      exact Char.le_trans hc.2 (by decide)
    next =>
      split at h
      next hc => exact (by simpa using hc : 'a' ≤ c ∧ c ≤ 'f').2
      next =>
        split at h
        next hc =>
          simp only [Bool.and_eq_true, decide_eq_true_eq] at hc
          exact Char.le_trans hc.2 (by decide)
        next => cases h
  rw [Char.utf8Size_eq_one_iff]
  exact UInt32.le_trans (Char.le_def.mp hle) (by decide)

theorem startsAscii_of_hexFrom {value n k : Nat} {cs : List Char}
    (h : hexFrom? value n cs = some k) : StartsAscii n cs := by
  induction n generalizing value cs with
  | zero => exact .zero cs
  | succ n ih =>
    cases cs with
    | nil => cases h
    | cons c cs =>
      obtain ⟨d, hd, h⟩ := Option.bind_eq_some_iff.mp h
      exact .cons (utf8Size_of_hexDigit hd) (ih h)

theorem startsAscii_of_lowSurrogate {cs : List Char} {unit : Nat}
    (h : lowSurrogate? cs = some unit) : StartsAscii 6 cs := by
  unfold lowSurrogate? at h
  split at h
  next cs =>
    obtain ⟨h, -⟩ := Option.filter_eq_some_iff.mp h
    exact .cons rfl (.cons rfl (startsAscii_of_hexFrom h))
  next => cases h

/-- An escape takes up as many ASCII characters as its width says, more than any
character takes bytes. -/
theorem startsAscii_of_escape {cs : List Char} {p : Piece} (h : escape? cs = some p) :
    StartsAscii p.width cs ∧ 4 < p.width := by
  unfold escape? at h
  split at h
  next cs =>
    obtain ⟨unit, hunit, h⟩ := Option.bind_eq_some_iff.mp h
    have hhead : StartsAscii 6 ('\\' :: 'u' :: cs) :=
      .cons rfl (.cons rfl (startsAscii_of_hexFrom hunit))
    split at h
    next =>
      obtain ⟨low, hlow, h⟩ := Option.bind_eq_some_iff.mp h
      obtain ⟨c, -, rfl⟩ := Option.map_eq_some_iff.mp h
      exact ⟨hhead.add (m := 6) (startsAscii_of_lowSurrogate hlow), by simp⟩
    next =>
      obtain ⟨c, -, rfl⟩ := Option.map_eq_some_iff.mp h
      exact ⟨hhead, by simp⟩
  next cs =>
    obtain ⟨code, hcode, h⟩ := Option.bind_eq_some_iff.mp h
    obtain ⟨c, -, rfl⟩ := Option.map_eq_some_iff.mp h
    exact ⟨.cons rfl (.cons rfl (startsAscii_of_hexFrom hcode)), by simp⟩
  next => cases h

/-! ### Pieces -/

/-- The pieces, one after another as they are written, are the text. A piece that loses
no bytes is written as its character. -/
inductive Written : List Piece → List Char → Prop
  | nil : Written [] []
  | cons {p : Piece} {ps : List Piece} {source rest : List Char} : bytes source = p.width →
      p.char.utf8Size ≤ p.width → (p.displaced = 0 → source = [p.char]) → Written ps rest →
      Written (p :: ps) (source ++ rest)

theorem piecesFrom_eq_drop (inside : Nat) (cs : List Char) :
    piecesFrom inside cs = pieces (cs.drop inside) := by
  induction cs generalizing inside with
  | nil => simp [pieces, piecesFrom]
  | cons c cs ih =>
    cases inside with
    | zero => rfl
    | succ inside => exact ih inside

/-- A text is that of its pieces. -/
theorem written_pieces (cs : List Char) : Written (pieces cs) cs := by
  match cs with
  | [] => exact .nil
  | c :: cs =>
    rw [pieces, piecesFrom]
    cases he : escape? (c :: cs) with
    | none =>
      show Written _ ([c] ++ cs)
      exact .cons rfl (Nat.le_refl _) (fun _ => rfl) (written_pieces cs)
    | some p =>
      obtain ⟨hascii, hwidth⟩ := startsAscii_of_escape he
      have hchar := Char.utf8Size_le_four p.char
      have hrest : (c :: cs).drop p.width = cs.drop (p.width - 1) := by
        obtain ⟨k, hk⟩ : ∃ k, p.width = k + 1 := ⟨p.width - 1, by omega⟩
        rw [hk]
        rfl
      have hdisplaced : p.displaced ≠ 0 := by
        unfold Piece.displaced
        omega
      simp only [piecesFrom_eq_drop]
      have := Written.cons hascii.bytes_take (by omega) (fun h => absurd h hdisplaced)
        (written_pieces ((c :: cs).drop p.width))
      rwa [List.take_append_drop, hrest] at this
termination_by cs.length
decreasing_by
  · simp
  · simp only [List.length_drop, List.length_cons]
    omega

/-- The decoded text of some pieces. -/
def decoded (ps : List Piece) : List Char :=
  ps.map Piece.char

/-- The bytes that some pieces lose by decoding. -/
def lost : List Piece → Nat
  | [] => 0
  | p :: ps => p.displaced + lost ps

theorem Written.bytes_eq {ps : List Piece} {cs : List Char} (h : Written ps cs) :
    bytes cs = bytes (decoded ps) + lost ps := by
  induction h with
  | nil => rfl
  | cons hs hw _ _ ih =>
    rw [bytes_append, hs, ih]
    simp only [decoded, List.map_cons, bytes, lost, Piece.displaced]
    omega

theorem decoded_append (ps qs : List Piece) : decoded (ps ++ qs) = decoded ps ++ decoded qs :=
  List.map_append

theorem Written.append {ps qs : List Piece} {a b : List Char} (h : Written ps a)
    (h' : Written qs b) : Written (ps ++ qs) (a ++ b) := by
  induction h with
  | nil => exact h'
  | cons hs hw hd _ ih =>
    rw [List.append_assoc]
    exact .cons hs hw hd ih

theorem Written.split {ps qs : List Piece} {cs : List Char} (h : Written (ps ++ qs) cs) :
    ∃ a b, cs = a ++ b ∧ Written ps a ∧ Written qs b := by
  induction ps generalizing cs with
  | nil => exact ⟨[], cs, rfl, .nil, h⟩
  | cons p ps ih =>
    cases h with
    | cons hs hw hd h =>
      obtain ⟨a, b, rfl, ha, hb⟩ := ih h
      exact ⟨_ ++ a, b, (List.append_assoc ..).symm, .cons hs hw hd ha, hb⟩

/-- Pieces that lose no bytes are written as they are decoded. -/
theorem Written.eq_decoded {ps : List Piece} {cs : List Char} (h : Written ps cs)
    (hl : ∀ p ∈ ps, p.displaced = 0) : cs = decoded ps := by
  induction h with
  | nil => rfl
  | cons _ _ hd _ ih =>
    rw [hd (hl _ (List.mem_cons_self ..)), ih fun p hp => hl p (List.mem_cons_of_mem _ hp)]
    rfl

/-! ### The escape map -/

namespace EscapeMap
variable (position displaced : Nat)

theorem entriesFrom_append (ps qs : List Piece) :
    entriesFrom position displaced (ps ++ qs) =
      entriesFrom position displaced ps ++
        entriesFrom (position + bytes (decoded ps)) (displaced + lost ps) qs := by
  induction ps generalizing position displaced with
  | nil => rfl
  | cons p ps ih =>
    simp only [List.cons_append, entriesFrom, decoded, List.map_cons, bytes, lost, ← Nat.add_assoc]
    split
    · rw [ih]
      rfl
    · rw [ih]
      rfl

theorem lt_position {e : EscapeEntry} {ps : List Piece}
    (h : e ∈ entriesFrom position displaced ps) : position < e.position := by
  induction ps generalizing position displaced with
  | nil => cases h
  | cons p ps ih =>
    have := utf8Size_pos p.char
    simp only [entriesFrom] at h
    split at h
    next => exact Nat.lt_of_le_of_lt (Nat.le_add_right ..) (ih _ _ h)
    next =>
      rcases List.mem_cons.mp h with rfl | h
      · exact Nat.lt_add_of_pos_right this
      · exact Nat.lt_of_le_of_lt (Nat.le_add_right ..) (ih _ _ h)

theorem position_le {e : EscapeEntry} {ps : List Piece}
    (h : e ∈ entriesFrom position displaced ps) :
    e.position ≤ position + bytes (decoded ps) := by
  induction ps generalizing position displaced with
  | nil => cases h
  | cons p ps ih =>
    simp only [entriesFrom] at h
    simp only [decoded, List.map_cons, bytes, ← Nat.add_assoc]
    split at h
    next => exact ih _ _ h
    next =>
      rcases List.mem_cons.mp h with rfl | h
      · exact Nat.le_add_right ..
      · exact ih _ _ h

/-- The last entry knows all bytes lost so far. -/
theorem getLast?_entriesFrom (ps : List Piece) :
    (((entriesFrom position displaced ps).getLast?).map EscapeEntry.displaced).getD displaced =
      displaced + lost ps := by
  induction ps generalizing position displaced with
  | nil => rfl
  | cons p ps ih =>
    have := ih (position + p.char.utf8Size) (displaced + p.displaced)
    simp only [entriesFrom, lost]
    split
    next h => simpa [h, Nat.add_assoc] using this
    next =>
      rw [List.getLast?_cons]
      cases hl : (entriesFrom (position + p.char.utf8Size) (displaced + p.displaced) ps).getLast?
      all_goals
        rw [hl] at this
        simpa [Nat.add_assoc] using this

/-- The end of some decoded characters is led to the end of their pieces. -/
theorem toRaw_bytes {ps qs : List Piece} {cs : List Char} (h : Written ps cs) :
    (ofPieces (ps ++ qs)).toRaw (bytes (decoded ps)) = bytes cs := by
  have htake : (entriesFrom 0 0 (ps ++ qs)).takeWhile (fun e => e.position ≤ bytes (decoded ps)) =
      entriesFrom 0 0 ps := by
    rw [entriesFrom_append, List.takeWhile_append_of_pos fun e he => by
      simpa using position_le 0 0 he]
    simp only [Nat.zero_add]
    cases hq : entriesFrom (bytes (decoded ps)) (lost ps) qs with
    | nil => simp
    | cons e es =>
      have := lt_position _ _ (e := e) (hq ▸ List.mem_cons_self ..)
      rw [List.takeWhile_cons, if_neg (by simpa using this), List.append_nil]
  have hlast := getLast?_entriesFrom 0 0 ps
  rw [h.bytes_eq, toRaw, ofPieces, htake]
  split
  next e he =>
    rw [he] at hlast
    simpa using hlast
  next he =>
    rw [he] at hlast
    simpa using hlast.symm

/-- Without entries no piece loses bytes. -/
theorem displaced_eq_zero {ps : List Piece} (h : (ofPieces ps).isEmpty = true) :
    ∀ p ∈ ps, p.displaced = 0 := by
  have hentries : ∀ position displaced, entriesFrom position displaced ps = [] →
      ∀ p ∈ ps, p.displaced = 0 := by
    clear h
    induction ps with
    | nil => exact fun _ _ _ p hp => by cases hp
    | cons q qs ih =>
      intro position displaced h p hp
      simp only [entriesFrom] at h
      split at h
      next hq =>
        rcases List.mem_cons.mp hp with rfl | hp
        · exact hq
        · exact ih _ _ h p hp
      next => cases h
  exact hentries 0 0 (List.isEmpty_iff.mp h)

end EscapeMap

/-- The map leads the end of the decoded text to the end of the raw one. -/
theorem toRaw_bytes_unescape (raw : List Char) :
    (unescape raw).escapes.toRaw (bytes (unescape raw).text) = bytes raw := by
  have hend : (EscapeMap.ofPieces (pieces raw ++ [])).toRaw (bytes (decoded (pieces raw))) =
      bytes raw := EscapeMap.toRaw_bytes (written_pieces raw)
  rwa [List.append_nil] at hend

/-- A text without escapes decodes to itself. -/
theorem unescape_text {raw : List Char} (h : (unescape raw).escapes.isEmpty = true) :
    (unescape raw).text = raw :=
  ((written_pieces raw).eq_decoded (EscapeMap.displaced_eq_zero h)).symm

end GraphLanguages.Text
