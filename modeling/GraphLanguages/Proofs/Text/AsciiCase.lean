import Mathlib.Data.List.Forall2
import GraphLanguages.Text.AsciiCase

/-! Letters and words in any ASCII case.

A letter has two forms at most (`eq_of_sameLetter`). Two words that a text begins with
agree as far as both reach (`agree_of_after`). -/
namespace GraphLanguages.Text

/-! ### Letters -/

theorem toUpper_toLower {c : Char} (h : c.val ≥ 'A'.val ∧ c.val ≤ 'Z'.val) :
    c.toLower.toUpper = c := by
  have hlower : c.toLower.val = c.val + 32 := congrArg Char.val (dif_pos h)
  have hrange : 'a'.val ≤ c.toLower.val ∧ c.toLower.val ≤ 'z'.val := by
    have hA : ('A'.val).toNat = 65 := rfl
    have hZ : ('Z'.val).toNat = 90 := rfl
    have ha : ('a'.val).toNat = 97 := rfl
    have hz : ('z'.val).toNat = 122 := rfl
    have h32 : (32 : UInt32).toNat = 32 := rfl
    simp only [hlower, UInt32.le_iff_toNat_le, ge_iff_le, UInt32.toNat_add, hA, hZ, ha, hz,
      h32] at h ⊢
    omega
  have hupper : c.toLower.toUpper = _ := dif_pos hrange
  rw [hupper]
  apply Char.ext
  show c.toLower.val + ('A'.val - 'a'.val) = c.val
  rw [hlower, UInt32.add_assoc]
  exact UInt32.add_zero _

/-- The forms of a letter. -/
def bothCases (w : Char) : List Char :=
  [w, w.toLower, w.toUpper]

theorem eq_of_sameLetter {w c : Char} (h : sameLetter w c = true) : c ∈ bothCases w := by
  have h : w.toLower = c.toLower := by simpa [sameLetter] using h
  suffices c = w ∨ c = w.toLower ∨ c = w.toUpper by simpa [bothCases] using this
  by_cases hc : c.val ≥ 'A'.val ∧ c.val ≤ 'Z'.val
  · by_cases hw : w.val ≥ 'A'.val ∧ w.val ≤ 'Z'.val
    · left
      rw [← toUpper_toLower hc, ← h, toUpper_toLower hw]
    · have hlower : w.toLower = w := dif_neg hw
      right
      right
      rw [← toUpper_toLower hc, ← h, hlower]
  · have hlower : c.toLower = c := dif_neg hc
    right
    left
    rw [h, hlower]

theorem sameLetter_of_common {a b c : Char} (ha : sameLetter a c = true)
    (hb : sameLetter b c = true) : sameLetter a b = true := by
  have ha : a.toLower = c.toLower := by simpa [sameLetter] using ha
  have hb : b.toLower = c.toLower := by simpa [sameLetter] using hb
  simp [sameLetter, ha, hb]

/-! ### Words -/

/-- The text is the word in some case. -/
def Spells (word u : List Char) : Prop :=
  List.Forall₂ (fun w c => sameLetter w c = true) word u

theorem sameIgnoringCase_iff {word u : List Char} :
    sameIgnoringCase u word = true ↔ Spells word u := by
  induction u generalizing word with
  | nil =>
    cases word with
    | nil => exact ⟨fun _ => .nil, fun _ => rfl⟩
    | cons w ws => exact ⟨nofun, nofun⟩
  | cons c cs ih =>
    cases word with
    | nil => exact ⟨nofun, nofun⟩
    | cons w ws =>
      have hletter : sameLetter c w = sameLetter w c := Bool.beq_comm
      rw [sameIgnoringCase, Bool.and_eq_true, hletter, ih, Spells, Spells, List.forall₂_cons]

theorem spells_of_after {word cs rest : List Char} (h : afterIgnoringCase? word cs = some rest) :
    ∃ u, Spells word u ∧ cs = u ++ rest := by
  induction word generalizing cs with
  | nil => exact ⟨[], .nil, Option.some.inj h⟩
  | cons w ws ih =>
    cases cs with
    | nil => cases h
    | cons c cs =>
      rw [afterIgnoringCase?] at h
      split at h
      next hw =>
        obtain ⟨u, hu, rfl⟩ := ih h
        exact ⟨c :: u, .cons hw hu, rfl⟩
      next => cases h

/-- The words have the same letters as far as both reach. -/
def agree (a b : List Char) : Bool :=
  (a.zip b).all fun p => sameLetter p.1 p.2

theorem agree_of_after {a b cs : List Char} (ha : (afterIgnoringCase? a cs).isSome = true)
    (hb : (afterIgnoringCase? b cs).isSome = true) : agree a b = true := by
  induction a generalizing b cs with
  | nil => rfl
  | cons a as ih =>
    cases b with
    | nil => rfl
    | cons b bs =>
      cases cs with
      | nil => cases ha
      | cons c cs =>
        rw [afterIgnoringCase?] at ha hb
        split at ha
        next hac =>
          split at hb
          next hbc =>
            simp only [agree, List.zip_cons_cons, List.all_cons, Bool.and_eq_true]
            exact ⟨sameLetter_of_common hac hbc, ih ha hb⟩
          next => cases hb
        next => cases ha

theorem after_of_isPrefixOf {word cs : List Char} (h : word.isPrefixOf cs = true) :
    (afterIgnoringCase? word cs).isSome = true := by
  induction word generalizing cs with
  | nil => rfl
  | cons w ws ih =>
    cases cs with
    | nil => cases h
    | cons c cs =>
      simp only [List.isPrefixOf_cons_cons, Bool.and_eq_true, beq_iff_eq] at h
      obtain ⟨rfl, h⟩ := h
      rw [afterIgnoringCase?, sameLetter, if_pos (beq_self_eq_true _)]
      exact ih h

end GraphLanguages.Text
