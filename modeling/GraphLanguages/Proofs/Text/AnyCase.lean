import GraphLanguages.Text.LineIndex
import GraphLanguages.Unicode.Space
import GraphLanguages.Proofs.Text.AsciiCase

/-! Texts that differ in the case of letters.

Whatever is the same for both forms of every letter (`CaseBlind`) is the same for texts that
spell the same: how many bytes they have, where their characters and lines begin, and which
position an offset has (`position_of_spells`). -/
namespace GraphLanguages.Text

/-! ### Functions of characters -/

def capitals : List Char :=
  "ABCDEFGHIJKLMNOPQRSTUVWXYZ".toList

theorem mem_capitals {c : Char} (h : c.val ≥ 'A'.val ∧ c.val ≤ 'Z'.val) : c ∈ capitals := by
  have hall : ∀ n : Fin 26, Char.ofNat (65 + n) ∈ capitals := by decide
  have hA : ('A'.val).toNat = 65 := rfl
  have hZ : ('Z'.val).toNat = 90 := rfl
  simp only [UInt32.le_iff_toNat_le, ge_iff_le, hA, hZ] at h
  have hn : c.toNat - 65 < 26 := by
    show c.val.toNat - 65 < 26
    omega
  have hc : 65 + (c.toNat - 65) = c.toNat := by
    show 65 + (c.val.toNat - 65) = c.val.toNat
    omega
  have hmem : Char.ofNat (65 + (c.toNat - 65)) ∈ capitals := hall ⟨c.toNat - 65, hn⟩
  rwa [hc, Char.ofNat_toNat] at hmem

/-- The function gives the same for both forms of every letter. -/
def CaseBlind {α : Type} (f : Char → α) : Prop :=
  ∀ c ∈ capitals, f c.toLower = f c

instance {α : Type} [DecidableEq α] (f : Char → α) : Decidable (CaseBlind f) :=
  List.decidableBAll (fun c => f c.toLower = f c) capitals

namespace CaseBlind
variable {α : Type} {f : Char → α} {p : Char → Bool} {a b : Char} {cs cs' : List Char}

theorem toLower (hf : CaseBlind f) (c : Char) : f c.toLower = f c := by
  by_cases h : c.val ≥ 'A'.val ∧ c.val ≤ 'Z'.val
  · exact hf c (mem_capitals h)
  · exact congrArg f (dif_neg h)

theorem eq (hf : CaseBlind f) (h : sameLetter a b = true) : f a = f b := by
  have hlower : a.toLower = b.toLower := by simpa [sameLetter] using h
  rw [← hf.toLower a, hlower, hf.toLower b]

theorem any_eq (hp : CaseBlind p) (h : Spells cs cs') : cs.any p = cs'.any p := by
  induction h with
  | nil => rfl
  | cons hc _ ih => rw [List.any_cons, List.any_cons, hp.eq hc, ih]

theorem not_of_spells (hp : CaseBlind p) (h : Spells cs cs') (hcs : cs.any p = false) :
    ∀ c ∈ cs', ¬p c = true := by
  rwa [hp.any_eq h, List.any_eq_false] at hcs

theorem length_takeWhile (hp : CaseBlind p) (h : Spells cs cs') :
    (cs.takeWhile p).length = (cs'.takeWhile p).length := by
  induction h with
  | nil => rfl
  | @cons c c' _ _ hc _ ih =>
    rw [List.takeWhile_cons, List.takeWhile_cons, hp.eq hc]
    split
    · rw [List.length_cons, List.length_cons, ih]
    · rfl

end CaseBlind

theorem caseBlind_utf8Size : CaseBlind Char.utf8Size := by decide

theorem caseBlind_unitsOf : CaseBlind unitsOf := by decide

theorem caseBlind_isSpace : CaseBlind Unicode.isSpace := by decide

theorem caseBlind_lineFeed : CaseBlind fun c => decide (c = '\n') := by decide

theorem caseBlind_carriageReturn : CaseBlind fun c => decide (c = '\r') := by decide

/-! ### Parts of texts -/

variable {cs cs' : List Char}

theorem spells_refl (cs : List Char) : Spells cs cs :=
  List.forall₂_same.mpr fun _ _ => beq_self_eq_true _

theorem isEmpty_of_spells {s s' : String} (h : Spells s.toList s'.toList) :
    s.isEmpty = s'.isEmpty := by
  rw [Bool.eq_iff_iff, String.isEmpty_iff, String.isEmpty_iff, ← String.toList_eq_nil_iff,
    ← String.toList_eq_nil_iff, ← List.length_eq_zero_iff, ← List.length_eq_zero_iff, h.length_eq]

theorem bytes_of_spells (h : Spells cs cs') : bytes cs = bytes cs' := by
  induction h with
  | nil => rfl
  | cons hc _ ih => rw [bytes, bytes, caseBlind_utf8Size.eq hc, ih]

theorem units_of_spells (h : Spells cs cs') : units cs = units cs' := by
  induction h with
  | nil => rfl
  | cons hc _ ih => rw [units, units, caseBlind_unitsOf.eq hc, ih]

theorem dropBytes?_of_spells (h : Spells cs cs') (n : Nat) :
    Option.Rel Spells (dropBytes? n cs) (dropBytes? n cs') := by
  induction h generalizing n with
  | nil =>
    rw [dropBytes?]
    split
    · exact .some .nil
    · exact .none
  | cons hc hcs ih =>
    rw [dropBytes?, dropBytes?, caseBlind_utf8Size.eq hc]
    split
    · exact .some (.cons hc hcs)
    · split
      · exact ih _
      · exact .none

theorem takeBytes?_of_spells (h : Spells cs cs') (n : Nat) :
    Option.Rel Spells (takeBytes? n cs) (takeBytes? n cs') := by
  induction h generalizing n with
  | nil =>
    rw [takeBytes?]
    split
    · exact .some .nil
    · exact .none
  | @cons c c' cs cs' hc hcs ih =>
    rw [takeBytes?, takeBytes?, caseBlind_utf8Size.eq hc]
    split
    · exact .some .nil
    · split
      · have hrest := ih (n - c'.utf8Size)
        generalize takeBytes? (n - c'.utf8Size) cs = part,
          takeBytes? (n - c'.utf8Size) cs' = part' at hrest ⊢
        cases hrest with
        | none => exact .none
        | some hpart => exact .some (.cons hc hpart)
      · exact .none

theorem slice?_of_spells (h : Spells cs cs') (start stop : Nat) :
    Option.Rel Spells (slice? start stop cs) (slice? start stop cs') := by
  unfold slice?
  split
  · have hdrop := dropBytes?_of_spells h start
    generalize dropBytes? start cs = behind, dropBytes? start cs' = behind' at hdrop ⊢
    cases hdrop with
    | none => exact .none
    | some hrest => exact takeBytes?_of_spells hrest (stop - start)
  · exact .none

theorem floorBoundary_of_spells (h : Spells cs cs') (n : Nat) :
    floorBoundary n cs = floorBoundary n cs' := by
  induction h generalizing n with
  | nil => rfl
  | cons hc _ ih => rw [floorBoundary, floorBoundary, caseBlind_utf8Size.eq hc, ih]

/-! ### Lines -/

theorem lineStartsFrom_of_spells (h : Spells cs cs') (offset : Nat) :
    lineStartsFrom offset cs = lineStartsFrom offset cs' := by
  induction h generalizing offset with
  | nil => rfl
  | @cons c c' cs cs' hc hcs ih =>
    have hnext : (cs.head? != some '\n') = (cs'.head? != some '\n') := by
      cases hcs with
      | nil => rfl
      | cons hd _ =>
        have hfeed := decide_eq_decide.mp (caseBlind_lineFeed.eq hd)
        simp [bne, hfeed]
    rw [lineStartsFrom, lineStartsFrom, caseBlind_lineFeed.eq hc, caseBlind_carriageReturn.eq hc,
      caseBlind_utf8Size.eq hc, ih, hnext]

namespace LineIndex
variable {s s' : String}

theorem size_of_spells (h : Spells s.toList s'.toList) : (ofText s).size = (ofText s').size :=
  bytes_of_spells h

theorem position_of_spells (h : Spells s.toList s'.toList) (offset : Nat) :
    (ofText s).position offset = (ofText s').position offset := by
  have hstarts : (ofText s).starts = (ofText s').starts :=
    congrArg (0 :: ·) (lineStartsFrom_of_spells h 0)
  have hfloor : floorBoundary offset (ofText s).text = floorBoundary offset (ofText s').text :=
    floorBoundary_of_spells h offset
  have hunits (start stop : Nat) : units ((slice? start stop (ofText s).text).getD []) =
      units ((slice? start stop (ofText s').text).getD []) := by
    have hslice : Option.Rel Spells (slice? start stop (ofText s).text)
        (slice? start stop (ofText s').text) := slice?_of_spells h start stop
    generalize slice? start stop (ofText s).text = part,
      slice? start stop (ofText s').text = part' at hslice ⊢
    cases hslice with
    | none => rfl
    | some hpart => exact units_of_spells hpart
  simp only [position, hstarts, hfloor, hunits]

theorem span_of_spells (h : Spells s.toList s'.toList) (start stop : Nat) :
    (ofText s).span start stop = (ofText s').span start stop := by
  simp only [span, position_of_spells h]

end LineIndex

end GraphLanguages.Text
