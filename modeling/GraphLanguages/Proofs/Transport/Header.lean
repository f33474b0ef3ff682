import GraphLanguages.Proofs.Text.AnyCase
import GraphLanguages.Proofs.Text.Blank
import GraphLanguages.Proofs.Text.Numeral
import GraphLanguages.Transport.Frame

/-! Header lines.

A header line tells a length (`TellsLength`), or it has nothing to do with it (`Unrelated`): no
name in front of a colon is that of the length, in any case of its letters. White space around
the name and the value makes no difference, nor does any at the end of the line
(`ofLine_trimEnd`). -/
namespace GraphLanguages.Transport
open Text Unicode

/-- The name of the header that tells the length, in any case, with white space around it. -/
structure NamesLength (cs : List Char) : Prop where
  split : ∃ before name after, cs = before ++ name ++ after ∧ isBlank before = true ∧
    Spells "content-length".toList name ∧ isBlank after = true

/-- A line that tells this length. -/
structure TellsLength (n : Nat) (line : List Char) : Prop where
  split : ∃ name before digits after, line = name ++ ':' :: (before ++ digits ++ after) ∧
    NamesLength name ∧ isBlank before = true ∧ IsNumeral n digits ∧ isBlank after = true

/-- A line that is not blank and has another name, or none. -/
structure Unrelated (line : List Char) : Prop where
  not_blank : isBlank line = false
  name : ∀ name value, line = name ++ ':' :: value → ¬NamesLength name

/-! ### Names -/

theorem not_isSpace_of_spells {name : List Char} (h : Spells "content-length".toList name) :
    ∀ c ∈ name, ¬isSpace c = true :=
  caseBlind_isSpace.not_of_spells h (by decide)

theorem colon_not_mem_of_spells {name : List Char} (h : Spells "content-length".toList name) :
    ':' ∉ name := by
  have hblind : CaseBlind (· == ':') := by decide
  exact fun hmem => hblind.not_of_spells h (by decide) ':' hmem rfl

theorem colon_not_mem_of_isBlank {cs : List Char} (h : isBlank cs = true) : ':' ∉ cs := by
  intro hmem
  have hspace : isSpace ':' = true := List.all_eq_true.mp h ':' hmem
  exact absurd hspace (by decide)

theorem NamesLength.colon_not_mem {cs : List Char} (h : NamesLength cs) : ':' ∉ cs := by
  obtain ⟨before, name, after, rfl, hbefore, hname, hafter⟩ := h.split
  rw [List.mem_append, List.mem_append, not_or, not_or]
  exact ⟨⟨colon_not_mem_of_isBlank hbefore, colon_not_mem_of_spells hname⟩,
    colon_not_mem_of_isBlank hafter⟩

theorem namesLength_iff {cs : List Char} :
    NamesLength cs ↔ sameIgnoringCase (trim cs) "content-length".toList = true := by
  rw [sameIgnoringCase_iff]
  constructor
  · intro h
    obtain ⟨before, name, after, rfl, hbefore, hname, hafter⟩ := h.split
    rw [trim_append hbefore hafter, trim_of_not_isSpace (not_isSpace_of_spells hname)]
    exact hname
  · intro h
    obtain ⟨before, after, hcs, hbefore, hafter⟩ := exists_trim cs
    exact ⟨before, trim cs, after, hcs, hbefore, h, hafter⟩

/-! ### Lines -/

theorem ofLine_of_not_mem {line : List Char} (h : ':' ∉ line) : Header.ofLine line = .other := by
  simp only [Header.ofLine, span_no_mark h]

theorem ofLine_colon {name : List Char} (h : ':' ∉ name) (value : List Char) :
    Header.ofLine (name ++ ':' :: value) =
      if sameIgnoringCase (trim name) "content-length".toList then
        (unsigned? maxWord (trim value)).elim .badLength .length
      else .other := by
  cases hvalue : unsigned? maxWord (trim value) <;>
    simp only [Header.ofLine, span_mark h, hvalue, Option.elim]

/-- White space at the end of a line stands behind the value, if there is one. -/
theorem ofLine_trimEnd (line : List Char) : Header.ofLine (trimEnd line) = Header.ofLine line := by
  by_cases hmem : ':' ∈ line
  · obtain ⟨name, value, rfl, hname⟩ := List.eq_append_cons_of_mem hmem
    have hcolon : ¬isSpace ':' = true := by decide
    rw [trimEnd_append_cons hcolon, ofLine_colon hname, ofLine_colon hname, trim_trimEnd]
  · have htrim : ':' ∉ trimEnd line := fun h => hmem (mem_of_mem_trimEnd h)
    rw [ofLine_of_not_mem hmem, ofLine_of_not_mem htrim]

theorem not_isSpace_of_isDigit {c : Char} (h : c.isDigit) : ¬isSpace c := by
  have := toNat_of_isDigit h
  simp only [isSpace, Bool.or_eq_true, Bool.and_eq_true, decide_eq_true_eq]
  omega

theorem TellsLength.ofLine_eq {n : Nat} {line : List Char} (h : TellsLength n line)
    (hn : n ≤ maxWord) : Header.ofLine line = .length n := by
  obtain ⟨name, before, digits, after, rfl, hname, hbefore, hdigits, hafter⟩ := h.split
  have hspace : ∀ c ∈ digits, ¬isSpace c = true := fun c hc =>
    not_isSpace_of_isDigit (hdigits.isDigit c hc)
  have hvalue : unsigned? maxWord (trim (before ++ digits ++ after)) = some n := by
    rw [trim_append hbefore hafter, trim_of_not_isSpace hspace, hdigits.unsigned?_eq hn]
  rw [ofLine_colon hname.colon_not_mem, if_pos (namesLength_iff.mp hname), hvalue, Option.elim]

theorem TellsLength.not_blank {n : Nat} {line : List Char} (h : TellsLength n line) :
    isBlank line = false := by
  obtain ⟨name, before, digits, after, rfl, -⟩ := h.split
  rw [← Bool.not_eq_true]
  intro hblank
  exact colon_not_mem_of_isBlank hblank (List.mem_append_right name (.head _))

/-- Passed over are the lines where no name in front of a colon is that of the length. -/
theorem ofLine_eq_other_iff {line : List Char} :
    Header.ofLine line = .other ↔
      ∀ name value, line = name ++ ':' :: value → ¬NamesLength name := by
  constructor
  · intro hother name value hsplit hname
    rw [hsplit, ofLine_colon hname.colon_not_mem, if_pos (namesLength_iff.mp hname)] at hother
    cases hvalue : unsigned? maxWord (trim value) <;> rw [hvalue] at hother <;> cases hother
  · intro hnames
    by_cases hmem : ':' ∈ line
    · obtain ⟨name, value, rfl, hname⟩ := List.eq_append_cons_of_mem hmem
      have hother := mt namesLength_iff.mpr (hnames name value rfl)
      rw [ofLine_colon hname, if_neg hother]
    · exact ofLine_of_not_mem hmem

theorem unrelated_iff {line : List Char} :
    Unrelated line ↔ isBlank line = false ∧ Header.ofLine line = .other :=
  ⟨fun h => ⟨h.not_blank, ofLine_eq_other_iff.mpr h.name⟩,
    fun h => ⟨h.1, ofLine_eq_other_iff.mp h.2⟩⟩

instance (line : List Char) : Decidable (Unrelated line) :=
  decidable_of_iff _ unrelated_iff.symm

end GraphLanguages.Transport
