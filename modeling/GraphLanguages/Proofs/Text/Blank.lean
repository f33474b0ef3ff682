import Mathlib.Data.List.DropRight
import Mathlib.Data.List.TakeDrop
import GraphLanguages.Text.Blank

/-! White space at the ends of a text, and marks in it.

Trimming looks at the ends of a text only: what is blank there goes (`trim_append`), and nothing
else does (`exists_trim`). A mark divides a text where it stands first (`span_mark`). -/
namespace GraphLanguages.Text
open Unicode

/-! ### Trimming -/

theorem trimStart_cons {c : Char} (h : isSpace c) (cs : List Char) :
    trimStart (c :: cs) = trimStart cs :=
  List.dropWhile_cons_of_pos h

theorem trimEnd_concat {c : Char} (h : isSpace c) (cs : List Char) :
    trimEnd (cs ++ [c]) = trimEnd cs :=
  List.rdropWhile_concat_pos isSpace cs c h

theorem trimEnd_concat_self {c : Char} (h : ¬isSpace c) (cs : List Char) :
    trimEnd (cs ++ [c]) = cs ++ [c] :=
  List.rdropWhile_concat_neg isSpace cs c h

/-- A space at the end goes from either end where there is nothing else. -/
theorem trim_concat {c : Char} (h : isSpace c) (cs : List Char) : trim (cs ++ [c]) = trim cs := by
  induction cs with
  | nil => rw [List.nil_append, trim, trimStart_cons h]; rfl
  | cons d cs ih =>
    by_cases hd : isSpace d
    · rw [trim, List.cons_append, trimStart_cons hd, trim, trimStart_cons hd]
      exact ih
    · rw [trim, trimStart, List.cons_append, List.dropWhile_cons_of_neg hd, ← List.cons_append,
        trimEnd_concat h, trim, trimStart, List.dropWhile_cons_of_neg hd]

theorem dropWhile_isSpace {cs : List Char} (h : ∀ c ∈ cs, ¬isSpace c) :
    cs.dropWhile isSpace = cs := by
  cases cs with
  | nil => rfl
  | cons c cs => exact List.dropWhile_cons_of_neg (h c (.head _))

theorem trim_of_not_isSpace {cs : List Char} (h : ∀ c ∈ cs, ¬isSpace c) : trim cs = cs := by
  rw [trim, trimStart, dropWhile_isSpace h, trimEnd,
    dropWhile_isSpace fun c hc => h c (List.mem_reverse.mp hc), List.reverse_reverse]

/-! ### Blank ends -/

theorem isBlank_concat {c : Char} (h : isSpace c) (cs : List Char) :
    isBlank (cs ++ [c]) = isBlank cs := by
  rw [isBlank, List.all_append, List.all_cons, h]
  simp [isBlank]

/-- What is left of a text is empty if the text is blank. -/
theorem isEmpty_trimEnd (cs : List Char) : (trimEnd cs).isEmpty = isBlank cs := by
  rw [Bool.eq_iff_iff, List.isEmpty_iff, isBlank, List.all_eq_true]
  exact List.rdropWhile_eq_nil_iff

theorem trim_append_blank {after : List Char} (h : isBlank after = true) (cs : List Char) :
    trim (cs ++ after) = trim cs := by
  induction after using List.reverseRecOn with
  | nil => rw [List.append_nil]
  | append_singleton after c ih =>
    have hspace : isSpace c := List.all_eq_true.mp h c (List.mem_append_right _ (.head _))
    rw [isBlank_concat hspace] at h
    rw [← List.append_assoc, trim_concat hspace, ih h]

theorem trim_append {before after : List Char} (hbefore : isBlank before = true)
    (hafter : isBlank after = true) (cs : List Char) : trim (before ++ cs ++ after) = trim cs := by
  rw [trim_append_blank hafter, trim, trimStart,
    List.dropWhile_append_of_pos (List.all_eq_true.mp hbefore), ← trimStart, ← trim]

/-- A text is what trimming leaves of it between blank ends. -/
theorem exists_trimEnd (cs : List Char) : ∃ after, cs = trimEnd cs ++ after ∧ isBlank after = true :=
  ⟨cs.rtakeWhile isSpace, (List.rdropWhile_append_rtakeWhile ..).symm,
    List.all_eq_true.mpr fun _ hc => List.mem_rtakeWhile_imp hc⟩

theorem exists_trim (cs : List Char) :
    ∃ before after, cs = before ++ trim cs ++ after ∧ isBlank before = true ∧
      isBlank after = true := by
  obtain ⟨after, hsplit, hafter⟩ := exists_trimEnd (trimStart cs)
  refine ⟨cs.takeWhile isSpace, after, ?_, List.all_takeWhile, hafter⟩
  rw [List.append_assoc, trim, ← hsplit]
  exact List.takeWhile_append_dropWhile.symm

theorem mem_of_mem_trimEnd {c : Char} {cs : List Char} (h : c ∈ trimEnd cs) : c ∈ cs :=
  (List.rdropWhile_prefix isSpace cs).subset h

theorem trim_trimEnd (cs : List Char) : trim (trimEnd cs) = trim cs := by
  obtain ⟨after, hsplit, hafter⟩ := exists_trimEnd cs
  have htrim := trim_append_blank hafter (trimEnd cs)
  rw [← hsplit] at htrim
  exact htrim.symm

/-- What stands in front of something else than white space stays. -/
theorem trimEnd_append_cons {c : Char} (h : ¬isSpace c) (as bs : List Char) :
    trimEnd (as ++ c :: bs) = as ++ c :: trimEnd bs := by
  induction bs using List.reverseRecOn with
  | nil => exact trimEnd_concat_self h as
  | append_singleton bs d ih =>
    rw [← List.cons_append, ← List.append_assoc]
    by_cases hd : isSpace d
    · rw [trimEnd_concat hd, trimEnd_concat hd, ih]
    · rw [trimEnd_concat_self hd, trimEnd_concat_self hd, List.append_assoc, List.cons_append]

/-! ### Marks -/

section
variable {mark : Char} {cs : List Char}

theorem ne_mark_of_not_mem (h : mark ∉ cs) : ∀ c ∈ cs, (c != mark) = true := by
  intro c hc
  exact bne_iff_ne.mpr fun heq => h (heq ▸ hc)

theorem span_mark (h : mark ∉ cs) (rest : List Char) :
    (cs ++ mark :: rest).span (· != mark) = (cs, mark :: rest) := by
  rw [List.span_eq_takeWhile_dropWhile, List.takeWhile_append_of_pos (ne_mark_of_not_mem h),
    List.dropWhile_append_of_pos (ne_mark_of_not_mem h)]
  simp

theorem span_no_mark (h : mark ∉ cs) : cs.span (· != mark) = (cs, []) := by
  rw [List.span_eq_takeWhile_dropWhile, List.takeWhile_eq_self_iff.mpr (ne_mark_of_not_mem h),
    List.dropWhile_eq_nil_iff.mpr (ne_mark_of_not_mem h)]

end

end GraphLanguages.Text
