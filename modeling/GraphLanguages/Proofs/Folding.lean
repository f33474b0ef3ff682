import GraphLanguages.Folding
import GraphLanguages.Proofs.Text.Lines

/-! Folding regions and lines.

Folds lie among the lines they were read off, each over more than one of them
(`within_foldsFrom`). These lines are those of the line index, so editors find them where
they look for positions, as long as 32 bits are enough to tell them apart
(`Fold.Within.fold_region`). -/
namespace GraphLanguages.Folding
open Text

/-! ### Where folds lie -/

/-- The last line of a block is the last one known, or one of those that were looked at. -/
theorem blockEnd_bounds (base : Nat) {line last : Nat} (ls : List (List Char)) (h : last < line) :
    last ≤ blockEnd base line last ls ∧ blockEnd base line last ls < line + ls.length := by
  fun_induction blockEnd base line last ls with
  | case1 => exact ⟨Nat.le_refl _, h⟩
  | case2 line last l ls _ ih =>
    have := ih (by omega)
    rw [List.length_cons]
    omega
  | case3 => exact ⟨Nat.le_refl _, by rw [List.length_cons]; omega⟩
  | case4 line last l ls _ _ ih =>
    have := ih (by omega)
    rw [List.length_cons]
    omega

theorem indented?_bounds {line last : Nat} {opening : List Char} {ls : List (List Char)}
    (h : indented? line opening ls = some last) : line < last ∧ last < line + 1 + ls.length := by
  cases ls with
  | nil => cases h
  | cons next rest =>
    rw [indented?] at h
    split at h
    next => cases h
    next =>
      cases h
      have := blockEnd_bounds (depth opening) rest (show line + 1 < line + 2 by omega)
      rw [List.length_cons]
      omega

/-- The fold lies between these lines, the second of which is none of its own. -/
structure Fold.Within (f : Fold) (first stop : Nat) : Prop where
  first : first ≤ f.first
  ordered : f.first < f.last
  last : f.last < stop

theorem within_foldsFrom (keywords : List String) (line claimed : Nat) (ls : List (List Char)) :
    ∀ f ∈ foldsFrom keywords line claimed ls, f.Within line (line + ls.length) := by
  fun_induction foldsFrom keywords line claimed ls with
  | case1 => exact fun f hf => by cases hf
  | case2 line claimed l ls ih =>
    intro f hf
    obtain ⟨hfirst, hordered, hlast⟩ := ih f hf
    exact ⟨by omega, hordered, by rw [List.length_cons]; omega⟩
  | case3 line l ls run hrun ih =>
    have hle : run ≤ (l :: ls).length := (List.takeWhile_prefix _).length_le
    rw [List.length_cons] at hle ⊢
    intro f hf
    rcases List.mem_cons.mp hf with rfl | hf
    · exact ⟨Nat.le_refl _, by show line < line + run - 1; omega,
        by show line + run - 1 < _; omega⟩
    · obtain ⟨hfirst, hordered, hlast⟩ := ih f hf
      exact ⟨by omega, hordered, by omega⟩
  | case4 line l ls run hrun ih =>
    rw [List.length_cons]
    intro f hf
    rcases List.mem_append.mp hf with hf | hf
    · obtain ⟨last, hlast, rfl⟩ := Option.map_eq_some_iff.mp (Option.mem_toList.mp hf)
      have hbounds := indented?_bounds hlast
      exact ⟨Nat.le_refl _, hbounds.1, by show last < _; omega⟩
    · obtain ⟨hfirst, hordered, hlast⟩ := ih f hf
      exact ⟨by omega, hordered, by omega⟩

theorem within_folds {keywords : List String} {cs : List Char} :
    ∀ f ∈ folds keywords cs, f.Within 0 (lines cs).length := by
  intro f hf
  rw [← Nat.zero_add (lines cs).length]
  exact within_foldsFrom keywords 0 0 (lines cs) f hf

/-! ### What regions tell -/

/-- The lines whose numbers the region tells. -/
def Region.fold (r : Region) : Fold :=
  ⟨r.first, r.last, r.kind⟩

theorem Region.region_fold (r : Region) : r.fold.region = r := by
  obtain ⟨first, last, kind, hfirst, hlast⟩ := r
  simp only [Region.fold, Fold.region, Nat.mod_eq_of_lt hfirst, Nat.mod_eq_of_lt hlast]

/-- Among no more lines than 32 bits count, the region of a fold tells its lines. -/
theorem Fold.Within.fold_region {f : Fold} {first stop : Nat} (h : f.Within first stop)
    (hstop : stop ≤ UInt32.size) : f.region.fold = f := by
  have hlast : f.last < UInt32.size := Nat.lt_of_lt_of_le h.last hstop
  have hfirst : f.first < UInt32.size := h.ordered.trans hlast
  simp only [Region.fold, Fold.region, Nat.mod_eq_of_lt hfirst, Nat.mod_eq_of_lt hlast]

/-! ### Regions and positions -/

/-- **Folding and positions count the same lines.** The lines that are folded are as many as
those of the index, and the one of a number is the line of that number without its end, where
positions of that line lead. A region is that of a fold from one of them to a later one, and
tells these two where 32 bits are enough to count the lines. -/
theorem lines_of_positions (s : String) (keywords : List String) :
    (lines s.toList).length = (LineIndex.ofText s).lineCount ∧
      (∀ n line, (lines s.toList)[n]? = some line →
        ∃ start stop ending, (LineIndex.ofText s).Shows n start stop line ending) ∧
      ∀ r ∈ regions keywords s.toList, ∃ f : Fold, f.region = r ∧
        f.Within 0 (LineIndex.ofText s).lineCount ∧
        ((LineIndex.ofText s).lineCount ≤ UInt32.size → r.fold = f) := by
  refine ⟨LineIndex.length_lines s, fun n line => LineIndex.shows_of_getElem?_lines, ?_⟩
  intro r hr
  obtain ⟨f, hf, rfl⟩ := List.mem_map.mp hr
  have hwithin := within_folds f hf
  rw [LineIndex.length_lines] at hwithin
  exact ⟨f, rfl, hwithin, hwithin.fold_region⟩

/-- A block goes on over a blank line between a carriage return and a pair. -/
theorem lines_of_positions_mixed :
    let s := "a\n b\r\r\n c\r\n"
    let r : Region := { first := 0, last := 3, kind := .indentation }
    (lines s.toList).length = (LineIndex.ofText s).lineCount ∧
      (lines s.toList)[3]? = some [' ', 'c'] ∧
      (∃ start stop ending, (LineIndex.ofText s).Shows 3 start stop [' ', 'c'] ending) ∧
      r ∈ regions [] s.toList ∧ (LineIndex.ofText s).lineCount ≤ UInt32.size ∧
      r.fold.Within 0 (LineIndex.ofText s).lineCount := by
  intro s r
  have hline : (lines s.toList)[3]? = some [' ', 'c'] := by decide
  have hregion : r ∈ regions [] s.toList := by decide
  have hcount : (LineIndex.ofText s).lineCount ≤ UInt32.size := by decide
  obtain ⟨hlength, hshows, hregions⟩ := lines_of_positions s []
  obtain ⟨f, -, hwithin, hfold⟩ := hregions r hregion
  refine ⟨hlength, hline, hshows 3 _ hline, hregion, hcount, ?_⟩
  rw [hfold hcount]
  exact hwithin

end GraphLanguages.Folding
