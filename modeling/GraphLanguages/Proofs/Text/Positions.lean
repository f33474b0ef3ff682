import GraphLanguages.Text.LineIndex
import GraphLanguages.Proofs.Text.Cutting
import Mathlib.Order.Bounds.Basic

/-! Lines and columns, there and back.

Whatever ends a line, it is enough that lines start at boundaries, the first at the start
of the text and each behind the one before (`LineIndex.Lawful`). The position of an offset
then lies in the line that the offset is in (`exists_position`), and its column leads back
to the boundary at the offset (`offset_position`). Offsets grow with positions line by line
and column by column; that positions grow with offsets follows, since they lead back. -/
namespace GraphLanguages.Text

/-! ### Boundaries below an offset -/

theorem IsBoundary.zero (cs : List Char) : IsBoundary 0 cs :=
  ⟨[], cs, rfl, rfl⟩

theorem IsBoundary.size (cs : List Char) : IsBoundary (bytes cs) cs :=
  ⟨cs, [], (List.append_nil cs).symm, rfl⟩

theorem IsBoundary.cons {n : Nat} {cs : List Char} (c : Char) (h : IsBoundary n cs) :
    IsBoundary (c.utf8Size + n) (c :: cs) := by
  obtain ⟨before, after, rfl, rfl⟩ := h
  exact ⟨c :: before, after, rfl, rfl⟩

theorem IsBoundary.le_bytes {n : Nat} {cs : List Char} (h : IsBoundary n cs) : n ≤ bytes cs := by
  obtain ⟨before, after, rfl, rfl⟩ := h
  rw [bytes_append]
  exact Nat.le_add_right ..

theorem isBoundary_floorBoundary (n : Nat) (cs : List Char) :
    IsBoundary (floorBoundary n cs) cs := by
  induction cs generalizing n with
  | nil => exact .zero []
  | cons c cs ih =>
    rw [floorBoundary]
    split
    · exact (ih _).cons c
    · exact .zero _

theorem floorBoundary_le (n : Nat) (cs : List Char) : floorBoundary n cs ≤ n := by
  induction cs generalizing n with
  | nil => exact Nat.zero_le n
  | cons c cs ih =>
    rw [floorBoundary]
    split
    · have := ih (n - c.utf8Size)
      omega
    · exact Nat.zero_le n

theorem IsBoundary.le_floorBoundary {b n : Nat} {cs : List Char} (h : IsBoundary b cs)
    (hn : b ≤ n) : b ≤ floorBoundary n cs := by
  obtain ⟨before, after, rfl, rfl⟩ := h
  induction before generalizing n with
  | nil => exact Nat.zero_le _
  | cons c before ih =>
    rw [bytes] at hn
    have hrest : bytes before ≤ n - c.utf8Size := by omega
    rw [List.cons_append, floorBoundary, if_pos (by omega), bytes]
    exact Nat.add_le_add_left (ih hrest) _

/-- An offset is clamped to the greatest boundary below it in the text. -/
theorem isGreatest_floorBoundary (n : Nat) (cs : List Char) :
    IsGreatest {b | IsBoundary b cs ∧ b ≤ min n (bytes cs)} (floorBoundary n cs) := by
  have hb := isBoundary_floorBoundary n cs
  refine ⟨⟨hb, Nat.le_min.mpr ⟨floorBoundary_le n cs, hb.le_bytes⟩⟩, ?_⟩
  rintro b ⟨h, hn⟩
  exact h.le_floorBoundary (Nat.le_min.mp hn).1

theorem floorBoundary_mono {n m : Nat} (h : n ≤ m) (cs : List Char) :
    floorBoundary n cs ≤ floorBoundary m cs :=
  (isBoundary_floorBoundary n cs).le_floorBoundary ((floorBoundary_le n cs).trans h)

theorem IsBoundary.floorBoundary_eq {b : Nat} {cs : List Char} (h : IsBoundary b cs) :
    floorBoundary b cs = b :=
  Nat.le_antisymm (floorBoundary_le b cs) (h.le_floorBoundary (Nat.le_refl b))

theorem exists_slice? {a b : Nat} {cs : List Char} (ha : IsBoundary a cs) (hb : IsBoundary b cs)
    (hab : a ≤ b) : ∃ part, slice? a b cs = some part := by
  obtain ⟨before, part, after, rfl, rfl, rfl⟩ := exists_between ha hb hab
  exact ⟨part, slice?_append ..⟩

/-! ### Columns -/

theorem unitsOf_pos (c : Char) : 0 < unitsOf c := by
  unfold unitsOf
  split <;> decide

/-- No character has more code units than bytes. -/
theorem unitsOf_le (c : Char) : unitsOf c ≤ c.utf8Size := by
  unfold unitsOf
  split
  · exact utf8Size_pos c
  next h =>
    have : c.utf8Size = 4 := by
      rw [Char.utf8Size_eq_four_iff]
      exact UInt32.lt_iff_toNat_lt.mpr (Nat.not_lt.mp h)
    omega

theorem units_le_bytes (cs : List Char) : units cs ≤ bytes cs := by
  induction cs with
  | nil => exact Nat.le_refl 0
  | cons c cs ih => exact Nat.add_le_add (unitsOf_le c) ih

/-! ### The order of positions -/

/-- By line, then by column. -/
instance : LE Position :=
  ⟨fun p q => p.line < q.line ∨ p.line = q.line ∧ p.character ≤ q.character⟩

theorem Position.le_refl (p : Position) : p ≤ p :=
  .inr ⟨rfl, Nat.le_refl _⟩

theorem Position.le_total (p q : Position) : p ≤ q ∨ q ≤ p := by
  rcases Nat.lt_trichotomy p.line q.line with h | h | h
  · exact .inl (.inl h)
  · exact (Nat.le_total p.character q.character).imp (fun hle => .inr ⟨h, hle⟩)
      fun hle => .inr ⟨h.symm, hle⟩
  · exact .inr (.inl h)

namespace LineIndex

theorem isBoundary_columnBytes (column : Nat) (cs : List Char) :
    IsBoundary (columnBytes column cs) cs := by
  induction cs generalizing column with
  | nil => exact .zero []
  | cons c cs ih =>
    rw [columnBytes]
    split
    · exact (ih _).cons c
    · exact .zero _

theorem columnBytes_mono {m n : Nat} (h : m ≤ n) (cs : List Char) :
    columnBytes m cs ≤ columnBytes n cs := by
  induction cs generalizing m n with
  | nil => exact Nat.le_refl 0
  | cons c cs ih =>
    by_cases hm : unitsOf c ≤ m
    · rw [columnBytes, columnBytes, if_pos hm, if_pos (hm.trans h)]
      exact Nat.add_le_add_left (ih (Nat.sub_le_sub_right h _)) _
    · rw [columnBytes, if_neg hm]
      exact Nat.zero_le _

/-- The column behind some characters leads behind them. -/
theorem columnBytes_units (a b : List Char) : columnBytes (units a) (a ++ b) = bytes a := by
  induction a with
  | nil =>
    cases b with
    | nil => rfl
    | cons c b => exact if_neg (Nat.not_le.mpr (unitsOf_pos c))
  | cons c a ih =>
    rw [List.cons_append, columnBytes, units, if_pos (Nat.le_add_right ..),
      Nat.add_sub_cancel_left, ih, bytes]

/-! ### Lines -/

/-- Lines start at boundaries, the first at the start of the text, in order. -/
structure Lawful (ix : LineIndex) : Prop where
  first : ix.starts.head? = some 0
  increasing : ix.starts.Pairwise (· < ·)
  boundary : ∀ start ∈ ix.starts, IsBoundary start ix.text

theorem exists_of_mem_lineStartsFrom {offset start : Nat} {cs : List Char}
    (h : start ∈ lineStartsFrom offset cs) :
    ∃ b, IsBoundary b cs ∧ 0 < b ∧ start = offset + b := by
  induction cs generalizing offset with
  | nil => cases h
  | cons c cs ih =>
    have hlater (h : start ∈ lineStartsFrom (offset + c.utf8Size) cs) :
        ∃ b, IsBoundary b (c :: cs) ∧ 0 < b ∧ start = offset + b := by
      obtain ⟨b, hb, hpos, rfl⟩ := ih h
      exact ⟨c.utf8Size + b, hb.cons c, Nat.add_pos_right _ hpos, Nat.add_assoc ..⟩
    rw [lineStartsFrom] at h
    split at h
    · rcases List.mem_cons.mp h with rfl | h
      · exact ⟨c.utf8Size, (IsBoundary.zero cs).cons c, utf8Size_pos c, rfl⟩
      · exact hlater h
    · exact hlater h

theorem pairwise_lineStartsFrom (offset : Nat) (cs : List Char) :
    (lineStartsFrom offset cs).Pairwise (· < ·) := by
  induction cs generalizing offset with
  | nil => exact .nil
  | cons c cs ih =>
    rw [lineStartsFrom]
    split
    · refine .cons (fun start h => ?_) (ih _)
      obtain ⟨b, -, hpos, rfl⟩ := exists_of_mem_lineStartsFrom h
      exact Nat.lt_add_of_pos_right hpos
    · exact ih _

theorem lawful_ofText (s : String) : (ofText s).Lawful where
  first := rfl
  increasing := by
    refine .cons (fun start h => ?_) (pairwise_lineStartsFrom 0 s.toList)
    obtain ⟨b, -, hpos, rfl⟩ := exists_of_mem_lineStartsFrom h
    exact Nat.lt_add_of_pos_right hpos
  boundary start h := by
    rcases List.mem_cons.mp h with rfl | h
    · exact .zero _
    · obtain ⟨b, hb, -, rfl⟩ := exists_of_mem_lineStartsFrom h
      rwa [Nat.zero_add]

/-- The line of this number lies between these offsets, the end of the line included. -/
structure LineAt (ix : LineIndex) (n start stop : Nat) (line : List Char) : Prop where
  begins : ix.starts[n]? = some start
  ends : (ix.starts[n + 1]?).getD ix.size = stop
  text : slice? start stop ix.text = some line

variable {ix : LineIndex} {n start stop : Nat} {line : List Char}

theorem offset_of_lineAt (h : ix.LineAt n start stop line) (column : Nat) :
    ix.offset ⟨n, column⟩ = start + columnBytes column line := by
  simp only [offset, h.begins, h.ends, h.text, Option.getD_some]

theorem offset_of_none (h : ix.starts[n]? = none) (column : Nat) :
    ix.offset ⟨n, column⟩ = ix.size := by
  simp only [offset, h]

theorem LineAt.isBoundary_stop (h : ix.LineAt n start stop line) : IsBoundary stop ix.text := by
  obtain ⟨before, after, htext, -, rfl⟩ := eq_append_of_slice? h.text
  exact ⟨before ++ line, after, htext, (bytes_append ..).symm⟩

theorem LineAt.stop_eq (h : ix.LineAt n start stop line) : stop = start + bytes line := by
  obtain ⟨before, after, -, rfl, hstop⟩ := eq_append_of_slice? h.text
  exact hstop

namespace Lawful

theorem start_lt (h : ix.Lawful) {m n a b : Nat} (hm : ix.starts[m]? = some a)
    (hn : ix.starts[n]? = some b) (hlt : m < n) : a < b := by
  obtain ⟨hm', rfl⟩ := List.getElem?_eq_some_iff.mp hm
  obtain ⟨hn', rfl⟩ := List.getElem?_eq_some_iff.mp hn
  exact List.pairwise_iff_getElem.mp h.increasing m n hm' hn' hlt

theorem exists_lineAt (h : ix.Lawful) (hn : ix.starts[n]? = some start) :
    ∃ stop line, ix.LineAt n start stop line := by
  have hstart := h.boundary start (List.mem_of_getElem? hn)
  have hstop : IsBoundary ((ix.starts[n + 1]?).getD ix.size) ix.text ∧
      start ≤ (ix.starts[n + 1]?).getD ix.size := by
    cases hnext : ix.starts[n + 1]? with
    | none => exact ⟨.size _, hstart.le_bytes⟩
    | some next =>
      exact ⟨h.boundary next (List.mem_of_getElem? hnext),
        (h.start_lt hn hnext (Nat.lt_succ_self n)).le⟩
  obtain ⟨line, hline⟩ := exists_slice? hstart hstop.1 hstop.2
  exact ⟨_, line, hn, rfl, hline⟩

/-- The line that an offset is in, and what is in front of the offset there. -/
theorem exists_position (h : ix.Lawful) (o : Nat) :
    ∃ n start stop a b, ix.LineAt n start stop (a ++ b) ∧
      floorBoundary o ix.text = start + bytes a ∧ ix.position o = ⟨n, units a⟩ := by
  have hfloor := isBoundary_floorBoundary o ix.text
  generalize hat : floorBoundary o ix.text = at_ at hfloor ⊢
  let before := ix.starts.takeWhile (· ≤ at_)
  let behind := ix.starts.dropWhile (· ≤ at_)
  have hsplit : ix.starts = before ++ behind := List.takeWhile_append_dropWhile.symm
  have hne : before ≠ [] := by
    obtain ⟨rest, hrest⟩ := List.head?_eq_some_iff.mp h.first
    simp [before, hrest]
  have hlast : before.getLast hne ≤ at_ := by
    simpa using List.all_eq_true.mp List.all_takeWhile _ (List.getLast_mem hne)
  have hcount : before.length - 1 + 1 = before.length :=
    Nat.sub_add_cancel (List.length_pos_iff.mpr hne)
  have hstart : ix.starts[before.length - 1]? = some (before.getLast hne) := by
    rw [hsplit, List.getElem?_append_left (by omega), ← List.getLast?_eq_getElem?,
      List.getLast?_eq_some_getLast hne]
  obtain ⟨stop, line, hline⟩ := h.exists_lineAt hstart
  have hstop : at_ ≤ stop := by
    have hnext : ix.starts[before.length - 1 + 1]? = behind.head? := by
      rw [hcount, hsplit, List.getElem?_append_right (Nat.le_refl _), Nat.sub_self,
        ← List.head?_eq_getElem?]
    rw [← hline.ends, hnext]
    have hbehind := List.head?_dropWhile_not (· ≤ at_) ix.starts
    cases hhead : behind.head? with
    | none => exact hfloor.le_bytes
    | some next =>
      rw [hhead] at hbehind
      exact Nat.le_of_lt (by simpa using hbehind)
  have hstop' : IsBoundary stop ix.text := hline.isBoundary_stop
  obtain ⟨a, ha⟩ := exists_slice? (h.boundary _ (List.mem_of_getElem? hstart)) hfloor hlast
  obtain ⟨b, hb⟩ := exists_slice? hfloor hstop' hstop
  refine ⟨before.length - 1, before.getLast hne, stop, a, b,
    ⟨hstart, hline.ends, slice?_trans ha hb⟩, ?_, ?_⟩
  · obtain ⟨_, _, -, hbefore, hat⟩ := eq_append_of_slice? ha
    rw [hat, hbefore]
  · have hbegin : before.getLastD 0 = before.getLast hne := by
      rw [List.getLastD_eq_getLast?, List.getLast?_eq_some_getLast hne, Option.getD_some]
    simp only [position, hat]
    rw [show ix.starts.takeWhile (· ≤ at_) = before from rfl, hbegin, ha, Option.getD_some]

/-- The position of an offset leads back to the boundary at the offset. -/
theorem offset_position (h : ix.Lawful) (o : Nat) :
    ix.offset (ix.position o) = floorBoundary o ix.text := by
  obtain ⟨n, start, stop, a, b, hline, hfloor, hposition⟩ := h.exists_position o
  rw [hposition, offset_of_lineAt hline, columnBytes_units, hfloor]

theorem isBoundary_offset (h : ix.Lawful) (p : Position) : IsBoundary (ix.offset p) ix.text := by
  obtain ⟨n, column⟩ := p
  cases hn : ix.starts[n]? with
  | none =>
    rw [offset_of_none hn]
    exact .size ix.text
  | some start =>
    obtain ⟨stop, line, hline⟩ := h.exists_lineAt hn
    rw [offset_of_lineAt hline]
    obtain ⟨before, after, htext, rfl, -⟩ := eq_append_of_slice? hline.text
    obtain ⟨a, b, rfl, ha⟩ := isBoundary_columnBytes column line
    exact ⟨before ++ a, b ++ after, by simp [htext], by rw [bytes_append, ha]⟩

/-- In front of a line there are all lines of smaller number, which end where it starts or
before. -/
theorem exists_lineAt_of_lt (h : ix.Lawful) {m next : Nat} (hlt : m < n)
    (hn : ix.starts[n]? = some next) :
    ∃ start stop line, ix.LineAt m start stop line ∧ stop ≤ next := by
  obtain ⟨hlength, -⟩ := List.getElem?_eq_some_iff.mp hn
  have hm := List.getElem?_eq_getElem (l := ix.starts) (hlt.trans hlength)
  obtain ⟨stop, line, hline⟩ := h.exists_lineAt hm
  refine ⟨_, stop, line, hline, ?_⟩
  rcases Nat.lt_or_eq_of_le (Nat.succ_le_of_lt hlt) with hlt | rfl
  · have hbehind := List.getElem?_eq_getElem (l := ix.starts) (hlt.trans hlength)
    rw [← hline.ends, hbehind]
    exact (h.start_lt hbehind hn hlt).le
  · rw [← hline.ends, hn]
    exact Nat.le_refl next

theorem offset_mono (h : ix.Lawful) {p q : Position} (hpq : p ≤ q) :
    ix.offset p ≤ ix.offset q := by
  obtain ⟨m, column⟩ := p
  obtain ⟨n, column'⟩ := q
  rcases hpq with hlt | ⟨rfl, hle⟩
  · cases hn : ix.starts[n]? with
    | none =>
      rw [offset_of_none hn]
      exact (h.isBoundary_offset _).le_bytes
    | some next =>
      obtain ⟨start, stop, line, hline, hstop⟩ := h.exists_lineAt_of_lt hlt hn
      obtain ⟨stop', line', hline'⟩ := h.exists_lineAt hn
      calc ix.offset ⟨m, column⟩
        _ = start + columnBytes column line := offset_of_lineAt hline column
        _ ≤ start + bytes line :=
          Nat.add_le_add_left (isBoundary_columnBytes column line).le_bytes start
        _ = stop := hline.stop_eq.symm
        _ ≤ next := hstop
        _ ≤ next + columnBytes column' line' := Nat.le_add_right ..
        _ = ix.offset ⟨n, column'⟩ := (offset_of_lineAt hline' column').symm
  · cases hm : ix.starts[m]? with
    | none => rw [offset_of_none hm, offset_of_none hm]
    | some start =>
      obtain ⟨stop, line, hline⟩ := h.exists_lineAt hm
      rw [offset_of_lineAt hline, offset_of_lineAt hline]
      exact Nat.add_le_add_left (columnBytes_mono hle line) start

/-- Offsets that are clamped to one boundary have one position. -/
theorem position_eq_of_floorBoundary {o o' : Nat}
    (h : floorBoundary o ix.text = floorBoundary o' ix.text) : ix.position o = ix.position o' := by
  simp only [position, h]

theorem position_mono (h : ix.Lawful) {o o' : Nat} (ho : o ≤ o') :
    ix.position o ≤ ix.position o' := by
  rcases Position.le_total (ix.position o) (ix.position o') with hle | hge
  · exact hle
  · -- the other way round the positions lead back to one boundary
    have hback := h.offset_mono hge
    rw [h.offset_position, h.offset_position] at hback
    rw [position_eq_of_floorBoundary (Nat.le_antisymm (floorBoundary_mono ho ix.text) hback)]
    exact Position.le_refl _

/-- A line has at least as many bytes in front of it as lines. -/
theorem le_start (h : ix.Lawful) (hn : ix.starts[n]? = some start) : n ≤ start := by
  induction n generalizing start with
  | zero => exact Nat.zero_le start
  | succ n ih =>
    obtain ⟨before, stop, line, hline, -⟩ := h.exists_lineAt_of_lt (Nat.lt_succ_self n) hn
    have hlt := h.start_lt hline.begins hn (Nat.lt_succ_self n)
    exact Nat.succ_le_of_lt ((ih hline.begins).trans_lt hlt)

/-- Neither the lines nor the columns of a text are more than its bytes. -/
theorem position_le_size (h : ix.Lawful) (o : Nat) :
    (ix.position o).line ≤ ix.size ∧ (ix.position o).character ≤ ix.size := by
  obtain ⟨n, start, stop, a, b, hline, hfloor, hposition⟩ := h.exists_position o
  have hsize : start + bytes a ≤ ix.size := hfloor ▸ (isBoundary_floorBoundary o ix.text).le_bytes
  have hstart := h.le_start hline.begins
  have hunits := units_le_bytes a
  rw [hposition]
  exact ⟨by show n ≤ _; omega, by show units a ≤ _; omega⟩

end Lawful

end LineIndex

/-- Line and column are numbers of 32 bits. -/
def Position.FitsWord (p : Position) : Prop :=
  p.line < 4294967296 ∧ p.character < 4294967296

/-- The span goes forward, and leads back to these two offsets. -/
structure Span.Delimits (s : Span) (ix : LineIndex) (start stop : Nat) : Prop where
  ordered : s.start ≤ s.stop
  fitsWord : s.start.FitsWord ∧ s.stop.FitsWord
  start : ix.offset s.start = start
  stop : ix.offset s.stop = stop

theorem LineIndex.Lawful.fitsWord_position {ix : LineIndex} (h : ix.Lawful)
    (hsize : ix.size < 4294967296) (o : Nat) : (ix.position o).FitsWord :=
  (h.position_le_size o).imp (·.trans_lt hsize) (·.trans_lt hsize)

/-- The span between two boundaries leads back to them. -/
theorem LineIndex.Lawful.delimits_span {ix : LineIndex} (h : ix.Lawful)
    (hsize : ix.size < 4294967296) {start stop : Nat} (hstart : IsBoundary start ix.text)
    (hstop : IsBoundary stop ix.text) (hle : start ≤ stop) :
    (ix.span start stop).Delimits ix start stop := by
  have hmax : max stop start = stop := Nat.max_eq_left hle
  refine ⟨h.position_mono (Nat.le_max_right ..),
    ⟨h.fitsWord_position hsize _, h.fitsWord_position hsize _⟩, ?_, ?_⟩
  · rw [span, h.offset_position, hstart.floorBoundary_eq]
  · rw [span, hmax, h.offset_position, hstop.floorBoundary_eq]

open LineIndex in
/-- **Offsets and positions are inverse up to clamping.** An offset comes back as the greatest
boundary of the text below it, every position leads to a boundary, and each of the two grows
with the other. -/
theorem offset_position_isGreatest (s : String) (h : bytes s.toList < 4294967296) :
    (∀ o, IsGreatest {b | IsBoundary b s.toList ∧ b ≤ min o (bytes s.toList)}
        ((ofText s).offset ((ofText s).position o)) ∧ ((ofText s).position o).FitsWord) ∧
      (∀ p, IsBoundary ((ofText s).offset p) s.toList ∧ (ofText s).offset p ≤ bytes s.toList) ∧
      (∀ o o', o ≤ o' → (ofText s).position o ≤ (ofText s).position o') ∧
      ∀ p p' : Position, p ≤ p' → (ofText s).offset p ≤ (ofText s).offset p' := by
  have hlawful := lawful_ofText s
  refine ⟨fun o => ⟨?_, hlawful.fitsWord_position h o⟩, fun p => ?_,
    fun o o' => hlawful.position_mono, fun p p' => hlawful.offset_mono⟩
  · rw [hlawful.offset_position]
    exact isGreatest_floorBoundary o s.toList
  · have hboundary := hlawful.isBoundary_offset p
    exact ⟨hboundary, hboundary.le_bytes⟩

/-- An offset inside a character behind a line feed, a column inside a pair of surrogates, and
a column past the end of a line. -/
theorem offset_position_isGreatest_mixed :
    let ix := LineIndex.ofText "a\r\n😀\rb"
    bytes ix.text < 4294967296 ∧ ix.position 5 = ⟨1, 0⟩ ∧
      IsGreatest {b | IsBoundary b ix.text ∧ b ≤ 5} (ix.offset ⟨1, 0⟩) ∧
      IsBoundary (ix.offset ⟨1, 1⟩) ix.text ∧ ix.offset ⟨0, 9⟩ ≤ ix.offset ⟨1, 1⟩ := by
  intro ix
  have hsize : bytes ix.text < 4294967296 := by decide
  have hposition : ix.position 5 = ⟨1, 0⟩ := by decide
  obtain ⟨hback, hboundary, -, hmono⟩ := offset_position_isGreatest "a\r\n😀\rb" hsize
  exact ⟨hsize, hposition, hposition ▸ (hback 5).1, (hboundary ⟨1, 1⟩).1,
    hmono ⟨0, 9⟩ ⟨1, 1⟩ (.inl Nat.zero_lt_one)⟩

end GraphLanguages.Text
