import GraphLanguages.Text.Lines
import GraphLanguages.Proofs.Text.Positions

/-! The lines of a text, read and looked up.

Reading a text line by line and noting where its lines start divide it at the same places:
both follow one division of the text into lines and what ends them (`lined_linesFrom`). So a
line that was read is the line of the same number in the index without its end
(`shows_of_getElem?_lines`), and places in it have positions on a line of that number. -/
namespace GraphLanguages.Text

/-- No character of the text ends a line. -/
def Unbroken (cs : List Char) : Prop :=
  ∀ c ∈ cs, c ≠ '\r' ∧ c ≠ '\n'

/-- What ends a line. -/
inductive LineEnd : List Char → Prop
  | feed : LineEnd ['\n']
  | carriage : LineEnd ['\r']
  | pair : LineEnd ['\r', '\n']

/-- The text, which begins at the offset, has these lines. After the first one they start at
these offsets. -/
inductive Lined : Nat → List Char → List Nat → List (List Char) → Prop
  | last {offset : Nat} {line : List Char} : Unbroken line → Lined offset line [] [line]
  | more {offset next : Nat} {line ending rest : List Char} {starts : List Nat}
      {lines : List (List Char)} : Unbroken line → LineEnd ending →
      next = offset + bytes (line ++ ending) → Lined next rest starts lines →
      Lined offset (line ++ ending ++ rest) (next :: starts) (line :: lines)

/-- Where lines start and what they are, behind characters of a line that is being read. -/
theorem lined_linesFrom (offset : Nat) (pending cs : List Char) (h : Unbroken pending.reverse) :
    Lined offset (pending.reverse ++ cs)
      (lineStartsFrom (offset + bytes pending.reverse) cs) (linesFrom pending cs) := by
  fun_induction linesFrom pending cs generalizing offset with
  | case1 pending =>
    rw [List.append_nil]
    exact .last h
  | case2 pending cs ih =>
    -- the start in front of the line feed is none, the one behind it is
    have hstarts : lineStartsFrom (offset + bytes pending.reverse) ('\r' :: '\n' :: cs) =
        (offset + bytes pending.reverse + 1 + 1) ::
          lineStartsFrom (offset + bytes pending.reverse + 1 + 1) cs := rfl
    have hnext : offset + bytes pending.reverse + 1 + 1 =
        offset + bytes (pending.reverse ++ ['\r', '\n']) := by
      rw [bytes_append]
      rfl
    rw [hstarts, List.append_cons, List.append_cons, List.append_assoc pending.reverse]
    exact .more h .pair hnext (ih _ fun c hc => by cases hc)
  | case3 pending c cs hpair hc ih =>
    have hfollows : (c = '\n' || (c = '\r' && cs.head? != some '\n')) = true := by
      simp only [Bool.or_eq_true, decide_eq_true_eq] at hc
      rcases hc with rfl | rfl
      · have hhead : cs.head? ≠ some '\n' := fun hhead => by
          obtain ⟨rest, rfl⟩ := List.head?_eq_some_iff.mp hhead
          exact hpair rest rfl rfl
        simp [hhead]
      · rfl
    have hend : LineEnd [c] := by
      simp only [Bool.or_eq_true, decide_eq_true_eq] at hc
      rcases hc with rfl | rfl
      · exact .carriage
      · exact .feed
    have hnext : offset + bytes pending.reverse + c.utf8Size =
        offset + bytes (pending.reverse ++ [c]) := by
      rw [bytes_append, Nat.add_assoc]
      rfl
    rw [lineStartsFrom, if_pos hfollows, List.append_cons]
    exact .more h hend hnext (ih _ fun c hc => by cases hc)
  | case4 pending c cs hpair hc ih =>
    simp only [Bool.or_eq_true, decide_eq_true_eq, not_or] at hc
    have hnot : ¬(c = '\n' || (c = '\r' && cs.head? != some '\n')) = true := by
      simp [hc]
    have hline : Unbroken (c :: pending).reverse := by
      intro d hd
      rw [List.reverse_cons, List.mem_append, List.mem_singleton] at hd
      rcases hd with hd | rfl
      · exact h d hd
      · exact hc
    have hread := ih offset hline
    rw [List.reverse_cons, bytes_append, ← Nat.add_assoc, ← List.append_cons] at hread
    rw [lineStartsFrom, if_neg hnot]
    exact hread

namespace Lined
variable {offset : Nat} {cs line : List Char} {starts : List Nat} {lines : List (List Char)}

theorem length_eq (h : Lined offset cs starts lines) : lines.length = starts.length + 1 := by
  induction h with
  | last => rfl
  | more _ _ _ _ ih => rw [List.length_cons, ih, List.length_cons]

/-- A line lies between two starts, behind it its end unless it is the last one. -/
theorem exists_between (h : Lined offset cs starts lines) {n : Nat}
    (hn : lines[n]? = some line) :
    Unbroken line ∧ ∃ before ending rest, cs = before ++ (line ++ ending) ++ rest ∧
      (offset :: starts)[n]? = some (offset + bytes before) ∧
      (starts[n]?).getD (offset + bytes cs) = offset + bytes before + bytes (line ++ ending) ∧
      if n + 1 < lines.length then LineEnd ending else ending = [] := by
  induction h generalizing n with
  | last hline =>
    cases n with
    | zero =>
      obtain rfl := Option.some.inj hn
      exact ⟨hline, [], [], [], by simp, rfl, by simp [bytes], by simp⟩
    | succ n => cases hn
  | @more offset next first ending rest starts lines hfirst hend hnext hrest ih =>
    cases n with
    | zero =>
      obtain rfl := Option.some.inj hn
      refine ⟨hfirst, [], ending, rest, rfl, rfl, hnext, ?_⟩
      have hlength : 0 + 1 < (first :: lines).length := by
        rw [List.length_cons, hrest.length_eq]
        omega
      rwa [if_pos hlength]
    | succ n =>
      obtain ⟨hline, before, ending', rest', rfl, hstart, hstop, hended⟩ := ih hn
      refine ⟨hline, first ++ ending ++ before, ending', rest', by simp, ?_, ?_, ?_⟩
      · rw [List.getElem?_cons_succ, hstart, hnext, bytes_append _ before, Nat.add_assoc]
      · rw [List.getElem?_cons_succ, bytes_append, bytes_append _ before, ← Nat.add_assoc,
          ← Nat.add_assoc, ← hnext]
        exact hstop
      · simpa only [List.length_cons, Nat.add_lt_add_iff_right] using hended

end Lined

/-! ### The line of a number -/

namespace LineIndex
variable {ix : LineIndex} {n start stop : Nat} {line ending : List Char}

/-- The lines that start at an offset or before it are those up to the one it is in. -/
theorem Lawful.takeWhile_starts (h : ix.Lawful) {o : Nat} (hn : ix.starts[n]? = some start)
    (hle : start ≤ o) (hnext : ∀ next ∈ ix.starts[n + 1]?, o < next) :
    ix.starts.takeWhile (· ≤ o) = ix.starts.take (n + 1) := by
  have hfront : ∀ s ∈ ix.starts.take (n + 1), decide (s ≤ o) = true := by
    intro s hs
    obtain ⟨m, hm, rfl⟩ := List.mem_iff_getElem.mp hs
    rw [List.length_take] at hm
    rw [List.getElem_take, decide_eq_true_eq]
    rcases Nat.lt_or_eq_of_le (show m ≤ n by omega) with hlt | rfl
    · exact (h.start_lt (List.getElem?_eq_getElem (by omega)) hn hlt).le.trans hle
    · exact (List.getElem?_eq_some_iff.mp hn).2.trans_le hle
  have hbehind : (ix.starts.drop (n + 1)).takeWhile (· ≤ o) = [] := by
    cases hget : ix.starts[n + 1]? with
    | none => rw [List.drop_eq_nil_of_le (List.getElem?_eq_none_iff.mp hget), List.takeWhile_nil]
    | some next =>
      obtain ⟨hlt, rfl⟩ := List.getElem?_eq_some_iff.mp hget
      rw [List.drop_eq_getElem_cons hlt, List.takeWhile_cons_of_neg]
      simpa using hnext _ hget
  conv => lhs; rw [← List.take_append_drop (n + 1) ix.starts]
  rw [List.takeWhile_append_of_pos hfront, hbehind, List.append_nil]

/-- A place in front of the next line has its position on this one. -/
theorem Lawful.position_of_lineAt (h : ix.Lawful) {a b : List Char}
    (hline : ix.LineAt n start stop (a ++ b)) (hb : b = [] → ix.starts[n + 1]? = none) :
    ix.position (start + bytes a) = ⟨n, units a⟩ := by
  obtain ⟨before, after, htext, hstart, hstop⟩ := eq_append_of_slice? hline.text
  have hboundary : IsBoundary (start + bytes a) ix.text :=
    ⟨before ++ a, b ++ after, by simp [htext], by rw [bytes_append, hstart]⟩
  have hslice : slice? start (start + bytes a) ix.text = some a := by
    rw [htext, hstart, List.append_assoc, List.append_assoc, ← List.append_assoc before]
    exact slice?_append before a (b ++ after)
  have hwhile : ix.starts.takeWhile (· ≤ start + bytes a) = ix.starts.take (n + 1) := by
    refine h.takeWhile_starts hline.begins (Nat.le_add_right ..) fun next hnext => ?_
    have hends : next = stop := by rw [← hline.ends, hnext, Option.getD_some]
    have hpos : 0 < bytes b := bytes_pos fun hnil => by
      rw [hb hnil] at hnext
      cases hnext
    rw [hends, hstop, ← hstart, bytes_append]
    omega
  have hlength : (ix.starts.take (n + 1)).length = n + 1 :=
    List.length_take_of_le (List.getElem?_eq_some_iff.mp hline.begins).1
  have hlast : (ix.starts.take (n + 1)).getLastD 0 = start := by
    rw [List.getLastD_eq_getLast?, List.getLast?_eq_getElem?, hlength, Nat.add_sub_cancel,
      List.getElem?_take_of_lt (Nat.lt_succ_self n), hline.begins, Option.getD_some]
  simp only [position, hboundary.floorBoundary_eq, hwhile, hlast, hslice, Option.getD_some,
    hlength, Nat.add_sub_cancel]

/-- The line of this number is this text with what ends it, which lies between these offsets,
and the places in it are those of the positions on a line of this number. -/
structure Shows (ix : LineIndex) (n start stop : Nat) (line ending : List Char) : Prop where
  lineAt : ix.LineAt n start stop (line ++ ending)
  unbroken : Unbroken line
  ended : if n + 1 < ix.lineCount then LineEnd ending else ending = []
  position : ∀ a b, line = a ++ b → ix.position (start + bytes a) = ⟨n, units a⟩
  offset : ∀ a b, line = a ++ b → ix.offset ⟨n, units a⟩ = start + bytes a

theorem Lawful.shows (h : ix.Lawful) (hline : ix.LineAt n start stop (line ++ ending))
    (hunbroken : Unbroken line)
    (hended : if n + 1 < ix.lineCount then LineEnd ending else ending = []) :
    ix.Shows n start stop line ending where
  lineAt := hline
  unbroken := hunbroken
  ended := hended
  position := by
    intro a b hab
    subst hab
    refine h.position_of_lineAt (b := b ++ ending) (List.append_assoc .. ▸ hline) fun hnil => ?_
    rw [(List.append_eq_nil_iff.mp hnil).2] at hended
    split at hended
    next => cases hended
    next hlast => exact List.getElem?_eq_none_iff.mpr (Nat.not_lt.mp hlast)
  offset := by
    intro a b hab
    subst hab
    rw [List.append_assoc] at hline
    rw [offset_of_lineAt hline, columnBytes_units]

theorem lined_ofText (s : String) :
    Lined 0 s.toList (lineStartsFrom 0 s.toList) (lines s.toList) :=
  lined_linesFrom 0 [] s.toList fun c hc => by cases hc

theorem length_lines (s : String) : (lines s.toList).length = (ofText s).lineCount :=
  (lined_ofText s).length_eq

/-- A line that was read is the line of its number. -/
theorem shows_of_getElem?_lines {s : String} (hn : (lines s.toList)[n]? = some line) :
    ∃ start stop ending, (ofText s).Shows n start stop line ending := by
  obtain ⟨hline, before, ending, rest, htext, hstart, hstop, hended⟩ :=
    (lined_ofText s).exists_between hn
  rw [Nat.zero_add] at hstart
  rw [Nat.zero_add, Nat.zero_add] at hstop
  rw [length_lines] at hended
  refine ⟨bytes before, _, ending, (lawful_ofText s).shows ⟨hstart, hstop, ?_⟩ hline hended⟩
  show slice? _ _ s.toList = _
  rw [htext]
  exact slice?_append ..

end LineIndex

end GraphLanguages.Text
