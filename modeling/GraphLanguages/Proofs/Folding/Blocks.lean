import Mathlib.Data.List.TakeWhile
import GraphLanguages.Proofs.Folding
import GraphLanguages.Proofs.Lexer.Patterns

/-! Which lines fold.

A run of declarations is as long as it can be (`Run`), and a block goes from its opening line
over deeper ones as far as they reach (`Block`). One scan finds both: where it stands, what is
known is which lines belong to a run that began before (`Standing`). So what folds are the runs
and the blocks, and nothing else (`regions_exact`). -/
namespace GraphLanguages.Folding
open Text Unicode

/-! ### Lines that open with a keyword -/

/-- Behind white space, a keyword in any case, as a word of its own. -/
def Opens (keywords : List String) (line : List Char) : Prop :=
  ∃ keyword ∈ keywords, ∃ gap word rest, line = gap ++ (word ++ rest) ∧
    (∀ c ∈ gap, isSpace c = true) ∧ (∀ c ∈ (word ++ rest).head?, isSpace c = false) ∧
    Spells keyword.toList word ∧ ∀ c ∈ rest.head?, ¬(isAlphanumeric c = true ∨ c = '_')

theorem endsWord_iff {cs : List Char} :
    endsWord cs = true ↔ ∀ c ∈ cs.head?, ¬(isAlphanumeric c = true ∨ c = '_') := by
  cases cs with
  | nil => simp [endsWord]
  | cons c cs => simp [endsWord]

theorem trimStart_eq_iff {line rest : List Char} :
    trimStart line = rest ↔
      ∃ gap, line = gap ++ rest ∧ (∀ c ∈ gap, isSpace c = true) ∧
        ∀ c ∈ rest.head?, isSpace c = false := by
  constructor
  · rintro rfl
    refine ⟨line.takeWhile isSpace, List.takeWhile_append_dropWhile.symm,
      fun c => List.mem_takeWhile_imp, fun c hc => ?_⟩
    have hhead := List.head?_dropWhile_not isSpace line
    rw [show (line.dropWhile isSpace).head? = some c from hc] at hhead
    simpa using hhead
  · rintro ⟨gap, rfl, hgap, hrest⟩
    rw [trimStart, List.dropWhile_append_of_pos hgap]
    cases rest with
    | nil => rfl
    | cons c rest =>
      have hc := hrest c rfl
      exact List.dropWhile_cons_of_neg (by rw [hc]; decide)

theorem opensWith_iff {keywords : List String} {line : List Char} :
    opensWith keywords line = true ↔ Opens keywords line := by
  simp only [opensWith, List.any_eq_true, Option.any_eq_true, endsWord_iff]
  constructor
  · rintro ⟨keyword, hkeyword, rest, hafter, hends⟩
    obtain ⟨word, hspells, htrim⟩ := spells_of_after hafter
    obtain ⟨gap, rfl, hgap, hhead⟩ := trimStart_eq_iff.mp htrim
    exact ⟨keyword, hkeyword, gap, word, rest, rfl, hgap, hhead, hspells, hends⟩
  · rintro ⟨keyword, hkeyword, gap, word, rest, hline, hgap, hhead, hspells, hends⟩
    refine ⟨keyword, hkeyword, rest, ?_, hends⟩
    rw [trimStart_eq_iff.mpr ⟨gap, hline, hgap, hhead⟩]
    exact after_of_spells hspells rest

/-! ### Runs and blocks -/

/-- The line of that number opens with a keyword. -/
def OpensAt (keywords : List String) (lines : List (List Char)) (n : Nat) : Prop :=
  ∃ line ∈ lines[n]?, Opens keywords line

/-- The lines from one number to another, of which there are two at least, open with a keyword,
and those around them do not. -/
structure Run (keywords : List String) (lines : List (List Char)) (first last : Nat) : Prop where
  two : first < last
  opens : ∀ n, first ≤ n → n ≤ last → OpensAt keywords lines n
  starts : ∀ n, n + 1 = first → ¬OpensAt keywords lines n
  stops : ¬OpensAt keywords lines (last + 1)

/-- The line of that number is not blank and has this depth. -/
def HasDepth (lines : List (List Char)) (n d : Nat) : Prop :=
  ∃ line ∈ lines[n]?, isBlank line = false ∧ depth line = d

/-- Behind a line, every other is deeper than `base` or blank, up to one that is neither or to
the end; the last of them that is not blank is that of the number. -/
structure Extends (lines : List (List Char)) (base first last stop : Nat) : Prop where
  closes : stop = lines.length ∨ ∃ d ≤ base, HasDepth lines stop d
  deeper : ∀ n d, first < n → n < stop → HasDepth lines n d → base < d
  lt_stop : last < stop
  solid : ∃ d, HasDepth lines last d
  blank : ∀ n d, last < n → n < stop → ¬HasDepth lines n d

/-- A line that is in no run, with the deeper ones below it, the next of which is not blank. -/
structure Block (keywords : List String) (lines : List (List Char)) (first last : Nat) :
    Prop where
  apart : ∀ a b, Run keywords lines a b → ¬(a ≤ first ∧ first ≤ b)
  below : ∃ base, HasDepth lines first base ∧ (∃ d > base, HasDepth lines (first + 1) d) ∧
    first < last ∧ ∃ stop, Extends lines base first last stop

/-- What folds. -/
def IsFold (keywords : List String) (lines : List (List Char)) (f : Fold) : Prop :=
  match f.kind with
  | .declarations => Run keywords lines f.first f.last
  | .indentation => Block keywords lines f.first f.last

section
variable {keywords : List String} {lines : List (List Char)}

theorem HasDepth.unique {n d d' : Nat} (h : HasDepth lines n d) (h' : HasDepth lines n d') :
    d = d' := by
  obtain ⟨line, hline, -, rfl⟩ := h
  obtain ⟨line', hline', -, rfl⟩ := h'
  rw [Option.mem_unique hline hline']

theorem HasDepth.lt {n d : Nat} (h : HasDepth lines n d) : n < lines.length := by
  obtain ⟨line, hline, -⟩ := h
  exact (List.getElem?_eq_some_iff.mp hline).1

theorem OpensAt.lt {n : Nat} (h : OpensAt keywords lines n) : n < lines.length := by
  obtain ⟨line, hline, -⟩ := h
  exact (List.getElem?_eq_some_iff.mp hline).1

theorem Extends.le_length {base first last stop : Nat} (h : Extends lines base first last stop) :
    stop ≤ lines.length := by
  rcases h.closes with rfl | ⟨d, -, hd⟩
  · exact Nat.le_refl _
  · exact Nat.le_of_lt hd.lt

theorem Extends.stop_le {base first last last' stop stop' : Nat}
    (h : Extends lines base first last stop) (h' : Extends lines base first last' stop')
    (hlt : first < last') : stop ≤ stop' := by
  by_contra hgt
  rcases h'.closes with rfl | ⟨d, hle, hd⟩
  · have := h.le_length
    omega
  · have := h.deeper stop' d (by have := h'.lt_stop; omega) (by omega) hd
    omega

/-- Deeper lines reach as far as they do. -/
theorem Extends.last_unique {base first last last' stop stop' : Nat}
    (h : Extends lines base first last stop) (h' : Extends lines base first last' stop')
    (hlt : first < last) (hlt' : first < last') : last = last' := by
  obtain rfl : stop = stop' := Nat.le_antisymm (h.stop_le h' hlt') (h'.stop_le h hlt)
  obtain ⟨d, hd⟩ := h.solid
  obtain ⟨d', hd'⟩ := h'.solid
  rcases Nat.lt_trichotomy last last' with hlast | rfl | hlast
  · exact absurd hd' (h.blank last' d' hlast h'.lt_stop)
  · rfl
  · exact absurd hd (h'.blank last d hlast h.lt_stop)

/-- A run ends where it does. -/
theorem Run.last_unique {first last last' : Nat} (h : Run keywords lines first last)
    (h' : Run keywords lines first last') : last = last' := by
  rcases Nat.lt_trichotomy last last' with hlt | rfl | hlt
  · exact absurd (h'.opens (last + 1) (by have := h.two; omega) hlt) h.stops
  · rfl
  · exact absurd (h.opens (last' + 1) (by have := h'.two; omega) hlt) h'.stops

/-! ### What the scan finds -/

theorem getElem?_of_drop {n : Nat} {line : List Char} {rest : List (List Char)}
    (h : lines.drop n = line :: rest) : lines[n]? = some line ∧ lines.drop (n + 1) = rest := by
  have hhead : (lines.drop n)[0]? = some line := by rw [h]; rfl
  have htail : (lines.drop n).tail = rest := by rw [h]; rfl
  rw [List.getElem?_drop, Nat.add_zero] at hhead
  rw [List.tail_drop] at htail
  exact ⟨hhead, htail⟩

theorem hasDepth_iff {n d : Nat} {line : List Char} (h : lines[n]? = some line) :
    HasDepth lines n d ↔ isBlank line = false ∧ depth line = d := by
  simp [HasDepth, h]

theorem opensAt_iff {n : Nat} {line : List Char} (h : lines[n]? = some line) :
    OpensAt keywords lines n ↔ opensWith keywords line = true := by
  simp [OpensAt, h, opensWith_iff]

/-- The scan goes on to the last of the deeper lines, if all are so as far as it has come. -/
theorem extends_blockEnd {base first line last : Nat} {ls : List (List Char)}
    (hls : lines.drop line = ls) (hline : line ≤ lines.length) (hlast : last < line)
    (hsolid : ∃ d, HasDepth lines last d)
    (hdeeper : ∀ n d, first < n → n < line → HasDepth lines n d → base < d)
    (hblank : ∀ n d, last < n → n < line → ¬HasDepth lines n d) :
    ∃ stop, Extends lines base first (blockEnd base line last ls) stop := by
  fun_induction blockEnd base line last ls with
  | case1 line last =>
    have hend : line = lines.length :=
      Nat.le_antisymm hline (List.drop_eq_nil_iff.mp hls)
    exact ⟨line, .inl hend, hdeeper, hlast, hsolid, hblank⟩
  | case2 line last l ls hl ih =>
    obtain ⟨hget, hrest⟩ := getElem?_of_drop hls
    have hnone : ∀ d, ¬HasDepth lines line d := fun d => by
      rw [hasDepth_iff hget, hl]
      simp
    refine ih hrest (List.getElem?_eq_some_iff.mp hget).1 (by omega) hsolid ?_ ?_
    · intro n d hn hlt hd
      rcases Nat.lt_succ_iff_lt_or_eq.mp hlt with hlt | rfl
      · exact hdeeper n d hn hlt hd
      · exact absurd hd (hnone d)
    · intro n d hn hlt
      rcases Nat.lt_succ_iff_lt_or_eq.mp hlt with hlt | rfl
      · exact hblank n d hn hlt
      · exact hnone d
  | case3 line last l ls hl hle =>
    obtain ⟨hget, -⟩ := getElem?_of_drop hls
    have hcloses : HasDepth lines line (depth l) := (hasDepth_iff hget).mpr ⟨by simpa using hl, rfl⟩
    exact ⟨line, .inr ⟨_, hle, hcloses⟩, hdeeper, hlast, hsolid, hblank⟩
  | case4 line last l ls hl hle ih =>
    obtain ⟨hget, hrest⟩ := getElem?_of_drop hls
    have hhere : HasDepth lines line (depth l) := (hasDepth_iff hget).mpr ⟨by simpa using hl, rfl⟩
    refine ih hrest (List.getElem?_eq_some_iff.mp hget).1 (by omega) ⟨_, hhere⟩ ?_ ?_
    · intro n d hn hlt hd
      rcases Nat.lt_succ_iff_lt_or_eq.mp hlt with hlt | rfl
      · exact hdeeper n d hn hlt hd
      · rw [← hhere.unique hd]
        omega
    · intro n d hn hlt
      omega

/-- The block below a line, if there is one. -/
theorem indented?_eq_some_iff {first last : Nat} {opening : List Char} {ls : List (List Char)}
    (h : lines.drop first = opening :: ls) :
    indented? first opening ls = some last ↔
      ∃ base, HasDepth lines first base ∧ (∃ d > base, HasDepth lines (first + 1) d) ∧
        first < last ∧ ∃ stop, Extends lines base first last stop := by
  obtain ⟨hget, hrest⟩ := getElem?_of_drop h
  cases ls with
  | nil =>
    refine ⟨nofun, ?_⟩
    rintro ⟨base, -, ⟨d, -, hd⟩, -⟩
    have := hd.lt
    have := List.drop_eq_nil_iff.mp hrest
    omega
  | cons next rest =>
    obtain ⟨hnext, hrest⟩ := getElem?_of_drop hrest
    simp only [indented?, hasDepth_iff hget, hasDepth_iff hnext]
    split
    next hno =>
      refine ⟨fun h => absurd h.symm (Option.some_ne_none last), ?_⟩
      rintro ⟨base, ⟨hopening, rfl⟩, ⟨d, hgt, hblank, rfl⟩, -⟩
      simp [hopening, hblank] at hno
      omega
    next hyes =>
      simp only [Bool.or_eq_true, decide_eq_true_eq, not_or, Bool.not_eq_true, Nat.not_le] at hyes
      obtain ⟨⟨hopening, hblank⟩, hgt⟩ := hyes
      have hhere : HasDepth lines (first + 1) (depth next) := (hasDepth_iff hnext).mpr ⟨hblank, rfl⟩
      have hbounds := blockEnd_bounds (depth opening) rest (show first + 1 < first + 2 by omega)
      obtain ⟨stop, hextends⟩ : ∃ stop, Extends lines (depth opening) first
          (blockEnd (depth opening) (first + 2) (first + 1) rest) stop := by
        refine extends_blockEnd hrest (List.getElem?_eq_some_iff.mp hnext).1 (by omega)
          ⟨_, hhere⟩ ?_ (by omega)
        intro n d hn hlt hd
        obtain rfl : n = first + 1 := by omega
        rwa [← hhere.unique hd]
      constructor
      · intro hlast
        obtain rfl := Option.some.inj hlast
        exact ⟨_, ⟨hopening, rfl⟩, ⟨_, hgt, hblank, rfl⟩, by omega, stop, hextends⟩
      · rintro ⟨base, ⟨-, rfl⟩, -, hlt, stop', hextends'⟩
        exact congrArg some (hextends.last_unique hextends' (by omega) hlt)

/-- What is known where the scan stands: the claimed lines are the rest of a run, and without
any a line that opens with a keyword is the first to do so. -/
structure Standing (keywords : List String) (lines : List (List Char)) (line claimed : Nat) :
    Prop where
  within : 0 < claimed → ∃ first < line, Run keywords lines first (line + claimed - 1)
  free : claimed = 0 → OpensAt keywords lines line → ∀ n, n + 1 = line →
    ¬OpensAt keywords lines n

namespace Standing
variable {line claimed : Nat}

/-- A run that goes on where the scan stands is claimed. -/
theorem pos_of_run (h : Standing keywords lines line claimed) {first last : Nat}
    (hrun : Run keywords lines first last) (hfirst : first < line) (hlast : line ≤ last) :
    0 < claimed := by
  by_contra hzero
  refine h.free (by omega) (hrun.opens line (by omega) hlast) (line - 1) (by omega) ?_
  exact hrun.opens (line - 1) (by omega) (by omega)

/-- No fold begins on a claimed line. -/
theorem no_fold (h : Standing keywords lines line claimed) (hpos : 0 < claimed) {f : Fold}
    (hf : IsFold keywords lines f) : f.first ≠ line := by
  obtain ⟨first, hlt, hrun⟩ := h.within hpos
  obtain ⟨start, last, kind⟩ := f
  intro hfirst
  obtain rfl : start = line := hfirst
  cases kind with
  | declarations =>
    exact Run.starts hf (start - 1) (by show start - 1 + 1 = start; omega)
      (hrun.opens (start - 1) (by omega) (by omega))
  | indentation =>
    exact Block.apart hf first _ hrun ⟨Nat.le_of_lt hlt, by show start ≤ _; omega⟩

/-- Behind a claimed line. -/
theorem next (h : Standing keywords lines line (claimed + 1)) :
    Standing keywords lines (line + 1) claimed := by
  obtain ⟨first, hlt, hrun⟩ := h.within (Nat.succ_pos _)
  rw [show line + (claimed + 1) - 1 = line + claimed by omega] at hrun
  refine ⟨fun hpos => ⟨first, by omega, ?_⟩, fun hzero hopens => ?_⟩
  · rwa [show line + 1 + claimed - 1 = line + claimed by omega]
  · subst hzero
    exact absurd hopens hrun.stops

end Standing

/-- Lines open with a keyword as far as the scan for a run goes, and the next one does not. -/
theorem opensAt_takeWhile {line : Nat} {ls : List (List Char)} (hls : lines.drop line = ls) :
    (∀ n < (ls.takeWhile (opensWith keywords)).length, OpensAt keywords lines (line + n)) ∧
      ¬OpensAt keywords lines (line + (ls.takeWhile (opensWith keywords)).length) := by
  induction ls generalizing line with
  | nil =>
    refine ⟨nofun, fun h => ?_⟩
    have := h.lt
    have := List.drop_eq_nil_iff.mp hls
    simp only [List.takeWhile_nil, List.length_nil] at *
    omega
  | cons l ls ih =>
    obtain ⟨hget, hrest⟩ := getElem?_of_drop hls
    obtain ⟨hopens, hstops⟩ := ih hrest
    by_cases hl : opensWith keywords l = true
    · rw [List.takeWhile_cons_of_pos hl, List.length_cons]
      refine ⟨fun n hn => ?_, by rwa [Nat.add_right_comm, Nat.add_assoc] at hstops⟩
      cases n with
      | zero => exact (opensAt_iff hget).mpr hl
      | succ n =>
        have := hopens n (by omega)
        rwa [Nat.add_right_comm, Nat.add_assoc] at this
    · rw [List.takeWhile_cons_of_neg hl]
      exact ⟨nofun, fun h => hl ((opensAt_iff hget).mp h)⟩

/-- Where no line is claimed, a run begins if two lines open with a keyword. -/
theorem run_iff {line last : Nat} {ls : List (List Char)} (hls : lines.drop line = ls)
    (h : Standing keywords lines line 0) :
    Run keywords lines line last ↔ 2 ≤ (ls.takeWhile (opensWith keywords)).length ∧
      last = line + (ls.takeWhile (opensWith keywords)).length - 1 := by
  obtain ⟨hopens, hstops⟩ := opensAt_takeWhile hls
  generalize (ls.takeWhile (opensWith keywords)).length = k at hopens hstops ⊢
  have hrun : 2 ≤ k → Run keywords lines line (line + k - 1) := fun htwo => by
    refine ⟨by omega, fun n hfirst hlast => ?_, h.free rfl (hopens 0 (by omega)), ?_⟩
    · have := hopens (n - line) (by omega)
      rwa [Nat.add_sub_cancel' hfirst] at this
    · rwa [show line + k - 1 + 1 = line + k by omega]
  constructor
  · intro hlast
    have htwo : 2 ≤ k := by
      by_contra hlt
      exact hstops (hlast.opens (line + k) (by omega) (by have := hlast.two; omega))
    exact ⟨htwo, hlast.last_unique (hrun htwo)⟩
  · rintro ⟨htwo, rfl⟩
    exact hrun htwo

/-- Where no line is claimed, what begins at a line that is in no run is a block. -/
theorem block_iff {line last : Nat} {l : List Char} {ls : List (List Char)}
    (hls : lines.drop line = l :: ls)
    (hrun : (((l :: ls).takeWhile (opensWith keywords)).length) < 2)
    (h : Standing keywords lines line 0) :
    Block keywords lines line last ↔ indented? line l ls = some last := by
  rw [indented?_eq_some_iff hls]
  refine ⟨Block.below, fun hbelow => ⟨fun a b hab hin => ?_, hbelow⟩⟩
  rcases Nat.eq_or_lt_of_le hin.1 with rfl | hlt
  · have := ((run_iff hls h).mp hab).1
    omega
  · exact Nat.lt_irrefl 0 (h.pos_of_run hab hlt hin.2)

theorem IsFold.first_lt {f : Fold} (h : IsFold keywords lines f) :
    f.first < lines.length := by
  obtain ⟨first, last, kind⟩ := f
  cases kind with
  | declarations => exact (Run.opens h first (Nat.le_refl _) (Nat.le_of_lt (Run.two h))).lt
  | indentation =>
    obtain ⟨base, hopening, -⟩ := Block.below h
    exact hopening.lt

/-- Where a run begins, it is all that folds there. -/
theorem run_first_iff {line last : Nat} (hrun : Run keywords lines line last) (f : Fold) :
    f.first = line ∧ IsFold keywords lines f ↔ f = ⟨line, last, .declarations⟩ := by
  constructor
  · obtain ⟨first, last', kind⟩ := f
    rintro ⟨hfirst, hf⟩
    obtain rfl : first = line := hfirst
    cases kind with
    | declarations => rw [hrun.last_unique hf]
    | indentation =>
      have := hrun.two
      exact absurd ⟨Nat.le_refl _, Nat.le_of_lt this⟩ (Block.apart hf first _ hrun)
  · rintro rfl
    exact ⟨rfl, hrun⟩

/-- Where no line is claimed and none begins a run, the block below a line is all that folds
there. -/
theorem block_first_iff {line : Nat} {l : List Char} {ls : List (List Char)}
    (hls : lines.drop line = l :: ls)
    (hrun : (((l :: ls).takeWhile (opensWith keywords)).length) < 2)
    (h : Standing keywords lines line 0) (f : Fold) :
    f.first = line ∧ IsFold keywords lines f ↔
      ∃ last, indented? line l ls = some last ∧ ⟨line, last, .indentation⟩ = f := by
  constructor
  · obtain ⟨first, last, kind⟩ := f
    rintro ⟨hfirst, hf⟩
    obtain rfl : first = line := hfirst
    cases kind with
    | declarations =>
      have := ((run_iff hls h).mp hf).1
      omega
    | indentation => exact ⟨last, (block_iff hls hrun h).mp hf, rfl⟩
  · rintro ⟨last, hlast, rfl⟩
    exact ⟨rfl, (block_iff hls hrun h).mpr hlast⟩

/-- Behind the first line of a run, the others are claimed. -/
theorem Run.standing {line run : Nat} (hrun : Run keywords lines line (line + run - 1)) :
    Standing keywords lines (line + 1) (run - 1) := by
  have := hrun.two
  refine ⟨fun _ => ⟨line, Nat.lt_succ_self _, ?_⟩, fun hzero => by omega⟩
  rwa [show line + 1 + (run - 1) - 1 = line + run - 1 by omega]

/-- Behind a line that begins no run, none is claimed. -/
theorem standing_of_few {line : Nat} {ls : List (List Char)} (hls : lines.drop line = ls)
    (hrun : (ls.takeWhile (opensWith keywords)).length < 2) :
    Standing keywords lines (line + 1) 0 := by
  have hstops : ¬OpensAt keywords lines (line + (ls.takeWhile (opensWith keywords)).length) :=
    (opensAt_takeWhile hls).2
  refine ⟨fun hpos => absurd hpos (Nat.lt_irrefl 0), fun _ hopens n hn hhere => ?_⟩
  obtain rfl : n = line := Nat.succ.inj hn
  rcases Nat.le_one_iff_eq_zero_or_eq_one.mp (Nat.le_of_lt_succ hrun) with hnone | hone
  · exact hstops (hnone ▸ hhere)
  · exact hstops (hone ▸ hopens)

/-- **The folds that the scan finds from a line on are those that begin there or behind.** -/
theorem mem_foldsFrom {line claimed : Nat} {ls : List (List Char)} (hls : lines.drop line = ls)
    (h : Standing keywords lines line claimed) (f : Fold) :
    f ∈ foldsFrom keywords line claimed ls ↔ line ≤ f.first ∧ IsFold keywords lines f := by
  have hsplit : ∀ n, n ≤ f.first ∧ IsFold keywords lines f ↔
      (f.first = n ∧ IsFold keywords lines f) ∨
        (n + 1 ≤ f.first ∧ IsFold keywords lines f) := fun n => by
    rw [← or_and_right]
    exact and_congr_left fun _ => by omega
  fun_induction foldsFrom keywords line claimed ls with
  | case1 line claimed =>
    refine ⟨fun h => absurd h List.not_mem_nil, ?_⟩
    rintro ⟨hle, hf⟩
    have hend := List.drop_eq_nil_iff.mp hls
    have := hf.first_lt
    omega
  | case2 line claimed l ls ih =>
    have hnone : ¬(f.first = line ∧ IsFold keywords lines f) := fun hf =>
      h.no_fold (Nat.succ_pos _) hf.2 hf.1
    rw [hsplit, or_iff_right hnone]
    exact ih (getElem?_of_drop hls).2 h.next
  | case3 line l ls run htwo ih =>
    have hrun : Run keywords lines line (line + run - 1) := (run_iff hls h).mpr ⟨htwo, rfl⟩
    rw [List.mem_cons, hsplit, run_first_iff hrun]
    exact or_congr_right (ih (getElem?_of_drop hls).2 hrun.standing)
  | case4 line l ls run htwo ih =>
    have hfew : run < 2 := Nat.lt_of_not_le htwo
    rw [List.mem_append, hsplit, block_first_iff hls hfew h, Option.mem_toList,
      Option.map_eq_some_iff]
    exact or_congr_right (ih (getElem?_of_drop hls).2 (standing_of_few hls hfew))

/-! ### All folds, and their regions -/

end

theorem mem_folds {keywords : List String} {cs : List Char} {f : Fold} :
    f ∈ folds keywords cs ↔ IsFold keywords (lines cs) f := by
  have hstart : Standing keywords (lines cs) 0 0 :=
    ⟨fun hpos => absurd hpos (Nat.lt_irrefl 0), fun _ _ n hn => by omega⟩
  rw [folds, mem_foldsFrom List.drop_zero hstart]
  exact and_iff_right (Nat.zero_le _)

/-- A text with no more lines than 32 bits count has a region for what folds, and no other. -/
theorem mem_regions {keywords : List String} {cs : List Char}
    (hlines : (lines cs).length ≤ UInt32.size) {r : Region} :
    r ∈ regions keywords cs ↔ IsFold keywords (lines cs) r.fold := by
  constructor
  · intro hr
    obtain ⟨f, hf, rfl⟩ := List.mem_map.mp hr
    rw [(within_folds f hf).fold_region hlines]
    exact mem_folds.mp hf
  · intro hr
    exact List.mem_map.mpr ⟨r.fold, mem_folds.mpr hr, r.region_fold⟩

end GraphLanguages.Folding
