import GraphLanguages.Proofs.Folding.Blocks

/-! How folds lie to each other.

Runs are as long as they can be, so two of them share no line (`Run.last_lt`). A block that
opens within another one is deeper than it, so it closes no later (`Block.last_le`). Only a
run pays no heed to depths: a block from above it may close on the way through (`Cut`). These
are all the ways in which folds cross (`IsFold.not_nests_iff`), and regions as well where they
tell the lines of their folds (`regions_cross_iff`). -/
namespace GraphLanguages.Folding
open Text

/-- The line of that number belongs to the fold. -/
def Fold.Covers (f : Fold) (n : Nat) : Prop :=
  f.first ≤ n ∧ n ≤ f.last

instance (f : Fold) (n : Nat) : Decidable (f.Covers n) :=
  inferInstanceAs (Decidable (_ ∧ _))

/-- The folds have no line in common, or all lines of one belong to the other. -/
def Fold.Nests (f g : Fold) : Prop :=
  (∀ n, ¬(f.Covers n ∧ g.Covers n)) ∨ (∀ n, g.Covers n → f.Covers n) ∨
    ∀ n, f.Covers n → g.Covers n

/-- A block from above a run of declarations closes within the run, in front of a line that is
blank or no deeper than the one that opens the block. -/
structure Cut (lines : List (List Char)) (block run : Fold) : Prop where
  ofBlock : block.kind = .indentation
  byRun : run.kind = .declarations
  above : block.first < run.first
  enters : run.first ≤ block.last
  leaves : block.last < run.last
  shallow : ∀ base d, HasDepth lines block.first base → HasDepth lines (block.last + 1) d →
    d ≤ base

namespace Fold
variable {f g : Fold}

theorem Nests.symm (h : f.Nests g) : g.Nests f := by
  rcases h with h | h | h
  · exact .inl fun n hn => h n hn.symm
  · exact .inr (.inr h)
  · exact .inr (.inl h)

theorem nests_of_last_lt (h : f.last < g.first) : f.Nests g :=
  .inl fun _ hn => absurd (hn.1.2.trans_lt h) (Nat.not_lt.mpr hn.2.1)

theorem nests_of_last_le (hfirst : f.first ≤ g.first) (hlast : g.last ≤ f.last) : f.Nests g :=
  .inr (.inl fun _ hn => ⟨hfirst.trans hn.1, hn.2.trans hlast⟩)

end Fold

section
variable {keywords : List String} {lines : List (List Char)}

/-! ### Two runs, two blocks -/

theorem Run.last_lt {first last first' last' : Nat} (h : Run keywords lines first last)
    (h' : Run keywords lines first' last') (hlt : first < first') : last < first' := by
  by_contra hle
  have hopens := h.opens (first' - 1) (by omega) (by omega)
  exact h'.starts (first' - 1) (by omega) hopens

theorem Block.last_le {first last first' last' : Nat} (h : Block keywords lines first last)
    (h' : Block keywords lines first' last') (hlt : first < first') (hle : first' ≤ last) :
    last' ≤ last := by
  obtain ⟨base, -, -, -, stop, hextends⟩ := h.below
  obtain ⟨base', hopening, -, hlast', stop', hextends'⟩ := h'.below
  have hstop := hextends.lt_stop
  have hstop' := hextends'.lt_stop
  have hdeeper : base < base' := hextends.deeper first' base' hlt (by omega) hopening
  obtain ⟨d', hsolid⟩ := hextends'.solid
  by_contra hgt
  -- The inner block would go on over the line that closes the outer one.
  have hover : stop ≤ last' := by
    by_contra hlt
    exact hextends.blank last' d' (by omega) (by omega) hsolid
  rcases hextends.closes with rfl | ⟨d, hd, hcloses⟩
  · have := hsolid.lt
    omega
  · have := hextends'.deeper stop d (by omega) (by omega) hcloses
    omega

theorem Block.last_unique {first last last' : Nat} (h : Block keywords lines first last)
    (h' : Block keywords lines first last') : last = last' := by
  obtain ⟨base, hopening, -, hlast, stop, hextends⟩ := h.below
  obtain ⟨base', hopening', -, hlast', stop', hextends'⟩ := h'.below
  obtain rfl := hopening.unique hopening'
  exact hextends.last_unique hextends' hlast hlast'

/-! ### Any two folds -/

theorem Block.cut {first last first' last' : Nat} (h : Block keywords lines first last)
    (hlt : first < first') (hle : first' ≤ last) (hlast : last < last') :
    Cut lines ⟨first, last, .indentation⟩ ⟨first', last', .declarations⟩ := by
  refine ⟨rfl, rfl, hlt, hle, hlast, fun base d hopening hnext => ?_⟩
  obtain ⟨base', hopening', -, -, stop, hextends⟩ := h.below
  obtain rfl := hopening.unique hopening'
  have hstop : stop = last + 1 := by
    by_contra hne
    have := hextends.lt_stop
    exact hextends.blank (last + 1) d (by omega) (by omega) hnext
  subst hstop
  rcases hextends.closes with hend | ⟨d', hle', hcloses⟩
  · have : last + 1 < lines.length := hnext.lt
    omega
  · rwa [hnext.unique hcloses]

variable {f g : Fold}

/-- Of two folds, what the one that begins first may do to the other. -/
theorem IsFold.nests_or_cut (hf : IsFold keywords lines f) (hg : IsFold keywords lines g)
    (hlt : f.first < g.first) : f.Nests g ∨ Cut lines f g := by
  obtain ⟨first, last, kind⟩ := f
  obtain ⟨first', last', kind'⟩ := g
  cases kind with
  | declarations =>
    refine .inl (Fold.nests_of_last_lt ?_)
    cases kind' with
    | declarations => exact Run.last_lt hf hg hlt
    | indentation =>
      have hapart := Block.apart hg first last hf
      exact Nat.lt_of_not_le fun hle => hapart ⟨Nat.le_of_lt hlt, hle⟩
  | indentation =>
    by_cases hapart : last < first'
    · exact .inl (Fold.nests_of_last_lt hapart)
    · have hle : first' ≤ last := Nat.le_of_not_lt hapart
      by_cases hwithin : last' ≤ last
      · exact .inl (Fold.nests_of_last_le (Nat.le_of_lt hlt) hwithin)
      · cases kind' with
        | declarations => exact .inr (Block.cut hf hlt hle (Nat.lt_of_not_le hwithin))
        | indentation => exact absurd (Block.last_le hf hg hlt hle) hwithin

theorem IsFold.eq_of_first (hf : IsFold keywords lines f) (hg : IsFold keywords lines g)
    (h : f.first = g.first) : f = g := by
  obtain ⟨first, last, kind⟩ := f
  obtain ⟨first', last', kind'⟩ := g
  obtain rfl : first = first' := h
  cases kind with
  | declarations =>
    cases kind' with
    | declarations => rw [show last = last' from Run.last_unique hf hg]
    | indentation =>
      exact absurd ⟨Nat.le_refl _, Nat.le_of_lt (Run.two hf)⟩ (Block.apart hg first last hf)
  | indentation =>
    cases kind' with
    | declarations =>
      exact absurd ⟨Nat.le_refl _, Nat.le_of_lt (Run.two hg)⟩ (Block.apart hf first last' hg)
    | indentation => rw [show last = last' from Block.last_unique hf hg]

theorem Cut.not_nests (h : Cut lines f g) : ¬f.Nests g := by
  have habove := h.above
  have henters := h.enters
  have hleaves := h.leaves
  intro hnests
  rcases hnests with hapart | hwithin | hwithin
  · exact hapart f.last ⟨⟨by omega, Nat.le_refl _⟩, henters, Nat.le_of_lt hleaves⟩
  · have := (hwithin g.last ⟨by omega, Nat.le_refl _⟩).2
    omega
  · have := (hwithin f.first ⟨Nat.le_refl _, by omega⟩).1
    omega

/-- Two folds cross only where one is cut by the other. -/
theorem IsFold.not_nests_iff (hf : IsFold keywords lines f) (hg : IsFold keywords lines g) :
    ¬f.Nests g ↔ Cut lines f g ∨ Cut lines g f := by
  constructor
  · intro hcross
    rcases Nat.lt_trichotomy f.first g.first with hlt | heq | hgt
    · exact .inl ((hf.nests_or_cut hg hlt).resolve_left hcross)
    · obtain rfl := hf.eq_of_first hg heq
      exact absurd (Fold.nests_of_last_le (Nat.le_refl _) (Nat.le_refl _)) hcross
    · exact .inr ((hg.nests_or_cut hf hgt).resolve_left fun h => hcross h.symm)
  · intro hcut hnests
    rcases hcut with hcut | hcut
    · exact hcut.not_nests hnests
    · exact hcut.not_nests hnests.symm

end

/-- **Folds cross only where a block closes within a run that it reaches from above.** Any other
two have no line in common, or one lies within the other. So it is with the lines that regions
tell, where the text has no more of them than 32 bits count. -/
theorem regions_cross_iff (keywords : List String) (cs : List Char) :
    (∀ f ∈ folds keywords cs, ∀ g ∈ folds keywords cs,
      ¬f.Nests g ↔ Cut (lines cs) f g ∨ Cut (lines cs) g f) ∧
    ((lines cs).length ≤ UInt32.size →
      ∀ r ∈ regions keywords cs, ∀ s ∈ regions keywords cs,
        ¬r.fold.Nests s.fold ↔ Cut (lines cs) r.fold s.fold ∨ Cut (lines cs) s.fold r.fold) := by
  constructor
  · intro f hf g hg
    exact (mem_folds.mp hf).not_nests_iff (mem_folds.mp hg)
  · intro hlines r hr s hs
    exact ((mem_regions hlines).mp hr).not_nests_iff ((mem_regions hlines).mp hs)

/-- A block that closes behind a run of deeper declarations holds all of it. -/
theorem regions_cross_iff_deeper :
    let cs := "graph\n prefix\n\n  prefix\n prefix\nend".toList
    let block : Region := { first := 0, last := 4, kind := .indentation }
    let run : Region := { first := 3, last := 4, kind := .declarations }
    (lines cs).length ≤ UInt32.size ∧ block ∈ regions ["prefix"] cs ∧ run ∈ regions ["prefix"] cs ∧
      block.fold.Nests run.fold := by
  intro cs block run
  have hlines : (lines cs).length ≤ UInt32.size := by decide
  have hblock : block ∈ regions ["prefix"] cs := by decide
  have hrun : run ∈ regions ["prefix"] cs := by decide
  have hiff := (regions_cross_iff ["prefix"] cs).2 hlines block hblock run hrun
  refine ⟨hlines, hblock, hrun, not_not.mp fun hcross => ?_⟩
  rcases hiff.mp hcross with hcut | hcut
  · exact absurd hcut.leaves (by decide)
  · exact absurd hcut.ofBlock (by decide)

/-- A run goes on over the line that closes the block above it. -/
theorem block_closes_within_run :
    let cs := "graph\n prefix\nprefix".toList
    let block : Region := { first := 0, last := 1, kind := .indentation }
    let run : Region := { first := 1, last := 2, kind := .declarations }
    block ∈ regions ["prefix"] cs ∧ run ∈ regions ["prefix"] cs ∧
      ¬block.fold.Nests run.fold := by
  intro cs block run
  refine ⟨by decide, by decide, fun hnests => ?_⟩
  rcases hnests with hapart | hwithin | hwithin
  · exact hapart 1 (by decide)
  · exact absurd (hwithin 2 (by decide)) (by decide)
  · exact absurd (hwithin 0 (by decide)) (by decide)

end GraphLanguages.Folding
