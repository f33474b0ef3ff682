import GraphLanguages.Proofs.PrefixedNames

/-! Terminals that may have white space in them: strings, and brackets with nothing inside.

Where nothing is escaped, a string on one line has no line end in it
(`accepts_shortString`), one over several lines ends with the third quote in a row
(`match?_longString`), and brackets end with the first character that is no gap
(`hollow_unique`). -/
namespace GraphLanguages.Rdf
open Text Regex

variable {u : List Char}

theorem any_just {items : List Char} {c : Char} :
    (items.map just).any (fun i => i.holds c) = true ↔ c ∈ items := by
  have hjust : ∀ d, (just d).holds c = true ↔ c = d := fun d => by
    rw [← holds_just]
    simp [CharClass.holds]
  simp only [List.any_map, List.any_eq_true, Function.comp_apply, hjust, exists_eq_right']

theorem accepts_exceptFor {items : List Char} :
    (exceptFor (items.map just)).Accepts u ↔ ∃ c, c ∉ items ∧ u = [c] := by
  have hholds : ∀ c, (⟨true, items.map just⟩ : CharClass).holds c = true ↔ c ∉ items := fun c => by
    rw [CharClass.holds, ← any_just]
    simp
  simp only [exceptFor, accepts_one, hholds]

/-- A backslash with what it escapes. -/
theorem backslash_of_accepts {k : CharClass} (h : (Expr.seq (char '\\') (.one k)).Accepts u) :
    '\\' ∈ u := by
  obtain ⟨slash, rest, hslash, -, rfl⟩ := accepts_seq.mp h
  rw [accepts_char.mp hslash]
  exact .head _

/-! ### Strings on one line -/

section
variable {quote : Char}

/-- A character between the quotes. -/
theorem unbroken_of_accepts
    (h : (Expr.alt (exceptFor ([quote, '\\', '\n', '\r'].map just)) escapedInLine).Accepts u)
    (hplain : '\\' ∉ u) : ∀ c ∈ u, c ≠ '\r' ∧ c ≠ '\n' := by
  rcases accepts_alt.mp h with h | hescaped
  · obtain ⟨c, hc, rfl⟩ := accepts_exceptFor.mp h
    simp only [List.mem_cons, List.not_mem_nil, or_false, not_or] at hc
    exact List.forall_mem_singleton.mpr ⟨hc.2.2.2, hc.2.2.1⟩
  · exact absurd (backslash_of_accepts hescaped) hplain

/-- Where nothing is escaped, a string on one line has no line end in it, and its last
character is the quote. -/
theorem accepts_shortString (hquote : quote ≠ '\r' ∧ quote ≠ '\n')
    (h : (shortString quote).Accepts u) (hplain : '\\' ∉ u) :
    (∀ c ∈ u, c ≠ '\r' ∧ c ≠ '\n') ∧ ∃ w, u = w ++ [quote] := by
  obtain ⟨first, behind, hfirst, hbehind, rfl⟩ := accepts_seq.mp h
  obtain ⟨body, last, hbody, hlast, rfl⟩ := accepts_seq.mp hbehind
  obtain rfl := accepts_char.mp hfirst
  obtain rfl := accepts_char.mp hlast
  have hinside : '\\' ∉ body → ∀ c ∈ body, c ≠ '\r' ∧ c ≠ '\n' := by
    refine Expr.Accepts.star_induction
      (p := fun body => '\\' ∉ body → ∀ c ∈ body, c ≠ '\r' ∧ c ≠ '\n')
      (fun _ => by simp) (fun u w hu ih hplain => ?_) hbody
    rw [List.mem_append, not_or] at hplain
    rw [List.forall_mem_append]
    exact ⟨unbroken_of_accepts hu hplain.1, ih hplain.2⟩
  simp only [List.mem_append, not_or] at hplain
  refine ⟨?_, [quote] ++ body, (List.append_assoc ..).symm⟩
  rw [List.forall_mem_append, List.forall_mem_append, List.forall_mem_singleton]
  exact ⟨hquote, hinside hplain.2.1, hquote⟩

end

/-! ### Strings over several lines -/

/-- Number of characters up to the third quote in a row, of which some are in front. -/
def closing? (quote : Char) : (seen : Nat) → List Char → Option Nat
  | _, [] => none
  | seen, c :: cs =>
    if c = quote then
      if seen = 2 then some 1 else (closing? quote (seen + 1) cs).map (· + 1)
    else (closing? quote 0 cs).map (· + 1)

section
variable {quote : Char}

def threeQuotes (quote : Char) : Expr :=
  .seq (char quote) (.seq (char quote) (char quote))

/-- Fewer than three quotes and another character. -/
def stringUnit (quote : Char) : Expr :=
  .seq (maybe (.alt (char quote) (.seq (char quote) (char quote))))
    (.alt (exceptFor ([quote, '\\'].map just)) escapedAnywhere)

theorem longString_eq (quote : Char) :
    longString quote =
      .seq (threeQuotes quote) (.seq (.star (stringUnit quote)) (threeQuotes quote)) :=
  rfl

theorem accepts_threeQuotes : (threeQuotes quote).Accepts u ↔ u = [quote, quote, quote] := by
  simp only [threeQuotes, accepts_seq, accepts_char]
  constructor
  · rintro ⟨_, _, rfl, ⟨_, _, rfl, rfl, rfl⟩, rfl⟩
    rfl
  · rintro rfl
    exact ⟨_, _, rfl, ⟨_, _, rfl, rfl, rfl⟩, rfl⟩

theorem accepts_fewQuotes :
    (maybe (.alt (char quote) (.seq (char quote) (char quote)))).Accepts u ↔
      ∃ n ≤ 2, u = List.replicate n quote := by
  have hempty : Expr.empty.Accepts u ↔ u = [] :=
    ⟨fun h => by cases h; rfl, fun h => h ▸ .empty⟩
  simp only [maybe, accepts_alt, accepts_seq, accepts_char, hempty]
  constructor
  · rintro ((rfl | ⟨_, _, rfl, rfl, rfl⟩) | rfl)
    · exact ⟨1, by decide, rfl⟩
    · exact ⟨2, by decide, rfl⟩
    · exact ⟨0, by decide, rfl⟩
  · rintro ⟨n, hn, rfl⟩
    match n, hn with
    | 0, _ => exact .inr rfl
    | 1, _ => exact .inl (.inl rfl)
    | 2, _ => exact .inl (.inr ⟨_, _, rfl, rfl, rfl⟩)

theorem accepts_stringUnit (h : (stringUnit quote).Accepts u) (hplain : '\\' ∉ u) :
    ∃ n ≤ 2, ∃ c, c ≠ quote ∧ u = List.replicate n quote ++ [c] := by
  obtain ⟨_, rest, hquotes, hrest, rfl⟩ := accepts_seq.mp h
  obtain ⟨n, hn, rfl⟩ := accepts_fewQuotes.mp hquotes
  rcases accepts_alt.mp hrest with hone | hescaped
  · obtain ⟨c, hc, rfl⟩ := accepts_exceptFor.mp hone
    exact ⟨n, hn, c, fun h => hc (h ▸ .head _), rfl⟩
  · exact absurd (List.mem_append_right _ (backslash_of_accepts hescaped)) hplain

theorem stringUnit_accepts {n : Nat} {c : Char} (hn : n ≤ 2) (hc : c ≠ quote) (hplain : c ≠ '\\') :
    (stringUnit quote).Accepts (List.replicate n quote ++ [c]) :=
  .seq (accepts_fewQuotes.mpr ⟨n, hn, rfl⟩)
    (.preferred (accepts_exceptFor.mpr ⟨c, by simp [hc, hplain], rfl⟩))

/-- A string over several lines ends with a quote. -/
theorem accepts_longString (h : (longString quote).Accepts u) : ∃ w, u = w ++ [quote] := by
  rw [longString_eq] at h
  obtain ⟨opening, behind, -, hbehind, rfl⟩ := accepts_seq.mp h
  obtain ⟨body, last, -, hlast, rfl⟩ := accepts_seq.mp hbehind
  rw [accepts_threeQuotes.mp hlast]
  exact ⟨opening ++ (body ++ [quote, quote]), by simp⟩

theorem closing?_unit {n : Nat} {c : Char} (hn : n ≤ 2) (hc : c ≠ quote) (rest : List Char) :
    closing? quote 0 (List.replicate n quote ++ c :: rest) =
      (closing? quote 0 rest).map (· + (n + 1)) := by
  match n, hn with
  | 0, _ => simp [closing?, hc]
  | 1, _ => simp [List.replicate, closing?, hc, Function.comp_def]
  | 2, _ => simp [List.replicate, closing?, hc, Function.comp_def]

theorem closing?_of_star {body : List Char} (h : (Expr.star (stringUnit quote)).Accepts body)
    (hplain : '\\' ∉ body) (rest : List Char) :
    closing? quote 0 (body ++ rest) = (closing? quote 0 rest).map (· + body.length) := by
  refine Expr.Accepts.star_induction
    (p := fun body => '\\' ∉ body →
      closing? quote 0 (body ++ rest) = (closing? quote 0 rest).map (· + body.length))
    (fun _ => by simp) (fun u body hu ih hplain => ?_) h hplain
  rw [List.mem_append, not_or] at hplain
  obtain ⟨n, hn, c, hc, rfl⟩ := accepts_stringUnit hu hplain.1
  have hshape : List.replicate n quote ++ [c] ++ body ++ rest =
      List.replicate n quote ++ c :: (body ++ rest) := by simp
  rw [hshape, closing?_unit hn hc, ih hplain.2, Option.map_map]
  congr 1
  funext k
  simp only [Function.comp_apply, List.length_append, List.length_replicate, List.length_singleton]
  omega

/-- The characters up to the closing quotes are units and those quotes. -/
theorem star_of_closing? {cs : List Char} {n k : Nat} (h : closing? quote n cs = some k)
    (hn : n ≤ 2) (hplain : '\\' ∉ cs) :
    ∃ body, List.replicate n quote ++ cs.take k = body ++ [quote, quote, quote] ∧
      (Expr.star (stringUnit quote)).Accepts body := by
  induction cs generalizing n k with
  | nil => cases h
  | cons c cs ih =>
    rw [List.mem_cons, not_or] at hplain
    rw [closing?] at h
    split at h
    next hc =>
      subst hc
      split at h
      next htwo =>
        obtain rfl := Option.some.inj h
        rw [htwo]
        exact ⟨[], rfl, .none⟩
      next hnot =>
        obtain ⟨k, hk, rfl⟩ := Option.map_eq_some_iff.mp h
        obtain ⟨body, hbody, haccepts⟩ := ih hk (by omega) hplain.2
        refine ⟨body, ?_, haccepts⟩
        rw [← hbody, List.take_succ_cons, List.replicate_succ', List.append_assoc]
        rfl
    next hc =>
      obtain ⟨k, hk, rfl⟩ := Option.map_eq_some_iff.mp h
      obtain ⟨body, hbody, haccepts⟩ := ih hk (by decide) hplain.2
      have hunit := stringUnit_accepts hn hc (Ne.symm hplain.1)
      refine ⟨List.replicate n quote ++ [c] ++ body, ?_, .more hunit haccepts⟩
      rw [List.append_assoc, ← hbody, List.take_succ_cons]
      simp

theorem closing?_pos {cs : List Char} {n k : Nat} (h : closing? quote n cs = some k) : 0 < k := by
  cases cs with
  | nil => cases h
  | cons c cs =>
    rw [closing?] at h
    split at h
    next =>
      split at h
      next => exact Option.some.inj h ▸ Nat.one_pos
      next =>
        obtain ⟨k, -, rfl⟩ := Option.map_eq_some_iff.mp h
        exact Nat.succ_pos k
    next =>
      obtain ⟨k, -, rfl⟩ := Option.map_eq_some_iff.mp h
      exact Nat.succ_pos k

/-- Text in front leaves some quotes behind, or closes the string itself. -/
theorem isSome_closing?_append {front rest : List Char}
    (h : ∀ n ≤ 2, (closing? quote n rest).isSome) {n : Nat} (hn : n ≤ 2) :
    (closing? quote n (front ++ rest)).isSome := by
  induction front generalizing n with
  | nil => exact h n hn
  | cons c front ih =>
    rw [List.cons_append, closing?]
    split
    · split
      · rfl
      · rw [Option.isSome_map]
        exact ih (by omega)
    · rw [Option.isSome_map]
      exact ih (by decide)

/-- A string that is not closed in the text in front goes on alike, whatever follows. -/
theorem exists_closing? {front rest : List Char} {n k : Nat} (hn : n ≤ 2)
    (h : closing? quote n (front ++ rest) = some k) (hlt : front.length < k) :
    ∃ m ≤ 2, (closing? quote m rest).isSome ∧ ∀ rest',
      closing? quote n (front ++ rest') = (closing? quote m rest').map (· + front.length) := by
  induction front generalizing n k with
  | nil => exact ⟨n, hn, by rw [← List.nil_append rest, h]; rfl, fun rest' => by simp⟩
  | cons c front ih =>
    rw [List.cons_append, closing?] at h
    rw [List.length_cons] at hlt
    by_cases hc : c = quote
    · by_cases htwo : n = 2
      · rw [if_pos hc, if_pos htwo, Option.some.injEq] at h
        omega
      · rw [if_pos hc, if_neg htwo] at h
        obtain ⟨k, hk, rfl⟩ := Option.map_eq_some_iff.mp h
        obtain ⟨m, hm, hsome, hall⟩ := ih (by omega) hk (by omega)
        refine ⟨m, hm, hsome, fun rest' => ?_⟩
        rw [List.cons_append, closing?, if_pos hc, if_neg htwo, hall, Option.map_map]
        rfl
    · rw [if_neg hc] at h
      obtain ⟨k, hk, rfl⟩ := Option.map_eq_some_iff.mp h
      obtain ⟨m, hm, hsome, hall⟩ := ih (by decide) hk (by omega)
      refine ⟨m, hm, hsome, fun rest' => ?_⟩
      rw [List.cons_append, closing?, if_neg hc, hall, Option.map_map]
      rfl

/-- A string over several lines ends where three quotes come in a row. -/
theorem match?_longString {cs : List Char} (hplain : '\\' ∉ cs) :
    (longString quote).match? (quote :: quote :: quote :: cs) =
      (closing? quote 0 cs).map (· + 3) := by
  have hclosing : ∀ n, (longString quote).match? (quote :: quote :: quote :: cs) = some n →
      (closing? quote 0 cs).map (· + 3) = some n := by
    intro n hn
    obtain ⟨rest, hcs, hle, haccepts⟩ := accepts_of_match? hn
    rw [longString_eq] at haccepts
    obtain ⟨first, behind, hfirst, hbehind, htake⟩ := accepts_seq.mp haccepts
    obtain ⟨body, last, hbody, hlast, rfl⟩ := accepts_seq.mp hbehind
    obtain rfl := accepts_threeQuotes.mp hfirst
    obtain rfl := accepts_threeQuotes.mp hlast
    rw [htake] at hcs
    have hlength := congrArg List.length htake
    rw [List.length_take, Nat.min_eq_left hle] at hlength
    obtain rfl : cs = body ++ quote :: quote :: quote :: rest := by simpa using hcs
    rw [closing?_of_star hbody fun h => hplain (List.mem_append_left _ h)]
    simp [closing?] at hlength ⊢
    omega
  refine Option.ext fun n => ⟨hclosing n, fun hn => ?_⟩
  obtain ⟨k, hk, rfl⟩ := Option.map_eq_some_iff.mp hn
  obtain ⟨body, hbody, haccepts⟩ := star_of_closing? hk (by decide) hplain
  have hword : (longString quote).Accepts ([quote, quote, quote] ++ (body ++ [quote, quote, quote])) :=
    .seq (accepts_threeQuotes.mpr rfl) (.seq haccepts (accepts_threeQuotes.mpr rfl))
  have hsome := isSome_match?_of_accepts hword (cs.drop k)
  rw [← hbody, List.append_assoc, List.append_assoc, List.take_append_drop] at hsome
  obtain ⟨n, hn⟩ := Option.isSome_iff_exists.mp hsome
  have heq := hclosing n hn
  rw [hk] at heq
  exact hn.trans heq.symm

end

/-! ### Brackets with nothing inside -/

/-- What may stand between the brackets. -/
def gapClass : CharClass := ⟨false, items " \t\r\n"⟩

theorem holds_gapClass {c : Char} : gapClass.holds c = true ↔ c ∈ [' ', '\t', '\r', '\n'] := by
  have hitems : items " \t\r\n" = [' ', '\t', '\r', '\n'].map just := by decide
  rw [gapClass, hitems, CharClass.holds, ← any_just]
  simp

theorem accepts_hollow {opening closing : Char} (h : (hollow opening closing).Accepts u) :
    ∃ gap, u = opening :: (gap ++ [closing]) ∧ ∀ c ∈ gap, gapClass.holds c = true := by
  obtain ⟨first, inside, hfirst, hinside, rfl⟩ := accepts_seq.mp h
  obtain ⟨gap, last, hgap, hlast, rfl⟩ := accepts_seq.mp hinside
  obtain rfl := accepts_char.mp hfirst
  obtain rfl := accepts_char.mp hlast
  refine ⟨gap, rfl, ?_⟩
  refine Expr.Accepts.star_induction (p := fun gap => ∀ c ∈ gap, gapClass.holds c = true)
    (by simp) (fun u gap hu ih => ?_) hgap
  obtain ⟨c, hc, rfl⟩ := accepts_one.mp hu
  exact List.forall_mem_cons.mpr ⟨hc, ih⟩

/-- The gap in brackets ends where they close, so nothing else of a text closes them. -/
theorem hollow_unique {opening closing : Char} (hclosing : gapClass.holds closing = false)
    {u u' rest rest' : List Char} (h : (hollow opening closing).Accepts u)
    (h' : (hollow opening closing).Accepts u') (heq : u ++ rest = u' ++ rest') :
    u.length = u'.length := by
  have hrun : ∀ {gap behind}, (∀ c ∈ gap, gapClass.holds c = true) →
      (gap ++ closing :: behind).takeWhile gapClass.holds = gap := by
    intro gap behind hgap
    rw [List.takeWhile_append_of_pos hgap, List.takeWhile_cons_of_neg (by simp [hclosing]),
      List.append_nil]
  obtain ⟨gap, rfl, hgap⟩ := accepts_hollow h
  obtain ⟨gap', rfl, hgap'⟩ := accepts_hollow h'
  simp only [List.cons_append, List.append_assoc, List.nil_append, List.cons.injEq,
    true_and] at heq
  have hsame := @hrun gap rest hgap
  rw [heq, hrun hgap'] at hsame
  rw [hsame]

end GraphLanguages.Rdf
