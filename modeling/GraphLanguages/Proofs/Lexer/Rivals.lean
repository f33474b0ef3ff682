import GraphLanguages.Proofs.Lexer.Blanks

/-! Lexers with rules in common.

Rules around those of another lexer make no difference where one of the others takes more
(`longest?_of_surround`), nor do those in front if none of them wins (`longest?_of_front`).
Rules of the same names that take as much as each other win together (`longest?_alike`). -/
namespace GraphLanguages.Lexer
open Text

variable {lx lx' : Lexer} {cs cs' : List Char}

/-- A rule is the one if every other takes less. -/
theorem first_of_only {rule : TokenType × Matcher} (hmem : rule ∈ lx.rules)
    (hpos : 0 < width cs rule)
    (honly : ∀ r ∈ lx.rules, 0 < width cs r → r = rule ∨ width cs r < width cs rule) :
    lx.first cs = (width cs rule, rule.1) := by
  obtain ⟨q, hq, hle, hbest⟩ := exists_longest hmem hpos
  rcases honly q hq (Nat.lt_of_lt_of_le hpos hle) with rfl | hlt
  · rw [first, hbest, Option.getD_some]
  · exact absurd hle (Nat.not_le.mpr hlt)

/-- What is known is read by a rule. -/
theorem exists_rule_of_first (h : (lx.first cs).2 ≠ lx.unknown) :
    ∃ r ∈ lx.rules, 0 < width cs r ∧ lx.first cs = (width cs r, r.1) := by
  rcases lx.longest?_cases cs with ⟨-, hnone⟩ | ⟨before, rule, after, hr, hwins, hbest⟩
  · rw [first, hnone] at h
    exact absurd rfl h
  · exact ⟨rule, by simp [hr], hwins.pos, by rw [first, hbest, Option.getD_some]⟩

/-- A text is read by the rule for it if no other may take anything there. -/
theorem first_of_meets {rule : TokenType × Matcher} (hmem : rule ∈ lx.rules) {chars : List Char}
    (hrule : rule.2 = .verbatim chars) (hne : chars ≠ [])
    (hmeets : ∀ r ∈ lx.rules, r.2.meets chars = true → r = rule) (rest : List Char) :
    lx.first (chars ++ rest) = (chars.length, rule.1) := by
  have hprefix : chars.isPrefixOf (chars ++ rest) = true :=
    List.isPrefixOf_iff_prefix.mpr (List.prefix_append ..)
  have hwidth : width (chars ++ rest) rule = chars.length := by
    rw [width, hrule, Matcher.match?, if_pos hprefix, Option.getD_some]
  rw [← hwidth]
  refine first_of_only hmem (hwidth ▸ List.length_pos_iff.mpr hne) fun r hr hpos => .inl ?_
  exact hmeets r hr (meets_of_width_pos (after_of_isPrefixOf hprefix) hne hpos)

/-! ### Rules around others -/

theorem longest?_of_surround {front back : List (TokenType × Matcher)}
    (h : lx'.rules = front ++ lx.rules ++ back)
    (hless : ∀ r ∈ front ++ back, width cs r = 0 ∨ ∃ q ∈ lx.rules, width cs r < width cs q) :
    lx'.longest? cs = lx.longest? cs := by
  let middle : Lexer := { lx with rules := front ++ lx.rules }
  have hrules : lx.rules = [] ++ lx.rules := rfl
  have hmiddle : middle.rules = middle.rules ++ [] := (List.append_nil _).symm
  have hfront : middle.longest? cs = lx.longest? cs :=
    longest?_of_insert hrules rfl fun r hr => hless r (List.mem_append_left _ hr)
  have hback : lx'.longest? cs = middle.longest? cs := by
    refine longest?_of_insert hmiddle (h.trans (List.append_nil _).symm) fun r hr => ?_
    refine (hless r (List.mem_append_right _ hr)).imp_right ?_
    rintro ⟨q, hq, hlt⟩
    exact ⟨q, List.mem_append_right _ hq, hlt⟩
  exact hback.trans hfront

theorem longest?_of_front {front : List (TokenType × Matcher)} (h : lx'.rules = front ++ lx.rules)
    {n : Nat} {T : TokenType} (hbest : lx'.longest? cs = some (n, T))
    (hT : ∀ r ∈ front, r.1 ≠ T) : lx.longest? cs = some (n, T) := by
  rcases lx'.longest?_cases cs with ⟨-, hnone⟩ | ⟨before, rule, after, hr, hwins, hrule⟩
  · cases hnone.symm.trans hbest
  have htype : rule.1 = T := by
    have := hrule.symm.trans hbest
    simp only [Option.some.injEq, Prod.mk.injEq] at this
    exact this.2
  have hbehind : rule ∈ lx.rules ∧ ∀ r ∈ front, r ∈ before := by
    rcases List.append_eq_append_iff.mp (h.symm.trans hr) with
      ⟨between, rfl, hrules⟩ | ⟨between, hfront, hrules⟩
    · exact ⟨by simp [hrules], fun r hr => List.mem_append_left _ hr⟩
    · cases between with
      | nil =>
        rw [List.append_nil] at hfront
        rw [List.nil_append] at hrules
        exact ⟨by simp [← hrules], fun r hr => hfront ▸ hr⟩
      | cons q between =>
        obtain ⟨rfl, -⟩ := List.cons.inj hrules
        exact absurd htype (hT rule (by simp [hfront]))
  rw [← hbest]
  have hrules : lx'.rules = front ++ lx.rules ++ [] := h.trans (List.append_nil _).symm
  refine (longest?_of_surround hrules fun r hr => ?_).symm
  rw [List.append_nil] at hr
  exact .inr ⟨rule, hbehind.1, hwins.before r (hbehind.2 r hr)⟩

/-! ### Rules of the same names -/

/-- One rule takes as much of a text as the other of another text. -/
structure Alike (cs cs' : List Char) (r r' : TokenType × Matcher) : Prop where
  name : r.1.name = r'.1.name
  width : width cs r = width cs' r'

/-- Matches of the same length, of types of the same name. -/
def SameMatch (best best' : Nat × TokenType) : Prop :=
  best.1 = best'.1 ∧ best.2.name = best'.2.name

theorem foldl_better_alike {rules rules' : List (TokenType × Matcher)}
    (h : List.Forall₂ (Alike cs cs') rules rules') {best best' : Option (Nat × TokenType)}
    (hbest : Option.Rel SameMatch best best') :
    Option.Rel SameMatch (rules.foldl (better cs) best) (rules'.foldl (better cs') best') := by
  induction h generalizing best best' with
  | nil => exact hbest
  | @cons r r' _ _ hr _ ih =>
    apply ih
    have hsame : Option.Rel SameMatch (some (width cs r, r.1)) (some (width cs' r', r'.1)) :=
      .some ⟨hr.width, hr.name⟩
    cases hbest with
    | none =>
      rw [better_none, better_none, hr.width]
      rw [hr.width] at hsame
      split
      · exact hsame
      · exact .none
    | @some b b' hb =>
      rw [better_some, better_some, hr.width, hb.1]
      rw [hr.width] at hsame
      split
      · exact hsame
      · exact .some hb

theorem longest?_alike (h : List.Forall₂ (Alike cs cs') lx.rules lx'.rules) :
    Option.Rel SameMatch (lx.longest? cs) (lx'.longest? cs') := by
  rw [longest?_eq_foldl, longest?_eq_foldl]
  exact foldl_better_alike h .none

end GraphLanguages.Lexer
