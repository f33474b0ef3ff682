import Mathlib.Data.List.Induction
import GraphLanguages.Proofs.Text.AsciiCase
import GraphLanguages.Proofs.Text.Regex
import GraphLanguages.Lexer

/-! The longest match.

The rule that wins is the first of those that take most (`longest?_cases`). So rules that
are put between the others change nothing where they take less than the best of them
(`longest?_of_insert`). Which rules may take anything of a text that begins with a word is
seen from their patterns (`Matcher.meets_of_width_pos`). -/
namespace GraphLanguages

namespace Lexer

/-- The rules for some types. -/
def rulesOf (types : List TokenType) : List (TokenType × Matcher) :=
  types.filterMap fun t => (Matcher.ofPattern? t.pattern).map (t, ·)

theorem rulesOf_append (ts us : List TokenType) :
    rulesOf (ts ++ us) = rulesOf ts ++ rulesOf us :=
  List.filterMap_append

/-- Number of characters that a rule takes, none where it does not match. -/
def width (cs : List Char) (rule : TokenType × Matcher) : Nat :=
  (rule.2.match? cs).getD 0

theorem match?_of_width_pos {cs : List Char} {rule : TokenType × Matcher}
    (h : 0 < width cs rule) : rule.2.match? cs = some (width cs rule) := by
  unfold width at h ⊢
  cases hm : rule.2.match? cs with
  | none => simp [hm] at h
  | some n => rfl

/-! ### The rule that wins -/

/-- The rule takes something, more than those before it, and no less than those behind. -/
structure Wins (cs : List Char) (before : List (TokenType × Matcher))
    (rule : TokenType × Matcher) (after : List (TokenType × Matcher)) : Prop where
  pos : 0 < width cs rule
  before : ∀ r ∈ before, width cs r < width cs rule
  after : ∀ r ∈ after, width cs r ≤ width cs rule

/-- The best match so far, or that of one more rule. -/
def better (cs : List Char) (best : Option (Nat × TokenType)) (rule : TokenType × Matcher) :
    Option (Nat × TokenType) :=
  if best.elim 0 Prod.fst < width cs rule then some (width cs rule, rule.1) else best

theorem better_none (cs : List Char) (r : TokenType × Matcher) :
    better cs none r = if 0 < width cs r then some (width cs r, r.1) else none := rfl

theorem better_some (cs : List Char) (r : TokenType × Matcher) (best : Nat × TokenType) :
    better cs (some best) r = if best.1 < width cs r then some (width cs r, r.1) else best := rfl

theorem longest?_eq_foldl (lx : Lexer) (cs : List Char) :
    lx.longest? cs = lx.rules.foldl (better cs) none := by
  unfold longest?
  congr 1
  funext best rule
  unfold better width
  cases rule.2.match? cs with
  | none => simp
  | some n => rfl

theorem foldl_better_cases (cs : List Char) (rules : List (TokenType × Matcher)) :
    ((∀ r ∈ rules, width cs r = 0) ∧ rules.foldl (better cs) none = none) ∨
      ∃ before rule after, rules = before ++ rule :: after ∧ Wins cs before rule after ∧
        rules.foldl (better cs) none = some (width cs rule, rule.1) := by
  induction rules using List.reverseRecOn with
  | nil => exact .inl ⟨by simp, rfl⟩
  | append_singleton rules r ih =>
    rw [List.foldl_append, List.foldl_cons, List.foldl_nil]
    rcases ih with ⟨hzero, hbest⟩ | ⟨before, rule, after, rfl, hwins, hbest⟩
    · by_cases hr : 0 < width cs r
      · refine .inr ⟨rules, r, [], rfl, ⟨hr, fun q hq => hzero q hq ▸ hr, by simp⟩, ?_⟩
        rw [hbest, better_none, if_pos hr]
      · refine .inl ⟨?_, by rw [hbest, better_none, if_neg hr]⟩
        intro q hq
        rcases List.mem_append.mp hq with hq | hq
        · exact hzero q hq
        · exact List.mem_singleton.mp hq ▸ Nat.eq_zero_of_not_pos hr
    · by_cases hr : width cs rule < width cs r
      · refine .inr ⟨before ++ rule :: after, r, [], rfl,
          ⟨Nat.lt_trans hwins.pos hr, ?_, by simp⟩, ?_⟩
        · intro q hq
          rcases List.mem_append.mp hq with hq | hq
          · exact Nat.lt_trans (hwins.before q hq) hr
          · rcases List.mem_cons.mp hq with rfl | hq
            · exact hr
            · exact Nat.lt_of_le_of_lt (hwins.after q hq) hr
        · rw [hbest, better_some, if_pos hr]
      · refine .inr ⟨before, rule, after ++ [r], by simp, ⟨hwins.pos, hwins.before, ?_⟩, ?_⟩
        · intro q hq
          rcases List.mem_append.mp hq with hq | hq
          · exact hwins.after q hq
          · obtain rfl := List.mem_singleton.mp hq
            exact Nat.le_of_not_lt hr
        · rw [hbest, better_some, if_neg hr]

/-- Nothing matches, or the first of the longest matches wins. -/
theorem longest?_cases (lx : Lexer) (cs : List Char) :
    ((∀ r ∈ lx.rules, width cs r = 0) ∧ lx.longest? cs = none) ∨
      ∃ before rule after, lx.rules = before ++ rule :: after ∧ Wins cs before rule after ∧
        lx.longest? cs = some (width cs rule, rule.1) := by
  rw [longest?_eq_foldl]
  exact foldl_better_cases cs lx.rules

/-- A rule that wins is the one. -/
theorem Wins.unique {cs : List Char} {before after before' after' : List (TokenType × Matcher)}
    {rule rule' : TokenType × Matcher} (h : Wins cs before rule after)
    (h' : Wins cs before' rule' after')
    (heq : before ++ rule :: after = before' ++ rule' :: after') : rule = rule' := by
  rcases List.append_eq_append_iff.mp heq with ⟨between, hb, hr⟩ | ⟨between, hb, hr⟩
  · cases between with
    | nil => exact (List.cons.inj hr).1
    | cons q qs =>
      obtain ⟨rfl, rfl⟩ := List.cons.inj hr
      have hlt := h'.before rule (by simp [hb])
      have hle := h.after rule' (by simp)
      omega
  · cases between with
    | nil => exact (List.cons.inj hr).1.symm
    | cons q qs =>
      obtain ⟨rfl, rfl⟩ := List.cons.inj hr
      have hlt := h.before rule' (by simp [hb])
      have hle := h'.after rule (by simp)
      omega

theorem longest?_of_wins {lx : Lexer} {cs : List Char} {rule : TokenType × Matcher}
    {before after : List (TokenType × Matcher)} (h : lx.rules = before ++ rule :: after)
    (hwins : Wins cs before rule after) : lx.longest? cs = some (width cs rule, rule.1) := by
  rcases lx.longest?_cases cs with ⟨hzero, -⟩ | ⟨before', rule', after', h', hwins', hbest⟩
  · have hpos := hwins.pos
    rw [hzero rule (by simp [h])] at hpos
    cases hpos
  · rw [hbest, hwins.unique hwins' (h.symm.trans h')]

theorem longest?_eq_none {lx : Lexer} {cs : List Char} (h : ∀ r ∈ lx.rules, width cs r = 0) :
    lx.longest? cs = none := by
  rcases lx.longest?_cases cs with ⟨-, hbest⟩ | ⟨before, rule, after, hr, hwins, -⟩
  · exact hbest
  · have hpos := hwins.pos
    rw [h rule (by simp [hr])] at hpos
    cases hpos

/-! ### More rules -/

theorem Wins.most {cs : List Char} {before after : List (TokenType × Matcher)}
    {rule : TokenType × Matcher} (h : Wins cs before rule after) :
    ∀ r ∈ before ++ rule :: after, width cs r ≤ width cs rule := by
  intro r hr
  rw [List.mem_append, List.mem_cons] at hr
  rcases hr with hr | rfl | hr
  · exact Nat.le_of_lt (h.before r hr)
  · exact Nat.le_refl _
  · exact h.after r hr

/-- A rule that wins goes on doing so when rules that take less are put somewhere. -/
theorem Wins.insert {cs : List Char} {front back before after : List (TokenType × Matcher)}
    {rule : TokenType × Matcher} (h : Wins cs before rule after)
    (heq : front ++ back = before ++ rule :: after) {added : List (TokenType × Matcher)}
    (hless : ∀ r ∈ added, width cs r < width cs rule) :
    ∃ before' after', front ++ added ++ back = before' ++ rule :: after' ∧
      Wins cs before' rule after' := by
  rcases List.append_eq_append_iff.mp heq with ⟨between, rfl, rfl⟩ | ⟨between, rfl, hr⟩
  · -- the rule stands behind them
    refine ⟨front ++ added ++ between, after, by simp, h.pos, ?_, h.after⟩
    intro r hr
    rw [List.append_assoc, List.mem_append, List.mem_append] at hr
    rcases hr with hr | hr | hr
    · exact h.before r (List.mem_append_left _ hr)
    · exact hless r hr
    · exact h.before r (List.mem_append_right _ hr)
  · cases between with
    | nil =>
      refine ⟨before ++ added, after, by simp [hr], h.pos, ?_, h.after⟩
      intro r hr
      exact (List.mem_append.mp hr).elim (h.before r) (hless r)
    | cons q between =>
      -- the rule stands in front of them
      obtain ⟨rfl, rfl⟩ := List.cons.inj hr
      refine ⟨before, between ++ added ++ back, by simp, h.pos, h.before, ?_⟩
      intro r hr
      rw [List.append_assoc, List.mem_append, List.mem_append] at hr
      rcases hr with hr | hr | hr
      · exact h.after r (List.mem_append_left _ hr)
      · exact Nat.le_of_lt (hless r hr)
      · exact h.after r (List.mem_append_right _ hr)

/-- Where one rule takes something, one that takes no less wins. -/
theorem exists_longest {lx : Lexer} {cs : List Char} {r : TokenType × Matcher}
    (hr : r ∈ lx.rules) (hpos : 0 < width cs r) :
    ∃ q ∈ lx.rules, width cs r ≤ width cs q ∧ lx.longest? cs = some (width cs q, q.1) := by
  rcases lx.longest?_cases cs with ⟨hzero, -⟩ | ⟨before, q, after, hq, hwins, hbest⟩
  · rw [hzero r hr] at hpos
    cases hpos
  · exact ⟨q, by simp [hq], hwins.most r (hq ▸ hr), hbest⟩

/-- Rules that are put between the others change nothing where they take less. -/
theorem longest?_of_insert {lx lx' : Lexer} {front added back : List (TokenType × Matcher)}
    (h : lx.rules = front ++ back) (h' : lx'.rules = front ++ added ++ back) {cs : List Char}
    (hadded : ∀ r ∈ added, width cs r = 0 ∨ ∃ q ∈ lx.rules, width cs r < width cs q) :
    lx'.longest? cs = lx.longest? cs := by
  rcases lx.longest?_cases cs with ⟨hzero, hbest⟩ | ⟨before, rule, after, hr, hwins, hbest⟩
  · rw [hbest]
    apply longest?_eq_none
    intro r hr
    rw [h', List.append_assoc, List.mem_append, List.mem_append] at hr
    rcases hr with hr | hr | hr
    · exact hzero r (by simp [h, hr])
    · rcases hadded r hr with hz | ⟨q, hq, hlt⟩
      · exact hz
      · rw [hzero q hq] at hlt
        cases hlt
    · exact hzero r (by simp [h, hr])
  · have hless : ∀ r ∈ added, width cs r < width cs rule := by
      intro r hr'
      rcases hadded r hr' with hz | ⟨q, hq, hlt⟩
      · exact hz ▸ hwins.pos
      · exact Nat.lt_of_lt_of_le hlt (hwins.most q (hr ▸ hq))
    obtain ⟨before', after', heq, hwins'⟩ := hwins.insert (h.symm.trans hr) hless
    rw [hbest, longest?_of_wins (h'.trans heq) hwins']

end Lexer

/-! ### Which rules a text can meet -/

namespace Matcher
open Text

/-- May the matcher take something of a text that begins with the word, in some case? -/
def meets (word : List Char) : Matcher → Bool
  | .verbatim chars => agree chars word
  | .spaced [] => false
  | .spaced (w :: _) => agree w word
  | .regex r => word.head?.any fun c => (bothCases c).any (r.expr.mayStart ·)

theorem meets_of_match? {m : Matcher} {word cs : List Char} {n : Nat}
    (hword : (afterIgnoringCase? word cs).isSome = true) (hne : word ≠ [])
    (h : m.match? cs = some n) (hn : 0 < n) : m.meets word = true := by
  cases m with
  | verbatim chars =>
    rw [match?] at h
    split at h
    next hp => exact agree_of_after (after_of_isPrefixOf hp) hword
    next => cases h
  | spaced ws =>
    cases ws with
    | nil =>
      cases h
      cases hn
    | cons w ws =>
      obtain ⟨rest, hw, -⟩ := Option.bind_eq_some_iff.mp h
      exact agree_of_after (by rw [hw]; rfl) hword
  | regex r =>
    obtain ⟨w, ws, rfl⟩ := List.exists_cons_of_ne_nil hne
    cases cs with
    | nil => cases hword
    | cons c cs =>
      rw [afterIgnoringCase?] at hword
      split at hword
      next hc =>
        have hstart := Regex.mayStart_of_match? h hn
        simp only [meets, List.head?_cons, Option.any_some, List.any_eq_true]
        exact ⟨c, eq_of_sameLetter hc, hstart⟩
      next => cases hword

theorem words?_cons {w cs : List Char} {ws : List (List Char)} {n : Nat}
    (h : words? (w :: ws) cs = some n) :
    ∃ rest k, afterIgnoringCase? w cs = some rest ∧ spacedWords? ws rest = some k ∧
      n = w.length + k := by
  obtain ⟨rest, hw, hws⟩ := Option.bind_eq_some_iff.mp h
  obtain ⟨k, hk, rfl⟩ := Option.map_eq_some_iff.mp hws
  exact ⟨rest, k, hw, hk, rfl⟩

/-- Before a further word there is white space. -/
theorem spacedWords?_cons {w cs : List Char} {ws : List (List Char)} {n : Nat}
    (h : spacedWords? (w :: ws) cs = some n) :
    (∃ c ∈ cs.head?, Unicode.isSpace c = true) ∧
      (afterIgnoringCase? w (cs.drop (cs.takeWhile Unicode.isSpace).length)).isSome = true := by
  rw [spacedWords?] at h
  split at h
  next => cases h
  next hgap =>
    obtain ⟨rest, hw, -⟩ := Option.bind_eq_some_iff.mp h
    refine ⟨?_, by rw [hw]; rfl⟩
    cases cs with
    | nil => exact absurd rfl hgap
    | cons c cs =>
      by_cases hc : Unicode.isSpace c = true
      · exact ⟨c, rfl, hc⟩
      · exact absurd (by simp [hc]) hgap

end Matcher

namespace Lexer

theorem meets_of_width_pos {cs word : List Char} {rule : TokenType × Matcher}
    (hword : (Text.afterIgnoringCase? word cs).isSome = true) (hne : word ≠ [])
    (h : 0 < width cs rule) : rule.2.meets word = true :=
  Matcher.meets_of_match? hword hne (match?_of_width_pos h) h

theorem match?_eq_zero {r : Text.Regex} {c : Char} (cs : List Char)
    (h : r.expr.mayStart c = false) : (r.match? (c :: cs)).getD 0 = 0 := by
  cases hm : r.match? (c :: cs) with
  | none => rfl
  | some n =>
    by_contra hn
    cases h.symm.trans (Text.Regex.mayStart_of_match? hm (Nat.pos_of_ne_zero hn))

/-! ### One step -/

theorem tokensFrom_nil (lx : Lexer) (fuel offset : Nat) : lx.tokensFrom fuel offset [] = [] := by
  cases fuel <;> rfl

theorem tokensFrom_skip {lx : Lexer} {cs : List Char} (h : 0 < lx.skipLength cs) (hne : cs ≠ [])
    (fuel offset : Nat) :
    lx.tokensFrom (fuel + 1) offset cs =
      lx.tokensFrom fuel (offset + Text.bytes (cs.take (lx.skipLength cs)))
        (cs.drop (lx.skipLength cs)) := by
  obtain ⟨c, cs, rfl⟩ := List.exists_cons_of_ne_nil hne
  rw [tokensFrom, if_pos h]

theorem tokensFrom_token {lx : Lexer} {cs : List Char} (h : lx.skipLength cs = 0) (hne : cs ≠ [])
    (fuel offset : Nat) :
    lx.tokensFrom (fuel + 1) offset cs =
      Token.ofImage (lx.first cs).2 (String.ofList (cs.take (lx.first cs).1)) offset ::
        lx.tokensFrom fuel (offset + Text.bytes (cs.take (lx.first cs).1))
          (cs.drop (lx.first cs).1) := by
  obtain ⟨c, cs, rfl⟩ := List.exists_cons_of_ne_nil hne
  rw [tokensFrom, if_neg (by rw [h]; exact Nat.lt_irrefl 0)]

/-- Nothing is skipped in front of a character that no skipped text may start with. -/
theorem skipLength_eq_zero {lx : Lexer} {c : Char} (cs : List Char)
    (h : ∀ r ∈ lx.skipped, r.expr.mayStart c = false) : lx.skipLength (c :: cs) = 0 := by
  unfold skipLength
  apply List.foldlRecOn (motive := (· = 0))
  · rfl
  · rintro _ rfl r hr
    rw [match?_eq_zero cs (h r hr), Nat.max_self]

theorem skipLength_congr {lx lx' : Lexer} (h : lx'.skipped = lx.skipped) (cs : List Char) :
    lx'.skipLength cs = lx.skipLength cs := by
  rw [skipLength, skipLength, h]

/-- Lexers that read the same wherever one of them does not read a token of some name cut
texts alike in which that one finds no such token. -/
theorem tokensFrom_congr {lx lx' : Lexer} (hskipped : lx'.skipped = lx.skipped) {name : String}
    (hfirst : ∀ cs, lx'.first cs = lx.first cs ∨ (lx.first cs).2.name = name)
    {fuel offset : Nat} {cs : List Char}
    (h : ∀ t ∈ lx.tokensFrom fuel offset cs, t.name ≠ name) :
    lx'.tokensFrom fuel offset cs = lx.tokensFrom fuel offset cs := by
  induction fuel generalizing offset cs with
  | zero => rfl
  | succ fuel ih =>
    by_cases hne : cs = []
    · rw [hne]
      rfl
    have hskip := skipLength_congr hskipped cs
    by_cases hpos : 0 < lx.skipLength cs
    · rw [tokensFrom_skip hpos hne] at h
      rw [tokensFrom_skip (hskip ▸ hpos) hne, tokensFrom_skip hpos hne, hskip]
      exact ih h
    · have hzero := Nat.eq_zero_of_not_pos hpos
      rw [tokensFrom_token hzero hne] at h
      rw [tokensFrom_token (hskip.trans hzero) hne, tokensFrom_token hzero hne]
      have hsame : lx'.first cs = lx.first cs :=
        (hfirst cs).resolve_right (h _ (List.mem_cons_self ..))
      rw [hsame, ih fun t ht => h t (List.mem_cons_of_mem _ ht)]

end Lexer

end GraphLanguages
