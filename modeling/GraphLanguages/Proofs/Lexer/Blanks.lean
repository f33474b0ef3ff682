import GraphLanguages.Languages.Sparql.Vocabulary
import GraphLanguages.Proofs.Lexer.Delimited
import GraphLanguages.Proofs.Lexer.Reach
import GraphLanguages.Proofs.Text.Lines

/-! Matches of a text with spaces in the place of comments.

A match that goes on behind such a space goes on behind the comment, too
(`Matcher.Contained`): it is part of a string over several lines, since other matches have no
spaces inside, or, for a string on one line, end with the line. That is not so for keywords
of several words and for brackets with nothing inside (`TokenType.spansSpace`); but what they
match in front of a comment is what they match in front of the space (`Matcher.Settled`). -/
namespace GraphLanguages
open Text

/-! ### Texts with blanks -/

/-- No text follows on the line. -/
def EndsLine (cs : List Char) : Prop :=
  ∀ c ∈ cs.head?, c = '\r' ∨ c = '\n'

/-- The text with spaces in the place of some comments. -/
inductive Blanked : List Char → List Char → Prop
  | nil : Blanked [] []
  | keep {c : Char} {cs cs' : List Char} : Blanked cs cs' → Blanked (c :: cs) (c :: cs')
  | comment {body cs cs' : List Char} : Unbroken body → EndsLine cs → Blanked cs cs' →
      Blanked ('#' :: (body ++ cs)) (' ' :: cs')

theorem Blanked.append {cs cs' : List Char} (front : List Char) (h : Blanked cs cs') :
    Blanked (front ++ cs) (front ++ cs') := by
  induction front with
  | nil => exact h
  | cons c front ih => exact .keep ih

/-- The end of a line is not blanked. -/
theorem Blanked.head? {cs cs' : List Char} (h : Blanked cs cs') (hend : EndsLine cs) :
    cs'.head? = cs.head? := by
  cases h with
  | nil | keep => rfl
  | comment =>
    rcases hend '#' rfl with h | h <;> cases h

theorem Blanked.mem {cs cs' : List Char} (h : Blanked cs cs') {c : Char} (hc : c ∈ cs') :
    c = ' ' ∨ c ∈ cs := by
  induction h with
  | nil => cases hc
  | keep _ ih =>
    rcases List.mem_cons.mp hc with rfl | hc
    · exact .inr (.head _)
    · exact (ih hc).imp_right (.tail _)
  | comment _ _ _ ih =>
    rcases List.mem_cons.mp hc with rfl | hc
    · exact .inl rfl
    · exact (ih hc).imp_right fun h => .tail _ (List.mem_append_right _ h)

/-! ### Rules at blanks -/

/-- A text with a comment, the first one behind some characters, and without. -/
structure AtComment (front body rest rest' : List Char) : Prop where
  plain : '\\' ∉ front ++ '#' :: (body ++ rest)
  body : Unbroken body
  ends : EndsLine rest
  blanked : Blanked rest rest'

theorem AtComment.plain_blanked {front body rest rest' : List Char}
    (h : AtComment front body rest rest') : '\\' ∉ front ++ ' ' :: rest' := by
  intro hc
  rcases ((Blanked.comment h.body h.ends h.blanked).append front).mem hc with hc | hc
  · cases hc
  · exact h.plain hc

/-- A match that reaches over the blank takes it and some of what follows. -/
theorem take_append_cons {c : Char} {front rest : List Char} {n : Nat} (h : front.length < n) :
    (front ++ c :: rest).take n = front ++ c :: rest.take (n - front.length - 1) := by
  obtain ⟨k, rfl⟩ := Nat.exists_eq_add_of_lt h
  rw [List.take_append, List.take_of_length_le (by omega)]
  have hk : front.length + k + 1 - front.length = k + 1 := by omega
  rw [hk, List.take_succ_cons, Nat.add_sub_cancel]

namespace Matcher

/-- A match that goes on behind a blank goes on behind the comment, too. -/
def Contained (m : Matcher) : Prop :=
  ∀ {front body rest rest' : List Char} {n : Nat}, AtComment front body rest rest' →
    m.match? (front ++ ' ' :: rest') = some n → front.length < n →
    ∃ k, m.match? (front ++ '#' :: (body ++ rest)) = some k ∧ front.length < k

/-- A single word and a text without the character have no such white space in their matches,
and nor has an expression that avoids it. -/
def avoids (c : Char) : Matcher → Bool
  | .verbatim chars => !chars.contains c
  | .spaced ws => ws.length ≤ 1
  | .regex r => r.expr.avoids c

theorem not_isSpace_of_spells {w u : List Char} (hw : ∀ c ∈ w, Unicode.isSpace c = false)
    (h : Spells w u) : ∀ c ∈ u, Unicode.isSpace c = false := by
  induction h with
  | nil => simp
  | cons hc _ ih =>
    obtain ⟨hhead, htail⟩ := List.forall_mem_cons.mp hw
    exact List.forall_mem_cons.mpr ⟨(isSpace_of_sameLetter hc).trans hhead, ih htail⟩

theorem not_mem_of_avoids {m : Matcher} (hm : m.Worded) {c : Char} (hc : Unicode.isSpace c = true)
    (h : m.avoids c = true) {cs : List Char} {n : Nat} (hmatch : m.match? cs = some n) :
    c ∉ cs.take n := by
  cases m with
  | verbatim chars =>
    rw [match?] at hmatch
    split at hmatch
    next hprefix =>
      obtain rfl := Option.some.inj hmatch
      rw [← List.prefix_iff_eq_take.mp (List.isPrefixOf_iff_prefix.mp hprefix)]
      simpa [avoids] using h
    next => cases hmatch
  | spaced ws =>
    obtain ⟨image, rest, rfl, rfl, himage⟩ := (words?_eq_some hm).mp hmatch
    rw [List.take_left]
    cases himage with
    | nil => exact List.not_mem_nil
    | @cons w u image ws hu hbehind =>
      have hlast : ws = [] := by
        have : (w :: ws).length ≤ 1 := by simpa [avoids] using h
        simpa using this
      subst hlast
      cases hbehind
      rw [List.append_nil]
      intro hspace
      rw [not_isSpace_of_spells (hm w (.head _)).2 hu c hspace] at hc
      cases hc
  | regex r =>
    obtain ⟨-, -, -, haccepts⟩ := Regex.accepts_of_match? hmatch
    exact fun hspace => haccepts.within (Regex.Expr.within_of_avoids h) c hspace rfl

theorem contained_of_avoids {m : Matcher} (hm : m.Worded) (h : m.avoids ' ' = true) :
    m.Contained := by
  intro front body rest rest' n _ hmatch hlt
  have hspace := not_mem_of_avoids hm (by decide) h hmatch
  rw [take_append_cons hlt] at hspace
  exact absurd (by simp) hspace

/-- A string on one line does not go on behind a blank, where the line ends. -/
theorem contained_shortString {r : Regex} {quote : Char} (hr : r.expr = Rdf.shortString quote)
    (hquote : quote ≠ ' ' ∧ quote ≠ '\r' ∧ quote ≠ '\n') : (Matcher.regex r).Contained := by
  intro front body rest rest' n hat hmatch hlt
  exfalso
  obtain ⟨behind, hcs, -, haccepts⟩ := Regex.accepts_of_match? hmatch
  rw [hr, take_append_cons hlt] at haccepts
  have hplain : '\\' ∉ front ++ ' ' :: rest'.take (n - front.length - 1) := fun hmem =>
    hat.plain_blanked (List.mem_of_mem_take (take_append_cons hlt ▸ hmem))
  obtain ⟨hline, w, hw⟩ := Rdf.accepts_shortString hquote.2 haccepts hplain
  cases htake : rest'.take (n - front.length - 1) with
  | nil =>
    rw [htake] at hw
    have hlast := congrArg List.getLast? hw
    simp at hlast
    exact hquote.1 hlast.symm
  | cons c cs =>
    rw [htake] at hline
    have hc : c ∈ rest.head? := by
      rw [← hat.blanked.head? hat.ends]
      cases rest' with
      | nil => rw [List.take_nil] at htake; cases htake
      | cons d rest' =>
        have hpos : n - front.length - 1 ≠ 0 := fun hzero => by rw [hzero] at htake; cases htake
        obtain ⟨k, hk⟩ := Nat.exists_eq_add_one_of_ne_zero hpos
        rw [hk, List.take_succ_cons] at htake
        exact congrArg some (List.cons.inj htake).1
    have hbroken := hline c (by simp)
    rcases hat.ends c hc with h | h
    · exact hbroken.1 h
    · exact hbroken.2 h

theorem isSome_closing?_of_blanked {quote : Char} (hquote : quote ≠ ' ' ∧ quote ≠ '#')
    {cs cs' : List Char} (h : Blanked cs cs') {n n' : Nat} (hle : n' ≤ n) (hn : n ≤ 2)
    (hsome : (Rdf.closing? quote n' cs').isSome) : (Rdf.closing? quote n cs).isSome := by
  induction h generalizing n n' with
  | nil => cases hsome
  | @keep c cs cs' _ ih =>
    rw [Rdf.closing?] at hsome ⊢
    by_cases hc : c = quote
    · rw [if_pos hc] at hsome ⊢
      by_cases htwo : n = 2
      · rw [if_pos htwo]
        rfl
      · rw [if_neg (by omega), Option.isSome_map] at hsome
        rw [if_neg htwo, Option.isSome_map]
        exact ih (by omega) (by omega) hsome
    · rw [if_neg hc, Option.isSome_map] at hsome ⊢
      exact ih (Nat.le_refl 0) (by decide) hsome
  | comment _ _ _ ih =>
    rw [Rdf.closing?, if_neg (Ne.symm hquote.1), Option.isSome_map] at hsome
    rw [Rdf.closing?, if_neg (Ne.symm hquote.2), Option.isSome_map]
    exact Rdf.isSome_closing?_append (fun k hk => ih (Nat.zero_le k) hk hsome) (by decide)

/-- A string over several lines that is closed behind a blank is closed behind the comment
or in it. -/
theorem contained_longString {r : Regex} {quote : Char} (hr : r.expr = Rdf.longString quote)
    (hquote : quote ≠ ' ' ∧ quote ≠ '#') : (Matcher.regex r).Contained := by
  intro front body rest rest' n hat hmatch hlt
  -- the quotes that open the string stand in front of the blank
  obtain ⟨inside, rfl⟩ : ∃ inside, front = quote :: quote :: quote :: inside := by
    obtain ⟨behind, hcs, -, haccepts⟩ := Regex.accepts_of_match? hmatch
    rw [hr, Rdf.longString_eq] at haccepts
    obtain ⟨first, others, hfirst, -, htake⟩ := Regex.accepts_seq.mp haccepts
    rw [htake, Rdf.accepts_threeQuotes.mp hfirst] at hcs
    match front, hcs with
    | [], hcs => exact absurd (List.cons.inj hcs).1.symm hquote.1
    | [_], hcs => exact absurd (List.cons.inj (List.cons.inj hcs).2).1.symm hquote.1
    | [_, _], hcs =>
      exact absurd (List.cons.inj (List.cons.inj (List.cons.inj hcs).2).2).1.symm hquote.1
    | a :: b :: c :: inside, hcs =>
      simp only [List.cons_append, List.nil_append, List.cons.injEq] at hcs
      exact ⟨inside, by rw [hcs.1, hcs.2.1, hcs.2.2.1]⟩
  have hplain' := hat.plain_blanked
  have hplain := hat.plain
  simp only [List.cons_append, List.mem_cons, not_or] at hplain hplain'
  have hmatch : (Rdf.longString quote).match? (quote :: quote :: quote :: (inside ++ ' ' :: rest')) =
      some n := hr ▸ hmatch
  rw [Rdf.match?_longString (by simpa using hplain'.2.2.2)] at hmatch
  obtain ⟨k, hk, rfl⟩ := Option.map_eq_some_iff.mp hmatch
  simp only [List.length_cons] at hlt ⊢
  obtain ⟨m, hm, hsome, hall⟩ := Rdf.exists_closing? (by decide) hk (by omega)
  have hcomment : Blanked ('#' :: (body ++ rest)) (' ' :: rest') :=
    .comment hat.body hat.ends hat.blanked
  have hclosed := isSome_closing?_of_blanked hquote hcomment (Nat.le_refl m) hm hsome
  obtain ⟨j, hj⟩ := Option.isSome_iff_exists.mp hclosed
  have hpos := Rdf.closing?_pos hj
  refine ⟨j + inside.length + 3, ?_, by omega⟩
  show r.expr.match? (quote :: quote :: quote :: (inside ++ '#' :: (body ++ rest))) = _
  rw [hr, Rdf.match?_longString (by simpa using hplain.2.2.2), hall, hj]
  rfl

/-! ### Matches with white space inside -/

/-- A match within some text stays the match whatever follows the text. -/
def Settled (m : Matcher) : Prop :=
  ∀ (cs rest rest' : List Char) (n : Nat), m.match? (cs ++ rest) = some n →
    n ≤ cs.length → m.match? (cs ++ rest') = some n

theorem settled_spaced {ws : List (List Char)} (hws : ∀ w ∈ ws, IsWord w) :
    (spaced ws).Settled := by
  intro cs rest rest' n hmatch hle
  exact ((words?_append_iff hws rest').mp ((words?_append_iff hws rest).mpr ⟨hmatch, hle⟩)).1

theorem settled_hollow {r : Regex} {opening closing : Char}
    (hr : r.expr = Rdf.hollow opening closing) (hclosing : Rdf.gapClass.holds closing = false) :
    (regex r).Settled := by
  intro cs rest rest' n hmatch hle
  obtain ⟨behind, hcs, -, haccepts⟩ := Regex.accepts_of_match? hmatch
  rw [List.take_append_of_le_length hle, hr] at haccepts
  have hsome := Regex.isSome_match?_of_accepts haccepts (cs.drop n ++ rest')
  rw [← List.append_assoc, List.take_append_drop, ← hr] at hsome
  obtain ⟨k, hk⟩ := Option.isSome_iff_exists.mp hsome
  obtain ⟨behind', hcs', hkle, haccepts'⟩ := Regex.accepts_of_match? hk
  rw [hr] at haccepts'
  have hsplit : cs ++ rest' = cs.take n ++ (cs.drop n ++ rest') := by
    rw [← List.append_assoc, List.take_append_drop]
  have hlength := Rdf.hollow_unique hclosing haccepts' haccepts (hcs'.symm.trans hsplit)
  rw [List.length_take, List.length_take, Nat.min_eq_left hkle, Nat.min_eq_left hle] at hlength
  exact hlength ▸ hk

end Matcher

/-- Has the type matches with white space between their ends: a keyword of several words,
or brackets or parentheses with nothing inside? Strings are not meant. -/
def TokenType.spansSpace (t : TokenType) : Bool :=
  match t.pattern with
  | .keyword text => 1 < (words text.toList).length
  | .regex r => r ∈ [Rdf.anonymousRegex, Sparql.nilRegex]
  | .literal _ | .custom | .anyOf _ => false

theorem Matcher.settled_of_spansSpace {t : TokenType} {m : Matcher}
    (hm : ofPattern? t.pattern = some m) (h : t.spansSpace = true) : m.Settled := by
  unfold TokenType.spansSpace at h
  split at h
  next text hp =>
    rw [hp] at hm
    cases hm
    exact settled_spaced fun w => isWord_of_mem_words
  next r hp =>
    rw [hp] at hm
    cases hm
    have hr : r = Rdf.anonymousRegex ∨ r = Sparql.nilRegex := by simpa using h
    rcases hr with rfl | rfl
    · exact settled_hollow rfl (by decide)
    · exact settled_hollow rfl (by decide)
  all_goals cases h

end GraphLanguages
