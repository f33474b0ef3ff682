import GraphLanguages.Proofs.Lexer.Longest
import GraphLanguages.Proofs.Text.AnyCase

/-! What patterns match.

A pattern covers characters at the start of a text: its own, its words in any ASCII case
with white space between them, or what its expression matches there (`Pattern.Covers`).
This is what its matcher finds (`TokenType.matches_iff`): words have no white space in them,
so a gap between two words ends where the next one starts. -/
namespace GraphLanguages

namespace Text

/-! ### Words and white space -/

/-- Not empty, and without white space. -/
def IsWord (w : List Char) : Prop :=
  w ≠ [] ∧ ∀ c ∈ w, Unicode.isSpace c = false

theorem isWord_of_mem_wordsFrom {pending cs w : List Char}
    (hpending : ∀ c ∈ pending, Unicode.isSpace c = false) (h : w ∈ wordsFrom pending cs) :
    IsWord w := by
  induction cs generalizing pending with
  | nil =>
    rw [wordsFrom] at h
    split at h
    next => cases h
    next hne =>
      obtain rfl := List.mem_singleton.mp h
      exact ⟨by simpa using hne, by simpa using hpending⟩
  | cons c cs ih =>
    rw [wordsFrom] at h
    split at h
    next =>
      split at h
      next => exact ih (by simp) h
      next hne =>
        rcases List.mem_cons.mp h with rfl | h
        · exact ⟨by simpa using hne, by simpa using hpending⟩
        · exact ih (by simp) h
    next hc => exact ih (List.forall_mem_cons.mpr ⟨by simpa using hc, hpending⟩) h

theorem isWord_of_mem_words {cs w : List Char} (h : w ∈ words cs) : IsWord w :=
  isWord_of_mem_wordsFrom (by simp) h

theorem isSpace_of_sameLetter {w c : Char} (h : sameLetter w c = true) :
    Unicode.isSpace c = Unicode.isSpace w :=
  (caseBlind_isSpace.eq h).symm

theorem after_of_spells {word u : List Char} (h : Spells word u) (rest : List Char) :
    afterIgnoringCase? word (u ++ rest) = some rest := by
  induction h with
  | nil => rfl
  | cons hc _ ih => rw [List.cons_append, afterIgnoringCase?, if_pos hc, ih]

/-- A word in any case starts with no white space. -/
theorem takeWhile_isSpace_of_spells {word u gap rest : List Char} (hw : IsWord word)
    (hu : Spells word u) (hgap : ∀ c ∈ gap, Unicode.isSpace c = true) :
    (gap ++ (u ++ rest)).takeWhile Unicode.isSpace = gap := by
  rw [List.takeWhile_append_of_pos hgap]
  cases hu with
  | nil => exact absurd rfl hw.1
  | @cons w c ws us hc _ =>
    have hspace : Unicode.isSpace c = false :=
      (isSpace_of_sameLetter hc).trans (hw.2 w (List.mem_cons_self ..))
    simp [hspace]

/-- The words one after another, each in some case and behind white space. -/
inductive WordsBehind : List (List Char) → List Char → Prop
  | nil : WordsBehind [] []
  | cons {w u gap image : List Char} {ws : List (List Char)} : gap ≠ [] →
      (∀ c ∈ gap, Unicode.isSpace c = true) → Spells w u → WordsBehind ws image →
      WordsBehind (w :: ws) (gap ++ (u ++ image))

/-- The words one after another, each in some case, with white space between them. -/
inductive SpacedWords : List (List Char) → List Char → Prop
  | nil : SpacedWords [] []
  | cons {w u image : List Char} {ws : List (List Char)} : Spells w u → WordsBehind ws image →
      SpacedWords (w :: ws) (u ++ image)

end Text

open Text

/-! ### Keywords -/

namespace Matcher

theorem wordsBehind_of_spacedWords? {ws : List (List Char)} {cs : List Char} {n : Nat}
    (h : spacedWords? ws cs = some n) :
    ∃ image rest, cs = image ++ rest ∧ image.length = n ∧ WordsBehind ws image := by
  induction ws generalizing cs n with
  | nil =>
    cases h
    exact ⟨[], cs, rfl, rfl, .nil⟩
  | cons w ws ih =>
    rw [spacedWords?] at h
    split at h
    next => cases h
    next hgap =>
      obtain ⟨behind, hw, h⟩ := Option.bind_eq_some_iff.mp h
      obtain ⟨k, hk, rfl⟩ := Option.map_eq_some_iff.mp h
      obtain ⟨u, hu, hdrop⟩ := spells_of_after hw
      obtain ⟨image, rest, rfl, rfl, himage⟩ := ih hk
      have hcs : cs = cs.takeWhile Unicode.isSpace ++ (u ++ (image ++ rest)) := by
        rw [← hdrop]
        exact (List.prefix_iff_eq_append.mp (List.takeWhile_prefix _)).symm
      refine ⟨cs.takeWhile Unicode.isSpace ++ (u ++ image), rest, ?_, ?_,
        .cons (fun hnil => hgap (by rw [hnil]; rfl)) (fun c hc => ?_) hu himage⟩
      · simpa only [List.append_assoc] using hcs
      · rw [List.length_append, List.length_append, ← hu.length_eq, Nat.add_assoc]
      · exact List.all_eq_true.mp List.all_takeWhile c hc

theorem spacedWords?_of_wordsBehind {ws : List (List Char)} {image : List Char}
    (hws : ∀ w ∈ ws, IsWord w) (h : WordsBehind ws image) (rest : List Char) :
    spacedWords? ws (image ++ rest) = some image.length := by
  induction h with
  | nil => rfl
  | @cons w u gap image ws hne hgap hu _ ih =>
    obtain ⟨hw, hws⟩ := List.forall_mem_cons.mp hws
    have hcs : gap ++ (u ++ image) ++ rest = gap ++ (u ++ (image ++ rest)) := by
      simp only [List.append_assoc]
    rw [hcs, spacedWords?, takeWhile_isSpace_of_spells hw hu hgap,
      if_neg (fun hzero => hne (List.eq_nil_of_length_eq_zero hzero)), List.drop_left,
      after_of_spells hu, Option.bind_some, ih hws, Option.map_some, List.length_append,
      List.length_append, ← hu.length_eq, Nat.add_assoc]

theorem words?_eq_some {ws : List (List Char)} (hws : ∀ w ∈ ws, IsWord w) {cs : List Char}
    {n : Nat} :
    words? ws cs = some n ↔
      ∃ image rest, cs = image ++ rest ∧ image.length = n ∧ SpacedWords ws image := by
  constructor
  · intro h
    cases ws with
    | nil =>
      cases h
      exact ⟨[], cs, rfl, rfl, .nil⟩
    | cons w ws =>
      obtain ⟨behind, k, hw, hk, rfl⟩ := words?_cons h
      obtain ⟨u, hu, rfl⟩ := spells_of_after hw
      obtain ⟨image, rest, rfl, rfl, himage⟩ := wordsBehind_of_spacedWords? hk
      refine ⟨u ++ image, rest, (List.append_assoc ..).symm, ?_, .cons hu himage⟩
      rw [List.length_append, hu.length_eq]
  · rintro ⟨image, rest, rfl, rfl, h⟩
    cases h with
    | nil => rfl
    | @cons w u image ws hu himage =>
      rw [List.append_assoc, words?, after_of_spells hu, Option.bind_some,
        spacedWords?_of_wordsBehind (List.forall_mem_cons.mp hws).2 himage, Option.map_some,
        List.length_append, hu.length_eq]

end Matcher

/-! ### All patterns -/

/-- The pattern matches the characters in front of the rest of the text. -/
inductive Pattern.Covers : Pattern → List Char → List Char → Prop
  | literal {text : String} {rest : List Char} : Covers (.literal text) text.toList rest
  | keyword {text : String} {image rest : List Char} : SpacedWords (words text.toList) image →
      Covers (.keyword text) image rest
  | regex {r : Text.Regex} {image rest : List Char} :
      r.match? (image ++ rest) = some image.length → Covers (.regex r) image rest

/-- The type matches this many characters at the start of the text. -/
def TokenType.Matches (T : TokenType) (n : Nat) (cs : List Char) : Prop :=
  ∃ image rest, cs = image ++ rest ∧ image.length = n ∧ T.pattern.Covers image rest

theorem TokenType.matches_iff {T : TokenType} {n : Nat} {cs : List Char} :
    T.Matches n cs ↔ ∃ m, Matcher.ofPattern? T.pattern = some m ∧ m.match? cs = some n := by
  constructor
  · rintro ⟨image, rest, rfl, rfl, h⟩
    cases hp : T.pattern with
    | literal text =>
      rw [hp] at h
      cases h
      exact ⟨_, rfl, if_pos (List.isPrefixOf_iff_prefix.mpr (List.prefix_append ..))⟩
    | keyword text =>
      rw [hp] at h
      cases h with
      | keyword h =>
        exact ⟨_, rfl, (Matcher.words?_eq_some fun _ => isWord_of_mem_words).mpr
          ⟨image, rest, rfl, rfl, h⟩⟩
    | regex r =>
      rw [hp] at h
      cases h with
      | regex h => exact ⟨_, rfl, h⟩
    | custom | anyOf =>
      rw [hp] at h
      cases h
  · rintro ⟨m, hm, h⟩
    cases hp : T.pattern with
    | literal text =>
      rw [hp] at hm
      cases hm
      rw [Matcher.match?] at h
      split at h
      next hprefix =>
        cases h
        obtain ⟨rest, rfl⟩ := List.isPrefixOf_iff_prefix.mp hprefix
        exact ⟨_, rest, rfl, rfl, hp ▸ .literal⟩
      next => cases h
    | keyword text =>
      rw [hp] at hm
      cases hm
      obtain ⟨image, rest, hcs, hn, himage⟩ :=
        (Matcher.words?_eq_some fun _ => isWord_of_mem_words).mp h
      exact ⟨image, rest, hcs, hn, hp ▸ .keyword himage⟩
    | regex r =>
      rw [hp] at hm
      cases hm
      obtain ⟨rest, hcs, hle, -⟩ := Regex.accepts_of_match? h
      refine ⟨cs.take n, rest, hcs, by rw [List.length_take, Nat.min_eq_left hle], hp ▸ .regex ?_⟩
      rw [← hcs, List.length_take, Nat.min_eq_left hle]
      exact h
    | custom | anyOf =>
      rw [hp] at hm
      cases hm

end GraphLanguages
