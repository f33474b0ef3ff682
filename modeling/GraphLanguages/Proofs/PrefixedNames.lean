import GraphLanguages.Languages.Rdf
import GraphLanguages.Proofs.Lexer.Longest
import GraphLanguages.Proofs.Text.Reach

/-! Prefixed names beside keywords.

A prefixed name covers the colon behind its prefix, and no white space comes before that
colon (`colon_of_match?`). So a name that begins like a keyword is longer than the keyword
(`longer_than_keyword`). -/
namespace GraphLanguages.Rdf
open Text

/-- The characters of White_Space. -/
def spaces : List Char :=
  [9, 10, 11, 12, 13, 32, 133, 160, 5760, 8192, 8193, 8194, 8195, 8196, 8197, 8198, 8199, 8200,
    8201, 8202, 8232, 8233, 8239, 8287, 12288].map Char.ofNat

/-- The classes of the characters in front of a colon. -/
def aliasClasses : List Regex.CharClass :=
  [⟨false, [.letter]⟩, ⟨false, [.word, .range '.' '.', .range '-' '-']⟩,
    ⟨false, [.word, .range '-' '-']⟩]

theorem mem_spaces {c : Char} (h : Unicode.isSpace c = true) : c ∈ spaces := by
  refine List.mem_map.mpr ⟨c.toNat, ?_, Char.ofNat_toNat c⟩
  simp only [Unicode.isSpace, Bool.or_eq_true, Bool.and_eq_true, decide_eq_true_eq] at h
  simp only [List.mem_cons, List.not_mem_nil, or_false]
  omega

theorem spaces_aliasClasses : ∀ k ∈ aliasClasses, spaces.any k.holds = false := by
  decide +kernel

theorem not_isSpace_of_holds {k : Regex.CharClass} (hk : k ∈ aliasClasses) {c : Char}
    (h : k.holds c = true) : Unicode.isSpace c = false := by
  by_contra hs
  have hc := mem_spaces (by simpa using hs)
  exact List.any_eq_false.mp (spaces_aliasClasses k hk) c hc h

theorem holds_just {c d : Char} :
    (⟨false, [Regex.just d]⟩ : Regex.CharClass).holds c = true ↔ c = d := by
  simp only [Regex.CharClass.holds, Regex.Item.holds, Regex.just, List.any_cons, List.any_nil,
    Bool.or_false, Bool.bne_false, Bool.and_eq_true, decide_eq_true_eq]
  exact ⟨fun h => Char.le_antisymm h.2 h.1, fun h => h ▸ ⟨Char.le_refl c, Char.le_refl c⟩⟩

theorem accepts_char {d : Char} {u : List Char} : (Regex.char d).Accepts u ↔ u = [d] := by
  simp only [Regex.char, Regex.charClass, Regex.accepts_one, holds_just, exists_eq_left]

/-- What stands in front of a name has its colon at the end and no white space. -/
theorem accepts_namespacePart {u : List Char} (h : namespacePart.Accepts u) :
    ∃ x, u = x ++ [':'] ∧ ∀ c ∈ x, Unicode.isSpace c = false := by
  cases h with
  | seq hx hcolon =>
    rw [accepts_char.mp hcolon]
    refine ⟨_, rfl, hx.within ?_⟩
    have hclass : ∀ k ∈ aliasClasses, ∀ c, k.holds c = true → Unicode.isSpace c = false :=
      fun k hk c => not_isSpace_of_holds hk
    have hletter := hclass ⟨false, [.letter]⟩ (by decide)
    have hmiddle := hclass ⟨false, [.word, .range '.' '.', .range '-' '-']⟩ (by decide)
    have hlast := hclass ⟨false, [.word, .range '-' '-']⟩ (by decide)
    exact ⟨⟨hletter, ⟨hmiddle, hlast⟩, trivial⟩, trivial⟩

/-- There is a colon in every prefixed name. -/
theorem colon_of_accepts {r : Regex} (hr : r = prefixedNameRegex ∨ r = namespaceRegex)
    {u : List Char} (h : r.expr.Accepts u) : ':' ∈ u := by
  have hcolon {u : List Char} (h : namespacePart.Accepts u) : ':' ∈ u := by
    obtain ⟨x, rfl, -⟩ := accepts_namespacePart h
    exact List.mem_append_right x (List.mem_singleton_self _)
  rcases hr with rfl | rfl
  · cases h with
    | seq hname _ => exact List.mem_append_left _ (hcolon hname)
  · exact hcolon h

/-- A prefixed name begins with its prefix. -/
theorem prefix_of_match? {r : Regex} (hr : r = prefixedNameRegex ∨ r = namespaceRegex)
    {cs : List Char} {n : Nat} (h : r.match? cs = some n) :
    ∃ u rest, cs = u ++ rest ∧ u.length ≤ n ∧ namespacePart.Accepts u := by
  obtain ⟨rest, hcs, hn, hu⟩ := Regex.accepts_of_match? h
  have hname : ∃ u y, cs.take n = u ++ y ∧ namespacePart.Accepts u := by
    generalize cs.take n = taken at hu
    rcases hr with rfl | rfl
    · cases hu with
      | seq hu hy => exact ⟨_, _, rfl, hu⟩
    · exact ⟨taken, [], (List.append_nil _).symm, hu⟩
  obtain ⟨u, y, htake, hu⟩ := hname
  have hlength := congrArg List.length htake
  rw [List.length_take, Nat.min_eq_left hn, List.length_append] at hlength
  exact ⟨u, y ++ rest, by rw [hcs, htake, List.append_assoc], by omega, hu⟩

/-- A prefixed name covers a colon, with no white space in front of it. -/
theorem colon_of_match? {r : Regex} (hr : r = prefixedNameRegex ∨ r = namespaceRegex)
    {cs : List Char} {n : Nat} (h : r.match? cs = some n) :
    ∃ x y, cs = x ++ ':' :: y ∧ x.length < n ∧ ∀ c ∈ x, Unicode.isSpace c = false := by
  obtain ⟨u, rest, rfl, hn, hu⟩ := prefix_of_match? hr h
  obtain ⟨x, rfl, hx⟩ := accepts_namespacePart hu
  rw [List.length_append, List.length_singleton] at hn
  exact ⟨x, rest, by simp, hn, hx⟩

/-- A text that begins with a word and also with a name begins with a name that is longer,
and has no white space behind the word. -/
theorem longer_than_word {word u rest x y : List Char}
    (hletters : word.any (sameLetter · ':') = false) (hspells : Spells word u)
    (h : u ++ rest = x ++ ':' :: y)
    (hx : ∀ c ∈ x, Unicode.isSpace c = false) :
    word.length ≤ x.length ∧ ∀ c ∈ rest.head?, Unicode.isSpace c = false := by
  have hcolon : ':' ∉ u := by
    intro hmem
    obtain ⟨i, hi, hget⟩ := List.getElem_of_mem hmem
    have hlength := hspells.length_eq
    have hsame := hspells.get (by omega) hi
    rw [List.get_eq_getElem, List.get_eq_getElem, hget] at hsame
    exact List.any_eq_false.mp hletters _ (List.getElem_mem _) hsame
  rcases List.append_eq_append_iff.mp h with ⟨between, rfl, hrest⟩ | ⟨between, rfl, hback⟩
  · refine ⟨by rw [hspells.length_eq, List.length_append]; omega, fun c hc => ?_⟩
    cases between with
    | nil =>
      obtain rfl : ':' = c := by simpa [hrest] using hc
      rfl
    | cons d between =>
      obtain rfl : d = c := by simpa [hrest] using hc
      exact hx d (by simp)
  · cases between with
    | nil =>
      refine ⟨by rw [hspells.length_eq]; simp, fun c hc => ?_⟩
      have hrest : rest = ':' :: y := hback.symm
      obtain rfl : ':' = c := by simpa [hrest] using hc
      rfl
    | cons d between =>
      obtain ⟨rfl, -⟩ := List.cons.inj hback
      exact absurd (by simp) hcolon

/-- A name at the start of a text that begins with a keyword is longer than the keyword, and
no white space comes behind that. -/
theorem longer_than_keyword {q : TokenType × Matcher}
    (hq : q.2 = .regex prefixedNameRegex ∨ q.2 = .regex namespaceRegex) {word cs rest : List Char}
    (hletters : word.any (sameLetter · ':') = false)
    (hword : afterIgnoringCase? word cs = some rest) (hpos : 0 < Lexer.width cs q) :
    word.length < Lexer.width cs q ∧ ∀ c ∈ rest.head?, Unicode.isSpace c = false := by
  obtain ⟨u, hspells, rfl⟩ := spells_of_after hword
  have hmatch := Lexer.match?_of_width_pos hpos
  obtain ⟨x, y, hcs, hx, hnospace⟩ : ∃ x y, u ++ rest = x ++ ':' :: y ∧
      x.length < Lexer.width (u ++ rest) q ∧ ∀ c ∈ x, Unicode.isSpace c = false := by
    rcases hq with hq | hq
    · exact colon_of_match? (.inl rfl) (by rwa [hq] at hmatch)
    · exact colon_of_match? (.inr rfl) (by rwa [hq] at hmatch)
  obtain ⟨hshorter, hhead⟩ := longer_than_word hletters hspells hcs hnospace
  exact ⟨Nat.lt_of_le_of_lt hshorter hx, hhead⟩

/-! ### A letter in front of a name -/

/-- With a letter in front of it, a prefix is one as well. -/
theorem accepts_letter_before {d c : Char} {u : List Char} (hd : Unicode.isLetter d = true)
    (hc : Unicode.isWord c = true) (hcolon : c ≠ ':') (h : namespacePart.Accepts (c :: u)) :
    namespacePart.Accepts (d :: c :: u) := by
  have hletter : (Regex.charClass [.letter]).Accepts [d] :=
    Regex.accepts_one.mpr ⟨d, by simpa [Regex.CharClass.holds, Regex.Item.holds] using hd, rfl⟩
  have hword : ∀ {items}, Regex.Item.word ∈ items → (Regex.charClass items).Accepts [c] := by
    intro items hmem
    refine Regex.accepts_one.mpr ⟨c, ?_, rfl⟩
    rw [Regex.CharClass.holds, Bool.bne_false, List.any_eq_true]
    exact ⟨_, hmem, hc⟩
  obtain ⟨x, colon, hx, hlast, hu⟩ := Regex.accepts_seq.mp h
  rcases Regex.accepts_alt.mp hx with hx | hx
  · obtain ⟨first, others, hfirst, hothers, rfl⟩ := Regex.accepts_seq.mp hx
    obtain ⟨d', -, rfl⟩ := Regex.accepts_one.mp hfirst
    obtain ⟨rfl, rfl⟩ := List.cons.inj hu
    have hmore : (Regex.maybe (.seq
        (.star (Regex.charClass [.word, Regex.just '.', Regex.just '-']))
        (Regex.charClass [.word, Regex.just '-']))).Accepts ([c] ++ others) := by
      rcases Regex.accepts_alt.mp hothers with hothers | hothers
      · obtain ⟨middle, last, hmiddle, hend, rfl⟩ := Regex.accepts_seq.mp hothers
        rw [← List.append_assoc]
        exact .preferred (.seq (.more (hword (.head _)) hmiddle) hend)
      · cases hothers
        rw [List.append_nil, ← List.nil_append [c]]
        exact .preferred (.seq .none (hword (.head _)))
    exact .seq (.preferred (.seq hletter hmore)) hlast
  · cases hx
    rw [accepts_char.mp hlast] at hu
    exact absurd (List.cons.inj hu).1 hcolon

end GraphLanguages.Rdf
