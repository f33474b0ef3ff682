import GraphLanguages.Proofs.Lexer.Blanks

/-! Comments and tokens.

A comment begins where the lexer stands in front of a number sign and goes to the end of the
line (`Lexer.stretchesFrom`). With a space in its place, a text has the same tokens, unless
one of them reaches over such a space; the first that does is of a type with white space
inside, and not of the type of the token that the text has there (`tokens_blanked`). -/
namespace GraphLanguages
open Text

/-! ### Comments of a text -/

/-- What the lexer takes from a text in one step. -/
inductive Stretch where
  /-- A number sign and the rest of the line. -/
  | comment (body : List Char)
  /-- White space or a token. -/
  | other (chars : List Char)
deriving DecidableEq, Repr

/-- A space takes the place of a comment. -/
def Stretch.blanked : Stretch → List Char
  | .comment _ => [' ']
  | .other chars => chars

/-- Where the spaces are that take the place of comments. -/
def blanksFrom : (offset : Nat) → List Stretch → List Nat
  | _, [] => []
  | offset, .comment _ :: ss => offset :: blanksFrom (offset + 1) ss
  | offset, .other chars :: ss => blanksFrom (offset + bytes chars) ss

theorem le_blanksFrom {offset p : Nat} {ss : List Stretch} (h : p ∈ blanksFrom offset ss) :
    offset ≤ p := by
  induction ss generalizing offset with
  | nil => cases h
  | cons s ss ih =>
    cases s with
    | comment body =>
      rcases List.mem_cons.mp h with rfl | h
      · exact Nat.le_refl p
      · exact Nat.le_of_succ_le (ih h)
    | other chars => exact Nat.le_trans (Nat.le_add_right ..) (ih h)

/-- The byte at the offset is part of the token. -/
def Token.Covers (t : Token) (offset : Nat) : Prop :=
  t.start ≤ offset ∧ offset ≤ t.last

instance (t : Token) (offset : Nat) : Decidable (t.Covers offset) :=
  inferInstanceAs (Decidable (_ ∧ _))

/-- The tokens are the same but for their places. -/
structure Token.SameText (t u : Token) : Prop where
  type : t.type = u.type
  image : t.image = u.image

/-- Does the character belong to the line? -/
def isInLine (c : Char) : Bool :=
  c ≠ '\r' && c ≠ '\n'

/-- The characters behind a number sign that belong to the comment. -/
def commentBody (cs : List Char) : List Char :=
  cs.takeWhile isInLine

theorem commentBody_append (cs : List Char) : commentBody cs ++ cs.dropWhile isInLine = cs :=
  List.takeWhile_append_dropWhile

theorem unbroken_commentBody (cs : List Char) : Unbroken (commentBody cs) := by
  intro c hc
  simpa [isInLine] using List.all_eq_true.mp List.all_takeWhile c hc

theorem endsLine_dropWhile (cs : List Char) : EndsLine (cs.dropWhile isInLine) := by
  intro c hc
  have hnot := List.head?_dropWhile_not isInLine cs
  rw [Option.mem_def.mp hc] at hnot
  by_cases hr : c = '\r'
  · exact .inl hr
  · exact .inr (by simpa [isInLine, hr] using hnot)

namespace Lexer

/-- What is taken in one step in front of a character that begins no comment. -/
def stepLength (lx : Lexer) (cs : List Char) : Nat :=
  if 0 < lx.skipLength cs then lx.skipLength cs else (lx.first cs).1

def stretchesFrom (lx : Lexer) : (fuel : Nat) → List Char → List Stretch
  | 0, _ => []
  | _, [] => []
  | fuel + 1, c :: cs =>
    if c = '#' then
      .comment (commentBody cs) :: stretchesFrom lx fuel (cs.dropWhile isInLine)
    else
      let n := lx.stepLength (c :: cs)
      .other ((c :: cs).take n) :: stretchesFrom lx fuel ((c :: cs).drop n)

/-- The stretches of a text. Each takes a character at least. -/
def stretches (lx : Lexer) (cs : List Char) : List Stretch :=
  lx.stretchesFrom cs.length cs

/-- The text with a space in the place of each comment. -/
def blankComments (lx : Lexer) (cs : List Char) : List Char :=
  (lx.stretches cs).flatMap Stretch.blanked

/-- Where these spaces are. -/
def blanks (lx : Lexer) (cs : List Char) : List Nat :=
  blanksFrom 0 (lx.stretches cs)

/-- Comments are skipped like white space, and every rule keeps clear of them or matches
with white space inside. -/
structure SkipsComments (lx : Lexer) (gap : Regex.CharClass) : Prop where
  ruled : lx.Ruled
  skipped : ∃ r, lx.skipped = [r, Rdf.commentRegex] ∧ r.expr = Regex.plus (.one gap)
  space : gap.holds ' ' = true
  sign : gap.holds '#' = false
  rules : ∀ rule ∈ lx.rules, rule.2.Contained ∨ rule.1.spansSpace = true
  unknown : ∀ rule ∈ lx.rules, rule.1 ≠ lx.unknown

/-! ### What is skipped -/

theorem holds_comment : Regex.CharClass.holds ⟨true, Regex.items "\r\n"⟩ = isInLine := by
  have hitems : Regex.items "\r\n" = ['\r', '\n'].map Regex.just := by decide
  funext c
  have hmem : (['\r', '\n'].map Regex.just).any (fun i => i.holds c) = true ↔ c = '\r' ∨ c = '\n' := by
    rw [Rdf.any_just]
    simp
  rw [Bool.eq_iff_iff, hitems, Regex.CharClass.holds, bne_iff_ne, ne_eq, hmem]
  simp [isInLine]

theorem mayStart_commentRegex {c : Char} (hsign : c ≠ '#') :
    Rdf.commentRegex.expr.mayStart c = false := by
  rw [Bool.eq_false_iff]
  intro h
  have hclass : Regex.CharClass.holds ⟨false, [Regex.just '#']⟩ c = true := by
    simpa [Rdf.commentRegex, Regex.Expr.mayStart, Regex.char, Regex.charClass,
      Regex.Expr.nullable] using h
  exact hsign (Rdf.holds_just.mp hclass)

section
variable {lx : Lexer} {gap : Regex.CharClass} (hlx : lx.SkipsComments gap)
include hlx

theorem skipLength_gap {c : Char} (hc : gap.holds c = true) (cs : List Char) :
    lx.skipLength (c :: cs) = (cs.takeWhile gap.holds).length + 1 := by
  obtain ⟨r, hskipped, hr⟩ := hlx.skipped
  have hsign : c ≠ '#' := fun h => by
    rw [h, hlx.sign] at hc
    cases hc
  have hcomment := match?_eq_zero cs (mayStart_commentRegex hsign)
  have hgap : r.match? (c :: cs) = some ((cs.takeWhile gap.holds).length + 1) := by
    rw [Regex.match?, hr]
    exact Regex.match?_run hc cs
  simp [skipLength, hskipped, hgap, hcomment]

theorem skipLength_comment (cs : List Char) :
    lx.skipLength ('#' :: cs) = (commentBody cs).length + 1 := by
  obtain ⟨r, hskipped, hr⟩ := hlx.skipped
  have hstart : r.expr.mayStart '#' = false := by
    simp [hr, Regex.plus, Regex.Expr.mayStart, hlx.sign, Regex.Expr.nullable]
  have hgap := match?_eq_zero cs hstart
  have hcomment : Rdf.commentRegex.match? ('#' :: cs) = some ((commentBody cs).length + 1) := by
    rw [commentBody, ← holds_comment]
    exact Regex.match?_run (Rdf.holds_just.mpr rfl) cs
  simp [skipLength, hskipped, hgap, hcomment]

theorem skipLength_other {c : Char} (hc : gap.holds c = false) (hsign : c ≠ '#')
    (cs : List Char) : lx.skipLength (c :: cs) = 0 := by
  obtain ⟨r, hskipped, hr⟩ := hlx.skipped
  refine skipLength_eq_zero cs fun s hs => ?_
  rw [hskipped, List.mem_pair] at hs
  rcases hs with rfl | rfl
  · simp [hr, Regex.plus, Regex.Expr.mayStart, hc, Regex.Expr.nullable]
  · exact mayStart_commentRegex hsign

theorem tokensAt_gap {c : Char} (hc : gap.holds c = true) (offset : Nat) (cs : List Char) :
    lx.tokensAt offset (c :: cs) = lx.tokensAt (offset + c.utf8Size) cs := by
  have hskip := skipLength_gap hlx hc cs
  rw [tokensAt_skip (by omega) (List.cons_ne_nil c cs), hskip, List.take_succ_cons,
    List.drop_succ_cons, bytes, ← Nat.add_assoc]
  cases cs with
  | nil => rfl
  | cons d cs =>
    by_cases hd : gap.holds d = true
    · -- the rest of the gap would be skipped as well
      have hskip' := skipLength_gap hlx hd cs
      rw [List.takeWhile_cons_of_pos hd, List.length_cons, ← hskip']
      exact (tokensAt_skip (by omega) (List.cons_ne_nil d cs) _).symm
    · rw [List.takeWhile_cons_of_neg hd]
      rfl

theorem tokensAt_gaps {between : List Char} (h : ∀ c ∈ between, gap.holds c = true)
    (offset : Nat) (cs : List Char) :
    lx.tokensAt offset (between ++ cs) = lx.tokensAt (offset + bytes between) cs := by
  induction between generalizing offset with
  | nil => rfl
  | cons c between ih =>
    obtain ⟨hc, hrest⟩ := List.forall_mem_cons.mp h
    rw [List.cons_append, tokensAt_gap hlx hc, ih hrest, bytes, Nat.add_assoc]

theorem tokensAt_comment (offset : Nat) (cs : List Char) :
    lx.tokensAt offset ('#' :: cs) =
      lx.tokensAt (offset + 1 + bytes (commentBody cs)) (cs.dropWhile isInLine) := by
  have hskip := skipLength_comment hlx cs
  rw [tokensAt_skip (by omega) (List.cons_ne_nil '#' cs), hskip, List.take_succ_cons,
    List.drop_succ_cons, bytes, ← Nat.add_assoc]
  have htake : cs.take (commentBody cs).length = commentBody cs :=
    (congrArg (List.take _) (commentBody_append cs)).symm.trans List.take_left
  have hdrop : cs.drop (commentBody cs).length = cs.dropWhile isInLine :=
    (congrArg (List.drop _) (commentBody_append cs)).symm.trans List.drop_left
  rw [htake, hdrop]
  rfl

end

/-! ### Comments and spaces -/

theorem stepLength_pos (lx : Lexer) (cs : List Char) : 0 < lx.stepLength cs := by
  unfold stepLength
  split
  next h => exact h
  next => exact lx.first_pos cs

theorem blanked_stretchesFrom (lx : Lexer) {fuel : Nat} {cs : List Char}
    (hfuel : cs.length ≤ fuel) :
    Blanked cs ((lx.stretchesFrom fuel cs).flatMap Stretch.blanked) := by
  fun_induction lx.stretchesFrom fuel cs with
  | case1 cs =>
    rw [List.length_eq_zero_iff.mp (Nat.le_zero.mp hfuel)]
    exact .nil
  | case2 => exact .nil
  | case3 fuel cs ih =>
    have hlength := (List.dropWhile_suffix isInLine (l := cs)).length_le
    rw [List.length_cons] at hfuel
    have hrest := ih (by omega)
    have hcomment := Blanked.comment (unbroken_commentBody cs) (endsLine_dropWhile cs) hrest
    rwa [commentBody_append] at hcomment
  | case4 fuel c cs _ n ih =>
    have hpos : 0 < n := stepLength_pos lx (c :: cs)
    have hrest := ih (by
      rw [List.length_drop]
      omega)
    have happend := hrest.append ((c :: cs).take n)
    rwa [List.take_append_drop] at happend

/-- There is no comment, or there is a first one, and a blank in its place. -/
theorem exists_first_comment (lx : Lexer) {fuel : Nat} {cs : List Char}
    (hfuel : cs.length ≤ fuel) :
    (lx.stretchesFrom fuel cs).flatMap Stretch.blanked = cs ∨
      ∃ front body rest rest', cs = front ++ '#' :: (body ++ rest) ∧
        (lx.stretchesFrom fuel cs).flatMap Stretch.blanked = front ++ ' ' :: rest' ∧
        Unbroken body ∧ EndsLine rest ∧ Blanked rest rest' ∧
        ∀ offset, offset + bytes front ∈ blanksFrom offset (lx.stretchesFrom fuel cs) := by
  fun_induction lx.stretchesFrom fuel cs with
  | case1 cs => exact .inl (List.length_eq_zero_iff.mp (Nat.le_zero.mp hfuel)).symm
  | case2 => exact .inl rfl
  | case3 fuel cs =>
    have hlength := (List.dropWhile_suffix isInLine (l := cs)).length_le
    rw [List.length_cons] at hfuel
    refine .inr ⟨[], commentBody cs, cs.dropWhile isInLine, _, ?_, rfl, unbroken_commentBody cs,
      endsLine_dropWhile cs, blanked_stretchesFrom lx (by omega), fun offset => .head _⟩
    rw [commentBody_append]
    rfl
  | case4 fuel c cs _ n ih =>
    have hpos : 0 < n := stepLength_pos lx (c :: cs)
    have hrest := ih (by
      rw [List.length_drop]
      omega)
    rcases hrest with hsame | ⟨front, body, rest, rest', hcs, hblanked, hbody, hends, hrest, hmem⟩
    · refine .inl ?_
      rw [List.flatMap_cons, hsame]
      exact List.take_append_drop ..
    · refine .inr ⟨(c :: cs).take n ++ front, body, rest, rest', ?_, ?_, hbody, hends, hrest,
        fun offset => ?_⟩
      · rw [List.append_assoc, ← hcs, List.take_append_drop]
      · rw [List.flatMap_cons, hblanked, List.append_assoc]
        rfl
      · rw [bytes_append, ← Nat.add_assoc]
        exact hmem _

/-- What becomes of the tokens of a text: with blanks at these offsets they are the same, and
none reaches over a blank, or one does that has white space inside, and the types differ. -/
inductive Compared (blanks : List Nat) (blanked ts : List Token) : Prop
  | same : List.Forall₂ Token.SameText blanked ts →
      (∀ t ∈ blanked, ∀ p ∈ blanks, ¬t.Covers p) → Compared blanks blanked ts
  | differ {t : Token} {p : Nat} : t ∈ blanked → t.type.spansSpace = true → p ∈ blanks →
      t.Covers p → blanked.map Token.type ≠ ts.map Token.type → Compared blanks blanked ts

namespace Compared
variable {blanks : List Nat} {blanked ts : List Token}

/-- A blank in front of all tokens. -/
theorem blank (h : Compared blanks blanked ts) {p : Nat} (hp : ∀ t ∈ blanked, p < t.start) :
    Compared (p :: blanks) blanked ts := by
  cases h with
  | same hts hclear =>
    refine .same hts fun t ht => List.forall_mem_cons.mpr ⟨fun hcovers => ?_, hclear t ht⟩
    exact Nat.not_le.mpr (hp t ht) hcovers.1
  | differ ht hspans hq hcovers hne => exact .differ ht hspans (.tail _ hq) hcovers hne

/-- A token in front of all blanks. -/
theorem token (h : Compared blanks blanked ts) {t u : Token} (htu : t.SameText u)
    (ht : ∀ p ∈ blanks, t.last < p) : Compared blanks (t :: blanked) (u :: ts) := by
  cases h with
  | same hts hclear =>
    refine .same (.cons htu hts) (List.forall_mem_cons.mpr ⟨fun p hp hcovers => ?_, hclear⟩)
    exact Nat.not_le.mpr (ht p hp) hcovers.2
  | differ hmem hspans hq hcovers hne =>
    refine .differ (.tail _ hmem) hspans hq hcovers fun heq => hne ?_
    exact (List.cons.inj heq).2

end Compared

section
variable {lx : Lexer} {gap : Regex.CharClass} (hlx : lx.SkipsComments gap)
include hlx

/-- At a token that does not reach over the blank, the text has the same token; otherwise the
tokens have different types. -/
theorem first_blanked {front body rest rest' : List Char} (hat : AtComment front body rest rest')
    (hfirst : (lx.first (front ++ '#' :: (body ++ rest))).1 ≤ front.length) :
    lx.first (front ++ ' ' :: rest') = lx.first (front ++ '#' :: (body ++ rest)) ∨
      front.length < (lx.first (front ++ ' ' :: rest')).1 ∧
        (lx.first (front ++ ' ' :: rest')).2.spansSpace = true ∧
        (lx.first (front ++ ' ' :: rest')).2 ≠
          (lx.first (front ++ '#' :: (body ++ rest))).2 := by
  by_cases hcross : ∀ rule ∈ lx.rules, width (front ++ ' ' :: rest') rule ≤ front.length
  · refine .inl (first_append hlx.ruled ?_ ?_ hcross ?_)
    · rintro _ ⟨⟩
      decide
    · rintro _ ⟨⟩
      decide
    · exact fun rule hrule => Nat.le_trans (width_le_first hrule) hfirst
  · simp only [not_forall, Nat.not_le] at hcross
    obtain ⟨crossing, hcrossing, hlt⟩ := hcross
    rcases lx.longest?_cases (front ++ ' ' :: rest') with
      ⟨hzero, -⟩ | ⟨before, rule, after, hr, hwins, hbest⟩
    · rw [hzero crossing hcrossing] at hlt
      exact absurd hlt (Nat.not_lt_zero _)
    have hrule : rule ∈ lx.rules := by simp [hr]
    replace hlt := Nat.lt_of_lt_of_le hlt (hwins.most crossing (hr ▸ hcrossing))
    have hmatch := match?_of_width_pos hwins.pos
    have hwinner : lx.first (front ++ ' ' :: rest') =
        (width (front ++ ' ' :: rest') rule, rule.1) := by rw [first, hbest, Option.getD_some]
    rw [hwinner]
    rcases hlx.rules rule hrule with hcontained | hspans
    · -- the rule would take some of the comment, too
      obtain ⟨k, hk, hgt⟩ := hcontained hat hmatch hlt
      have hle : width (front ++ '#' :: (body ++ rest)) rule ≤ _ := lx.width_le_first hrule
      rw [width, hk, Option.getD_some] at hle
      omega
    · refine .inr ⟨hlt, hspans, fun htype => ?_⟩
      rcases lx.longest?_cases (front ++ '#' :: (body ++ rest)) with
        ⟨-, hbest'⟩ | ⟨before', rule', after', hr', hwins', hbest'⟩
      · rw [first, hbest'] at htype
        exact hlx.unknown rule hrule htype
      · -- what the type takes in front of the comment is all that it takes
        rw [first, hbest', Option.getD_some] at htype hfirst
        obtain ⟨T, m⟩ := rule
        obtain ⟨T', m'⟩ := rule'
        obtain rfl : T = T' := htype
        have hm := hlx.ruled (T, m) hrule
        have hm' := hlx.ruled (T, m') (by simp [hr'])
        obtain rfl : m = m' := Option.some.inj (hm.symm.trans hm')
        have hsettled := Matcher.settled_of_spansSpace hm hspans front _ (' ' :: rest') _
          (match?_of_width_pos hwins'.pos) hfirst
        rw [Option.some.inj (hmatch.symm.trans hsettled)] at hlt
        omega

/-- A token and the rest of the text. -/
theorem compared_token {fuel : Nat} {image rest : List Char} (hne : image ≠ [])
    (hplain : '\\' ∉ image ++ rest) (hskip : ∀ behind, lx.skipLength (image ++ behind) = 0)
    (hfirst : (lx.first (image ++ rest)).1 = image.length) (hfuel : rest.length ≤ fuel)
    (offset offset' : Nat)
    (hrest : Compared (blanksFrom (offset' + bytes image) (lx.stretchesFrom fuel rest))
      (lx.tokensAt (offset' + bytes image)
        ((lx.stretchesFrom fuel rest).flatMap Stretch.blanked))
      (lx.tokensAt (offset + bytes image) rest)) :
    Compared (blanksFrom (offset' + bytes image) (lx.stretchesFrom fuel rest))
      (lx.tokensAt offset' (image ++ (lx.stretchesFrom fuel rest).flatMap Stretch.blanked))
      (lx.tokensAt offset (image ++ rest)) := by
  have happend : ∀ behind, image ++ behind ≠ [] := fun _ h => hne (List.append_eq_nil_iff.mp h).1
  have hpos := bytes_pos hne
  have hsame : lx.first (image ++ (lx.stretchesFrom fuel rest).flatMap Stretch.blanked) =
      lx.first (image ++ rest) →
      Compared (blanksFrom (offset' + bytes image) (lx.stretchesFrom fuel rest))
        (lx.tokensAt offset' (image ++ (lx.stretchesFrom fuel rest).flatMap Stretch.blanked))
        (lx.tokensAt offset (image ++ rest)) := by
    intro heq
    rw [tokensAt_token (hskip _) (happend _), tokensAt_token (hskip _) (happend _), heq, hfirst,
      List.take_left, List.take_left, List.drop_left, List.drop_left]
    refine hrest.token ⟨rfl, rfl⟩ fun p hp => ?_
    have hle := le_blanksFrom hp
    simp only [Token.ofImage, utf8ByteSize_ofList]
    omega
  rcases exists_first_comment lx hfuel with
    hblanked | ⟨front, body, behind, behind', rfl, hblanked, hbody, hends, hbehind, hmem⟩
  · exact hsame (by rw [hblanked])
  · rw [← List.append_assoc] at hplain hfirst
    have hle : (lx.first (image ++ front ++ '#' :: (body ++ behind))).1 ≤
        (image ++ front).length := by
      rw [hfirst, List.length_append]
      exact Nat.le_add_right ..
    rcases first_blanked hlx ⟨hplain, hbody, hends, hbehind⟩ hle with heq | ⟨hlt, hspans, hne'⟩
    · exact hsame (by rw [hblanked, ← List.append_assoc, ← List.append_assoc, heq])
    · -- the token reaches over the first blank
      rw [tokensAt_token (hskip _) (happend _), tokensAt_token (hskip _) (happend _), hblanked,
        ← List.append_assoc, ← List.append_assoc]
      refine .differ (.head _) hspans (hmem (offset' + bytes image)) ⟨?_, ?_⟩ fun heq => ?_
      · exact Nat.le_trans (Nat.le_add_right ..) (Nat.le_add_right ..)
      · simp only [Token.ofImage, utf8ByteSize_ofList]
        rw [take_append_cons hlt, bytes_append, bytes_append, bytes]
        have hspace : ' '.utf8Size = 1 := rfl
        omega
      · exact hne' (List.cons.inj heq).1

theorem compared_tokensAt {fuel : Nat} {cs : List Char} (hfuel : cs.length ≤ fuel)
    (hplain : '\\' ∉ cs) (offset offset' : Nat) :
    Compared (blanksFrom offset' (lx.stretchesFrom fuel cs))
      (lx.tokensAt offset' ((lx.stretchesFrom fuel cs).flatMap Stretch.blanked))
      (lx.tokensAt offset cs) := by
  fun_induction lx.stretchesFrom fuel cs generalizing offset offset' with
  | case1 cs =>
    rw [List.length_eq_zero_iff.mp (Nat.le_zero.mp hfuel)]
    exact .same .nil (List.forall_mem_nil _)
  | case2 => exact .same .nil (List.forall_mem_nil _)
  | case3 fuel cs ih =>
    have hlength := (List.dropWhile_suffix isInLine (l := cs)).length_le
    rw [List.length_cons] at hfuel
    have hrest := ih (by omega)
      (fun hmem => hplain (.tail _ ((List.dropWhile_suffix isInLine).subset hmem)))
      (offset + 1 + bytes (commentBody cs)) (offset' + 1)
    rw [tokensAt_comment hlx, List.flatMap_cons]
    show Compared (offset' :: _) (lx.tokensAt offset' (' ' :: _)) _
    rw [tokensAt_gap hlx hlx.space]
    exact hrest.blank fun t ht => (lx.cuts_tokensFrom _ _ _).le_start t ht
  | case4 fuel c cs hsign n ih =>
    have hpos : 0 < n := stepLength_pos lx (c :: cs)
    have hdrop : ((c :: cs).drop n).length ≤ fuel := by
      rw [List.length_drop]
      omega
    have hplain' : '\\' ∉ (c :: cs).drop n := fun hmem => hplain (List.mem_of_mem_drop hmem)
    have hsplit : (c :: cs).take n ++ (c :: cs).drop n = c :: cs := List.take_append_drop ..
    have hrest := ih hdrop hplain' (offset + bytes ((c :: cs).take n))
      (offset' + bytes ((c :: cs).take n))
    rw [List.flatMap_cons]
    show Compared (blanksFrom (offset' + bytes ((c :: cs).take n)) _)
      (lx.tokensAt offset' ((c :: cs).take n ++ _)) _
    by_cases hgap : gap.holds c = true
    · -- white space
      have hn : n = (cs.takeWhile gap.holds).length + 1 := by
        show lx.stepLength (c :: cs) = _
        rw [stepLength, skipLength_gap hlx hgap, if_pos (Nat.succ_pos _)]
      have hall : ∀ d ∈ (c :: cs).take n, gap.holds d = true := by
        rw [hn, List.take_succ_cons, ← List.prefix_iff_eq_take.mp (List.takeWhile_prefix _)]
        exact List.forall_mem_cons.mpr ⟨hgap, List.all_eq_true.mp List.all_takeWhile⟩
      rw [← tokensAt_gaps hlx hall offset, hsplit] at hrest
      rwa [tokensAt_gaps hlx hall]
    · have hzero : ∀ behind, lx.skipLength ((c :: cs).take n ++ behind) = 0 := by
        obtain ⟨k, hk⟩ := Nat.exists_eq_add_one_of_ne_zero (Nat.ne_of_gt hpos)
        rw [hk]
        exact fun behind => skipLength_other hlx (Bool.eq_false_iff.mpr hgap) hsign _
      have hn : n = (lx.first (c :: cs)).1 := by
        show lx.stepLength (c :: cs) = _
        rw [stepLength, skipLength_other hlx (Bool.eq_false_iff.mpr hgap) hsign,
          if_neg (Nat.lt_irrefl 0)]
      have hle : n ≤ (c :: cs).length := hn ▸ first_le_length hlx.ruled (List.cons_ne_nil c cs)
      have hlength : ((c :: cs).take n).length = n := List.length_take_of_le hle
      have himage : (c :: cs).take n ≠ [] := List.length_pos_iff.mp (hlength.symm ▸ hpos)
      have htoken := compared_token hlx himage (by rwa [hsplit]) hzero
        (by rw [hsplit, hlength, hn]) hdrop offset offset' hrest
      rwa [hsplit] at htoken

theorem compared_tokenize {cs : List Char} (hplain : '\\' ∉ cs) :
    Compared (lx.blanks cs) (lx.tokenize (lx.blankComments cs)) (lx.tokenize cs) :=
  compared_tokensAt hlx (Nat.le_refl _) hplain 0 0

/-- **When a space may take the place of a comment.** With a space for each comment, a text
has tokens of the same types just where none of those with white space inside reaches over
such a space. -/
theorem types_blankComments {cs : List Char} (hplain : '\\' ∉ cs) :
    (lx.tokenize (lx.blankComments cs)).map Token.type = (lx.tokenize cs).map Token.type ↔
      ∀ t ∈ lx.tokenize (lx.blankComments cs), t.type.spansSpace = true →
        ∀ p ∈ lx.blanks cs, ¬t.Covers p := by
  cases compared_tokenize hlx hplain with
  | same hts hclear =>
    refine iff_of_true ?_ fun t ht _ => hclear t ht
    rw [← List.forall₂_eq_eq_eq, List.forall₂_map_left_iff, List.forall₂_map_right_iff]
    exact hts.imp fun t u htu => htu.type
  | differ ht hspans hp hcovers hne =>
    exact iff_of_false hne fun hclear => hclear _ ht hspans _ hp hcovers

/-- Tokens of the same types have the same texts as well. -/
theorem sameText_of_types {cs : List Char} (hplain : '\\' ∉ cs)
    (h : (lx.tokenize (lx.blankComments cs)).map Token.type =
      (lx.tokenize cs).map Token.type) :
    List.Forall₂ Token.SameText (lx.tokenize (lx.blankComments cs)) (lx.tokenize cs) := by
  cases compared_tokenize hlx hplain with
  | same hts => exact hts
  | differ _ _ _ _ hne => exact absurd h hne

end

end Lexer

end GraphLanguages
