import GraphLanguages.Proofs.InsertData.Texts
import GraphLanguages.Proofs.Sparql.AnyCase

/-! Documents of Turtle as data to insert.

The tokens of a document tell when its text may stand in an update (`Portable`): none is
unknown or begins a directive, no number has a sign, and parentheses with no token between
them have nothing but blanks there. Such a text has the same tokens between the braces of an
update, with those parentheses joined (`alike_of_portable`, from one step for each thing that a
text may begin with), so what Turtle accepts is quad data (`insertable`). -/
namespace GraphLanguages.InsertData
open Text Lexer Grammar

section
variable (dialect : Sparql.Dialect) {c : Char} {cs : List Char}

theorem sparql_skips (dialect : Sparql.Dialect) :
    (Sparql.lexer dialect).SkipsComments Rdf.spaceClass :=
  Sparql.skipsComments dialect

theorem turtle_skips : (Turtle.lexer .turtle).SkipsComments Rdf.spaceClass :=
  Turtle.skipsComments .turtle true

/-- The first token and those behind it. -/
theorem names_of_first {lx : Lexer} {n : Nat} {u : String} (hne : cs ≠ [])
    (hskip : lx.skipLength cs = 0) (hlength : (lx.first cs).1 = n)
    (hname : (lx.first cs).2.name = u) (offset : Nat) :
    names (lx.tokensAt offset cs) =
      u :: names (lx.tokensAt (offset + bytes (cs.take n)) (cs.drop n)) := by
  subst hlength hname
  rw [tokensAt_token hskip hne]
  rfl

/-! ### What stands around the data -/

/-- A brace is read as such. -/
theorem first_brace {p : String × String} (hp : p ∈ [("LCurly", "\x7b"), ("RCurly", "\x7d")])
    (cs : List Char) :
    (Sparql.lexer dialect).first (p.2.toList ++ cs) =
      (p.2.toList.length, (punctuationRule p.1 p.2).1) := by
  have hmem : punctuationRule p.1 p.2 ∈ (Sparql.lexer dialect).rules ∧
      ∀ r ∈ (Sparql.lexer dialect).rules, r.2.meets p.2.toList = true →
        r = punctuationRule p.1 p.2 := by
    have hcore : core false ⊆ (Sparql.lexer dialect).rules := by
      rw [sparql_rules]
      exact List.Subset.trans (List.subset_append_right ..) (List.subset_append_left ..)
    have hmeets := fun r hr => Inspection.meets inspection r (sparql_rules_subset dialect hr)
    rcases List.mem_pair.mp hp with rfl | rfl
    · exact ⟨hcore (Inspection.members inspection).1, fun r hr => (hmeets r hr).1⟩
    · exact ⟨hcore (Inspection.members inspection).2.1, fun r hr => (hmeets r hr).2.1⟩
  refine first_of_meets hmem.1 rfl ?_ hmem.2 cs
  rcases List.mem_pair.mp hp with rfl | rfl <;> decide

theorem closing_tokens (offset : Nat) :
    names ((Sparql.lexer dialect).tokensAt offset closing) = ["RCurly"] := by
  have hskips := sparql_skips dialect
  have hgap : (Sparql.lexer dialect).tokensAt offset closing = _ :=
    tokensAt_gap hskips (by decide) offset ['\x7d']
  have hskip : (Sparql.lexer dialect).skipLength ['\x7d'] = 0 :=
    skipLength_other hskips (by decide) (by decide) []
  have hfirst : (Sparql.lexer dialect).first ['\x7d'] = _ :=
    first_brace dialect (p := ("RCurly", "\x7d")) (by simp) []
  rw [hgap, names_of_first (List.cons_ne_nil _ _) hskip (congrArg Prod.fst hfirst)
    (congrArg (fun best => best.2.name) hfirst)]
  exact congrArg (fun ts => "RCurly" :: names ts) (tokensFrom_nil _ _ _)

/-- The keyword of the update, whatever comes behind it. -/
theorem first_insert (cs : List Char) :
    (Sparql.lexer dialect).first ("insert data \x7b ".toList ++ cs) = (11, insertRule.1) := by
  have hmem : insertRule ∈ (Sparql.lexer dialect).rules := by
    rw [sparql_rules]
    simp [(keywordRules_subset dialect).1 (Inspection.members inspection).2.2.2]
  have hwidth : width ("insert data \x7b ".toList ++ cs) insertRule = 11 := rfl
  rw [← hwidth]
  refine first_of_only hmem (by omega) fun r hr hpos => ?_
  have hmeets : r.2.meets "insert".toList = true := meets_of_width_pos rfl (by decide) hpos
  rcases (Inspection.meets inspection r (sparql_rules_subset dialect hr)).2.2.2.2 hmeets with
    hinsert | hprefixed | hshort
  · exact .inl hinsert
  · -- a space comes before any colon
    have hletters : "insert".toList.any (sameLetter · ':') = false := by decide
    have hspace :=
      (Rdf.longer_than_keyword (prefixed_iff.mp hprefixed) hletters rfl hpos).2 ' ' rfl
    cases hspace
  · right
    rw [hwidth]
    rcases List.mem_pair.mp hshort with hr | hr
    · have : width ("insert data \x7b ".toList ++ cs) r = 2 := by rw [width, hr]; rfl
      omega
    · have : width ("insert data \x7b ".toList ++ cs) r = 6 := by rw [width, hr]; rfl
      omega

theorem opening_tokens (cs : List Char) :
    ∃ offset, names ((Sparql.lexer dialect).tokensAt 0 ("insert data \x7b ".toList ++ cs)) =
      "INSERT_DATA" :: "LCurly" :: names ((Sparql.lexer dialect).tokensAt offset cs) := by
  have hskips := sparql_skips dialect
  have hgap (offset : Nat) (cs : List Char) :
      (Sparql.lexer dialect).tokensAt offset (' ' :: cs) = _ :=
    tokensAt_gap hskips (by decide) offset cs
  have hne : "insert data \x7b ".toList ++ cs ≠ [] := List.cons_ne_nil _ _
  have hskip : (Sparql.lexer dialect).skipLength ("insert data \x7b ".toList ++ cs) = 0 :=
    skipLength_other hskips (by decide) (by decide) _
  have hinsert := first_insert dialect cs
  have hskip' : (Sparql.lexer dialect).skipLength ('\x7b' :: ' ' :: cs) = 0 :=
    skipLength_other hskips (by decide) (by decide) _
  have hbrace : (Sparql.lexer dialect).first ('\x7b' :: ' ' :: cs) = _ :=
    first_brace dialect (p := ("LCurly", "\x7b")) (by simp) (' ' :: cs)
  have hopening (offset : Nat) :
      names ((Sparql.lexer dialect).tokensAt offset (' ' :: '\x7b' :: ' ' :: cs)) =
        "LCurly" :: names ((Sparql.lexer dialect).tokensAt (offset + 1 + 1 + 1) cs) := by
    rw [hgap, names_of_first (List.cons_ne_nil _ _) hskip' (congrArg Prod.fst hbrace)
      (congrArg (fun best => best.2.name) hbrace)]
    exact congrArg (fun ts => "LCurly" :: names ts) (hgap _ cs)
  rw [names_of_first hne hskip (congrArg Prod.fst hinsert)
    (congrArg (fun best => best.2.name) hinsert)]
  exact ⟨_, congrArg (List.cons "INSERT_DATA") (hopening _)⟩

end

/-! ### Tokens that SPARQL reads as well -/

/-- Parentheses with no token between them have nothing but blanks there. -/
def BlankBetween (text : List Char) (t u : Token) : Prop :=
  t.name = "LParen" → u.name = "RParen" → ∀ gap ∈ slice? (t.last + 1) u.start text, gap ⊆ blanks

instance (text : List Char) : DecidableRel (BlankBetween text) := fun t u =>
  inferInstanceAs (Decidable (t.name = "LParen" → u.name = "RParen" →
    ∀ gap ∈ slice? (t.last + 1) u.start text, gap ⊆ blanks))

/-- A number begins with no sign. -/
def Unsigned (t : Token) : Prop :=
  t.name ∈ Rdf.numbers →
    t.image.toList.head? ≠ some '+' ∧ t.image.toList.head? ≠ some '-'

instance : DecidablePred Unsigned := fun t =>
  inferInstanceAs (Decidable (t.name ∈ Rdf.numbers →
    t.image.toList.head? ≠ some '+' ∧ t.image.toList.head? ≠ some '-'))

/-- The tokens of a part of the text may stand in an update. -/
structure Portable (text : List Char) (tokens : List Token) : Prop where
  known : ∀ t ∈ tokens, t.name ∉ Vocabulary.unknownName :: directiveNames
  unsigned : ∀ t ∈ tokens, Unsigned t
  blank : tokens.IsChain (BlankBetween text)

theorem Portable.of_suffix {text : List Char} {tokens behind : List Token}
    (h : Portable text tokens) (hs : behind <:+ tokens) : Portable text behind where
  known t ht := h.known t (hs.subset ht)
  unsigned t ht := h.unsigned t (hs.subset ht)
  blank := h.blank.suffix hs

section
variable {dialect : Sparql.Dialect} {c d : Char} {text before gap cs : List Char}

/-- A token that only one character makes up. -/
theorem eq_of_verbatim {name : String} (hname : name ≠ Vocabulary.unknownName)
    (hrules : ∀ r ∈ (Turtle.lexer .turtle).rules, r.1.name = name → r.2 = .verbatim [d])
    (h : ((Turtle.lexer .turtle).first (c :: cs)).2.name = name) :
    c = d ∧ ((Turtle.lexer .turtle).first (c :: cs)).1 = 1 := by
  obtain ⟨r, hr, hpos, hfirst⟩ := exists_turtle_rule (h ▸ hname)
  rw [hfirst] at h ⊢
  have hmatch := match?_of_width_pos hpos
  rw [hrules r hr h, Matcher.match?] at hmatch
  split at hmatch
  next hprefix =>
    have hdc : d = c := by simpa using hprefix
    exact ⟨hdc.symm, (Option.some.inj hmatch).symm⟩
  next => cases hmatch

/-- A parenthesis is read as such. -/
theorem first_parenthesis {p : String × String} (hp : p ∈ [("LParen", "("), ("RParen", ")")])
    (cs : List Char) :
    (Turtle.lexer .turtle).first (p.2.toList ++ cs) =
      (p.2.toList.length, (punctuationRule p.1 p.2).1) := by
  obtain ⟨hmem, hrules⟩ := Inspection.parentheses inspection p hp
  refine first_of_meets hmem rfl ?_ (fun r hr => (hrules r hr).1) cs
  rcases List.mem_pair.mp hp with rfl | rfl <;> decide

theorem tokens_parenthesis (offset : Nat) (hgap : ∀ c ∈ gap, c ∈ blanks) :
    (Turtle.lexer .turtle).tokensAt offset (gap ++ ')' :: cs) =
      .ofImage (punctuationRule "RParen" ")").1 ")" (offset + bytes gap) ::
        (Turtle.lexer .turtle).tokensAt (offset + bytes gap + 1) cs := by
  have hskip : (Turtle.lexer .turtle).skipLength (')' :: cs) = 0 :=
    skipLength_other turtle_skips (by decide) (by decide) cs
  have hfirst : (Turtle.lexer .turtle).first (')' :: cs) = _ :=
    first_parenthesis (p := ("RParen", ")")) (by simp) cs
  rw [tokensAt_gaps turtle_skips fun c hc => Signs.blanks signs c (hgap c hc),
    tokensAt_token hskip (List.cons_ne_nil _ cs), hfirst]
  rfl

/-- Between parentheses that are neighbours there are blanks. -/
theorem blank_of_neighbours {T : TokenType} {u : Token} {us : List Token}
    (htext : text = before ++ '(' :: cs) (hT : T.name = "LParen")
    (hu : (Turtle.lexer .turtle).tokensAt (bytes before + 1) cs = u :: us)
    (hname : u.name = "RParen")
    (h : Portable text (.ofImage T "(" (bytes before) :: u :: us)) :
    ∃ gap rest, cs = gap ++ ')' :: rest ∧ ∀ c ∈ gap, c ∈ blanks := by
  obtain ⟨gap, rest, rfl, hne, rfl⟩ := exists_first hu
  obtain ⟨c, rest, rfl⟩ := List.exists_cons_of_ne_nil hne
  obtain ⟨-, hrules⟩ := Inspection.parentheses inspection ("RParen", ")") (by simp)
  obtain ⟨hc, -⟩ := eq_of_verbatim (d := ')') (by decide)
    (fun r hr hr' => congrArg Prod.snd ((hrules r hr).2 hr')) hname
  subst hc
  refine ⟨gap, rest, rfl, (List.isChain_cons_cons.mp h.blank).1 hT hname gap ?_⟩
  have hslice := slice?_append (before ++ ['(']) gap (')' :: rest)
  have hbytes : bytes (before ++ ['(']) = bytes before + 1 := bytes_append before ['(']
  rw [hbytes, List.append_assoc, List.append_assoc] at hslice
  have hlast : (Token.ofImage T "(" (bytes before)).last = bytes before := Nat.max_self _
  rw [htext, hlast]
  exact hslice

/-- A parenthesis that is not read with the next one is not closed by it. -/
theorem not_closed {T : TokenType} (htext : text = before ++ '(' :: cs)
    (hnil : width ('(' :: cs ++ closing) nilRule = 0) (hT : T.name = "LParen")
    (h : Portable text
      (.ofImage T "(" (bytes before) :: (Turtle.lexer .turtle).tokensAt (bytes before + 1) cs)) :
    (names ((Turtle.lexer .turtle).tokensAt (bytes before + 1) cs)).head? ≠ some "RParen" := by
  intro hclosed
  cases htokens : (Turtle.lexer .turtle).tokensAt (bytes before + 1) cs with
  | nil =>
    rw [htokens] at hclosed
    cases hclosed
  | cons u us =>
    rw [htokens] at hclosed h
    obtain ⟨gap, rest, rfl, hgap⟩ :=
      blank_of_neighbours htext hT htokens (Option.some.inj hclosed) h
    have hwidth : width ('(' :: (gap ++ ')' :: (rest ++ closing))) nilRule = _ := width_nil hgap
    rw [List.cons_append, List.append_assoc, List.cons_append] at hnil
    omega

theorem dropWhile_closing (cs : List Char) :
    (cs ++ closing).dropWhile isInLine = cs.dropWhile isInLine ++ closing := by
  induction cs with
  | nil => rfl
  | cons c cs ih =>
    rw [List.cons_append, List.dropWhile_cons, List.dropWhile_cons, ih]
    split <;> rfl

/-! ### The same tokens in an update -/

/-- In front of the closing line SPARQL has the tokens of Turtle there, joined. -/
def Alike (dialect : Sparql.Dialect) (offset : Nat) (cs : List Char) : Prop :=
  ∀ offset', names ((Sparql.lexer dialect).tokensAt offset' (cs ++ closing)) =
    joined (names ((Turtle.lexer .turtle).tokensAt offset cs)) ++ ["RCurly"]

theorem alike_gap {offset : Nat} (hc : Rdf.spaceClass.holds c = true)
    (h : Alike dialect (offset + c.utf8Size) cs) : Alike dialect offset (c :: cs) := by
  intro offset'
  rw [tokensAt_gap turtle_skips hc, List.cons_append, tokensAt_gap (sparql_skips dialect) hc]
  exact h _

theorem alike_comment {offset : Nat}
    (h : Alike dialect (offset + 1 + bytes (commentBody cs)) (cs.dropWhile isInLine)) :
    Alike dialect offset ('#' :: cs) := by
  intro offset'
  rw [tokensAt_comment turtle_skips, List.cons_append, tokensAt_comment (sparql_skips dialect),
    dropWhile_closing]
  exact h _

theorem alike_verb {offset : Nat} (hverb : ((Turtle.lexer .turtle).first ('a' :: cs)).2.name = "A")
    (hone : ((Turtle.lexer .turtle).first ('a' :: cs)).1 = 1)
    (htail : ∀ t ∈ (Turtle.lexer .turtle).tokensAt (offset + 1) cs,
      t.name ∉ Vocabulary.unknownName :: directiveNames)
    (h : Alike dialect (offset + 1) cs) : Alike dialect offset ('a' :: cs) := by
  intro offset'
  have hskip : (Turtle.lexer .turtle).skipLength ('a' :: cs) = 0 :=
    skipLength_other turtle_skips (by decide) (by decide) cs
  have hskip' : (Sparql.lexer dialect).skipLength ('a' :: cs ++ closing) = 0 :=
    skipLength_other (sparql_skips dialect) (by decide) (by decide) _
  have hfirst := first_verb dialect hone
    (next_of_verb hone fun t ht => htail t (List.mem_of_mem_head? ht))
  rw [names_of_first (List.cons_ne_nil _ _) hskip hone hverb,
    names_of_first (List.append_ne_nil_of_left_ne_nil (List.cons_ne_nil _ _) _) hskip'
      (congrArg Prod.fst hfirst) (congrArg (fun best => best.2.name) hfirst),
    joined_cons (.inl (by decide))]
  exact congrArg (List.cons "A") (h _)

theorem alike_parentheses {offset : Nat} {rest : List Char} (hgap : ∀ c ∈ gap, c ∈ blanks)
    (h : Alike dialect (offset + 1 + bytes gap + 1) rest) :
    Alike dialect offset ('(' :: (gap ++ ')' :: rest)) := by
  intro offset'
  have hskip : (Turtle.lexer .turtle).skipLength ('(' :: (gap ++ ')' :: rest)) = 0 :=
    skipLength_other turtle_skips (by decide) (by decide) _
  have hskip' : (Sparql.lexer dialect).skipLength ('(' :: (gap ++ ')' :: (rest ++ closing))) = 0 :=
    skipLength_other (sparql_skips dialect) (by decide) (by decide) _
  have hfirst : (Turtle.lexer .turtle).first ('(' :: (gap ++ ')' :: rest)) = _ :=
    first_parenthesis (p := ("LParen", "(")) (by simp) _
  have hread : names ((Turtle.lexer .turtle).tokensAt offset ('(' :: (gap ++ ')' :: rest))) =
      "LParen" :: "RParen" ::
        names ((Turtle.lexer .turtle).tokensAt (offset + 1 + bytes gap + 1) rest) := by
    rw [tokensAt_token hskip (List.cons_ne_nil _ _), hfirst]
    exact congrArg (fun ts => "LParen" :: names ts) (tokens_parenthesis (offset + 1) hgap)
  have hnil : (Sparql.lexer dialect).first ('(' :: (gap ++ ')' :: (rest ++ closing))) = _ :=
    first_nil dialect hgap
  have hdrop : ('(' :: (gap ++ ')' :: (rest ++ closing))).drop (gap.length + 2) =
      rest ++ closing := by
    simp
  have htext : '(' :: (gap ++ ')' :: rest) ++ closing =
      '(' :: (gap ++ ')' :: (rest ++ closing)) := by
    simp
  rw [htext, names_of_first (List.cons_ne_nil _ _) hskip' (congrArg Prod.fst hnil)
    (congrArg (fun best => best.2.name) hnil), hdrop, h, hread, joined_empty]
  rfl

theorem alike_terminal {offset : Nat} (hother : Rdf.spaceClass.holds c = false ∧ c ≠ '#')
    (hc : c ≠ '+' ∧ c ≠ '-')
    (hknown : ((Turtle.lexer .turtle).first (c :: cs)).2.name ≠ Vocabulary.unknownName)
    (hname : ((Turtle.lexer .turtle).first (c :: cs)).2.name ∉ "A" :: directiveNames)
    (hnil : width (c :: cs ++ closing) nilRule = 0) {n : Nat}
    (hn : ((Turtle.lexer .turtle).first (c :: cs)).1 = n)
    (hnext : ((Turtle.lexer .turtle).first (c :: cs)).2.name = "LParen" →
      (names ((Turtle.lexer .turtle).tokensAt (offset + bytes ((c :: cs).take n))
        ((c :: cs).drop n))).head? ≠ some "RParen")
    (h : Alike dialect (offset + bytes ((c :: cs).take n)) ((c :: cs).drop n)) :
    Alike dialect offset (c :: cs) := by
  intro offset'
  obtain ⟨hlength, hsame⟩ := first_terminal dialect hc hknown hname hnil
  have hle := first_le_length turtle_skips.ruled (List.cons_ne_nil c cs)
  have hskip : (Turtle.lexer .turtle).skipLength (c :: cs) = 0 :=
    skipLength_other turtle_skips hother.1 hother.2 cs
  have hskip' : (Sparql.lexer dialect).skipLength (c :: cs ++ closing) = 0 :=
    skipLength_other (sparql_skips dialect) hother.1 hother.2 _
  rw [names_of_first (List.cons_ne_nil _ _) hskip hn rfl,
    names_of_first (List.append_ne_nil_of_left_ne_nil (List.cons_ne_nil _ _) _) hskip'
      (hlength.trans hn) hsame,
    List.drop_append_of_le_length (hn ▸ hle), h,
    joined_cons (or_iff_not_imp_left.mpr fun hopening => hnext (not_not.mp hopening))]
  rfl

/-- What stands where a token begins is alike if all that is left behind some of it is. -/
theorem alike_token (htext : text = before ++ c :: cs)
    (hother : Rdf.spaceClass.holds c = false ∧ c ≠ '#')
    (h : Portable text ((Turtle.lexer .turtle).tokensAt (bytes before) (c :: cs)))
    (hbehind : ∀ front rest, c :: cs = front ++ rest → front ≠ [] →
      Portable text ((Turtle.lexer .turtle).tokensAt (bytes before + bytes front) rest) →
      Alike dialect (bytes before + bytes front) rest) :
    Alike dialect (bytes before) (c :: cs) := by
  rw [tokensAt_token (skipLength_other turtle_skips hother.1 hother.2 cs)
    (List.cons_ne_nil c cs)] at h
  obtain ⟨hunknown, hdirective⟩ := not_or.mp
    (mt List.mem_cons.mpr (h.known _ (List.mem_cons_self ..)))
  have hhead : ((c :: cs).take ((Turtle.lexer .turtle).first (c :: cs)).1).head? = some c := by
    rw [List.head?_take, if_neg (Nat.ne_of_gt ((Turtle.lexer .turtle).first_pos _)),
      List.head?_cons]
  have htail := h.of_suffix (List.suffix_cons _ _)
  have hrest := hbehind _ _ (List.take_append_drop _ (c :: cs)).symm
    (List.ne_nil_of_mem (List.mem_of_mem_head? hhead)) htail
  by_cases hverb : ((Turtle.lexer .turtle).first (c :: cs)).2.name = "A"
  · obtain ⟨rfl, hone⟩ := eq_of_verbatim (d := 'a') (by decide)
      (Inspection.turtleVerb inspection) hverb
    rw [hone] at htail hrest
    exact alike_verb hverb hone htail.known hrest
  by_cases hnil : 0 < width (c :: cs ++ closing) nilRule
  · obtain ⟨gap, rest, hcs, hgap⟩ := nil_of_width hnil
    obtain ⟨rfl, rfl⟩ := List.cons.inj hcs
    have hopening : (Turtle.lexer .turtle).first ('(' :: (gap ++ ')' :: rest)) = _ :=
      first_parenthesis (p := ("LParen", "(")) (by simp) _
    rw [hopening] at htail
    have hinside : Portable text ((Turtle.lexer .turtle).tokensAt (bytes before + 1)
      (gap ++ ')' :: rest)) := htail
    rw [tokens_parenthesis _ hgap] at hinside
    have hbytes : bytes before + 1 + bytes gap + 1 =
        bytes before + bytes ('(' :: (gap ++ [')'])) := by
      have hsplit : bytes ('(' :: (gap ++ [')'])) = 1 + bytes gap + 1 := by
        rw [← List.singleton_append, ← List.append_assoc, bytes_append, bytes_append]
        rfl
      omega
    refine alike_parentheses hgap ?_
    rw [hbytes] at hinside ⊢
    exact hbehind _ rest (by simp) (List.cons_ne_nil _ _)
      (hinside.of_suffix (List.suffix_cons _ _))
  · have hnil : width (c :: cs ++ closing) nilRule = 0 := Nat.eq_zero_of_not_pos hnil
    have hsign := not_sign_of_first hunknown fun hnumber => by
      have hunsigned := h.unsigned _ (List.mem_cons_self ..) hnumber
      rw [Token.ofImage, String.toList_ofList, hhead] at hunsigned
      exact hunsigned.imp (mt (congrArg some)) (mt (congrArg some))
    have hname := fun hmem => (List.mem_cons.mp hmem).elim hverb hdirective
    refine alike_terminal hother hsign hunknown hname hnil rfl (fun hopening => ?_) hrest
    obtain ⟨-, hrules⟩ := Inspection.parentheses inspection ("LParen", "(") (by simp)
    obtain ⟨rfl, hone⟩ := eq_of_verbatim (d := '(') (by decide)
      (fun r hr hr' => congrArg Prod.snd ((hrules r hr).2 hr')) hopening
    rw [hone] at h ⊢
    exact not_closed htext hnil hopening h

/-- **A text whose tokens are portable has them in an update as well.** -/
theorem alike_of_portable (htext : text = before ++ cs)
    (h : Portable text ((Turtle.lexer .turtle).tokensAt (bytes before) cs)) :
    Alike dialect (bytes before) cs := by
  induction hn : cs.length using Nat.strong_induction_on generalizing before cs with
  | _ n ih =>
    subst hn
    have hbehind (front rest : List Char) (hcs : cs = front ++ rest) (hne : front ≠ [])
        (h : Portable text ((Turtle.lexer .turtle).tokensAt (bytes before + bytes front) rest)) :
        Alike dialect (bytes before + bytes front) rest := by
      rw [← bytes_append] at h ⊢
      refine ih rest.length ?_ (by rw [htext, hcs, List.append_assoc]) h rfl
      rw [hcs, List.length_append]
      exact Nat.lt_add_of_pos_left (List.length_pos_iff.mpr hne)
    cases cs with
    | nil => exact closing_tokens dialect
    | cons c cs =>
      by_cases hspace : Rdf.spaceClass.holds c = true
      · rw [tokensAt_gap turtle_skips hspace] at h
        exact alike_gap hspace (hbehind [c] cs rfl (List.cons_ne_nil c []) h)
      by_cases hsign : c = '#'
      · subst hsign
        rw [tokensAt_comment turtle_skips] at h
        refine alike_comment ?_
        rw [Nat.add_assoc] at h ⊢
        refine hbehind ('#' :: commentBody cs) _ ?_ (List.cons_ne_nil _ _) h
        rw [List.cons_append, commentBody_append]
      · exact alike_token htext ⟨Bool.eq_false_iff.mpr hspace, hsign⟩ h hbehind

end

/-! ### Documents -/

theorem mem_of_joined {u : String} {w : Word} (h : u ∈ joined w) : u = "NIL" ∨ u ∈ w := by
  fun_induction joined w with
  | case1 u₁ u₂ w hempty ih =>
    rcases List.mem_cons.mp h with rfl | h
    · exact .inl rfl
    · exact (ih h).imp_right fun hmem => List.mem_cons_of_mem _ (List.mem_cons_of_mem _ hmem)
  | case2 u₁ u₂ w hapart ih =>
    rcases List.mem_cons.mp h with rfl | h
    · exact .inr (List.mem_cons_self ..)
    · exact (ih h).imp_right (List.mem_cons_of_mem _)
  | case3 w hshort => exact .inr h

theorem dataVocabulary_names : ∀ u ∈ (Turtle.vocabulary .turtle).names,
    u ∈ Vocabulary.unknownName :: directiveNames ∨ u ∈ Sparql.dataVocabulary.names := by
  decide

theorem mem_dataVocabulary : ∀ u ∈ ["NIL", "LCurly", "RCurly"],
    u ∈ Sparql.dataVocabulary.names := by
  decide

/-- What is portable has names of quad data. -/
theorem spells_joined {text : List Char} {tokens : List Token} (h : Portable text tokens)
    (htyped : ∀ t ∈ tokens, t.type ∈ (Turtle.vocabulary .turtle).types) :
    Sparql.dataVocabulary.Spells ("LCurly" :: (joined (names tokens) ++ ["RCurly"])) := by
  intro u hu
  rw [List.mem_cons, List.mem_append, List.mem_singleton] at hu
  rcases hu with rfl | hu | rfl
  · exact mem_dataVocabulary _ (by decide)
  · rcases mem_of_joined hu with rfl | hu
    · exact mem_dataVocabulary _ (by decide)
    · obtain ⟨t, ht, rfl⟩ := List.mem_map.mp hu
      exact (dataVocabulary_names _ (List.mem_map_of_mem (htyped t ht))).resolve_left (h.known t ht)
  · exact mem_dataVocabulary _ (by decide)

/-- A document without escapes has the error of its tokens. -/
theorem errors_of_parse {f : Frontend} {raw : List Char} (hraw : Plain raw)
    {P : SyntaxError → Prop}
    (h : (f.grammar.parse f.vocabulary f.root (bytes raw) (f.lexer.tokenize raw)).2 = none ∨
      ∃ e, (f.grammar.parse f.vocabulary f.root (bytes raw) (f.lexer.tokenize raw)).2 = some e ∧
        P e) :
    (f.parseDocument raw).errors = [] ∨ ∃ e, (f.parseDocument raw).errors = [e] ∧ P e := by
  rw [f.parseDocument_of_plain hraw]
  rcases h with hnone | ⟨e, he, hP⟩
  · exact .inl (congrArg Option.toList hnone)
  · exact .inr ⟨e, congrArg Option.toList he, hP⟩

theorem wellNamed (dialect : Sparql.Dialect) : (Sparql.vocabulary dialect).WellNamed := by
  refine ⟨Sparql.distinct dialect, fun h => Sparql.Inspection.no_end Sparql.inspection ?_⟩
  cases dialect with
  | w3 => exact Sparql.names_subset_stardog h
  | stardog => exact h

/-- **What Turtle accepts can be inserted with SPARQL**, up to its signs, its directives and
parentheses with more than blanks between them: those texts are parsed without an error in an
update, unless rules nest too deep. -/
theorem insertable (dialect : Sparql.Dialect) {checksPrefixes : Bool} {text : List Char}
    (hplain : '\\' ∉ text) (herrors : (Turtle.parsed .turtle checksPrefixes text).errors = [])
    (hdirective : ∀ t ∈ (Turtle.parsed .turtle checksPrefixes text).tokens,
      t.name ∉ directiveNames)
    (hunsigned : ∀ t ∈ (Turtle.parsed .turtle checksPrefixes text).tokens, Unsigned t)
    (hblank : (Turtle.parsed .turtle checksPrefixes text).tokens.IsChain (BlankBetween text)) :
    let raw := "insert data \x7b ".toList ++ text ++ "\n\x7d".toList
    let update := (Sparql.frontend dialect).parseDocument raw
    update.errors = [] ∨
      ∃ e, update.errors = [e] ∧
        e.message = Complaint.tooDeep.message (Sparql.vocabulary dialect) := by
  intro raw update
  rw [Turtle.parsed_errors] at herrors
  rw [Turtle.parsed_tokens] at hdirective hunsigned hblank
  have hderives := Turtle.derives_of_errorOf (Option.toList_eq_nil_iff.mp herrors)
  have hunknown := Turtle.not_mem_of_derives (List.mem_cons_self ..) hderives
  have hportable : Portable text ((Turtle.lexer .turtle).tokenize text) := by
    refine ⟨fun t ht hmem => ?_, hunsigned, hblank⟩
    rcases List.mem_cons.mp hmem with hname | hname
    · exact hunknown (hname ▸ List.mem_map_of_mem ht)
    · exact hdirective t ht hname
  have hquad := derives_quadData hderives fun u hu hmem => by
    obtain ⟨t, ht, rfl⟩ := List.mem_map.mp hmem
    exact hdirective t ht hu
  have hconsumes : Consumes (Sparql.vocabulary dialect) Sparql.grammar (bytes raw)
      Sparql.grammar.entry _ [] :=
    Sparql.consumes_insertData (wellNamed dialect) (Sparql.dataVocabulary_subset dialect)
      (spells_joined hportable (Turtle.type_of_mem_tokenize .turtle text)) hquad
  -- those are the tokens of the update
  have hnames : names ((Sparql.lexer dialect).tokenize raw) =
      "INSERT_DATA" :: "LCurly" ::
        (joined (names ((Turtle.lexer .turtle).tokenize text)) ++ ["RCurly"]) := by
    have hraw : raw = "insert data \x7b ".toList ++ (text ++ closing) := List.append_assoc ..
    obtain ⟨offset, hopening⟩ := opening_tokens dialect (text ++ closing)
    have hinside : names ((Sparql.lexer dialect).tokensAt offset (text ++ closing)) = _ :=
      alike_of_portable (List.nil_append text).symm hportable offset
    rw [hinside] at hopening
    exact hraw ▸ hopening
  rw [← hnames] at hconsumes
  have hupdate : Plain raw := plain_of_no_backslash (by
    rw [List.mem_append, List.mem_append, not_or, not_or]
    exact ⟨⟨by decide, hplain⟩, by decide⟩)
  exact errors_of_parse hupdate
    (parse_of_consumes (Sparql.lawful dialect).progressive (fun _ => Lexer.type_mem_of_tokenize)
      hconsumes)

/-- The verb, parentheses with blanks between them, and a comment. -/
theorem insertable_list :
    let text := "<a>a<b>;<c>( ),5.#\n".toList
    let parsed := Turtle.parsed .turtle true text
    let raw := "insert data \x7b ".toList ++ text ++ "\n\x7d".toList
    let update := (Sparql.frontend .stardog).parseDocument raw
    ('\\' ∉ text ∧ parsed.errors = [] ∧ (∀ t ∈ parsed.tokens, t.name ∉ directiveNames) ∧
      (∀ t ∈ parsed.tokens, Unsigned t) ∧ parsed.tokens.IsChain (BlankBetween text)) ∧
      (update.errors = [] ∨
        ∃ e, update.errors = [e] ∧
          e.message = Complaint.tooDeep.message (Sparql.vocabulary .stardog)) := by
  intro text parsed raw update
  have h : '\\' ∉ text ∧ parsed.errors = [] ∧ (∀ t ∈ parsed.tokens, t.name ∉ directiveNames) ∧
      (∀ t ∈ parsed.tokens, Unsigned t) ∧ parsed.tokens.IsChain (BlankBetween text) := by
    decide
  obtain ⟨hplain, herrors, hdirective, hunsigned, hblank⟩ := h
  exact ⟨⟨hplain, herrors, hdirective, hunsigned, hblank⟩,
    insertable .stardog hplain herrors hdirective hunsigned hblank⟩

/-- A sign is an operator of SPARQL, and a comment is no blank. -/
theorem signs_not_insertable :
    let parsed := Turtle.parsed .turtle true
    let update (text : List Char) := (Sparql.frontend .stardog).parseDocument
      ("insert data \x7b ".toList ++ text ++ "\n\x7d".toList)
    let message := Complaint.tooDeep.message (Sparql.vocabulary .stardog)
    let signed := "<a><b>+5.".toList
    let commented := "<a><b>(#\n).".toList
    ('\\' ∉ signed ∧ (parsed signed).errors = [] ∧
      (∀ t ∈ (parsed signed).tokens, t.name ∉ directiveNames) ∧
      (update signed).errors ≠ [] ∧ ∀ e ∈ (update signed).errors, e.message ≠ message) ∧
    ('\\' ∉ commented ∧ (parsed commented).errors = [] ∧
      (∀ t ∈ (parsed commented).tokens, t.name ∉ directiveNames) ∧
      (update commented).errors ≠ [] ∧ ∀ e ∈ (update commented).errors, e.message ≠ message) := by
  decide +kernel

end GraphLanguages.InsertData
