import GraphLanguages.Completion.Items
import GraphLanguages.Proofs.Completion.Cursor

/-! Where SPARQL offers types.

Types of the database are offered behind the token `a`. Where the word at the cursor is one
token, that is the last token that stays in front of it (`tokenBefore?_eq_getLast?`). A word in
two tokens is replaced as a whole, but its first half is still the token that is looked at: so
types are offered in place of an `a` with a letter right behind it, and they are not behind an
`a` and the start of a name that begins like a keyword (`types_offered`). -/
namespace GraphLanguages.Sparql
open Completion

/-! ### What is added for the types -/

/-- Behind the suggestions that there would be without types, those of all types are added. -/
def OffersTypes (p : Profile) (c : Context) : Prop :=
  (p.augment c).trailing =
    (p.augment { c with data := c.data.apply { types := some [] } }).trailing ++
      atDefaultRange c c.data.typeItems

instance (p : Profile) (c : Context) : Decidable (OffersTypes p c) :=
  inferInstanceAs (Decidable (_ = _))

theorem offersTypes_iff {options : Options} {c : Context} (h : c.data.types ≠ []) :
    OffersTypes (Language.sparql.profile options) c ↔ ∃ t ∈ c.tokenBefore?, t.name = "A" := by
  have hitems : atDefaultRange c c.data.typeItems ≠ [] := by
    obtain ⟨b, bs, hb⟩ := List.exists_cons_of_ne_nil h
    simp [atDefaultRange, c.data.typeItems_eq, Binding.items, hb]
  have hwithout : databaseItems { c with data := c.data.apply { types := some [] } } =
      if c.inAnyRule edgeRules then atDefaultRange c c.data.relationshipItems else [] := by
    show _ ++ (if c.tokenBefore?.any fun t => t.name == "A" then [] else []) = _
    rw [ite_self, List.append_nil]
    rfl
  have hbefore : (∃ t ∈ c.tokenBefore?, t.name = "A") ↔
      (c.tokenBefore?.any fun t => t.name == "A") = true := by
    simp [Option.any_eq_true]
  show databaseItems c = databaseItems _ ++ _ ↔ _
  rw [hwithout, hbefore, databaseItems, List.append_cancel_left_eq]
  cases c.tokenBefore?.any fun t => t.name == "A" with
  | true => simp
  | false => simpa using hitems.symm

/-! ### The token that is looked at -/

/-- Where the word at the cursor is one token, all tokens in front of it stay. -/
theorem assisted_of_one {settings : Settings} {tokens : List Token} {offset i : Nat} {t : Token}
    (h : Cursor.firstHalf? tokens i t = none) :
    (Cursor.atToken settings tokens offset i t).assisted = i := by
  rw [Cursor.atToken, h]
  rfl

section
variable {tokens : List Token} {offset i : Nat} {t : Token} {cursor : Cursor}

/-- Without insertions there is a token at the cursor. -/
theorem exists_token_of_locate?
    (h : Cursor.locate? Language.sparql.completion tokens offset = some cursor) :
    ∃ i t, tokens[i]? = some t ∧
      cursor = Cursor.atToken Language.sparql.completion tokens offset i t := by
  unfold Cursor.locate? at h
  split at h
  next i _ =>
    obtain ⟨t, ht, hcursor⟩ := Option.map_eq_some_iff.mp h
    exact ⟨i, t, ht, hcursor.symm⟩
  next => cases h

theorem getLast?_take (h : tokens[i]? = some t) :
    (tokens.take i).getLast? = if i = 0 then none else tokens[i - 1]? := by
  obtain ⟨hi, -⟩ := List.getElem?_eq_some_iff.mp h
  rw [List.getLast?_take]
  split
  next => rfl
  next hpos => rw [List.getElem?_eq_getElem (show i - 1 < tokens.length by omega), Option.some_or]

end

/-- **Types are offered behind an `a`: behind the last token in front of the replacement, if the
word at the cursor is one token; but if it is two, where the first of them is an `a`.** -/
theorem types_offered (options : Options) (raw : List Char) (offset : Nat) (cursor : Cursor)
    (data : Data)
    (hcursor : Cursor.locate? Language.sparql.completion
      ((Language.sparql.frontend options).parseDocument raw).tokens offset = some cursor)
    (hdata : data.types ≠ []) :
    let p := Language.sparql.profile options
    let tokens := (p.frontend.parseDocument raw).tokens
    let context : Context :=
      { tokens, offset, cursor, candidates := candidatesAt p tokens cursor, data }
    let before := tokens.filter (·.stop ≤ cursor.range.start)
    ∃ i t, cursor.at? = some i ∧ tokens[i]? = some t ∧
      (Cursor.firstHalf? tokens i t = none →
        (OffersTypes p context ↔ ∃ last ∈ before.getLast?, last.name = "A")) ∧
      ∀ half ∈ Cursor.firstHalf? tokens i t, (OffersTypes p context ↔ half.name = "A") := by
  intro p tokens context before
  obtain ⟨i, t, ht, rfl⟩ := exists_token_of_locate? hcursor
  have hbefore : before = tokens.take _ :=
    Cursor.filter_stop (parseDocument_liesIn .sparql options raw) hcursor
  have hlooked : context.tokenBefore? = if i = 0 then none else tokens[i - 1]? := by
    show (if i = 0 then none else some (i - 1)).bind (tokens[·]?) = _
    split <;> rfl
  refine ⟨i, t, rfl, ht, fun hone => ?_, fun half htwo => ?_⟩
  · have hkept : before = tokens.take i :=
      hbefore.trans (congrArg tokens.take (assisted_of_one hone))
    have hlast : (tokens.take i).getLast? = if i = 0 then none else tokens[i - 1]? :=
      getLast?_take ht
    rw [offersTypes_iff hdata, hlooked, hkept, hlast]
  · have hpos : i ≠ 0 := by
      rintro rfl
      cases htwo
    have hhalf : tokens[i - 1]? = some half := (Cursor.firstHalf?_eq_some htwo).1
    rw [offersTypes_iff hdata, hlooked, if_neg hpos, hhalf]
    simp

/-- The name of a type that is half typed does not stand in the way. -/
theorem types_offered_name :
    let p := Language.sparql.profile {}
    let tokens := (p.frontend.parseDocument "ask\x7b?s a P".toList).tokens
    let cursor : Cursor := ⟨some 4, 4, ⟨9, 10⟩, none⟩
    let data : Data := { types := [⟨"urn:t", 1⟩] }
    let context : Context :=
      { tokens, offset := 10, cursor, candidates := candidatesAt p tokens cursor, data }
    Cursor.locate? Language.sparql.completion tokens 10 = some cursor ∧ data.types ≠ [] ∧
      OffersTypes p context ∧ ∃ last ∈ (tokens.filter (·.stop ≤ 9)).getLast?, last.name = "A" := by
  intro p tokens cursor data context
  have hplace : Cursor.locate? Language.sparql.completion tokens 10 = some cursor ∧
      (∀ t ∈ tokens[4]?, Cursor.firstHalf? tokens 4 t = none) ∧
      ∃ last ∈ (tokens.filter (·.stop ≤ 9)).getLast?, last.name = "A" := by
    decide +kernel
  obtain ⟨hcursor, hsingle, hlast⟩ := hplace
  obtain ⟨i, t, hat, ht, hone, -⟩ :=
    types_offered {} "ask\x7b?s a P".toList 10 cursor data hcursor (by decide)
  obtain rfl : 4 = i := Option.some.inj hat
  exact ⟨hcursor, by decide, (hone (hsingle t ht)).mpr hlast, hlast⟩

/-- In place of an `a` with a letter right behind it, types are offered, although another token
is the last that stays; behind an `a` and a name that begins like a keyword, they are not. -/
theorem types_in_place_of_verb :
    let p := Language.sparql.profile {}
    let data : Data := { types := [⟨"urn:t", 1⟩] }
    let context (tokens : List Token) (offset : Nat) (cursor : Cursor) : Context :=
      { tokens, offset, cursor, candidates := candidatesAt p tokens cursor, data }
    let verb := (p.frontend.parseDocument "ask\x7b?s aP".toList).tokens
    let inVerb : Cursor := ⟨some 4, 3, ⟨7, 9⟩, none⟩
    let name := (p.frontend.parseDocument "ask\x7b?s a strs".toList).tokens
    let inName : Cursor := ⟨some 5, 4, ⟨9, 13⟩, none⟩
    (Cursor.locate? Language.sparql.completion verb 9 = some inVerb ∧
      (¬∃ last ∈ (verb.filter (·.stop ≤ 7)).getLast?, last.name = "A") ∧
      OffersTypes p (context verb 9 inVerb)) ∧
    (Cursor.locate? Language.sparql.completion name 13 = some inName ∧
      (∃ last ∈ (name.filter (·.stop ≤ 9)).getLast?, last.name = "A") ∧
      ¬OffersTypes p (context name 13 inName)) := by
  intro p data context verb inVerb name inName
  have hverb : Cursor.locate? Language.sparql.completion verb 9 = some inVerb ∧
      (¬∃ last ∈ (verb.filter (·.stop ≤ 7)).getLast?, last.name = "A") ∧
      ∃ t ∈ (context verb 9 inVerb).tokenBefore?, t.name = "A" := by
    decide +kernel
  have hname : Cursor.locate? Language.sparql.completion name 13 = some inName ∧
      (∃ last ∈ (name.filter (·.stop ≤ 9)).getLast?, last.name = "A") ∧
      ¬∃ t ∈ (context name 13 inName).tokenBefore?, t.name = "A" := by
    decide +kernel
  exact ⟨⟨hverb.1, hverb.2.1, (offersTypes_iff (by decide)).mpr hverb.2.2⟩,
    hname.1, hname.2.1, (offersTypes_iff (by decide)).not.mpr hname.2.2⟩

end GraphLanguages.Sparql
