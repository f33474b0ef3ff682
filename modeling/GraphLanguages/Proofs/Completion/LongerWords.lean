import GraphLanguages.Completion.Items
import GraphLanguages.Proofs.Completion.Cursor

/-! Words that begin with two tokens.

Where the cursor touches a token that abuts the one before it, every type of the
vocabulary with a text that begins with both is a candidate in place of both. Its text
gets through expansion and removal of duplicates (`mem_labels_distinct`), and where
candidates are narrowed, exactly if it begins with what counts as typed. That is the
text of both tokens if both are words, and else that of the second alone. -/
namespace GraphLanguages

/-- The type has a text of its own that begins with what is typed, in any case if the text
is that of a keyword. -/
inductive TokenType.Lengthens (typed : String) (T : TokenType) (word : String) : Prop
  | literal : T.pattern = .literal word → typed.toList <+: word.toList → T.Lengthens typed word
  | keyword {text : String} : T.pattern = .keyword text → normalizeKeyword text = word →
      (Unicode.lower typed).toList <+: (Unicode.lower word).toList → T.Lengthens typed word

namespace Completion
open Grammar

/-! ### Labels -/

def labels (suggestions : List Suggestion) : List String :=
  suggestions.map Suggestion.label

theorem mem_labels_distinctFrom {label : String} {seen : List String}
    {suggestions : List Suggestion} :
    label ∈ labels (Suggestion.distinctFrom seen suggestions) ↔
      label ∈ labels suggestions ∧ label ∉ seen := by
  induction suggestions generalizing seen with
  | nil => simp [labels, Suggestion.distinctFrom]
  | cons s rest ih =>
    rw [Suggestion.distinctFrom]
    split
    next hs =>
      have hs : s.label ∈ seen := by simpa using hs
      rw [ih]
      simp only [labels, List.map_cons, List.mem_cons]
      refine ⟨fun ⟨h, hn⟩ => ⟨.inr h, hn⟩, fun ⟨h, hn⟩ => ⟨h.resolve_left ?_, hn⟩⟩
      rintro rfl
      exact hn hs
    next hs =>
      have hs : s.label ∉ seen := by simpa using hs
      have hcons : labels (s :: Suggestion.distinctFrom (s.label :: seen) rest) =
          s.label :: labels (Suggestion.distinctFrom (s.label :: seen) rest) := rfl
      rw [hcons, List.mem_cons, ih]
      simp only [labels, List.map_cons, List.mem_cons, not_or]
      constructor
      · rintro (rfl | ⟨h, -, hn⟩)
        · exact ⟨.inl rfl, hs⟩
        · exact ⟨.inr h, hn⟩
      · rintro ⟨h, hn⟩
        by_cases he : label = s.label
        · exact .inl he
        · exact .inr ⟨h.resolve_left he, he, hn⟩

/-- Only repetitions of a label are removed. -/
theorem mem_labels_distinct {label : String} {suggestions : List Suggestion} :
    label ∈ labels (Suggestion.distinct suggestions) ↔ label ∈ labels suggestions := by
  rw [Suggestion.distinct, mem_labels_distinctFrom]
  simp

theorem mem_labels_append {label : String} {a b : List Suggestion} :
    label ∈ labels (a ++ b) ↔ label ∈ labels a ∨ label ∈ labels b := by
  simp [labels]

/-- Narrowing keeps the labels that begin with what is typed. -/
theorem mem_labels_narrowed {label : String} {typed : Option (List Char)}
    {items : List Suggestion} :
    label ∈ labels (narrowed typed items) ↔
      label ∈ labels items ∧ ∀ cs ∈ typed, cs <+: label.toList := by
  cases typed with
  | none => simp [narrowed]
  | some cs =>
    simp only [labels, narrowed, List.mem_map, List.mem_filter, List.isPrefixOf_iff_prefix,
      Option.mem_some_iff, forall_eq']
    constructor
    · rintro ⟨s, ⟨hs, hp⟩, rfl⟩
      exact ⟨⟨s, hs, rfl⟩, hp⟩
    · rintro ⟨⟨s, hs, rfl⟩, hp⟩
      exact ⟨s, ⟨hs, hp⟩, rfl⟩

theorem Completer.complete_of_locate?_none {k : Completer} {text : List Char}
    {tokens : List Token} {offset : Nat} {data : Data}
    (hc : Cursor.locate? k.settings tokens (min offset (Text.bytes text)) = none) :
    k.complete text tokens offset data = [] := by
  simp only [complete, hc]

theorem Completer.complete_of_locate? {k : Completer} {text : List Char} {tokens : List Token}
    {offset : Nat} {cursor : Cursor} (data : Data)
    (hc : Cursor.locate? k.settings tokens (min offset (Text.bytes text)) = some cursor) :
    k.complete text tokens offset data =
      (Suggestion.distinct (k.gather text tokens (min offset (Text.bytes text)) data cursor)).map
        fun s => { s with replace := s.replace.clamp (Text.bytes text) } := by
  simp only [complete, hc]

theorem complete_of_locate? {p : Profile} {text : List Char} {tokens : List Token} {offset : Nat}
    {cursor : Cursor} (data : Data)
    (hc : Cursor.locate? p.completion tokens (min offset (Text.bytes text)) = some cursor) :
    let candidates := candidatesAt p tokens cursor
    let added := p.augment ⟨tokens, min offset (Text.bytes text), cursor, candidates, data⟩
    let offered := candidateItems p.completion p.frontend.vocabulary cursor.range candidates
    p.complete text tokens offset data =
      (Suggestion.distinct (added.leading ++ narrowed (cursor.typedText? text) offered ++
        added.trailing)).map fun s => { s with replace := s.replace.clamp (Text.bytes text) } :=
  p.completer.complete_of_locate? data hc

theorem labels_complete {p : Profile} {text : List Char} {tokens : List Token} {offset : Nat}
    {cursor : Cursor} (data : Data) (label : String)
    (hc : Cursor.locate? p.completion tokens (min offset (Text.bytes text)) = some cursor) :
    let candidates := candidatesAt p tokens cursor
    let added := p.augment ⟨tokens, min offset (Text.bytes text), cursor, candidates, data⟩
    let offered := candidateItems p.completion p.frontend.vocabulary cursor.range candidates
    label ∈ labels (p.complete text tokens offset data) ↔
      label ∈ labels added.leading ∨
        (label ∈ labels offered ∧ ∀ cs ∈ cursor.typedText? text, cs <+: label.toList) ∨
          label ∈ labels added.trailing := by
  intro candidates added offered
  have hlabels : labels (p.complete text tokens offset data) =
      labels (Suggestion.distinct (added.leading ++ narrowed (cursor.typedText? text) offered ++
        added.trailing)) := by
    rw [complete_of_locate? data hc, labels, labels, List.map_map]
    rfl
  rw [hlabels, mem_labels_distinct, mem_labels_append, mem_labels_append, mem_labels_narrowed,
    or_assoc]

/-! ### Longer words among the candidates -/

theorem extendsTyped_of_lengthens {typed word : String} {T : TokenType}
    (h : T.Lengthens typed word) : extendsTyped typed T.pattern = true := by
  cases h with
  | literal hp h => simpa [hp, extendsTyped, startsWith] using h
  | keyword hp hw h => simpa [hp, hw, extendsTyped, startsWithInAnyCase, startsWith] using h

theorem mem_labels_typeItems {settings : Settings} (v : Vocabulary) (range : ByteRange)
    {typed word : String} {T : TokenType} (hx : isExcluded settings T = false)
    (h : T.Lengthens typed word) : word ∈ labels (typeItems settings v range T) := by
  cases h with
  | literal hp => simp [labels, typeItems, typeItem?, hp, hx, Suggestion.ofLabel]
  | keyword hp hw => simp [labels, typeItems, typeItem?, hp, hw, hx, Suggestion.ofLabel]

/-- A longer word is among the suggestions of the grammar, before they are narrowed. -/
theorem mem_labels_candidateItems {p : Profile} {tokens : List Token} {cursor : Cursor}
    {before at_ : Token} {T : TokenType} {word : String}
    (hbefore : cursor.before?.bind (tokens[·]?) = some before)
    (hat : cursor.at?.bind (tokens[·]?) = some at_) (habuts : before.abuts at_ = true)
    (hT : T ∈ p.frontend.vocabulary.types) (hx : isExcluded p.completion T = false)
    (hword : T.Lengthens (before.image ++ at_.image) word) :
    word ∈ labels (candidateItems p.completion p.frontend.vocabulary cursor.range
      (candidatesAt p tokens cursor)) := by
  let c : Candidate := ⟨T, [], some (before.start, at_.stop)⟩
  have hc : c ∈ candidatesAt p tokens cursor := by
    refine List.mem_append.mpr (.inr ?_)
    simp only [longerWordsAt, hbefore, hat, habuts, if_true, longerWords]
    exact List.mem_map.mpr
      ⟨T, List.mem_filter.mpr ⟨hT, extendsTyped_of_lengthens hword⟩, rfl⟩
  have hitems := mem_labels_typeItems p.frontend.vocabulary (candidateRange cursor.range c)
    hx hword
  obtain ⟨s, hs, rfl⟩ := List.mem_map.mp hitems
  exact List.mem_map.mpr ⟨s, List.mem_flatMap.mpr ⟨c, hc, hs⟩, rfl⟩

/-! ### What counts as typed -/

/-- Behind a word at its end, where candidates are narrowed to it, what counts as typed is
that word, with the word in front of it if that abuts. -/
theorem typedText?_atToken {settings : Settings} {raw : List Char} {o : ParseOutput}
    (ho : o.LiesIn raw) {offset i : Nat} {before at_ : Token}
    (hbefore : o.tokens[i]? = some before) (hat : o.tokens[i + 1]? = some at_)
    (habuts : before.abuts at_ = true) :
    (Cursor.atToken settings o.tokens offset (i + 1) at_).typedText? raw =
      if settings.narrows && at_.isWordLike && offset == at_.stop then
        some (if before.isWordLike then before.image.toList ++ at_.image.toList
          else at_.image.toList)
      else none := by
  have hmem : at_ ∈ o.tokens := List.mem_of_getElem? hat
  have hlies := ho.tokens at_ hmem
  have hbehind := ho.tokens before (List.mem_of_getElem? hbefore)
  have hstop := stop_eq ho hmem
  have hnext : before.last + 1 = at_.start := by
    simpa using (Bool.and_eq_true_iff.mp habuts).2
  have hboth : Text.slice? before.start at_.stop raw =
      some (before.image.toList ++ at_.image.toList) := by
    rw [hstop]
    exact Text.slice?_trans hbehind.slice (hnext ▸ hlies.slice)
  have hhalf : Cursor.firstHalf? o.tokens (i + 1) at_ =
      if before.isWordLike && at_.isWordLike then some before else none := by
    simp [Cursor.firstHalf?, hbefore, habuts, Option.filter]
  by_cases hnarrow : (settings.narrows && at_.isWordLike && offset == at_.stop) = true
  · obtain ⟨⟨-, hword⟩, hoffset⟩ := by simpa only [Bool.and_eq_true] using hnarrow
    have hoffset : offset = at_.stop := by simpa using hoffset
    simp only [Cursor.typedText?, Cursor.atToken, hnarrow, if_true, hhalf, Option.bind_some]
    by_cases hb : before.isWordLike = true
    · simp only [hb, hword, Bool.and_self, if_true, Option.map_some, Option.getD_some, hoffset,
        hboth]
    · simp only [hb, Bool.false_and, Bool.false_eq_true, if_false, Option.map_none,
        Option.getD_none, hoffset, hstop, hlies.slice]
  · simp only [Cursor.typedText?, Cursor.atToken, if_neg hnarrow, Option.bind_none]

/-! ### Longer words among the suggestions -/

theorem narrows_iff {l : Language} : l.completion.narrows = true ↔ l = .graphQL := by
  cases l <;> decide

/-- GraphQL has no words in any case, so a longer word begins with what is typed. -/
theorem prefix_of_lengthens_graphQL {options : Options} {typed word : String} {T : TokenType}
    (hT : T ∈ (Language.graphQL.frontend options).vocabulary.types)
    (h : T.Lengthens typed word) : typed.toList <+: word.toList := by
  cases h with
  | literal _ h => exact h
  | keyword hp =>
    have hnone : ∀ dialect, ∀ T ∈ (GraphQL.vocabulary dialect).types,
        (T.pattern matches .keyword _) = false := by
      intro dialect
      cases dialect <;> decide
    have := hnone _ T hT
    simp [hp] at this

/-- **Where the cursor touches a token that abuts the one before it, every longer word that
begins with both is suggested, unless candidates are narrowed to the second token alone
and the word does not begin with that.** -/
theorem longer_word_suggested_iff (l : Language) (options : Options) (raw : List Char)
    (offset i : Nat) (data : Data) (before at_ : Token) (T : TokenType) (word : String) :
    let p := l.profile options
    let tokens := (p.frontend.parseDocument raw).tokens
    let place := min offset (Text.bytes raw)
    tokenIndexAt? tokens place = some (i + 1) → tokens[i]? = some before →
      tokens[i + 1]? = some at_ → before.abuts at_ = true →
      T ∈ p.frontend.vocabulary.types → isExcluded p.completion T = false →
      T.Lengthens (before.image ++ at_.image) word →
      (word ∈ labels (p.complete raw tokens offset data) ↔
        (p.completion.narrows = true → at_.isWordLike = true → before.isWordLike = false →
          place = at_.stop → at_.image.toList <+: word.toList)) := by
  intro p tokens place hindex hbefore hat habuts hT hx hword
  have ho := (l.lawful options).liesIn (l.checksTokens options) raw
  let cursor := Cursor.atToken p.completion tokens place (i + 1) at_
  have hc : Cursor.locate? p.completion tokens place = some cursor := by
    simp only [Cursor.locate?, hindex, hat, Option.map_some, cursor]
  have hoffered : word ∈ labels (candidateItems p.completion p.frontend.vocabulary cursor.range
      (candidatesAt p tokens cursor)) :=
    mem_labels_candidateItems hbefore hat habuts hT hx hword
  have htyped : cursor.typedText? raw = _ := typedText?_atToken ho hbefore hat habuts
  have hlabels := labels_complete data word hc
  cases hn : p.completion.narrows with
  | false =>
    have hfree : cursor.typedText? raw = none := by
      rw [htyped, hn, Bool.false_and, Bool.false_and, if_neg Bool.false_ne_true]
    have hsuggested := hlabels.mpr (.inr (.inl ⟨hoffered, by simp [hfree]⟩))
    exact ⟨fun _ h => absurd h Bool.false_ne_true, fun _ => hsuggested⟩
  | true =>
    obtain rfl : l = .graphQL := narrows_iff.mp hn
    have hnothing : word ∉ labels [] := List.not_mem_nil
    have hkept : word ∈ labels (p.complete raw tokens offset data) ↔
        ∀ cs ∈ cursor.typedText? raw, cs <+: word.toList := by
      refine hlabels.trans ⟨fun h => ?_, fun h => .inr (.inl ⟨hoffered, h⟩)⟩
      exact ((h.resolve_left hnothing).resolve_right hnothing).2
    have hboth := prefix_of_lengthens_graphQL hT hword
    rw [String.toList_append] at hboth
    rw [hkept, htyped, hn, Bool.true_and]
    cases hw : at_.isWordLike with
    | false => simp
    | true =>
      by_cases hplace : place = at_.stop
      · cases hb : before.isWordLike <;> simp [hplace, hboth]
      · simp [hplace]

/-- Behind `str` and an `s` that is no word yet, `strstarts` is suggested. -/
theorem longer_word_suggested_strstarts :
    let p := Language.sparql.profile {}
    let raw := "strs".toList
    let tokens := (p.frontend.parseDocument raw).tokens
    let before := Token.ofImage
      ((TokenType.keyword "STR" "str").withCategories [.builtInCall]) "str" 0
    let at_ := Token.ofImage Vocabulary.unknownType "s" 3
    let T := (TokenType.keyword "STRSTARTS" "strstarts").withCategories [.builtInCall]
    tokenIndexAt? tokens 4 = some 1 ∧ tokens[0]? = some before ∧ tokens[1]? = some at_ ∧
      before.abuts at_ = true ∧ T ∈ p.frontend.vocabulary.types ∧
      isExcluded p.completion T = false ∧
      T.Lengthens (before.image ++ at_.image) "strstarts" ∧
      "strstarts" ∈ labels (p.complete raw tokens 4 {}) := by
  intro p raw tokens before at_ T
  have htokens : tokens = [before, at_] := by decide +kernel
  have hindex : tokenIndexAt? tokens 4 = some 1 := by rw [htokens]; rfl
  have hbefore : tokens[0]? = some before := by rw [htokens]; rfl
  have hat : tokens[1]? = some at_ := by rw [htokens]; rfl
  have hT : T ∈ p.frontend.vocabulary.types := by decide +kernel
  have hword : T.Lengthens (before.image ++ at_.image) "strstarts" :=
    .keyword rfl (by decide +kernel) (by decide +kernel)
  have hiff := longer_word_suggested_iff .sparql {} raw 4 0 {} before at_ T "strstarts" hindex
    hbefore hat rfl hT rfl hword
  exact ⟨hindex, hbefore, hat, rfl, hT, rfl, hword, hiff.mpr fun h => absurd h (by decide)⟩

/-- Behind an `@` and the start of a name, no directive is suggested: it would have to begin
with the name. -/
theorem longer_word_narrowed_away :
    let p := Language.graphQL.profile {}
    let raw := "\x7b Human @opt".toList
    let tokens := (p.frontend.parseDocument raw).tokens
    let before := Token.ofImage ((TokenType.literal "At" "@").withCategories [.punctuator]) "@" 8
    let at_ := Token.ofImage ((TokenType.regex "Name" GraphQL.nameRegex).withCategories [.name])
      "opt" 9
    let T := (TokenType.literal "OptionalDirective" "@optional").withCategories [.directive]
    tokenIndexAt? tokens 12 = some 3 ∧ tokens[2]? = some before ∧ tokens[3]? = some at_ ∧
      before.abuts at_ = true ∧ T ∈ p.frontend.vocabulary.types ∧
      isExcluded p.completion T = false ∧
      T.Lengthens (before.image ++ at_.image) "@optional" ∧
      "@optional" ∉ labels (p.complete raw tokens 12 {}) := by
  intro p raw tokens before at_ T
  have hword : T.Lengthens (before.image ++ at_.image) "@optional" := .literal rfl (by decide)
  exact ⟨by decide +kernel, by decide +kernel, by decide +kernel, rfl, by decide +kernel, rfl,
    hword, by decide +kernel⟩

end Completion

end GraphLanguages
