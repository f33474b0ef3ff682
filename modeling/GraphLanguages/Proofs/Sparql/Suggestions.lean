import Mathlib.Data.List.Basic
import GraphLanguages.Proofs.Completion.Offers
import GraphLanguages.Proofs.Images
import GraphLanguages.Proofs.PrefixedNames
import GraphLanguages.Proofs.Sparql.Types

/-! What SPARQL suggests from a document.

Variables come first, each once, so all of them are kept (`variables_suggested`). Prefixes come
next. They are shown without their colon, so one that is spelled like a keyword takes the label of
that keyword away (`find?_leading`). Nothing else does: the images of variables and of prefixes have
marks that no keyword has (`exists_mark_of_mem`), and all other suggestions insert their labels
(`Ordinary`). So a keyword is suggested exactly if no prefix is spelled like it
(`keyword_suggested_iff`). -/
namespace GraphLanguages

namespace Completion

/-! ### Suggestions that are kept -/

/-- What the first suggestions keep comes first; the others keep what has none of their labels. -/
theorem distinctFrom_append {seen : List String} {items rest : List Suggestion} :
    Suggestion.distinctFrom seen (items ++ rest) =
      Suggestion.distinctFrom seen items ++
        Suggestion.distinctFrom (labels items ++ seen) rest := by
  induction items generalizing seen with
  | nil => rfl
  | cons first items ih =>
    rw [List.cons_append, Suggestion.distinctFrom, Suggestion.distinctFrom]
    split
    next hseen =>
      have hseen : first.label ∈ seen := by simpa using hseen
      rw [ih]
      congr 1
      refine distinctFrom_congr fun s _ => ⟨List.mem_cons_of_mem _, fun h => ?_⟩
      rcases List.mem_cons.mp h with h | h
      · exact List.mem_append_right _ (h ▸ hseen)
      · exact h
    next =>
      rw [ih, List.cons_append]
      congr 2
      refine distinctFrom_congr fun s _ => ?_
      simp only [labels, List.map_cons, List.mem_append, List.mem_cons]
      tauto

theorem distinctFrom_of_nodup {seen : List String} {items : List Suggestion}
    (hnodup : (labels items).Nodup) (hnew : ∀ s ∈ items, s.label ∉ seen) :
    Suggestion.distinctFrom seen items = items := by
  induction items generalizing seen with
  | nil => rfl
  | cons first items ih =>
    obtain ⟨hfirst, hnodup⟩ := List.nodup_cons.mp hnodup
    have hunseen : first.label ∉ seen := hnew first List.mem_cons_self
    rw [Suggestion.distinctFrom, if_neg (by simpa using hunseen), ih hnodup]
    intro s hs hmem
    rcases List.mem_cons.mp hmem with heq | hmem
    · exact hfirst (heq ▸ List.mem_map_of_mem hs)
    · exact hnew s (List.mem_cons_of_mem first hs) hmem

/-- Without a repeated label, all of the first suggestions are kept. -/
theorem distinct_append_of_nodup {items rest : List Suggestion} (h : (labels items).Nodup) :
    Suggestion.distinct (items ++ rest) =
      items ++ Suggestion.distinctFrom (labels items) rest := by
  rw [Suggestion.distinct, distinctFrom_append, List.append_nil,
    distinctFrom_of_nodup h fun _ _ => List.not_mem_nil]

/-- Of the suggestions with a label, the first one is kept. -/
theorem filter_label_distinctFrom {label : String} {seen : List String} (items : List Suggestion)
    (hnew : label ∉ seen) :
    (Suggestion.distinctFrom seen items).filter (·.label = label) =
      (items.find? (·.label = label)).toList := by
  induction items generalizing seen with
  | nil => rfl
  | cons first rest ih =>
    by_cases hlabel : first.label = label
    · have hfirst : first.label ∉ seen := hlabel ▸ hnew
      have hrest : (Suggestion.distinctFrom (first.label :: seen) rest).filter
          (·.label = label) = [] := by
        refine List.filter_eq_nil_iff.mpr fun s hs => ?_
        have hs := (mem_labels_distinctFrom.mp (List.mem_map_of_mem hs)).2
        rw [List.mem_cons, not_or, hlabel] at hs
        simpa using hs.1
      rw [Suggestion.distinctFrom, if_neg (by simpa using hfirst),
        List.filter_cons_of_pos (by simpa using hlabel), hrest,
        List.find?_cons_of_pos (by simpa using hlabel)]
      rfl
    · rw [Suggestion.distinctFrom, List.find?_cons_of_neg (by simpa using hlabel)]
      split
      · exact ih hnew
      · rw [List.filter_cons_of_neg (by simpa using hlabel)]
        exact ih fun hmem => (List.mem_cons.mp hmem).elim (fun heq => hlabel heq.symm) hnew

/-! ### Suggestions that insert their labels -/

/-- A suggestion inserts its label and is not a variable. -/
structure Ordinary (s : Suggestion) : Prop where
  newText : s.newText = s.label
  kind : s.kind ≠ .variable

theorem ordinary_of_mem_typeItem? {settings : Settings} {range : ByteRange} {T : TokenType}
    {s : Suggestion} (h : s ∈ typeItem? settings range T) : Ordinary s := by
  rw [(typeItem?_eq_some_iff.mp h).2.2]
  refine ⟨rfl, ?_⟩
  show T.itemKind ≠ _
  unfold TokenType.itemKind
  split <;> decide

theorem ordinary_of_mem_candidateItems {settings : Settings} {v : Vocabulary} {range : ByteRange}
    {candidates : List Grammar.Candidate} {s : Suggestion}
    (h : s ∈ candidateItems settings v range candidates) : Ordinary s := by
  obtain ⟨c, -, h⟩ := List.mem_flatMap.mp h
  unfold typeItems at h
  split at h
  · split at h
    · cases h
    · obtain ⟨T, -, h⟩ := List.mem_filterMap.mp h
      exact ordinary_of_mem_typeItem? h
  · exact ordinary_of_mem_typeItem? (Option.mem_toList.mp h)

theorem ordinary_of_mem_items {namespaces : Namespaces} {bindings : List Binding} {s : Suggestion}
    (h : s ∈ Binding.items namespaces bindings) : Ordinary s := by
  rcases List.mem_append.mp h with h | h
  · obtain ⟨b, -, rfl⟩ := List.mem_map.mp h
    exact ⟨rfl, nofun⟩
  · obtain ⟨b, -, h⟩ := List.mem_filterMap.mp h
    obtain ⟨short, -, rfl⟩ := Option.map_eq_some_iff.mp h
    exact ⟨rfl, nofun⟩

end Completion

namespace Sparql
open Completion Grammar

/-! ### Names of the document -/

/-- First occurrences stand in the order of the list. -/
theorem pairwise_idxOf_eraseDups (names : List String) :
    names.eraseDups.Pairwise fun a b => names.idxOf a < names.idxOf b := by
  induction names using List.reverseRecOn with
  | nil => exact .nil
  | append_singleton names last ih =>
    have hkept : names.eraseDups.Pairwise fun a b =>
        (names ++ [last]).idxOf a < (names ++ [last]).idxOf b := by
      refine ih.imp_of_mem fun ha hb hlt => ?_
      rwa [List.idxOf_append_of_mem (List.mem_eraseDups.mp ha),
        List.idxOf_append_of_mem (List.mem_eraseDups.mp hb)]
    rw [List.eraseDups_append]
    by_cases hlast : last ∈ names
    · simpa [List.removeAll, hlast] using hkept
    · have hnew : ([last].removeAll names).eraseDups = [last] := by
        simp [List.removeAll, hlast, List.eraseDups_cons]
      rw [hnew, List.pairwise_append]
      refine ⟨hkept, List.pairwise_singleton _ _, fun a ha b hb => ?_⟩
      obtain rfl := List.mem_singleton.mp hb
      have ha := List.mem_eraseDups.mp ha
      rw [List.idxOf_append_of_mem ha, List.idxOf_append_of_notMem hlast]
      exact Nat.lt_of_lt_of_le (List.idxOf_lt_length_of_mem ha) (Nat.le_add_right _ _)

theorem mem_images {tokens : List Token} {names : List String} {image : String} :
    image ∈ images tokens names ↔ ∃ t ∈ tokens, t.name ∈ names ∧ t.image = image := by
  simp [images, List.mem_eraseDups, and_assoc]

/-- The images of the variables, in the order of the document. -/
def variableImages (tokens : List Token) : List String :=
  (tokens.filter fun t => t.name = "VAR1" ∨ t.name = "VAR2").map Token.image

/-- The suggestion of a variable. It ranks first where a variable could come next. -/
def variableSuggestion (candidates : List Candidate) (range : ByteRange) (image : String) :
    Suggestion :=
  { Suggestion.ofLabel image .variable range with
    sortText :=
      if ∃ c ∈ candidates, c.type.name = "VAR1" ∨ c.type.name = "VAR2" then some ("1" ++ image)
      else none }

/-- A prefix of the document or of the database is spelled like the word. -/
def NamesPrefix (tokens : List Token) (namespaces : Namespaces) (word : String) : Prop :=
  (∃ t ∈ tokens, t.name = "PNAME_NS" ∧ t.image = word ++ ":") ∨ word ∈ namespaces.aliases

instance (tokens : List Token) (namespaces : Namespaces) (word : String) :
    Decidable (NamesPrefix tokens namespaces word) :=
  inferInstanceAs (Decidable (_ ∨ _))

section
variable {c : Context} {s : Suggestion}

theorem variableItems_eq :
    variableItems c = (variableImages c.otherTokens).eraseDups.map
      (variableSuggestion c.candidates c.defaultRange) := by
  have himages : images c.otherTokens ["VAR1", "VAR2"] =
      (variableImages c.otherTokens).eraseDups := by
    simp [images, variableImages]
  have hexpected : (c.expects "VAR1" || c.expects "VAR2") =
      decide (∃ d ∈ c.candidates, d.type.name = "VAR1" ∨ d.type.name = "VAR2") := by
    rw [Bool.eq_iff_iff]
    simp [Context.expects, and_or_left, exists_or]
  simp only [variableItems, himages, hexpected, rankIf, decide_eq_true_eq]
  rfl

theorem nodup_labels_variableItems : (labels (variableItems c)).Nodup := by
  have hlabels : labels (variableItems c) = (variableImages c.otherTokens).eraseDups := by
    rw [variableItems_eq, labels, List.map_map]
    exact List.map_id _
  rw [hlabels]
  exact (pairwise_idxOf_eraseDups _).imp fun hlt heq => (heq ▸ hlt).ne rfl

theorem aliasOf_append (word : String) : aliasOf (word ++ ":") = word := by
  simp [aliasOf]

theorem mem_labels_prefixItems {word : String}
    (h : NamesPrefix c.otherTokens c.data.namespaces word) : word ∈ labels (prefixItems c) := by
  have hknown : word ++ ":" ∈
      images c.otherTokens ["PNAME_NS"] ++ c.data.namespaces.aliases.map (· ++ ":") := by
    rcases h with ⟨t, ht, hname, himage⟩ | h
    · exact List.mem_append_left _ (mem_images.mpr ⟨t, ht, by simp [hname], himage⟩)
    · exact List.mem_append_right _ (List.mem_map_of_mem h)
  refine List.mem_map.mpr ⟨_, List.mem_map_of_mem hknown, ?_⟩
  exact aliasOf_append word

/-- A prefix is inserted with its colon. Only where that is not its last character, as where the
colon is written as an escape, the image is inserted as it is shown. -/
theorem newText_of_mem_prefixItems (h : s ∈ prefixItems c) :
    (NamesPrefix c.otherTokens c.data.namespaces s.label ∧ s.newText = s.label ++ ":") ∨
      (s.newText = s.label ∧ ∃ t ∈ c.otherTokens, t.name = "PNAME_NS" ∧ t.image = s.label) := by
  obtain ⟨image, hknown, rfl⟩ := List.mem_map.mp h
  show (NamesPrefix _ _ (aliasOf image) ∧ image = aliasOf image ++ ":") ∨
    (image = aliasOf image ∧ ∃ t ∈ c.otherTokens, t.name = "PNAME_NS" ∧ t.image = aliasOf image)
  rcases List.mem_append.mp hknown with hknown | hknown
  · obtain ⟨t, ht, hname, rfl⟩ := mem_images.mp hknown
    have hname : t.name = "PNAME_NS" := by simpa using hname
    by_cases hcolon : t.image.toList.getLast? = some ':'
    · have halias : t.image = aliasOf t.image ++ ":" := by
        rw [aliasOf, if_pos hcolon, ← String.toList_inj, String.toList_append,
          String.toList_ofList]
        exact (List.dropLast_append_getLast? ':' hcolon).symm
      exact .inl ⟨.inl ⟨t, ht, hname, halias⟩, halias⟩
    · have halias : t.image = aliasOf t.image := (if_neg hcolon).symm
      exact .inr ⟨halias, t, ht, hname, halias⟩
  · obtain ⟨word, hword, rfl⟩ := List.mem_map.mp hknown
    rw [aliasOf_append]
    exact .inl ⟨.inr hword, rfl⟩

theorem kind_of_mem_prefixItems (h : s ∈ prefixItems c) : s.kind ≠ .variable := by
  obtain ⟨image, -, rfl⟩ := List.mem_map.mp h
  exact nofun

theorem ordinary_of_mem_nameItems {name : String} (h : s ∈ nameItems c name) : Ordinary s := by
  obtain ⟨image, -, rfl⟩ := List.mem_map.mp h
  exact ⟨rfl, nofun⟩

theorem ordinary_of_mem_databaseItems (h : s ∈ databaseItems c) : Ordinary s := by
  have hplaced {items : List Suggestion} (hitems : ∀ s ∈ items, Ordinary s)
      (hs : s ∈ atDefaultRange c items) : Ordinary s := by
    obtain ⟨u, hu, rfl⟩ := List.mem_map.mp hs
    exact ⟨(hitems u hu).newText, (hitems u hu).kind⟩
  rcases List.mem_append.mp h with h | h
  · split at h
    · refine hplaced (fun s hs => ?_) h
      exact ordinary_of_mem_items (c.data.relationshipItems_eq ▸ hs)
    · cases h
  · split at h
    · refine hplaced (fun s hs => ?_) h
      exact ordinary_of_mem_items (c.data.typeItems_eq ▸ hs)
    · cases h

end

/-! ### Marks of names -/

/-- No keyword has any of these characters. -/
def marks : List Char := ['\\', '?', '$', ':']

/-- A keyword has no mark and is not excluded. -/
def isMarkless (T : TokenType) : Bool :=
  match T.pattern with
  | .keyword text =>
    !isExcluded Language.sparql.completion T &&
      ([' '].intercalate (Text.words text.toList)).all fun c => !marks.contains c
  | _ => true

/-- The expressions of variables and of prefixes. -/
def markedRegex? (name : String) : Option Text.Regex :=
  match name with
  | "VAR1" => some (variableRegex '?')
  | "VAR2" => some (variableRegex '$')
  | "PNAME_NS" => some Rdf.namespaceRegex
  | _ => none

/-- What inspection shows of the types. -/
theorem marks_of_types : ∀ T ∈ (vocabulary .stardog).types,
    isMarkless T = true ∧ ∀ r ∈ markedRegex? T.name, T.pattern = .regex r := by
  decide +kernel

theorem mem_stardog {dialect : Dialect} {T : TokenType} (hT : T ∈ (vocabulary dialect).types) :
    T ∈ (vocabulary .stardog).types := by
  cases dialect with
  | w3 => exact w3_sublist.subset hT
  | stardog => exact hT

theorem toList_normalizeKeyword (text : String) :
    (normalizeKeyword text).toList = [' '].intercalate (Text.words text.toList) := by
  rw [normalizeKeyword, String.toList_intercalate, List.map_map]
  simp [Function.comp_def]

theorem not_marked_of_keyword {dialect : Dialect} {T : TokenType} {text : String}
    (hT : T ∈ (vocabulary dialect).types) (htext : T.pattern = .keyword text) :
    isExcluded Language.sparql.completion T = false ∧
      ∀ mark ∈ marks, mark ∉ (normalizeKeyword text).toList := by
  have h := (marks_of_types T (mem_stardog hT)).1
  simp only [isMarkless, htext, Bool.and_eq_true, List.all_eq_true] at h
  refine ⟨by simpa using h.1, fun mark hmark hmem => ?_⟩
  rw [toList_normalizeKeyword] at hmem
  have hnot := h.2 mark hmem
  simp [hmark] at hnot

theorem exists_mark_of_accepts {name : String} {r : Text.Regex} (hr : r ∈ markedRegex? name)
    {u : List Char} (hu : r.expr.Accepts u) : ∃ mark ∈ marks, mark ∈ u := by
  have hvariable {mark : Char} (hu : (variableRegex mark).expr.Accepts u) : mark ∈ u := by
    cases hu with
    | seq hfirst _ =>
      rw [Rdf.accepts_char.mp hfirst]
      exact List.mem_append_left _ (List.mem_singleton_self _)
  unfold markedRegex? at hr
  split at hr
  · obtain rfl := Option.some.inj hr
    exact ⟨'?', by decide, hvariable hu⟩
  · obtain rfl := Option.some.inj hr
    exact ⟨'$', by decide, hvariable hu⟩
  · obtain rfl := Option.some.inj hr
    exact ⟨':', by decide, Rdf.colon_of_accepts (.inr rfl) hu⟩
  · cases hr

/-- The image of a variable or of a prefix has a mark, at least that of an escape. -/
theorem exists_mark_of_mem {dialect : Dialect} {raw : List Char} {t : Token}
    (ht : t ∈ ((frontend dialect).parseDocument raw).tokens)
    (hname : t.name ∈ ["VAR1", "VAR2", "PNAME_NS"]) :
    ∃ mark ∈ marks, mark ∈ t.image.toList := by
  by_cases hescape : '\\' ∈ t.image.toList
  · exact ⟨'\\', by decide, hescape⟩
  · obtain ⟨r, hr⟩ : ∃ r, r ∈ markedRegex? t.name := by
      simp only [List.mem_cons, List.not_mem_nil, or_false] at hname
      rcases hname with hname | hname | hname <;> exact ⟨_, by rw [hname]; rfl⟩
    have hknown : t.name ≠ Vocabulary.unknownName := by
      intro heq
      rw [heq] at hname
      revert hname
      decide
    have htype : t.type ∈ (vocabulary dialect).types :=
      (frontend dialect).type_of_mem_parseDocument rfl t ht
    have hpattern := (marks_of_types t.type (mem_stardog htype)).2 r hr
    exact exists_mark_of_accepts hr
      ((frontend dialect).accepts_image rfl rfl ht hpattern hknown hescape)

/-- What variables and prefixes insert has a mark. -/
theorem exists_mark_of_mem_leading {dialect : Dialect} {raw : List Char} {c : Context}
    (htokens : ∀ t ∈ c.otherTokens, t ∈ ((frontend dialect).parseDocument raw).tokens)
    {s : Suggestion} (hs : s ∈ variableItems c ++ prefixItems c) :
    ∃ mark ∈ marks, mark ∈ s.newText.toList := by
  rcases List.mem_append.mp hs with hs | hs
  · obtain ⟨image, himage, rfl⟩ := List.mem_map.mp hs
    obtain ⟨t, ht, hname, rfl⟩ := mem_images.mp himage
    exact exists_mark_of_mem (htokens t ht) (List.mem_append_left ["PNAME_NS"] hname)
  · rcases newText_of_mem_prefixItems hs with ⟨-, htext⟩ | ⟨htext, t, ht, hname, himage⟩
    · exact ⟨':', by decide, by simp [htext]⟩
    · rw [htext, ← himage]
      exact exists_mark_of_mem (htokens t ht) (by simp [hname])

/-- Of variables and prefixes, a word without marks is the label of a prefix, if of any, and this
one is inserted with its colon. -/
theorem find?_leading {dialect : Dialect} {raw : List Char} {c : Context} {word : String}
    (htokens : ∀ t ∈ c.otherTokens, t ∈ ((frontend dialect).parseDocument raw).tokens)
    (hmarkless : ∀ mark ∈ marks, mark ∉ word.toList)
    (hnames : NamesPrefix c.otherTokens c.data.namespaces word) :
    ∃ s, (variableItems c ++ prefixItems c).find? (·.label = word) = some s ∧
      s.newText = word ++ ":" := by
  obtain ⟨u, hu, hlabel⟩ := List.mem_map.mp (mem_labels_prefixItems hnames)
  obtain ⟨s, hs⟩ : ∃ s, (variableItems c ++ prefixItems c).find? (·.label = word) = some s := by
    rw [← Option.isSome_iff_exists, List.find?_isSome]
    exact ⟨u, List.mem_append_right _ hu, by simpa using hlabel⟩
  have hmem : s ∈ variableItems c ++ prefixItems c := List.mem_of_find?_eq_some hs
  have hword : s.label = word := by simpa using List.find?_some hs
  obtain ⟨mark, hmark, hin⟩ := exists_mark_of_mem_leading htokens hmem
  have hne : s.newText ≠ s.label := fun hsame => hmarkless mark hmark (hword ▸ hsame ▸ hin)
  refine ⟨s, hs, ?_⟩
  rcases List.mem_append.mp hmem with hvariable | hprefix
  · obtain ⟨image, -, rfl⟩ := List.mem_map.mp hvariable
    exact absurd rfl hne
  · rcases newText_of_mem_prefixItems hprefix with ⟨-, htext⟩ | ⟨hsame, -⟩
    · rw [htext, hword]
    · exact absurd hsame hne

/-! ### Completion -/

/-- What stands behind the variables and the prefixes. -/
def ordinaryItems (c : Context) (v : Vocabulary) : List Suggestion :=
  nameItems c "PNAME_LN" ++ nameItems c "IRIREF" ++
    candidateItems Language.sparql.completion v c.defaultRange c.candidates ++ databaseItems c

theorem ordinary_of_mem_ordinaryItems {c : Context} {v : Vocabulary} :
    ∀ s ∈ ordinaryItems c v, Ordinary s := by
  intro s hs
  simp only [ordinaryItems, List.mem_append, or_assoc] at hs
  rcases hs with hs | hs | hs | hs
  · exact ordinary_of_mem_nameItems hs
  · exact ordinary_of_mem_nameItems hs
  · exact ordinary_of_mem_candidateItems hs
  · exact ordinary_of_mem_databaseItems hs

/-- Every keyword among the candidates has a suggestion with its text. -/
theorem mem_labels_ordinaryItems {c : Context} {v : Vocabulary} {keyword : Candidate}
    {text : String} (hkeyword : keyword ∈ c.candidates)
    (htext : keyword.type.pattern = .keyword text)
    (hallowed : isExcluded Language.sparql.completion keyword.type = false) :
    normalizeKeyword text ∈ labels (ordinaryItems c v) := by
  let item : Suggestion :=
    .ofLabel (normalizeKeyword text) .keyword (candidateRange c.defaultRange keyword)
  have hitem : item ∈ candidateItems Language.sparql.completion v c.defaultRange c.candidates := by
    refine List.mem_flatMap.mpr ⟨keyword, hkeyword, ?_⟩
    simp [typeItems, typeItem?, htext, hallowed, item]
  have hmem : item ∈ ordinaryItems c v :=
    List.mem_append_left _ (List.mem_append_right _ hitem)
  exact List.mem_map_of_mem hmem

/-- Candidates are of types of the vocabulary. -/
theorem type_mem_of_mem_candidatesAt {p : Profile} (hp : Progressive p.frontend.grammar)
    {tokens : List Token} {cursor : Cursor} :
    ∀ c ∈ candidatesAt p tokens cursor, c.type ∈ p.frontend.vocabulary.types := by
  intro c hc
  rcases List.mem_append.mp hc with hc | hc
  · exact (isNote_of_mem_assist hp c hc).1
  · unfold longerWordsAt at hc
    split at hc
    · split at hc
      · obtain ⟨T, hT, rfl⟩ := List.mem_map.mp hc
        exact List.mem_of_mem_filter hT
      · cases hc
    · cases hc

/-- Where a token is touched, there is a cursor at it. -/
theorem exists_cursor {tokens : List Token} {place i : Nat}
    (h : tokenIndexAt? tokens place = some i) :
    ∃ t, tokens[i]? = some t ∧ Cursor.locate? Language.sparql.completion tokens place =
      some (Cursor.atToken Language.sparql.completion tokens place i t) := by
  obtain ⟨hi, -⟩ := List.findIdx?_eq_some_iff_getElem.mp h
  refine ⟨tokens[i], List.getElem?_eq_getElem hi, ?_⟩
  simp only [Cursor.locate?, h, List.getElem?_eq_getElem hi, Option.map_some]

/-- Where a token is touched, what is suggested are variables, prefixes and all others. -/
theorem gather_eq (options : Options) {raw : List Char} {place : Nat} (data : Data)
    {tokens : List Token} {cursor : Cursor}
    (hcursor : Cursor.locate? Language.sparql.completion tokens place = some cursor) :
    let p := Language.sparql.profile options
    let c : Context := ⟨tokens, place, cursor, candidatesAt p tokens cursor, data⟩
    p.completer.gather raw tokens place data cursor =
      variableItems c ++ prefixItems c ++ ordinaryItems c p.frontend.vocabulary := by
  intro p c
  obtain ⟨i, t, -, rfl⟩ := exists_token_of_locate? hcursor
  show (augment c).leading ++ narrowed none (candidateItems Language.sparql.completion
      p.frontend.vocabulary c.defaultRange c.candidates) ++ (augment c).trailing = _
  simp only [augment, ordinaryItems, narrowed, List.append_assoc]

/-- Each label once. -/
theorem complete_eq_distinct (options : Options) {raw : List Char} {offset : Nat} (data : Data)
    {tokens : List Token} {cursor : Cursor}
    (hcursor : Cursor.locate? Language.sparql.completion tokens
      (min offset (Text.bytes raw)) = some cursor) :
    let p := Language.sparql.profile options
    let c : Context :=
      ⟨tokens, min offset (Text.bytes raw), cursor, candidatesAt p tokens cursor, data⟩
    p.complete raw tokens offset data =
      (Suggestion.distinct
        (variableItems c ++ prefixItems c ++ ordinaryItems c p.frontend.vocabulary)).map
          fun s => { s with replace := s.replace.clamp (Text.bytes raw) } := by
  intro p c
  rw [← gather_eq options data hcursor]
  exact p.completer.complete_of_locate? data hcursor

/-- **Variables are suggested first: the images of all variables but the one that is typed, each
once, by first occurrence.** They rank first where a variable could come next. No other suggestion
is a variable. -/
theorem variables_suggested (options : Options) (raw : List Char) (offset i : Nat) (data : Data) :
    let p := Language.sparql.profile options
    let tokens := (p.frontend.parseDocument raw).tokens
    let place := min offset (Text.bytes raw)
    let others := variableImages (tokens.eraseIdx i)
    tokenIndexAt? tokens place = some i →
      ∃ (cursor : Cursor) (images : List String) (rest : List Suggestion),
        Cursor.locate? p.completion tokens place = some cursor ∧
        images.Pairwise (fun a b => others.idxOf a < others.idxOf b) ∧
        (∀ image, image ∈ images ↔ image ∈ others) ∧
        p.complete raw tokens offset data =
          images.map (variableSuggestion (candidatesAt p tokens cursor) cursor.range) ++ rest ∧
        ∀ s ∈ rest, s.kind ≠ .variable := by
  intro p tokens place others hindex
  obtain ⟨t, ht, hcursor⟩ := exists_cursor hindex
  let cursor := Cursor.atToken Language.sparql.completion tokens place i t
  let c : Context := ⟨tokens, place, cursor, candidatesAt p tokens cursor, data⟩
  let clamp (s : Suggestion) : Suggestion :=
    { s with replace := s.replace.clamp (Text.bytes raw) }
  have hrange : cursor.range.clamp (Text.bytes raw) = cursor.range := by
    have hlies : (p.frontend.parseDocument raw).LiesIn raw :=
      parseDocument_liesIn .sparql options raw
    obtain ⟨hstart, hstop⟩ := Cursor.touched hcursor (t := t) ht
    exact (Cursor.surrounds_atToken hlies ht hstart hstop).clamp_eq
  have hkept : (variableItems c).map clamp = variableItems c := by
    rw [variableItems_eq, List.map_map]
    refine List.map_congr_left fun image _ => ?_
    show clamp (variableSuggestion c.candidates cursor.range image) = _
    simp only [clamp, variableSuggestion, Suggestion.ofLabel, hrange]
    rfl
  refine ⟨cursor, others.eraseDups,
    (Suggestion.distinctFrom (labels (variableItems c))
      (prefixItems c ++ ordinaryItems c p.frontend.vocabulary)).map clamp,
    hcursor, pairwise_idxOf_eraseDups others, fun _ => List.mem_eraseDups, ?_, fun s hs => ?_⟩
  · rw [complete_eq_distinct options data hcursor, List.append_assoc,
      distinct_append_of_nodup nodup_labels_variableItems, List.map_append]
    show (variableItems c).map clamp ++ _ = _
    rw [hkept, variableItems_eq]
    rfl
  · obtain ⟨u, hu, rfl⟩ := List.mem_map.mp hs
    show u.kind ≠ .variable
    rcases List.mem_append.mp (mem_of_mem_distinctFrom hu) with hu | hu
    · exact kind_of_mem_prefixItems hu
    · exact (ordinary_of_mem_ordinaryItems u hu).kind

/-- The variable that is typed is suggested if it occurs elsewhere. -/
theorem variables_suggested_typed :
    let p := Language.sparql.profile {}
    let raw := "select*\x7b?b ?a ?b".toList
    let tokens := (p.frontend.parseDocument raw).tokens
    let others := variableImages (tokens.eraseIdx 5)
    tokenIndexAt? tokens 16 = some 5 ∧ others = ["?b", "?a"] ∧
      ∃ (cursor : Cursor) (images : List String) (rest : List Suggestion),
        Cursor.locate? p.completion tokens 16 = some cursor ∧
        images.Pairwise (fun a b => others.idxOf a < others.idxOf b) ∧
        (∀ image, image ∈ images ↔ image ∈ others) ∧
        p.complete raw tokens 16 {} =
          images.map (variableSuggestion (candidatesAt p tokens cursor) cursor.range) ++ rest ∧
        ∀ s ∈ rest, s.kind ≠ .variable := by
  intro p raw tokens others
  have hplace : tokenIndexAt? tokens 16 = some 5 ∧ others = ["?b", "?a"] := by decide +kernel
  exact ⟨hplace.1, hplace.2, variables_suggested {} raw 16 5 {} hplace.1⟩

/-! ### Keywords -/

section
variable {c : Context} {v : Vocabulary} {word : String}

/-- Where a prefix is spelled like the word, it has taken the label of all that would insert it. -/
theorem newText_ne_of_namesPrefix {dialect : Dialect} {raw : List Char}
    (htokens : ∀ t ∈ c.otherTokens, t ∈ ((frontend dialect).parseDocument raw).tokens)
    (hmarkless : ∀ mark ∈ marks, mark ∉ word.toList)
    (hnames : NamesPrefix c.otherTokens c.data.namespaces word) :
    ∀ s ∈ Suggestion.distinct (variableItems c ++ prefixItems c ++ ordinaryItems c v),
      s.newText ≠ word := by
  intro s hs hword
  rw [Suggestion.distinct, distinctFrom_append] at hs
  rcases List.mem_append.mp hs with hs | hs
  · obtain ⟨mark, hmark, hmem⟩ := exists_mark_of_mem_leading htokens (mem_of_mem_distinctFrom hs)
    exact hmarkless mark hmark (hword ▸ hmem)
  · have hlabel : s.label = word :=
      (ordinary_of_mem_ordinaryItems s (mem_of_mem_distinctFrom hs)).newText.symm.trans hword
    have hnew := (mem_labels_distinctFrom.mp (List.mem_map_of_mem hs)).2
    rw [hlabel, List.append_nil] at hnew
    exact hnew (mem_labels_append.mpr (.inr (mem_labels_prefixItems hnames)))

/-- Where no prefix is spelled like the word, what has it as its label inserts it. -/
theorem exists_newText_of_label (hlabel : word ∈ labels (ordinaryItems c v))
    (hfree : ¬NamesPrefix c.otherTokens c.data.namespaces word) :
    ∃ s ∈ Suggestion.distinct (variableItems c ++ prefixItems c ++ ordinaryItems c v),
      s.newText = word := by
  have hlabel : word ∈ labels
      (Suggestion.distinct (variableItems c ++ prefixItems c ++ ordinaryItems c v)) :=
    mem_labels_distinct.mpr (mem_labels_append.mpr (.inr hlabel))
  obtain ⟨s, hs, hlabel⟩ := List.mem_map.mp hlabel
  refine ⟨s, hs, ?_⟩
  have hitem := mem_of_mem_distinctFrom hs
  rw [List.append_assoc, List.mem_append, List.mem_append] at hitem
  rcases hitem with hvariable | hprefix | hordinary
  · obtain ⟨image, -, rfl⟩ := List.mem_map.mp hvariable
    exact hlabel
  · rcases newText_of_mem_prefixItems hprefix with ⟨hnames, -⟩ | ⟨hsame, -⟩
    · exact absurd (hlabel ▸ hnames) hfree
    · exact hsame.trans hlabel
  · exact (ordinary_of_mem_ordinaryItems s hordinary).newText.trans hlabel

/-- Something inserts the word exactly where no prefix is spelled like it. -/
theorem exists_newText_iff {dialect : Dialect} {raw : List Char}
    (htokens : ∀ t ∈ c.otherTokens, t ∈ ((frontend dialect).parseDocument raw).tokens)
    (hmarkless : ∀ mark ∈ marks, mark ∉ word.toList)
    (hlabel : word ∈ labels (ordinaryItems c v)) :
    (∃ s ∈ Suggestion.distinct (variableItems c ++ prefixItems c ++ ordinaryItems c v),
      s.newText = word) ↔ ¬NamesPrefix c.otherTokens c.data.namespaces word := by
  constructor
  · intro hinserted hnames
    obtain ⟨s, hs, hword⟩ := hinserted
    exact newText_ne_of_namesPrefix htokens hmarkless hnames s hs hword
  · exact exists_newText_of_label hlabel

/-- Where a prefix is, the first suggestion with its label is that of the prefix, and the only one
that is kept. -/
theorem kept_of_namesPrefix {dialect : Dialect} {raw : List Char}
    (htokens : ∀ t ∈ c.otherTokens, t ∈ ((frontend dialect).parseDocument raw).tokens)
    (hmarkless : ∀ mark ∈ marks, mark ∉ word.toList)
    (hnames : NamesPrefix c.otherTokens c.data.namespaces word) :
    let gathered := variableItems c ++ prefixItems c ++ ordinaryItems c v
    ∃ s, gathered.find? (·.label = word) = some s ∧ s.newText = word ++ ":" ∧
      (Suggestion.distinct gathered).filter (·.label = word) = [s] := by
  intro gathered
  obtain ⟨s, hs, htext⟩ := find?_leading htokens hmarkless hnames
  have hfirst : gathered.find? (·.label = word) = some s := by
    rw [List.find?_append, hs]
    rfl
  refine ⟨s, hfirst, htext, ?_⟩
  rw [Suggestion.distinct, filter_label_distinctFrom gathered (List.not_mem_nil (a := word)), hfirst]
  rfl

end

/-- **A keyword that could come next is suggested, unless another prefix of the document or one of
the database is spelled like it.** The first suggestion with the label of the keyword is then that
of the prefix, which is inserted with a colon; it is the only one with this label that is kept. -/
theorem keyword_suggested_iff (options : Options) (raw : List Char) (offset i : Nat) (data : Data)
    (keyword : Candidate) (text : String) :
    let p := Language.sparql.profile options
    let tokens := (p.frontend.parseDocument raw).tokens
    let place := min offset (Text.bytes raw)
    let word := normalizeKeyword text
    let items := p.complete raw tokens offset data
    tokenIndexAt? tokens place = some i →
      ∃ cursor, Cursor.locate? p.completion tokens place = some cursor ∧
        (keyword ∈ candidatesAt p tokens cursor → keyword.type.pattern = .keyword text →
          ((∃ s ∈ items, s.newText = word) ↔
            ¬NamesPrefix (tokens.eraseIdx i) data.namespaces word) ∧
          (NamesPrefix (tokens.eraseIdx i) data.namespaces word →
            ∃ s, (p.completer.gather raw tokens place data cursor).find? (·.label = word) = some s ∧
              s.newText = word ++ ":" ∧
              items.filter (·.label = word) =
                [{ s with replace := s.replace.clamp (Text.bytes raw) }])) := by
  intro p tokens place word items hindex
  obtain ⟨t, ht, hcursor⟩ := exists_cursor hindex
  let cursor := Cursor.atToken Language.sparql.completion tokens place i t
  let c : Context := ⟨tokens, place, cursor, candidatesAt p tokens cursor, data⟩
  refine ⟨cursor, hcursor, fun hkeyword htext => ?_⟩
  have hT : keyword.type ∈ (vocabulary options.sparqlDialect).types :=
    type_mem_of_mem_candidatesAt (Language.sparql.lawful options).progressive keyword hkeyword
  obtain ⟨hallowed, hmarkless⟩ := not_marked_of_keyword hT htext
  have hothers : ∀ t ∈ c.otherTokens, t ∈ tokens := fun t ht => List.mem_of_mem_eraseIdx ht
  have hgather : p.completer.gather raw tokens place data cursor =
      variableItems c ++ prefixItems c ++ ordinaryItems c p.frontend.vocabulary :=
    gather_eq options data hcursor
  have hitems : items = (Suggestion.distinct (p.completer.gather raw tokens place data cursor)).map
      fun s => { s with replace := s.replace.clamp (Text.bytes raw) } :=
    p.completer.complete_of_locate? data hcursor
  rw [hitems]
  refine ⟨?_, fun hnames => ?_⟩
  · have hlabel : word ∈ labels (ordinaryItems c p.frontend.vocabulary) :=
      mem_labels_ordinaryItems hkeyword htext hallowed
    rw [hgather]
    simp only [List.mem_map, exists_exists_and_eq_and]
    exact exists_newText_iff hothers hmarkless hlabel
  · obtain ⟨s, hfirst, hcolon, hkept⟩ := kept_of_namesPrefix hothers hmarkless hnames
    rw [← hgather] at hfirst hkept
    refine ⟨s, hfirst, hcolon, ?_⟩
    rw [List.filter_map]
    exact congrArg (List.map _) hkept

/-- Behind a subject, `a` is suggested, unless the database has a prefix of that name. -/
theorem keyword_suggested_verb :
    let p := Language.sparql.profile {}
    let raw := "ask\x7b?s k".toList
    let tokens := (p.frontend.parseDocument raw).tokens
    let cursor : Cursor := ⟨some 3, 3, ⟨7, 8⟩, none⟩
    let data := Data.empty.apply { namespaceRows := some ["a=urn:a"] }
    tokenIndexAt? tokens 8 = some 3 ∧
      Cursor.locate? p.completion tokens 8 = some cursor ∧
      (∃ keyword ∈ candidatesAt p tokens cursor, keyword.type.pattern = .keyword "a") ∧
      (∃ s ∈ p.complete raw tokens 8 {}, s.newText = normalizeKeyword "a") ∧
      ∃ s, (p.completer.gather raw tokens 8 data cursor).find? (·.label = normalizeKeyword "a") =
          some s ∧
        s.newText = normalizeKeyword "a" ++ ":" ∧
        (p.complete raw tokens 8 data).filter (·.label = normalizeKeyword "a") =
          [{ s with replace := s.replace.clamp 8 }] := by
  intro p raw tokens cursor data
  have hplace : tokenIndexAt? tokens 8 = some 3 ∧
      Cursor.locate? p.completion tokens 8 = some cursor ∧
      ¬NamesPrefix (tokens.eraseIdx 3) {} (normalizeKeyword "a") ∧
      ∃ keyword ∈ candidatesAt p tokens cursor, keyword.type.pattern = .keyword "a" := by
    decide +kernel
  obtain ⟨hindex, hcursor, hfree, keyword, hkeyword, htext⟩ := hplace
  have hnames : NamesPrefix (tokens.eraseIdx 3) data.namespaces (normalizeKeyword "a") :=
    .inr (by decide)
  obtain ⟨cursor', hcursor', hiff⟩ := keyword_suggested_iff {} raw 8 3 {} keyword "a" hindex
  obtain rfl : cursor = cursor' := Option.some.inj (hcursor.symm.trans hcursor')
  obtain ⟨cursor', hcursor', htaken⟩ := keyword_suggested_iff {} raw 8 3 data keyword "a" hindex
  obtain rfl : cursor = cursor' := Option.some.inj (hcursor.symm.trans hcursor')
  exact ⟨hindex, hcursor, ⟨keyword, hkeyword, htext⟩, (hiff hkeyword htext).1.mpr hfree,
    (htaken hkeyword htext).2 hnames⟩

/-- A document that declares the prefix `a` is not offered the keyword. -/
theorem keyword_taken_by_prefix :
    let p := Language.sparql.profile {}
    let raw := "prefix a:<b> ask\x7b?s k".toList
    let tokens := (p.frontend.parseDocument raw).tokens
    let cursor : Cursor := ⟨some 6, 6, ⟨20, 21⟩, none⟩
    Cursor.locate? p.completion tokens 21 = some cursor ∧
      (∃ keyword ∈ candidatesAt p tokens cursor, keyword.type.pattern = .keyword "a") ∧
      normalizeKeyword "a" = "a" ∧ ∀ s ∈ p.complete raw tokens 21 {}, s.newText ≠ "a" := by
  decide +kernel

end Sparql
end GraphLanguages
