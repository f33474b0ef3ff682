import Mathlib.Data.List.Forall2
import Mathlib.Data.Prod.Lex
import GraphLanguages.Proofs.Completion.Edits

/-! What the grammar offers.

A candidate offers its own type, or in place of a category the types of the vocabulary that
belong to it (`Offers`). What it replaces is its own range, or that of the cursor if it has none
(`Replaces`); nothing is asked of the grammar that it comes from. Suggestions are numbered by
candidate and by type in the vocabulary (`placedItems`); the numbers grow from one suggestion to
the next (`pairwise_placedItems`), so the first suggestion with a label, which is the one that is
kept, is the one with the smallest number (`distinctFrom_first`). Narrowing looks at labels only,
as keeping the first one does, so it does not matter which of them is done first
(`distinctFrom_filter`). -/
namespace GraphLanguages

/-- What the suggestion of a type with a text is. -/
def TokenType.itemKind (t : TokenType) : Completion.ItemKind :=
  match t.pattern with
  | .keyword _ => .keyword
  | _ => .enumMember

namespace Completion
open Grammar

/-! ### Offers -/

/-- No category of the type is excluded. -/
def Allowed (settings : Settings) (t : TokenType) : Prop :=
  ∀ category ∈ settings.excluded, category ∉ t.categories

/-- The candidate of a number offers a type: its own, or if it stands for a category the one of
a second number in the vocabulary. -/
inductive Offers (settings : Settings) (v : Vocabulary) (candidates : List Candidate) :
    Nat ×ₗ Nat → Candidate → TokenType → Prop
  | own {i : Nat} {c : Candidate} : candidates[i]? = some c →
      Offers settings v candidates (toLex (i, 0)) c c.type
  | member {i j : Nat} {c : Candidate} {t : TokenType} {category : Category} :
      candidates[i]? = some c → c.type.pattern = .anyOf category → Allowed settings c.type →
      v.types[j]? = some t → category ∈ t.categories →
      Offers settings v candidates (toLex (i, j)) c t

/-- A type that inserts the label is offered at that place. -/
structure OffersLabel (settings : Settings) (v : Vocabulary) (candidates : List Candidate)
    (label : String) (place : Nat ×ₗ Nat) (c : Candidate) (t : TokenType) : Prop where
  offers : Offers settings v candidates place c t
  allowed : Allowed settings t
  text : t.completionText? = some label

/-- The candidate is to replace what is between these offsets. -/
inductive Replaces (usual : ByteRange) (c : Candidate) : (start stop : Nat) → Prop
  | own {start stop : Nat} : c.replace = some (start, stop) → Replaces usual c start stop
  | usual : c.replace = none → Replaces usual c usual.start usual.stop

/-- The suggestion is that of the first type with its label, in place of what the candidate there
replaces in a text of `size` bytes. -/
structure FirstOffer (settings : Settings) (v : Vocabulary) (candidates : List Candidate)
    (size : Nat) (usual : ByteRange) (place : Nat ×ₗ Nat) (s : Suggestion) : Prop where
  made : ∃ c t start stop, OffersLabel settings v candidates s.label place c t ∧
    Replaces usual c start stop ∧ s = .ofLabel s.label t.itemKind
      ⟨min start size, max (min stop size) (min start size)⟩
  first : ∀ place' c t, OffersLabel settings v candidates s.label place' c t → place ≤ place'

theorem replaces_candidateRange (usual : ByteRange) (c : Candidate) :
    Replaces usual c (candidateRange usual c).start (candidateRange usual c).stop := by
  unfold candidateRange
  split
  next hreplace => exact .own hreplace
  next hreplace => exact .usual hreplace

section
variable {settings : Settings} {v : Vocabulary} {candidates : List Candidate} {range : ByteRange}

theorem isExcluded_eq_false_iff {t : TokenType} :
    isExcluded settings t = false ↔ Allowed settings t := by
  simp [isExcluded, Allowed, TokenType.has]

theorem typeItem?_eq_some_iff {t : TokenType} {s : Suggestion} :
    typeItem? settings range t = some s ↔
      Allowed settings t ∧ t.completionText? = some s.label ∧
        s = .ofLabel s.label t.itemKind range := by
  rw [← isExcluded_eq_false_iff, typeItem?, TokenType.completionText?, TokenType.itemKind]
  cases isExcluded settings t with
  | true => simp
  | false =>
    cases t.pattern with
    | literal text | keyword text =>
      simp only [Bool.false_eq_true, if_false, Option.some.injEq, true_and]
      constructor
      · intro h
        subst h
        exact ⟨rfl, rfl⟩
      · intro h
        rw [h.1]
        exact h.2.symm
    | regex | custom | anyOf => simp

/-! ### Numbered suggestions -/

/-- What a type offers: itself, or the types of the vocabulary with the category it stands for,
with their numbers. -/
def offered (settings : Settings) (v : Vocabulary) (t : TokenType) : List (TokenType × Nat) :=
  match t.pattern with
  | .anyOf category =>
    if isExcluded settings t then [] else v.types.zipIdx.filter fun u => u.1.has category
  | _ => [(t, 0)]

/-- The suggestions of all candidates, with their places. -/
def placedItems (settings : Settings) (v : Vocabulary) (range : ByteRange)
    (candidates : List Candidate) : List ((Nat ×ₗ Nat) × Suggestion) :=
  candidates.zipIdx.flatMap fun c => (offered settings v c.1.type).filterMap fun u =>
    (typeItem? settings (candidateRange range c.1) u.1).map (toLex (c.2, u.2), ·)

theorem typeItems_eq (t : TokenType) :
    typeItems settings v range t =
      (offered settings v t).filterMap fun u => typeItem? settings range u.1 := by
  cases hpattern : t.pattern with
  | anyOf category =>
    simp only [typeItems, offered, hpattern]
    by_cases h : isExcluded settings t = true
    · rw [if_pos h, if_pos h]
      rfl
    · rw [if_neg h, if_neg h, List.filterMap_filter, List.filterMap_filter]
      conv_lhs => rw [← List.zipIdx_map_fst 0 v.types, List.filterMap_map]
      rfl
  | literal | keyword | regex | custom =>
    simp only [typeItems, offered, hpattern]
    cases h : typeItem? settings range t <;> simp [h]

theorem map_snd_placedItems :
    (placedItems settings v range candidates).map Prod.snd =
      candidateItems settings v range candidates := by
  have hitems (c : Candidate × Nat) : ((offered settings v c.1.type).filterMap fun u =>
      (typeItem? settings (candidateRange range c.1) u.1).map
        (toLex (c.2, u.2), ·)).map Prod.snd =
        typeItems settings v (candidateRange range c.1) c.1.type := by
    rw [List.map_filterMap, typeItems_eq]
    apply List.filterMap_congr
    intro u _
    rw [Option.map_map]
    exact Option.map_id'
  rw [placedItems, List.map_flatMap, candidateItems]
  conv_rhs => rw [← List.zipIdx_map_fst 0 candidates, List.flatMap_map]
  simp only [hitems]

/-- A type with a text that is offered stands at a number that says where. -/
theorem offers_of_mem {i j : Nat} {c : Candidate} {t : TokenType} (hc : candidates[i]? = some c)
    (h : (t, j) ∈ offered settings v c.type) :
    Offers settings v candidates (toLex (i, j)) c t := by
  unfold offered at h
  split at h
  next category hpattern =>
    split at h
    next => cases h
    next hexcluded =>
      obtain ⟨hmem, hhas⟩ := List.mem_filter.mp h
      have hallowed := isExcluded_eq_false_iff.mp (Bool.eq_false_of_not_eq_true hexcluded)
      exact .member hc hpattern hallowed (List.mk_mem_zipIdx_iff_getElem?.mp hmem)
        (of_decide_eq_true hhas)
  next =>
    cases List.mem_singleton.mp h
    exact .own hc

theorem mem_of_offersLabel {place : Nat ×ₗ Nat} {c : Candidate} {t : TokenType} {label : String}
    (h : OffersLabel settings v candidates label place c t) :
    ∃ i j, place = toLex (i, j) ∧ candidates[i]? = some c ∧ (t, j) ∈ offered settings v c.type := by
  obtain ⟨hoffers, -, htext⟩ := h
  cases hoffers with
  | @own i _ hc =>
    refine ⟨i, 0, rfl, hc, ?_⟩
    unfold offered
    split
    next category hpattern =>
      -- A type that stands for a category has no text of its own.
      simp [TokenType.completionText?, hpattern] at htext
    next => exact List.mem_singleton_self _
  | @member i j _ _ category hc hpattern hallowed hmem hhas =>
    refine ⟨i, j, rfl, hc, ?_⟩
    have hexcluded := isExcluded_eq_false_iff.mpr hallowed
    simp only [offered, hpattern, hexcluded, Bool.false_eq_true, if_false]
    exact List.mem_filter.mpr
      ⟨List.mk_mem_zipIdx_iff_getElem?.mpr hmem, decide_eq_true hhas⟩

theorem mem_placedItems {place : Nat ×ₗ Nat} {s : Suggestion} :
    (place, s) ∈ placedItems settings v range candidates ↔
      ∃ c t, OffersLabel settings v candidates s.label place c t ∧
        s = .ofLabel s.label t.itemKind (candidateRange range c) := by
  constructor
  · intro h
    obtain ⟨⟨c, i⟩, hc, h⟩ := List.mem_flatMap.mp h
    obtain ⟨⟨t, j⟩, ht, h⟩ := List.mem_filterMap.mp h
    obtain ⟨s', hs', heq⟩ := Option.map_eq_some_iff.mp h
    cases heq
    obtain ⟨hallowed, htext, hitem⟩ := typeItem?_eq_some_iff.mp hs'
    have hoffers := offers_of_mem (List.mk_mem_zipIdx_iff_getElem?.mp hc) ht
    exact ⟨c, t, ⟨hoffers, hallowed, htext⟩, hitem⟩
  · intro h
    obtain ⟨c, t, hoffers, hitem⟩ := h
    obtain ⟨i, j, rfl, hc, ht⟩ := mem_of_offersLabel hoffers
    have htype := typeItem?_eq_some_iff.mpr ⟨hoffers.allowed, hoffers.text, hitem⟩
    refine List.mem_flatMap.mpr ⟨(c, i), List.mk_mem_zipIdx_iff_getElem?.mpr hc, ?_⟩
    exact List.mem_filterMap.mpr ⟨(t, j), ht, by rw [htype]; rfl⟩

theorem pairwise_zipIdx {α : Type} (as : List α) : as.zipIdx.Pairwise (·.2 < ·.2) := by
  rw [← List.pairwise_map (f := Prod.snd) (R := (· < ·)), List.zipIdx_map_snd]
  exact List.pairwise_lt_range' 1

theorem pairwise_offered (t : TokenType) : (offered settings v t).Pairwise (·.2 < ·.2) := by
  unfold offered
  split
  next =>
    split
    · exact .nil
    · exact (pairwise_zipIdx v.types).filter _
  next => exact List.pairwise_singleton _ _

/-- Places grow: candidate by candidate, and within one by its types. -/
theorem pairwise_placedItems :
    (placedItems settings v range candidates).Pairwise (·.1 < ·.1) := by
  rw [placedItems, List.pairwise_flatMap]
  constructor
  · intro c _
    rw [List.pairwise_filterMap]
    apply (pairwise_offered c.1.type).imp
    intro u u' hlt b hb b' hb'
    obtain ⟨_, -, rfl⟩ := Option.map_eq_some_iff.mp hb
    obtain ⟨_, -, rfl⟩ := Option.map_eq_some_iff.mp hb'
    exact Prod.Lex.right _ hlt
  · apply (pairwise_zipIdx candidates).imp
    intro c c' hlt b hb b' hb'
    obtain ⟨_, -, hb⟩ := List.mem_filterMap.mp hb
    obtain ⟨_, -, hb'⟩ := List.mem_filterMap.mp hb'
    obtain ⟨_, -, rfl⟩ := Option.map_eq_some_iff.mp hb
    obtain ⟨_, -, rfl⟩ := Option.map_eq_some_iff.mp hb'
    exact Prod.Lex.left _ _ hlt

end

/-! ### First suggestions -/

/-- Of suggestions at growing places, those that are kept are the first with their labels. -/
theorem distinctFrom_first {P : Type} [Preorder P] (seen : List String)
    {items : List (P × Suggestion)} (h : items.Pairwise (·.1 < ·.1)) :
    ∃ kept : List (P × Suggestion), kept.Sublist items ∧
      Suggestion.distinctFrom seen (items.map Prod.snd) = kept.map Prod.snd ∧
      ∀ s ∈ kept, s.2.label ∉ seen ∧ ∀ t ∈ items, t.2.label = s.2.label → s.1 ≤ t.1 := by
  induction items generalizing seen with
  | nil => exact ⟨[], .slnil, rfl, fun s hs => absurd hs List.not_mem_nil⟩
  | cons first rest ih =>
    obtain ⟨hfirst, hrest⟩ := List.pairwise_cons.mp h
    rw [List.map_cons, Suggestion.distinctFrom]
    split
    next hseen =>
      have hseen : first.2.label ∈ seen := by simpa using hseen
      obtain ⟨kept, hkept, heq, hall⟩ := ih seen hrest
      refine ⟨kept, hkept.cons first, heq, fun s hs => ?_⟩
      obtain ⟨hnew, hle⟩ := hall s hs
      refine ⟨hnew, fun t ht hlabel => ?_⟩
      rcases List.mem_cons.mp ht with rfl | ht
      · exact absurd (hlabel ▸ hseen) hnew
      · exact hle t ht hlabel
    next hseen =>
      have hseen : first.2.label ∉ seen := by simpa using hseen
      obtain ⟨kept, hkept, heq, hall⟩ := ih (first.2.label :: seen) hrest
      refine ⟨first :: kept, hkept.cons_cons first, by rw [heq, List.map_cons], fun s hs => ?_⟩
      rcases List.mem_cons.mp hs with rfl | hs
      · refine ⟨hseen, fun t ht _ => ?_⟩
        rcases List.mem_cons.mp ht with rfl | ht
        · exact le_refl _
        · exact le_of_lt (hfirst t ht)
      · obtain ⟨hnew, hle⟩ := hall s hs
        rw [List.mem_cons, not_or] at hnew
        refine ⟨hnew.2, fun t ht hlabel => ?_⟩
        rcases List.mem_cons.mp ht with rfl | ht
        · exact absurd hlabel.symm hnew.1
        · exact hle t ht hlabel

theorem distinctFrom_congr {seen seen' : List String} {items : List Suggestion}
    (h : ∀ s ∈ items, s.label ∈ seen ↔ s.label ∈ seen') :
    Suggestion.distinctFrom seen items = Suggestion.distinctFrom seen' items := by
  induction items generalizing seen seen' with
  | nil => rfl
  | cons first rest ih =>
    have hfirst := h first (List.mem_cons_self ..)
    have hrest (s : Suggestion) (hs : s ∈ rest) := h s (List.mem_cons_of_mem first hs)
    rw [Suggestion.distinctFrom, Suggestion.distinctFrom]
    by_cases hseen : first.label ∈ seen
    · rw [if_pos (by simpa using hseen), if_pos (by simpa using hfirst.mp hseen)]
      exact ih hrest
    · rw [if_neg (by simpa using hseen), if_neg (by simpa using mt hfirst.mpr hseen)]
      congr 1
      apply ih
      intro s hs
      rw [List.mem_cons, List.mem_cons, hrest s hs]

/-- The first ones of some labels are the first ones with these labels. -/
theorem distinctFrom_filter (keep : String → Bool) (seen : List String) (items : List Suggestion) :
    Suggestion.distinctFrom seen (items.filter fun s => keep s.label) =
      (Suggestion.distinctFrom seen items).filter fun s => keep s.label := by
  induction items generalizing seen with
  | nil => rfl
  | cons first rest ih =>
    by_cases hkeep : keep first.label = true
    · have hfilter (items : List Suggestion) : ((first :: items).filter fun s => keep s.label) =
          first :: items.filter fun s => keep s.label := List.filter_cons_of_pos hkeep
      rw [hfilter, Suggestion.distinctFrom, Suggestion.distinctFrom]
      split
      · exact ih seen
      · rw [ih, hfilter]
    · have hfilter (items : List Suggestion) : ((first :: items).filter fun s => keep s.label) =
          items.filter fun s => keep s.label := List.filter_cons_of_neg hkeep
      rw [hfilter, Suggestion.distinctFrom]
      split
      · exact ih seen
      · rw [hfilter, ← ih]
        apply distinctFrom_congr
        intro s hs
        have hne : s.label ≠ first.label := fun heq =>
          hkeep (heq ▸ (List.mem_filter.mp hs).2)
        rw [List.mem_cons, or_iff_right hne]

/-! ### Narrowing -/

/-- Does the label begin with what is typed, if anything is? -/
def Cursor.allows (cursor : Cursor) (text : List Char) (label : String) : Bool :=
  (cursor.typedText? text).all (·.isPrefixOf label.toList)

theorem narrowed_eq_filter (cursor : Cursor) (text : List Char) (items : List Suggestion) :
    narrowed (cursor.typedText? text) items = items.filter fun s => cursor.allows text s.label := by
  unfold narrowed Cursor.allows
  cases cursor.typedText? text with
  | none => exact (List.filter_eq_self.mpr fun _ _ => rfl).symm
  | some cs => rfl

namespace Completer

/-- The same where candidates are not narrowed to what is typed. -/
def wide (k : Completer) : Completer :=
  { k with settings := { k.settings with narrows := false } }

theorem wide_eq_self (k : Completer) (h : k.settings.narrows = false) : k.wide = k := by
  rw [wide, ← h]

end Completer

theorem Cursor.locate?_wide {k : Completer} {tokens : List Token} {offset : Nat} {cursor : Cursor}
    (h : locate? k.settings tokens offset = some cursor) :
    locate? k.wide.settings tokens offset = some { cursor with typed? := none } := by
  unfold locate? at h ⊢
  split at h
  next i _ =>
    obtain ⟨t, ht, rfl⟩ := Option.map_eq_some_iff.mp h
    rw [ht]
    rfl
  next =>
    show (if k.settings.insertsBetween then some (between tokens offset) else none) = _
    split at h
    next hinserts =>
      cases h
      rw [if_pos hinserts]
      rfl
    next => cases h

namespace Completer
variable {k : Completer} {text : List Char} {tokens : List Token} {offset : Nat} {data : Data}
  {cursor : Cursor}

/-- What is suggested at a cursor where a language adds nothing. -/
theorem complete_eq (haugment : ∀ c, k.augment c = {})
    (hcursor : Cursor.locate? k.settings tokens (min offset (Text.bytes text)) = some cursor) :
    k.complete text tokens offset data =
      (Suggestion.distinct (narrowed (cursor.typedText? text)
        (candidateItems k.settings k.vocabulary cursor.range (k.candidatesAt tokens cursor)))).map
        fun s => { s with replace := s.replace.clamp (Text.bytes text) } := by
  rw [complete_of_locate? data hcursor, gather, haugment]
  simp only [List.nil_append, List.append_nil]

theorem complete_wide (haugment : ∀ c, k.augment c = {})
    (hcursor : Cursor.locate? k.settings tokens (min offset (Text.bytes text)) = some cursor) :
    k.wide.complete text tokens offset data =
      (Suggestion.distinct
        (candidateItems k.settings k.vocabulary cursor.range (k.candidatesAt tokens cursor))).map
        fun s => { s with replace := s.replace.clamp (Text.bytes text) } :=
  complete_eq (k := k.wide) haugment (Cursor.locate?_wide hcursor)

/-- Narrowing takes suggestions away by their labels. -/
theorem complete_eq_filter (haugment : ∀ c, k.augment c = {})
    (hcursor : Cursor.locate? k.settings tokens (min offset (Text.bytes text)) = some cursor) :
    k.complete text tokens offset data =
      (k.wide.complete text tokens offset data).filter fun s => cursor.allows text s.label := by
  rw [complete_eq haugment hcursor, complete_wide haugment hcursor, narrowed_eq_filter,
    Suggestion.distinct, distinctFrom_filter, List.filter_map]
  rfl

/-- Labels are those of the types that are offered anywhere. -/
theorem mem_labels_wide (haugment : ∀ c, k.augment c = {})
    (hcursor : Cursor.locate? k.settings tokens (min offset (Text.bytes text)) = some cursor)
    {label : String} :
    label ∈ labels (k.wide.complete text tokens offset data) ↔
      ∃ place c t,
        OffersLabel k.settings k.vocabulary (k.candidatesAt tokens cursor) label place c t := by
  have hlabels : labels (k.wide.complete text tokens offset data) =
      labels (Suggestion.distinct (candidateItems k.settings k.vocabulary cursor.range
        (k.candidatesAt tokens cursor))) := by
    rw [complete_wide haugment hcursor, labels, List.map_map]
    rfl
  rw [hlabels, mem_labels_distinct, ← map_snd_placedItems, labels, List.map_map]
  constructor
  · intro h
    obtain ⟨⟨place, s⟩, hs, rfl⟩ := List.mem_map.mp h
    obtain ⟨c, t, hoffers, -⟩ := mem_placedItems.mp hs
    exact ⟨place, c, t, hoffers⟩
  · intro h
    obtain ⟨place, c, t, hoffers⟩ := h
    exact List.mem_map.mpr ⟨(place, .ofLabel label t.itemKind (candidateRange cursor.range c)),
      mem_placedItems.mpr ⟨c, t, hoffers, rfl⟩, rfl⟩

/-- Each suggestion is the first one with its label, and they stand in the order of these. -/
theorem wide_first (haugment : ∀ c, k.augment c = {})
    (hcursor : Cursor.locate? k.settings tokens (min offset (Text.bytes text)) = some cursor) :
    ∃ places : List (Nat ×ₗ Nat), places.Pairwise (· < ·) ∧
      List.Forall₂ (FirstOffer k.settings k.vocabulary (k.candidatesAt tokens cursor)
          (Text.bytes text) cursor.range)
        places (k.wide.complete text tokens offset data) := by
  let items := placedItems k.settings k.vocabulary cursor.range (k.candidatesAt tokens cursor)
  have hgrow : items.Pairwise (·.1 < ·.1) := pairwise_placedItems
  obtain ⟨kept, hkept, heq, hfirst⟩ := distinctFrom_first [] hgrow
  refine ⟨kept.map Prod.fst, List.pairwise_map.mpr (hgrow.sublist hkept), ?_⟩
  rw [complete_wide haugment hcursor, ← map_snd_placedItems, Suggestion.distinct, heq,
    List.map_map, List.forall₂_map_left_iff, List.forall₂_map_right_iff, List.forall₂_same]
  intro s hs
  obtain ⟨c, t, hoffers, hitem⟩ := mem_placedItems.mp (hkept.subset hs)
  refine ⟨⟨c, t, _, _, hoffers, replaces_candidateRange cursor.range c, ?_⟩,
    fun place' c' t' hoffers' => ?_⟩
  · exact congrArg (fun u : Suggestion => { u with replace := u.replace.clamp (Text.bytes text) })
      hitem
  · exact (hfirst s hs).2 (place', .ofLabel s.2.label t'.itemKind (candidateRange cursor.range c'))
      (mem_placedItems.mpr ⟨c', t', hoffers', rfl⟩) rfl

end Completer

/-- The type is that of a candidate, or of the vocabulary and of a category that a candidate stands
for. -/
theorem exists_offers_iff {settings : Settings} {v : Vocabulary} {candidates : List Candidate}
    {t : TokenType} :
    (∃ place c, Offers settings v candidates place c t) ↔
      (∃ c ∈ candidates, c.type = t) ∨
        (t ∈ v.types ∧ ∃ c ∈ candidates, ∃ category, c.type.pattern = .anyOf category ∧
          Allowed settings c.type ∧ category ∈ t.categories) := by
  constructor
  · intro h
    obtain ⟨place, c, hoffers⟩ := h
    cases hoffers with
    | own hc => exact .inl ⟨c, List.mem_of_getElem? hc, rfl⟩
    | @member i j _ _ category hc hpattern hallowed ht hcategory =>
      exact .inr ⟨List.mem_of_getElem? ht, c, List.mem_of_getElem? hc, category, hpattern,
        hallowed, hcategory⟩
  · intro h
    rcases h with ⟨c, hc, rfl⟩ | ⟨ht, c, hc, category, hpattern, hallowed, hcategory⟩
    · obtain ⟨i, hi⟩ := List.mem_iff_getElem?.mp hc
      exact ⟨_, c, .own hi⟩
    · obtain ⟨i, hi⟩ := List.mem_iff_getElem?.mp hc
      obtain ⟨j, hj⟩ := List.mem_iff_getElem?.mp ht
      exact ⟨_, c, .member hi hpattern hallowed hj hcategory⟩

/-- **Where a language adds nothing, exactly what the candidates offer is suggested**, whatever
grammar they come from. A label is that of an allowed type which a candidate has, or which is in a
category that an allowed candidate stands for. Each label is there once, as the candidate that
offers it first has it, and in this order, in place of what this candidate replaces. Where
candidates are narrowed to what is typed, the labels that begin with it stay. -/
theorem complete_exact (k : Completer) (haugment : ∀ c, k.augment c = {}) (text : List Char)
    (tokens : List Token) (offset : Nat) (data : Data) (cursor : Cursor)
    (hcursor : Cursor.locate? k.settings tokens (min offset (Text.bytes text)) = some cursor) :
    let candidates :=
      k.assist (tokens.take cursor.assisted) ++ longerWordsAt k.vocabulary tokens cursor
    let items := k.wide.complete text tokens offset data
    (∀ label, label ∈ labels items ↔
        ∃ t : TokenType, Allowed k.settings t ∧ t.completionText? = some label ∧
          ((∃ c ∈ candidates, c.type = t) ∨
            (t ∈ k.vocabulary.types ∧
              ∃ c ∈ candidates, ∃ category, c.type.pattern = .anyOf category ∧
                Allowed k.settings c.type ∧ category ∈ t.categories))) ∧
      (labels items).Nodup ∧
      (∃ places : List (Nat ×ₗ Nat), places.Pairwise (· < ·) ∧
        List.Forall₂ (FirstOffer k.settings k.vocabulary candidates (Text.bytes text) cursor.range)
          places items) ∧
      (k.settings.narrows = false → k.complete text tokens offset data = items) ∧
      ∀ typed ∈ cursor.typedText? text, k.complete text tokens offset data =
        items.filter fun s => typed.isPrefixOf s.label.toList := by
  intro candidates items
  refine ⟨fun label => ?_, k.wide.nodup_labels_complete text tokens offset data,
    Completer.wide_first haugment hcursor, fun hnarrows => ?_, fun typed htyped => ?_⟩
  · rw [Completer.mem_labels_wide haugment hcursor]
    constructor
    · intro h
      obtain ⟨place, c, t, hoffers⟩ := h
      exact ⟨t, hoffers.allowed, hoffers.text, exists_offers_iff.mp ⟨place, c, hoffers.offers⟩⟩
    · intro h
      obtain ⟨t, hallowed, htext, hoffers⟩ := h
      obtain ⟨place, c, hoffers⟩ := exists_offers_iff.mpr hoffers
      exact ⟨place, c, t, hoffers, hallowed, htext⟩
  · show k.complete text tokens offset data = k.wide.complete text tokens offset data
    rw [k.wide_eq_self hnarrows]
  · rw [Completer.complete_eq_filter haugment hcursor]
    have hallows (label : String) : cursor.allows text label = typed.isPrefixOf label.toList := by
      rw [Cursor.allows, show cursor.typedText? text = some typed from htyped]
      rfl
    simp only [hallows]
    rfl

/-- A candidate that replaces more than the text holds, of a type that the vocabulary lacks, one
that is excluded, a category, and a repetition that would replace less. -/
theorem complete_exact_ranges :
    let brace := (TokenType.literal "LCurly" "\x7b").withCategories [.punctuator]
    let str := (TokenType.keyword "STR" "str").withCategories [.builtInCall]
    let strlen := (TokenType.keyword "STRLEN" "strlen").withCategories [.builtInCall]
    let call := TokenType.anyOf "BuiltInCall" .builtInCall
    let candidates : List Candidate := [⟨.literal "Star" "*", [], none⟩,
      ⟨.literal "String" "string", [], some (1, 9)⟩, ⟨brace, [], none⟩, ⟨call, [], none⟩,
      ⟨str, [], some (0, 1)⟩]
    let k : Completer :=
      { vocabulary := ⟨[brace, str, strlen, call]⟩, assist := fun _ => candidates,
        settings := { excluded := [.punctuator], narrows := true } }
    let tokens := [Token.ofImage (.custom "Word") "st" 0]
    let cursor : Cursor := ⟨some 0, 0, ⟨0, 2⟩, some ⟨0, 2⟩⟩
    let items := [.ofLabel "*" .enumMember ⟨0, 2⟩, .ofLabel "string" .enumMember ⟨1, 2⟩,
      .ofLabel "str" .keyword ⟨0, 2⟩, .ofLabel "strlen" .keyword ⟨0, 2⟩]
    (∀ c, k.augment c = {}) ∧
      Cursor.locate? k.settings tokens (min 2 (Text.bytes ['s', 't'])) = some cursor ∧
      cursor.typedText? ['s', 't'] = some ['s', 't'] ∧
      k.wide.complete ['s', 't'] tokens 2 {} = items ∧
      (∃ places : List (Nat ×ₗ Nat), places.Pairwise (· < ·) ∧
        List.Forall₂ (FirstOffer k.settings k.vocabulary candidates 2 ⟨0, 2⟩) places items) ∧
      k.complete ['s', 't'] tokens 2 {} = items.drop 1 := by
  intro brace str strlen call candidates k tokens cursor items
  have haugment : ∀ c, k.augment c = {} := fun _ => rfl
  have hcursor : Cursor.locate? k.settings tokens (min 2 (Text.bytes ['s', 't'])) =
      some cursor := by
    decide +kernel
  have htyped : cursor.typedText? ['s', 't'] = some ['s', 't'] := by decide
  have hitems : k.wide.complete ['s', 't'] tokens 2 {} = items := by decide +kernel
  obtain ⟨-, -, hfirst, -, hnarrowed⟩ :=
    complete_exact k haugment ['s', 't'] tokens 2 {} cursor hcursor
  refine ⟨haugment, hcursor, htyped, hitems, ?_, ?_⟩
  · rwa [hitems] at hfirst
  · rw [hnarrowed ['s', 't'] htyped, hitems]
    decide

end Completion

end GraphLanguages
