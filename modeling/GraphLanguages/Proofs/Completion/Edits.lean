import GraphLanguages.Proofs.Completion.LongerWords
import GraphLanguages.Proofs.Text.Positions

/-! What suggestions replace.

A suggestion replaces the token at the cursor, with the one before it where both are typed
as one word, or nothing where the cursor is between tokens. What a language adds replaces
the same. All these ranges are between boundaries of the text, around the cursor
(`Profile.surrounds_of_mem_complete`), so clamping them to the text changes nothing. -/
namespace GraphLanguages

namespace Completion
open Grammar Text

/-- The range is between boundaries of the text, and the offset is in it or at an end. -/
structure ByteRange.Surrounds (r : ByteRange) (offset : Nat) (cs : List Char) : Prop where
  startBoundary : IsBoundary r.start cs
  stopBoundary : IsBoundary r.stop cs
  start_le : r.start ≤ offset
  le_stop : offset ≤ r.stop

theorem ByteRange.Surrounds.clamp_eq {r : ByteRange} {offset : Nat} {cs : List Char}
    (h : r.Surrounds offset cs) : r.clamp (bytes cs) = r := by
  have hle := h.start_le.trans h.le_stop
  have hstop := h.stopBoundary.le_bytes
  simp only [clamp, Nat.min_eq_left hstop, Nat.min_eq_left (hle.trans hstop),
    Nat.max_eq_left hle]

/-! ### The cursor -/

section
variable {raw : List Char} {o : ParseOutput} {settings : Settings} {offset : Nat}
  {cursor : Cursor}

/-- From the start of a token up to the end of one that the offset touches. -/
theorem surrounds_tokens (ho : o.LiesIn raw) {first t : Token} (hfirst : first ∈ o.tokens)
    (ht : t ∈ o.tokens) (hle : first.start ≤ t.start) (hstart : t.start ≤ offset)
    (hstop : offset ≤ t.last + 1) :
    (⟨first.start, t.stop⟩ : ByteRange).Surrounds offset raw where
  startBoundary := (ho.tokens first hfirst).startBoundary
  stopBoundary := stop_eq ho ht ▸ (ho.tokens t ht).stopBoundary
  start_le := hle.trans hstart
  le_stop := stop_eq ho ht ▸ hstop

theorem start_le_of_abuts (ho : o.LiesIn raw) {p t : Token} (hp : p ∈ o.tokens)
    (h : p.abuts t = true) : p.start ≤ t.start := by
  have hnext : p.last + 1 = t.start := by simpa using (Bool.and_eq_true_iff.mp h).2
  have := (ho.tokens p hp).order
  omega

/-- The token at the cursor is touched by the offset. -/
theorem Cursor.touched (h : locate? settings o.tokens offset = some cursor) {t : Token}
    (ht : cursor.at?.bind (o.tokens[·]?) = some t) : t.start ≤ offset ∧ offset ≤ t.last + 1 := by
  unfold locate? at h
  split at h
  next i hi =>
    obtain ⟨t', ht', rfl⟩ := Option.map_eq_some_iff.mp h
    obtain ⟨hlength, htouched, -⟩ := List.findIdx?_eq_some_iff_getElem.mp hi
    have hat : o.tokens[i]? = some t := ht
    obtain rfl : o.tokens[i] = t := by simpa [hlength] using hat
    simpa using htouched
  next =>
    split at h
    next =>
      cases h
      cases ht
    next => cases h

/-- What is replaced at a token is around the offset, which need not be a boundary. -/
theorem Cursor.surrounds_atToken (ho : o.LiesIn raw) {i : Nat} {t : Token}
    (ht : o.tokens[i]? = some t) (hstart : t.start ≤ offset) (hstop : offset ≤ t.last + 1) :
    (atToken settings o.tokens offset i t).range.Surrounds offset raw := by
  have hmem : t ∈ o.tokens := List.mem_of_getElem? ht
  cases hhalf : firstHalf? o.tokens i t with
  | none =>
    simpa [atToken, hhalf] using surrounds_tokens ho hmem hmem (Nat.le_refl _) hstart hstop
  | some p =>
    obtain ⟨hp, habuts⟩ := firstHalf?_eq_some hhalf
    have hp : p ∈ o.tokens := List.mem_of_getElem? hp
    simpa [atToken, hhalf] using
      surrounds_tokens ho hp hmem (start_le_of_abuts ho hp habuts) hstart hstop

/-- What is replaced by default is around the cursor. -/
theorem Cursor.range_surrounds (ho : o.LiesIn raw) (hoffset : IsBoundary offset raw)
    (h : locate? settings o.tokens offset = some cursor) :
    cursor.range.Surrounds offset raw := by
  have htouched := fun t => touched h (t := t)
  unfold locate? at h
  split at h
  next i _ =>
    obtain ⟨t, ht, rfl⟩ := Option.map_eq_some_iff.mp h
    obtain ⟨hstart, hstop⟩ := htouched t ht
    exact surrounds_atToken ho ht hstart hstop
  next =>
    split at h
    next =>
      cases h
      exact ⟨hoffset, hoffset, Nat.le_refl _, Nat.le_refl _⟩
    next => cases h

/-! ### Candidates -/

/-- Content assist names types only; what they replace is left to the cursor. -/
theorem isNote_of_mem_assist {g : Grammar} (hg : Progressive g) {v : Vocabulary} {root : String}
    {tokens : List Token} : ∀ c ∈ g.assist v root tokens, c.IsNote v := by
  obtain ⟨o, ho⟩ := hg.exists_runs_entry v root tokens
  intro c hc
  rw [assist_of_runs ho, List.mem_reverse] at hc
  exact ho.noted_isNote (by simp) c hc

theorem surrounds_of_mem_longerWordsAt (ho : o.LiesIn raw)
    (h : Cursor.locate? settings o.tokens offset = some cursor) {v : Vocabulary} {c : Candidate}
    (hc : c ∈ longerWordsAt v o.tokens cursor) (range : ByteRange) :
    (candidateRange range c).Surrounds offset raw := by
  unfold longerWordsAt at hc
  split at hc
  next before at_ hbefore hat =>
    split at hc
    next habuts =>
      obtain ⟨T, -, rfl⟩ := List.mem_map.mp hc
      obtain ⟨i, -, hi⟩ := Option.bind_eq_some_iff.mp hbefore
      obtain ⟨j, -, hj⟩ := Option.bind_eq_some_iff.mp hat
      obtain ⟨hstart, hstop⟩ := Cursor.touched h hat
      have hbefore : before ∈ o.tokens := List.mem_of_getElem? hi
      exact surrounds_tokens ho hbefore (List.mem_of_getElem? hj)
        (start_le_of_abuts ho hbefore habuts) hstart hstop
    next => cases hc
  next => cases hc

/-- Every candidate is to replace what is around the cursor. -/
theorem surrounds_of_mem_candidatesAt {p : Profile} (hp : Progressive p.frontend.grammar)
    (ho : o.LiesIn raw) (hoffset : IsBoundary offset raw)
    (h : Cursor.locate? settings o.tokens offset = some cursor) {c : Candidate}
    (hc : c ∈ candidatesAt p o.tokens cursor) :
    (candidateRange cursor.range c).Surrounds offset raw := by
  rcases List.mem_append.mp hc with hc | hc
  · rw [candidateRange, (isNote_of_mem_assist hp c hc).2]
    exact Cursor.range_surrounds ho hoffset h
  · exact surrounds_of_mem_longerWordsAt ho h hc cursor.range

end

/-! ### Suggestions -/

theorem replace_of_mem_typeItems {settings : Settings} {v : Vocabulary} {range : ByteRange}
    {T : TokenType} : ∀ s ∈ typeItems settings v range T, s.replace = range := by
  have hitem (T : TokenType) : ∀ s ∈ typeItem? settings range T, s.replace = range := by
    intro s hs
    unfold typeItem? at hs
    split at hs
    · cases hs
    · split at hs <;> cases hs <;> rfl
  intro s hs
  unfold typeItems at hs
  split at hs
  · split at hs
    · cases hs
    · obtain ⟨u, -, hu⟩ := List.mem_filterMap.mp hs
      exact hitem u s hu
  · exact hitem T s (Option.mem_toList.mp hs)

theorem mem_of_mem_narrowed {typed : Option (List Char)} {items : List Suggestion}
    {s : Suggestion} (h : s ∈ narrowed typed items) : s ∈ items := by
  cases typed with
  | none => exact h
  | some cs => exact List.mem_of_mem_filter h

theorem mem_of_mem_distinctFrom {seen : List String} {items : List Suggestion} {s : Suggestion}
    (h : s ∈ Suggestion.distinctFrom seen items) : s ∈ items := by
  induction items generalizing seen with
  | nil => exact h
  | cons first rest ih =>
    rw [Suggestion.distinctFrom] at h
    split at h
    · exact List.mem_cons_of_mem first (ih h)
    · rcases List.mem_cons.mp h with rfl | h
      · exact List.mem_cons_self ..
      · exact List.mem_cons_of_mem first (ih h)

theorem nodup_labels_distinctFrom (seen : List String) (items : List Suggestion) :
    (labels (Suggestion.distinctFrom seen items)).Nodup := by
  induction items generalizing seen with
  | nil => exact .nil
  | cons first rest ih =>
    rw [Suggestion.distinctFrom]
    split
    · exact ih seen
    · refine List.nodup_cons.mpr ⟨fun h => ?_, ih _⟩
      exact (mem_labels_distinctFrom.mp h).2 (List.mem_cons_self ..)

end Completion

/-! ### What languages add -/

section
open Completion

theorem replace_of_mem_map {α : Type} {f : α → Suggestion} {as : List α} {range : ByteRange}
    {s : Suggestion} (h : s ∈ as.map f) (hf : ∀ a, (f a).replace = range) : s.replace = range := by
  obtain ⟨a, -, rfl⟩ := List.mem_map.mp h
  exact hf a

/-- What is added to the suggestions of the grammar replaces the same as most of them do. -/
def Profile.AddsInPlace (p : Profile) : Prop :=
  ∀ c, ∀ s ∈ (p.augment c).leading ++ (p.augment c).trailing, s.replace = c.defaultRange

theorem Sparql.replace_of_mem_augment (c : Context) :
    ∀ s ∈ (augment c).leading ++ (augment c).trailing, s.replace = c.defaultRange := by
  intro s hs
  simp only [augment, databaseItems, List.mem_append, or_assoc] at hs
  rcases hs with hs | hs | hs | hs | hs | hs
  · exact replace_of_mem_map hs fun _ => rfl
  · exact replace_of_mem_map hs fun _ => rfl
  · exact replace_of_mem_map hs fun _ => rfl
  · exact replace_of_mem_map hs fun _ => rfl
  · split at hs
    · exact replace_of_mem_map hs fun _ => rfl
    · cases hs
  · split at hs
    · exact replace_of_mem_map hs fun _ => rfl
    · cases hs

theorem Shacl.replace_of_mem_augment (c : Context) :
    ∀ s ∈ (augment c).leading ++ (augment c).trailing, s.replace = c.defaultRange := by
  intro s hs
  simp only [augment, List.append_nil] at hs
  split at hs
  · rcases List.mem_append.mp hs with hs | hs
    · exact replace_of_mem_map hs fun _ => rfl
    · exact replace_of_mem_map hs fun _ => rfl
  · cases hs

theorem Language.addsInPlace (l : Language) (options : Options) :
    (l.profile options).AddsInPlace := by
  cases l with
  | sparql => exact Sparql.replace_of_mem_augment
  | shacl => exact Shacl.replace_of_mem_augment
  | graphQL | turtle | trig => exact fun _ s hs => absurd hs List.not_mem_nil

end

/-! ### Completion -/

section
open Completion Grammar Text
variable {p : Profile} {raw : List Char} {o : ParseOutput} {offset : Nat} {data : Data}

theorem Completion.Completer.nodup_labels_complete (k : Completer) (raw : List Char)
    (tokens : List Token) (offset : Nat) (data : Data) :
    (labels (k.complete raw tokens offset data)).Nodup := by
  cases hcursor : Cursor.locate? k.settings tokens (min offset (bytes raw)) with
  | none =>
    rw [complete_of_locate?_none hcursor]
    exact .nil
  | some cursor =>
    rw [complete_of_locate? data hcursor, labels, List.map_map]
    exact nodup_labels_distinctFrom [] _

theorem Profile.nodup_labels_complete (p : Profile) (raw : List Char) (tokens : List Token)
    (offset : Nat) (data : Data) : (labels (p.complete raw tokens offset data)).Nodup :=
  p.completer.nodup_labels_complete raw tokens offset data

/-- Every suggestion replaces what is around the offset, between boundaries of the text. -/
theorem Profile.surrounds_of_mem_complete (hp : Progressive p.frontend.grammar)
    (hadds : p.AddsInPlace) (ho : o.LiesIn raw) (hoffset : IsBoundary offset raw) :
    ∀ s ∈ p.complete raw o.tokens offset data, s.replace.Surrounds offset raw := by
  intro s hs
  have hmin : min offset (bytes raw) = offset := Nat.min_eq_left hoffset.le_bytes
  cases hcursor : Cursor.locate? p.completion o.tokens (min offset (bytes raw)) with
  | none =>
    have hnone : p.complete raw o.tokens offset data = [] :=
      Completer.complete_of_locate?_none hcursor
    rw [hnone] at hs
    cases hs
  | some cursor =>
    rw [complete_of_locate? data hcursor] at hs
    obtain ⟨u, hu, rfl⟩ := List.mem_map.mp hs
    rw [hmin] at hcursor
    have hrange := Cursor.range_surrounds ho hoffset hcursor
    have hsurrounds : u.replace.Surrounds offset raw := by
      have hitem := mem_of_mem_distinctFrom hu
      simp only [List.mem_append] at hitem
      rcases hitem with (hleading | hoffered) | htrailing
      · rw [hadds _ u (List.mem_append.mpr (.inl hleading))]
        exact hrange
      · obtain ⟨c, hc, hitem⟩ := List.mem_flatMap.mp (mem_of_mem_narrowed hoffered)
        rw [replace_of_mem_typeItems u hitem]
        exact surrounds_of_mem_candidatesAt hp ho hoffset hcursor hc
      · rw [hadds _ u (List.mem_append.mpr (.inr htrailing))]
        exact hrange
    rw [hsurrounds.clamp_eq]
    exact hsurrounds

end

end GraphLanguages
