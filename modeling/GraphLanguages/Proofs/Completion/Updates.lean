import Mathlib.Data.List.Induction
import GraphLanguages.Completion.Data

/-! What completion data depends on.

Data is what its namespaces and bindings are (`Data.eq_of_sources`): items are kept beside
them, but never stay behind. An update replaces what it brings, so after any updates each of
the three is the one brought last (`determined_concat`), whenever the others came. -/
namespace GraphLanguages.Completion

/-! ### Updates side by side -/

/-- Nothing is brought by both updates. Rows and a map both bring the namespaces. -/
structure Update.Apart (u v : Update) : Prop where
  namespaces : u.namespaces? = none ∨ v.namespaces? = none
  relationships : u.relationships = none ∨ v.relationships = none
  types : u.types = none ∨ v.types = none

/-- The update that brings what either of two brings. -/
def Update.merge (u v : Update) : Update where
  namespaceRows := u.namespaceRows.or v.namespaceRows
  namespaceMap := u.namespaceMap.or v.namespaceMap
  relationships := u.relationships.or v.relationships
  types := u.types.or v.types

theorem Update.namespaces?_eq_none {u : Update} (h : u.namespaces? = none) :
    u.namespaceRows = none ∧ u.namespaceMap = none := by
  unfold namespaces? at h
  split at h
  next => cases h
  next hrows => exact ⟨hrows, Option.map_eq_none_iff.mp h⟩

/-- Rows go before a map in the merged update too, but only one of the two had any. -/
theorem Update.namespaces?_merge {u v : Update}
    (h : u.namespaces? = none ∨ v.namespaces? = none) :
    (u.merge v).namespaces? = u.namespaces?.or v.namespaces? := by
  rcases h with h | h
  · obtain ⟨hrows, hmap⟩ := namespaces?_eq_none h
    rw [h, Option.none_or]
    simp only [namespaces?, merge, hrows, hmap, Option.none_or]
  · obtain ⟨hrows, hmap⟩ := namespaces?_eq_none h
    rw [h, Option.or_none]
    simp only [namespaces?, merge, hrows, hmap, Option.or_none]

theorem getD_getD_comm {α : Type} {a b : Option α} (h : a = none ∨ b = none) (c : α) :
    b.getD (a.getD c) = a.getD (b.getD c) := by
  rcases h with rfl | rfl <;> rfl

theorem getD_getD_or {α : Type} {a b : Option α} (h : a = none ∨ b = none) (c : α) :
    b.getD (a.getD c) = (a.or b).getD c := by
  rcases h with rfl | rfl
  · rfl
  · rw [Option.or_none]
    rfl

/-! ### The last value brought -/

/-- The last value that one of the updates brings. -/
def lastBrought {α : Type} (field : Update → Option α) (updates : List Update) : Option α :=
  (updates.filterMap field).getLast?

theorem lastBrought_concat {α : Type} (field : Update → Option α) (updates : List Update)
    (u : Update) (default_ : α) :
    (lastBrought field (updates ++ [u])).getD default_ =
      (field u).getD ((lastBrought field updates).getD default_) := by
  unfold lastBrought
  rw [List.filterMap_append]
  cases hu : field u with
  | none => simp [hu]
  | some value => simp [hu]

namespace Data

/-! ### One update -/

theorem eq_of_sources {d e : Data} (hnamespaces : d.namespaces = e.namespaces)
    (hrelationships : d.relationships = e.relationships) (htypes : d.types = e.types) :
    d = e := by
  obtain ⟨n, r, t, ri, ti, hri, hti⟩ := d
  obtain ⟨n', r', t', ri', ti', hri', hti'⟩ := e
  cases hnamespaces
  cases hrelationships
  cases htypes
  cases hri.trans hri'.symm
  cases hti.trans hti'.symm
  rfl

theorem apply_empty (d : Data) : d.apply {} = d :=
  eq_of_sources rfl rfl rfl

theorem apply_comm {u v : Update} (h : u.Apart v) (d : Data) :
    (d.apply u).apply v = (d.apply v).apply u :=
  eq_of_sources (getD_getD_comm h.namespaces _) (getD_getD_comm h.relationships _)
    (getD_getD_comm h.types _)

theorem apply_merge {u v : Update} (h : u.Apart v) (d : Data) :
    (d.apply u).apply v = d.apply (u.merge v) := by
  refine eq_of_sources ?_ (getD_getD_or h.relationships _) (getD_getD_or h.types _)
  show v.namespaces?.getD (u.namespaces?.getD d.namespaces) =
    (u.merge v).namespaces?.getD d.namespaces
  rw [Update.namespaces?_merge h.namespaces, getD_getD_or h.namespaces]

/-! ### Any updates -/

/-- Namespaces and bindings are those brought last, and the items are made of these. -/
structure Determined (updates : List Update) (d : Data) : Prop where
  namespaces : d.namespaces = (lastBrought Update.namespaces? updates).getD {}
  relationships : d.relationships = (lastBrought Update.relationships updates).getD []
  types : d.types = (lastBrought Update.types updates).getD []
  relationshipItems : d.relationshipItems =
    Binding.items ((lastBrought Update.namespaces? updates).getD {})
      ((lastBrought Update.relationships updates).getD [])
  typeItems : d.typeItems =
    Binding.items ((lastBrought Update.namespaces? updates).getD {})
      ((lastBrought Update.types updates).getD [])

theorem determined_of_sources {updates : List Update} {d : Data}
    (hnamespaces : d.namespaces = (lastBrought Update.namespaces? updates).getD {})
    (hrelationships : d.relationships = (lastBrought Update.relationships updates).getD [])
    (htypes : d.types = (lastBrought Update.types updates).getD []) : d.Determined updates where
  namespaces := hnamespaces
  relationships := hrelationships
  types := htypes
  relationshipItems := by rw [d.relationshipItems_eq, hnamespaces, hrelationships]
  typeItems := by rw [d.typeItems_eq, hnamespaces, htypes]

theorem determined_concat {updates : List Update} {d : Data} (h : d.Determined updates)
    (u : Update) : (d.apply u).Determined (updates ++ [u]) := by
  apply determined_of_sources
  · rw [lastBrought_concat, ← h.namespaces]
    rfl
  · rw [lastBrought_concat, ← h.relationships]
    rfl
  · rw [lastBrought_concat, ← h.types]
    rfl

theorem determined_foldl (updates : List Update) :
    (updates.foldl apply empty).Determined updates := by
  induction updates using List.reverseRecOn with
  | nil => exact determined_of_sources rfl rfl rfl
  | append_singleton updates u ih =>
    rw [List.foldl_append]
    exact determined_concat ih u

/-- **Completion data does not depend on the order of arrival.** After any updates it is made
of what was brought last. Two updates in a row that bring different things may change places
or be one, and an update that brings nothing may be left out. -/
theorem foldl_apply_last (before after : List Update) :
    (∀ updates : List Update, (updates.foldl apply empty).Determined updates) ∧
      (∀ u v : Update, u.Apart v →
        (before ++ u :: v :: after).foldl apply empty =
            (before ++ v :: u :: after).foldl apply empty ∧
          (before ++ u :: v :: after).foldl apply empty =
            (before ++ u.merge v :: after).foldl apply empty) ∧
      (before ++ {} :: after).foldl apply empty = (before ++ after).foldl apply empty := by
  refine ⟨determined_foldl, fun u v h => ?_, ?_⟩
  · simp only [List.foldl_append, List.foldl_cons]
    exact ⟨by rw [apply_comm h], by rw [apply_merge h]⟩
  · simp only [List.foldl_append, List.foldl_cons]
    rw [apply_empty]

/-- Namespaces that come behind bindings, or in front of them, or with them. -/
theorem foldl_apply_last_behind :
    let bindings : Update := { relationships := some [⟨"http://example.org/knows", 2⟩] }
    let rows : Update := { namespaceRows := some ["ex=http://example.org/"] }
    bindings.Apart rows ∧
      [bindings, rows].foldl apply empty = [rows, bindings].foldl apply empty ∧
      [bindings, rows].foldl apply empty = [bindings.merge rows].foldl apply empty ∧
      ([bindings, rows].foldl apply empty).relationshipItems.map (·.label) =
        ["<http://example.org/knows>", "ex:knows"] := by
  intro bindings rows
  have hapart : bindings.Apart rows := ⟨.inl rfl, .inr rfl, .inl rfl⟩
  obtain ⟨hdetermined, hpair, -⟩ := foldl_apply_last [] []
  obtain ⟨hswap, hmerge⟩ := hpair bindings rows hapart
  refine ⟨hapart, hswap, hmerge, ?_⟩
  rw [(hdetermined [bindings, rows]).relationshipItems]
  decide

end Data

end GraphLanguages.Completion
