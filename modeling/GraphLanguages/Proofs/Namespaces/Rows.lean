import GraphLanguages.Proofs.Namespaces
import GraphLanguages.Proofs.Text.Blank

/-! Namespaces written as rows.

A row gives its alias the text behind its first equals sign (`Gives`). Of the rows for an alias
the last one counts, whatever stands between them (`get?_ofRows_eq_some_iff`). Namespaces that
are read in the order of their aliases are put one behind the other (`ofPairs_entries`), so their
rows are read back as they were unless an alias holds an equals sign; and no alias does that came
from a row (`equals_not_mem_ofRows`). -/
namespace GraphLanguages.Namespaces
open Text Transport

/-! ### Rows -/

/-- The row is for the alias and gives it the IRI, which is empty if there is no equals sign. -/
inductive Gives : (row alias_ iri : String) → Prop
  | divided {alias_ iri : String} : '=' ∉ alias_.toList → Gives (alias_ ++ "=" ++ iri) alias_ iri
  | bare {alias_ : String} : '=' ∉ alias_.toList → Gives alias_ alias_ ""

theorem splitRow_divided {alias_ : String} (h : '=' ∉ alias_.toList) (iri : String) :
    splitRow (alias_ ++ "=" ++ iri) = (alias_, iri) := by
  have hrow : (alias_ ++ "=" ++ iri).toList = alias_.toList ++ '=' :: iri.toList := by simp
  simp only [splitRow, hrow, span_mark h, List.drop_succ_cons, List.drop_zero,
    String.ofList_toList]

theorem splitRow_bare {alias_ : String} (h : '=' ∉ alias_.toList) :
    splitRow alias_ = (alias_, "") := by
  simp only [splitRow, span_no_mark h, List.drop_nil, String.ofList_toList, String.ofList_nil]

section
variable {row alias_ iri : String}

theorem Gives.splitRow_eq (h : Gives row alias_ iri) : splitRow row = (alias_, iri) := by
  cases h with
  | divided halias => exact splitRow_divided halias iri
  | bare halias => exact splitRow_bare halias

theorem Gives.equals_not_mem (h : Gives row alias_ iri) : '=' ∉ alias_.toList := by
  cases h with
  | divided halias | bare halias => exact halias

theorem exists_gives (row : String) : ∃ alias_ iri, Gives row alias_ iri := by
  by_cases hmem : '=' ∈ row.toList
  · obtain ⟨a, i, hrow, ha⟩ := List.eq_append_cons_of_mem hmem
    have hsplit : row = String.ofList a ++ "=" ++ String.ofList i := by
      rw [← String.toList_inj, hrow]
      simp
    have halias : '=' ∉ (String.ofList a).toList := by rwa [String.toList_ofList]
    exact ⟨_, _, hsplit ▸ Gives.divided halias⟩
  · exact ⟨row, "", .bare hmem⟩

theorem splitRow_eq_iff : splitRow row = (alias_, iri) ↔ Gives row alias_ iri := by
  refine ⟨fun h => ?_, Gives.splitRow_eq⟩
  obtain ⟨a, i, hgives⟩ := exists_gives row
  obtain ⟨rfl, rfl⟩ := Prod.mk.inj (hgives.splitRow_eq.symm.trans h)
  exact hgives

end

/-! ### Look-up -/

theorem lookup_entry (a b iri : String) (entries : List (String × String)) :
    ((a, iri) :: entries).lookup b = if b = a then some iri else entries.lookup b := by
  rw [List.lookup_cons]
  by_cases h : b = a
  · rw [if_pos h, beq_iff_eq.mpr h]
  · rw [if_neg h, beq_false_of_ne h]

theorem lookup_insertEntry (a b iri : String) (entries : List (String × String)) :
    (insertEntry a iri entries).lookup b = if b = a then some iri else entries.lookup b := by
  induction entries with
  | nil => exact lookup_entry a b iri []
  | cons first rest ih =>
    obtain ⟨a', i⟩ := first
    rw [insertEntry]
    split
    next => exact lookup_entry a b iri _
    next =>
      split
      next heq =>
        rw [lookup_entry, lookup_entry, ← heq]
        by_cases h : b = a <;> simp [h]
      next hne =>
        rw [lookup_entry, lookup_entry, ih]
        by_cases h : b = a'
        · have hba : b ≠ a := fun heq => hne (heq.symm.trans h)
          rw [if_pos h, if_neg hba, if_pos h]
        · rw [if_neg h, if_neg h]

theorem ofPairs_concat (pairs : List (String × String)) (p : String × String) :
    ofPairs (pairs ++ [p]) = (ofPairs pairs).insert p.1 p.2 := by
  rw [ofPairs, List.foldl_append]
  rfl

theorem get?_ofPairs (pairs : List (String × String)) (a : String) :
    (ofPairs pairs).get? a = pairs.reverse.lookup a := by
  induction pairs using List.reverseRecOn with
  | nil => rfl
  | append_singleton pairs p ih =>
    rw [ofPairs_concat, List.reverse_concat, lookup_entry, ← ih]
    exact lookup_insertEntry p.1 a p.2 (ofPairs pairs).entries

/-- Of the rows for an alias the last one counts. -/
theorem get?_ofRows_eq_some_iff {rows : List String} {a iri : String} :
    (ofRows rows).get? a = some iri ↔
      ∃ before row after, rows = before ++ row :: after ∧ Gives row a iri ∧
        ∀ later ∈ after, ∀ iri', ¬Gives later a iri' := by
  rw [ofRows, get?_ofPairs, ← List.map_reverse, List.lookup_eq_some_iff]
  constructor
  · intro h
    obtain ⟨after, before, hsplit, hafter⟩ := h
    obtain ⟨after, before, hrows, rfl, hrest⟩ := List.map_eq_append_iff.mp hsplit
    obtain ⟨row, before, rfl, hrow, -⟩ := List.map_eq_cons_iff.mp hrest
    refine ⟨before.reverse, row, after.reverse, ?_, splitRow_eq_iff.mp hrow, ?_⟩
    · rw [← List.reverse_reverse rows, hrows]
      simp
    · intro later hlater iri' hgives
      have hne := hafter _ (List.mem_map_of_mem (List.mem_reverse.mp hlater))
      rw [hgives.splitRow_eq] at hne
      simp at hne
  · intro h
    obtain ⟨before, row, after, rfl, hrow, hafter⟩ := h
    refine ⟨after.reverse.map splitRow, before.reverse.map splitRow, ?_, ?_⟩
    · simp [hrow.splitRow_eq]
    · intro p hp
      obtain ⟨later, hlater, rfl⟩ := List.mem_map.mp hp
      refine bne_iff_ne.mpr fun heq => ?_
      exact hafter later (List.mem_reverse.mp hlater) (splitRow later).2
        (splitRow_eq_iff.mp (Prod.ext heq.symm rfl))

/-! ### Writing and reading -/

/-- An alias behind all others is put at the end. -/
theorem insertEntry_of_forall_lt {a iri : String} {entries : List (String × String)}
    (h : ∀ e ∈ entries, e.1 < a) : insertEntry a iri entries = entries ++ [(a, iri)] := by
  induction entries with
  | nil => rfl
  | cons first rest ih =>
    have hlt : first.1 < a := h first (List.mem_cons_self ..)
    rw [insertEntry, if_neg (not_lt_of_gt hlt), if_neg (ne_of_gt hlt),
      ih fun e he => h e (List.mem_cons_of_mem first he)]
    rfl

theorem entries_ofPairs {entries : List (String × String)} (h : entries.Pairwise (·.1 < ·.1)) :
    (ofPairs entries).entries = entries := by
  induction entries using List.reverseRecOn with
  | nil => rfl
  | append_singleton entries e ih =>
    obtain ⟨hentries, -, hlast⟩ := List.pairwise_append.mp h
    have hbehind (e' : String × String) (he' : e' ∈ entries) : e'.1 < e.1 :=
      hlast e' he' e (List.mem_singleton_self e)
    rw [ofPairs_concat, entries_insert, ih hentries, insertEntry_of_forall_lt hbehind]

theorem ofPairs_entries (m : Namespaces) : ofPairs m.entries = m :=
  Namespaces.ext (entries_ofPairs m.ordered)

/-- Namespaces whose aliases hold no equals sign are read back from their rows. -/
theorem ofRows_rows {m : Namespaces} (haliases : ∀ a ∈ m.aliases, '=' ∉ a.toList) :
    ofRows m.rows = m := by
  have hsplit : m.rows.map splitRow = m.entries := by
    rw [rows, List.map_map, List.map_congr_left, List.map_id]
    intro e he
    exact splitRow_divided (haliases e.1 (List.mem_map_of_mem he)) e.2
  rw [ofRows, hsplit, ofPairs_entries]

theorem mem_of_mem_ofPairs {pairs : List (String × String)} {e : String × String}
    (h : e ∈ (ofPairs pairs).entries) : e ∈ pairs := by
  induction pairs using List.reverseRecOn with
  | nil => exact h
  | append_singleton pairs p ih =>
    rw [ofPairs_concat] at h
    rcases mem_insertEntry h with rfl | h
    · exact List.mem_append_right _ (List.mem_singleton_self _)
    · exact List.mem_append_left _ (ih h)

theorem equals_not_mem_ofRows {rows : List String} :
    ∀ a ∈ (ofRows rows).aliases, '=' ∉ a.toList := by
  intro a ha
  obtain ⟨e, he, rfl⟩ := List.mem_map.mp ha
  obtain ⟨row, -, hrow⟩ := List.mem_map.mp (mem_of_mem_ofPairs he)
  exact (splitRow_eq_iff.mp hrow).equals_not_mem

/-- Aliases grow from row to row. -/
theorem pairwise_rows {m : Namespaces} (haliases : ∀ a ∈ m.aliases, '=' ∉ a.toList) :
    m.rows.Pairwise fun row later => ∀ a iri a' iri', Gives row a iri → Gives later a' iri' →
      encode a < encode a' := by
  refine List.pairwise_map.mpr (m.ordered.imp_of_mem fun {e e'} he he' hlt => ?_)
  intro a iri a' iri' hrow hlater
  have hfirst := splitRow_divided (haliases e.1 (List.mem_map_of_mem he)) e.2
  have hsecond := splitRow_divided (haliases e'.1 (List.mem_map_of_mem he')) e'.2
  obtain ⟨rfl, -⟩ := Prod.mk.inj (hfirst.symm.trans hrow.splitRow_eq)
  obtain ⟨rfl, -⟩ := Prod.mk.inj (hsecond.symm.trans hlater.splitRow_eq)
  exact encode_lt_encode_iff.mpr hlt

/-- **Rows and namespaces are turned into each other without loss.** Namespaces are read back from
their rows, if no alias holds an equals sign. Rows are read as the IRIs that the last row for each
alias gives; written again they grow by alias, and are read as before. -/
theorem rows_faithful :
    (∀ m : Namespaces, (∀ a ∈ m.aliases, '=' ∉ a.toList) → ofRows m.rows = m) ∧
      ∀ rows : List String,
        (∀ a iri, (ofRows rows).get? a = some iri ↔
          ∃ before row after, rows = before ++ row :: after ∧ Gives row a iri ∧
            ∀ later ∈ after, ∀ iri', ¬Gives later a iri') ∧
        ((ofRows rows).rows.Pairwise fun row later => ∀ a iri a' iri',
          Gives row a iri → Gives later a' iri' → encode a < encode a') ∧
        ofRows (ofRows rows).rows = ofRows rows := by
  constructor
  · intro m haliases
    exact ofRows_rows haliases
  · intro rows
    refine ⟨fun a iri => get?_ofRows_eq_some_iff, ?_, ?_⟩
    · exact pairwise_rows equals_not_mem_ofRows
    · exact ofRows_rows equals_not_mem_ofRows

/-- Rows out of order, of which two are for one alias, one is for the empty alias and one has no
equals sign. -/
theorem rows_faithful_repeated :
    let m : Namespaces := { entries := [("", "w"), ("a", ""), ("b", "u=v")] }
    let rows := ["b=x", "=w", "b=u=v", "a"]
    (∀ a ∈ m.aliases, '=' ∉ a.toList) ∧ ofRows m.rows = m ∧ ofRows rows = m ∧
      ofRows (ofRows rows).rows = ofRows rows := by
  intro m rows
  have hrows : ofRows rows = m := by decide
  have haliases : ∀ a ∈ m.aliases, '=' ∉ a.toList := by decide
  exact ⟨haliases, rows_faithful.1 m haliases, hrows, (rows_faithful.2 rows).2.2⟩

end GraphLanguages.Namespaces
