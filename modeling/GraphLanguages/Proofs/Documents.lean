import GraphLanguages.Documents

/-! What the store of open documents shows.

An update or a removal changes what is seen of its own document alone. After an update
that brings a parse, the document is seen with that text and that parse, whatever was
kept of it before. -/
namespace GraphLanguages

section
variable {α β : Type} [BEq α] [LawfulBEq α]

theorem lookup_filter_self (a : α) (entries : List (α × β)) :
    (entries.filter fun e => e.1 != a).lookup a = none := by
  rw [List.lookup_eq_none_iff]
  intro e he
  have hne : e.1 ≠ a := by simpa using (List.mem_filter.mp he).2
  simpa using hne.symm

theorem lookup_filter_of_ne {a b : α} (h : b ≠ a) (entries : List (α × β)) :
    (entries.filter fun e => e.1 != a).lookup b = entries.lookup b := by
  induction entries with
  | nil => rfl
  | cons e es ih =>
    by_cases he : e.1 = a
    · have hb : (b == e.1) = false := by simpa [he] using h
      rw [List.filter_cons_of_neg (by simpa using he), ih, List.lookup_cons, hb]
    · rw [List.filter_cons_of_pos (by simpa using he), List.lookup_cons, List.lookup_cons, ih]

end

namespace ParseCache
variable {c : ParseCache} {uri other : Uri}

theorem get_clear_self : (c.clear uri).get uri = {} := by
  rw [get, clear, lookup_filter_self]
  rfl

theorem get_clear_of_ne (h : other ≠ uri) : (c.clear uri).get other = c.get other := by
  rw [get, clear, lookup_filter_of_ne h, get]

theorem get_save_self (update : ParseState) :
    (c.save uri update).get uri = (c.get uri).updated update := by
  simp [get, save]

theorem get_save_of_ne (h : other ≠ uri) (update : ParseState) :
    (c.save uri update).get other = c.get other := by
  have hb : (other == uri) = false := by simpa using h
  rw [get, save, List.lookup_cons, hb]
  exact get_clear_of_ne h

end ParseCache

namespace Documents
variable {d : Documents} {uri other : Uri}

theorem snapshot?_update_self (text : String) (state : ParseState) :
    (d.update uri text (some state)).snapshot? uri = some (⟨d.issued, text⟩, state) := by
  have hget : ((d.parses.clear uri).save uri state).get uri = state := by
    rw [ParseCache.get_save_self, ParseCache.get_clear_self]
    simp [ParseState.updated]
  simp [snapshot?, update, hget]

theorem snapshot?_update_of_ne (h : other ≠ uri) (text : String) (parse : Option ParseState) :
    (d.update uri text parse).snapshot? other = d.snapshot? other := by
  have htexts : (d.update uri text parse).texts.lookup other = d.texts.lookup other := by
    have hb : (other == uri) = false := by simpa using h
    show List.lookup other ((uri, _) :: d.texts.filter fun e => e.1 != uri) = _
    rw [List.lookup_cons, hb]
    exact lookup_filter_of_ne h d.texts
  have hparses : (d.update uri text parse).parses.get other = d.parses.get other := by
    cases parse with
    | none => exact ParseCache.get_clear_of_ne h
    | some state =>
      exact (ParseCache.get_save_of_ne h state).trans (ParseCache.get_clear_of_ne h)
  rw [snapshot?, htexts, hparses, snapshot?]

theorem snapshot?_remove_self : (d.remove uri).snapshot? uri = none := by
  rw [snapshot?, remove, lookup_filter_self]
  rfl

theorem snapshot?_remove_of_ne (h : other ≠ uri) :
    (d.remove uri).snapshot? other = d.snapshot? other := by
  have htexts : (d.remove uri).texts.lookup other = d.texts.lookup other :=
    lookup_filter_of_ne h d.texts
  have hparses : (d.remove uri).parses.get other = d.parses.get other :=
    ParseCache.get_clear_of_ne h
  rw [snapshot?, htexts, hparses, snapshot?]

end Documents

end GraphLanguages
