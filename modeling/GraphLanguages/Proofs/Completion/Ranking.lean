import Mathlib.Data.String.Basic
import GraphLanguages.Completion.Data
import GraphLanguages.Proofs.Text.Numeral

/-! The order in which clients list the items of bindings.

A sort text is a mark for the kind of item, the rank of the binding, and a name. The marks
alone put prefixed items before full ones (`items_prefixed_first`). Ranks are numerals of
different lengths, and texts: a binding that occurs more often sorts first only where its
rank is less than the beginning of the other rank (`Leads`), which among counts from one to
nine tenths of `sortBase` it always is (`leads_of_lt`). -/
namespace GraphLanguages.Completion
open Text

/-- Clients list suggestions in the order of their sort texts, character by character. -/
def Suggestion.SortsBefore (s t : Suggestion) : Prop :=
  ∃ k ∈ s.sortText, ∃ l ∈ t.sortText, k < l

def Suggestion.SortsNoLater (s t : Suggestion) : Prop :=
  ∃ k ∈ s.sortText, ∃ l ∈ t.sortText, k ≤ l

namespace Binding

/-! ### Sort texts -/

theorem toList_rank (b : Binding) : b.rank.toList = Nat.toDigits 10 (sortBase - b.count) := by
  rw [rank, Nat.toString_eq_ofList_toDigits, String.toList_ofList]

/-- The sort text of an item: a mark, the rank, and a name. -/
def sortKey (mark : String) (b : Binding) (name : String) : String :=
  mark ++ b.rank ++ name

theorem toList_sortKey (mark : String) (b : Binding) (name : String) :
    (sortKey mark b name).toList =
      mark.toList ++ (Nat.toDigits 10 (sortBase - b.count) ++ name.toList) := by
  simp only [sortKey, String.toList_append, toList_rank, List.append_assoc]

theorem sortText_fullItem (b : Binding) : b.fullItem.sortText = some (sortKey "01" b b.iri) :=
  rfl

theorem sortText_of_prefixedItem {namespaces : Namespaces} {b : Binding} {s : Suggestion}
    (h : s ∈ prefixedItem? namespaces b) : ∃ name, s.sortText = some (sortKey "00" b name) := by
  obtain ⟨name, -, rfl⟩ := Option.map_eq_some_iff.mp h
  exact ⟨name, rfl⟩

theorem kind_of_prefixedItem {namespaces : Namespaces} {b : Binding} {s : Suggestion}
    (h : s ∈ prefixedItem? namespaces b) : s.kind = .field := by
  obtain ⟨name, -, rfl⟩ := Option.map_eq_some_iff.mp h
  rfl

theorem mem_items {namespaces : Namespaces} {bindings : List Binding} {s : Suggestion} :
    s ∈ items namespaces bindings ↔
      (∃ b ∈ bindings, b.fullItem = s) ∨ ∃ b ∈ bindings, s ∈ prefixedItem? namespaces b := by
  rw [items, List.mem_append, List.mem_map, List.mem_filterMap]
  rfl

/-! ### Marks -/

/-- The marks differ in their second character, before any rank. -/
theorem sortKey_marks (a b : Binding) (name name' : String) :
    sortKey "00" a name < sortKey "01" b name' := by
  rw [String.lt_iff_toList_lt, toList_sortKey, toList_sortKey]
  exact List.cons_lt_cons_iff.mpr (.inr ⟨rfl, List.cons_lt_cons_iff.mpr (.inl (by decide))⟩)

theorem items_prefixed_first (namespaces : Namespaces) (bindings : List Binding)
    (s t : Suggestion) (hs : s ∈ items namespaces bindings) (ht : t ∈ items namespaces bindings)
    (hprefixed : s.kind = .field) (hfull : t.kind = .enumMember) : s.SortsBefore t := by
  obtain ⟨a, -, rfl⟩ | ⟨a, -, ha⟩ := mem_items.mp hs
  · cases hprefixed
  obtain ⟨b, -, rfl⟩ | ⟨b, -, hb⟩ := mem_items.mp ht
  · obtain ⟨name, hname⟩ := sortText_of_prefixedItem ha
    exact ⟨_, hname, _, sortText_fullItem b, sortKey_marks a b name b.iri⟩
  · cases hfull.symm.trans (kind_of_prefixedItem hb)

/-! ### Ranks -/

/-- The rank of a binding that occurs `m` times is less than the beginning of the rank of
one that occurs `n` times. -/
def Leads (m n : Nat) : Prop :=
  sortBase - m < leading (numeralLength (sortBase - m)) (sortBase - n)

theorem numeralLength_rank {n : Nat} (hpos : 0 < n) (hle : n ≤ 90000000000000) :
    numeralLength (sortBase - n) = 14 := by
  have hshort : numeralLength (sortBase - n) ≤ 14 :=
    (numeralLength_le_iff (by decide)).mpr (by unfold sortBase; omega)
  have hlong : ¬numeralLength (sortBase - n) ≤ 13 := fun hle =>
    absurd ((numeralLength_le_iff (by decide)).mp hle) (by unfold sortBase; omega)
  omega

/-- Ranks of one length compare as numbers. -/
theorem leads_of_lt {m n : Nat} (hn : 0 < n) (h : n < m) (hm : m ≤ 90000000000000) :
    Leads m n := by
  rw [Leads, leading, numeralLength_rank (by omega) hm, numeralLength_rank hn (by omega)]
  simp only [Nat.sub_self, Nat.pow_zero, Nat.div_one]
  unfold sortBase
  omega

theorem append_lt_append_iff (cs xs ys : List Char) : cs ++ xs < cs ++ ys ↔ xs < ys := by
  induction cs with
  | nil => rfl
  | cons c cs ih => rw [List.cons_append, List.cons_append, List.cons_lt_cons_self, ih]

theorem sortKey_lt_iff (mark : String) (a b : Binding) (name name' : String) :
    sortKey mark a name < sortKey mark b name' ↔
      Nat.toDigits 10 (sortBase - a.count) ++ name.toList <
        Nat.toDigits 10 (sortBase - b.count) ++ name'.toList := by
  rw [String.lt_iff_toList_lt, toList_sortKey, toList_sortKey, append_lt_append_iff]

section
variable {a b : Binding} (hcount : b.count < a.count) (h : Leads a.count b.count)
include hcount h

theorem sortKey_lt (mark name name' : String) : sortKey mark a name < sortKey mark b name' :=
  (sortKey_lt_iff mark a b name name').mpr (toDigits_append_lt (by omega) h _ _)

theorem fullItem_sortsBefore : a.fullItem.SortsBefore b.fullItem :=
  ⟨_, sortText_fullItem a, _, sortText_fullItem b, sortKey_lt hcount h _ _ _⟩

theorem prefixedItem_sortsBefore {namespaces : Namespaces} {s t : Suggestion}
    (hs : s ∈ prefixedItem? namespaces a) (ht : t ∈ prefixedItem? namespaces b) :
    s.SortsBefore t := by
  obtain ⟨name, hname⟩ := sortText_of_prefixedItem hs
  obtain ⟨name', hname'⟩ := sortText_of_prefixedItem ht
  exact ⟨_, hname, _, hname', sortKey_lt hcount h _ _ _⟩

end

/-- Whatever the IRIs, the full items of two counts sort by count only where one leads. -/
theorem fullItem_sortsNoLater_iff {m n : Nat} (hcount : n < m) :
    (∀ iri iri' : String, (fullItem ⟨iri, m⟩).SortsNoLater (fullItem ⟨iri', n⟩)) ↔
      Leads m n := by
  constructor
  · intro hall
    refine (toDigits_append_not_gt_iff (by omega)).mp fun xs ys => ?_
    obtain ⟨_, hk, _, hl, hle⟩ := hall (String.ofList xs) (String.ofList ys)
    cases hk
    cases hl
    have hnot := mt (sortKey_lt_iff "01" ⟨_, n⟩ ⟨_, m⟩ _ _).mpr (not_lt.mpr hle)
    simpa only [String.toList_ofList] using hnot
  · intro h iri iri'
    exact ⟨_, sortText_fullItem _, _, sortText_fullItem _, (sortKey_lt hcount h _ _ _).le⟩

/-- Prefixed items sort before full ones. Of two bindings the one that occurs more often
goes first, in full and prefixed, if its rank leads; without that, there are IRIs for which
it does not. Between one occurrence and nine tenths of `sortBase`, higher counts lead. -/
theorem items_ranked (namespaces : Namespaces) (bindings : List Binding) :
    (∀ s ∈ items namespaces bindings, ∀ t ∈ items namespaces bindings,
      s.kind = .field → t.kind = .enumMember → s.SortsBefore t) ∧
    (∀ a ∈ bindings, ∀ b ∈ bindings, b.count < a.count → Leads a.count b.count →
      a.fullItem.SortsBefore b.fullItem ∧
      ∀ s ∈ prefixedItem? namespaces a, ∀ t ∈ prefixedItem? namespaces b, s.SortsBefore t) ∧
    (∀ m n, n < m →
      ((∀ iri iri', (fullItem ⟨iri, m⟩).SortsNoLater (fullItem ⟨iri', n⟩)) ↔ Leads m n)) ∧
    (∀ m n, 0 < n → n < m → m ≤ 90000000000000 → Leads m n) :=
  ⟨fun s hs t ht => items_prefixed_first namespaces bindings s t hs ht,
    fun _ _ _ _ hcount h =>
      ⟨fullItem_sortsBefore hcount h, fun _ hs _ ht => prefixedItem_sortsBefore hcount h hs ht⟩,
    fun _ _ => fullItem_sortsNoLater_iff, fun _ _ => leads_of_lt⟩

theorem items_ranked_pair :
    (∃ s ∈ prefixedItem? { entries := [("ex", "urn:ex:")] } ⟨"urn:ex:a", 12⟩,
      ∃ t ∈ prefixedItem? { entries := [("ex", "urn:ex:")] } ⟨"urn:ex:b", 3⟩,
        s.SortsBefore t ∧ s.SortsBefore (fullItem ⟨"urn:ex:a", 12⟩)) ∧
    (fullItem ⟨"urn:ex:a", 12⟩).SortsBefore (fullItem ⟨"urn:ex:b", 3⟩) := by
  obtain ⟨hmarks, hranks, -, hleads⟩ :=
    items_ranked { entries := [("ex", "urn:ex:")] } [⟨"urn:ex:b", 3⟩, ⟨"urn:ex:a", 12⟩]
  obtain ⟨hfull, hprefixed⟩ := hranks ⟨"urn:ex:a", 12⟩ (by decide) ⟨"urn:ex:b", 3⟩ (by decide)
    (by decide) (hleads 12 3 (by decide) (by decide) (by decide))
  refine ⟨⟨_, rfl, _, rfl, hprefixed _ rfl _ rfl, hmarks _ ?_ _ ?_ rfl rfl⟩, hfull⟩
  · exact mem_items.mpr (.inr ⟨⟨"urn:ex:a", 12⟩, by decide, rfl⟩)
  · exact mem_items.mpr (.inl ⟨⟨"urn:ex:a", 12⟩, by decide, rfl⟩)

/-- The rank of no occurrence is a digit longer than that of one, and begins with a one. -/
theorem unused_binding_sorts_first :
    ¬(fullItem ⟨"urn:a", 1⟩).SortsNoLater (fullItem ⟨"urn:b", 0⟩) := by
  rintro ⟨_, hk, _, hl, hle⟩
  cases hk
  cases hl
  exact absurd hle (by decide)

end Binding

end GraphLanguages.Completion
