import GraphLanguages.Vocabulary

/-! Names of token types.

Where no two types of a vocabulary share a name, the type of a name is the type of
every token of that name (`distinct_of_nodup`). That is decided on numbers for the names
(`distinct_of_allNew`). -/
namespace GraphLanguages

namespace Vocabulary

/-- No two types share a name. -/
def Distinct (v : Vocabulary) : Prop :=
  ∀ T ∈ v.types, v.get? T.name = some T

/-- The last of some types that has the name, else what was found before. -/
def lastNamed (name : String) (found : Option TokenType) (types : List TokenType) :
    Option TokenType :=
  types.foldl (fun found t => if t.name == name then some t else found) found

theorem lastNamed_of_not_mem {name : String} {found : Option TokenType} {types : List TokenType}
    (h : name ∉ types.map (·.name)) : lastNamed name found types = found := by
  induction types with
  | nil => rfl
  | cons T Ts ih =>
    simp only [List.map_cons, List.mem_cons, not_or] at h
    rw [lastNamed, List.foldl_cons, if_neg (by simpa using fun he => h.1 he.symm)]
    exact ih h.2

theorem lastNamed_of_nodup {found : Option TokenType} {types : List TokenType}
    (h : (types.map (·.name)).Nodup) {T : TokenType} (hT : T ∈ types) :
    lastNamed T.name found types = some T := by
  induction types generalizing found with
  | nil => cases hT
  | cons U Us ih =>
    simp only [List.map_cons, List.nodup_cons] at h
    rw [lastNamed, List.foldl_cons]
    rcases List.mem_cons.mp hT with rfl | hT
    · rw [if_pos (beq_self_eq_true _)]
      exact lastNamed_of_not_mem h.1
    · exact ih h.2 hT

theorem distinct_of_nodup {v : Vocabulary} (h : (v.types.map (·.name)).Nodup) : v.Distinct :=
  fun _ hT => lastNamed_of_nodup h hT

/-- A token of the type with that name. -/
def token (v : Vocabulary) (name image : String) (start : Nat) : Token :=
  .ofImage ((v.get? name).getD unknownType) image start

/-! ### Names as numbers -/

/-- A number for a name. Numbers are told apart at once, names letter by letter. -/
def nameCode (name : String) : Nat :=
  name.toByteArray.data.toList.foldl (fun n b => (n * 256 + b.toNat) % 65521) 0

/-- Is it the same name? Most are told apart by their numbers. -/
def sameName (a b : String) : Bool :=
  Nat.beq (nameCode a) (nameCode b) && a == b

theorem sameName_eq (a b : String) : sameName a b = (a == b) := by
  by_cases h : a = b <;> simp [sameName, h]

theorem any_sameName (u : String) (names : List String) :
    names.any (sameName u) = names.contains u := by
  simp only [List.contains_eq_any_beq, ← sameName_eq]

/-- Is every number a new one? Those that have been seen are the bits of a mask. -/
def allNew : (seen : Nat) → List Nat → Bool
  | _, [] => true
  | seen, n :: ns => !seen.testBit n && allNew (seen ||| 1 <<< n) ns

theorem nodup_of_allNew {seen : Nat} {ns : List Nat} (h : allNew seen ns = true) :
    ns.Nodup ∧ ∀ n ∈ ns, seen.testBit n = false := by
  induction ns generalizing seen with
  | nil => exact ⟨.nil, nofun⟩
  | cons n ns ih =>
    rw [allNew, Bool.and_eq_true, Bool.not_eq_true'] at h
    obtain ⟨hnodup, hnew⟩ := ih h.2
    -- what comes later is neither a bit of the mask nor the bit that is added
    have hlater : ∀ m ∈ ns, seen.testBit m = false ∧ n ≠ m := by
      intro m hm
      simpa [Nat.testBit_or, Nat.one_shiftLeft, Nat.testBit_two_pow] using hnew m hm
    refine ⟨List.nodup_cons.mpr ⟨fun hmem => (hlater n hmem).2 rfl, hnodup⟩, ?_⟩
    exact List.forall_mem_cons.mpr ⟨h.1, fun m hm => (hlater m hm).1⟩

theorem distinct_of_allNew {v : Vocabulary}
    (h : allNew 0 ((v.types.map (·.name)).map nameCode) = true) : v.Distinct :=
  distinct_of_nodup <| List.Pairwise.of_map nameCode (fun _ _ => mt (congrArg nameCode))
    (nodup_of_allNew h).1

theorem exists_lastNamed {name : String} {found : Option TokenType} {types : List TokenType}
    (h : name ∈ types.map (·.name)) : ∃ T, lastNamed name found types = some T := by
  induction types generalizing found with
  | nil => cases h
  | cons U Us ih =>
    rw [lastNamed, List.foldl_cons]
    by_cases hUs : name ∈ Us.map (·.name)
    · exact ih hUs
    · have hU : U.name = name := by simpa [hUs, eq_comm] using h
      rw [if_pos (beq_iff_eq.mpr hU)]
      exact ⟨U, lastNamed_of_not_mem hUs⟩

/-- There always is a type for text that matches nothing. -/
theorem exists_unknown (types : List TokenType) :
    ∃ T, (ofTypes types).get? unknownName = some T := by
  refine exists_lastNamed ?_
  unfold ofTypes
  split
  next h =>
    obtain ⟨T, hT, hname⟩ := List.any_eq_true.mp h
    exact List.mem_map.mpr ⟨T, hT, beq_iff_eq.mp hname⟩
  next => exact List.mem_map.mpr ⟨unknownType, by simp, rfl⟩

theorem lastNamed_eq_some {name : String} {found : Option TokenType} {types : List TokenType}
    {T : TokenType} (h : lastNamed name found types = some T) :
    found = some T ∨ T ∈ types ∧ T.name = name := by
  induction types generalizing found with
  | nil => exact .inl h
  | cons U Us ih =>
    rw [lastNamed, List.foldl_cons] at h
    rcases ih h with h | ⟨hm, hn⟩
    · split at h
      next hU =>
        cases h
        exact .inr ⟨List.mem_cons_self .., by simpa using hU⟩
      next => exact .inl h
    · exact .inr ⟨List.mem_cons_of_mem _ hm, hn⟩

theorem mem_of_get? {v : Vocabulary} {name : String} {T : TokenType} (h : v.get? name = some T) :
    T ∈ v.types ∧ T.name = name :=
  (lastNamed_eq_some h).resolve_left (by simp)

theorem ofTypes_sublist {ts us : List TokenType} (h : ts.Sublist us)
    (hu : (us.any fun t => t.name == unknownName) = ts.any fun t => t.name == unknownName) :
    (ofTypes ts).types.Sublist (ofTypes us).types := by
  unfold ofTypes
  rw [hu]
  split
  · exact h
  · exact h.append (List.Sublist.refl _)

theorem subset_ofTypes (types : List TokenType) : types ⊆ (ofTypes types).types := by
  unfold ofTypes
  split
  · exact List.Subset.refl types
  · exact List.subset_append_left types [unknownType]

/-- The name is that of a type that stands for all types of the category. -/
def offers (v : Vocabulary) (category : Category) (name : String) : Bool :=
  match v.get? name with
  | some T => T.pattern == .anyOf category
  | none => false

theorem exists_of_offers {v : Vocabulary} {c : Category} {name : String}
    (h : v.offers c name = true) : ∃ T, v.get? name = some T ∧ T.pattern = .anyOf c := by
  unfold offers at h
  split at h
  next T hT => exact ⟨T, hT, by simpa using h⟩
  next => cases h

end Vocabulary

end GraphLanguages
