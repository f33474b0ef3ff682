import GraphLanguages.Proofs.Grammar.InStep
import GraphLanguages.Proofs.Vocabulary

/-! Questions about words.

Where all tokens are of a distinct vocabulary, their names decide every question about
them (`ask_eq_holdsOn`). Of a question one can say which names at the end of a word
matter to it (`asked`): no other name changes its answer (`holdsOn_append`), and no
token of another name fits what content assist notes for it (`asked_of_accepts`). -/
namespace GraphLanguages

/-- The token is one that the type is a candidate for. A type that stands for a category
is never lexed: it is for the tokens whose type is of the vocabulary and carries the
category. Any other type is for its own tokens. -/
def TokenType.Accepts (v : Vocabulary) (T : TokenType) (t : Token) : Prop :=
  match T.pattern with
  | .anyOf c => t.type ∈ v.types ∧ t.type.has c = true
  | _ => t.type = T

namespace Vocabulary

/-- The names of the types that carry a category. -/
def carriers (v : Vocabulary) (c : Category) : List String :=
  (v.types.filter (·.has c)).map (·.name)

/-- The types that stand for a category. -/
def groups (v : Vocabulary) : List (String × Category) :=
  v.types.filterMap fun T =>
    match T.pattern with
    | .anyOf c => some (T.name, c)
    | _ => none

/-- The names of the types that the type of this name stands for. -/
def stoodFor (v : Vocabulary) (name : String) : List String :=
  match v.groups.lookup name with
  | some c => v.carriers c
  | none => [name]

section
variable {v : Vocabulary} {t : Token}

theorem Distinct.eq (hv : v.Distinct) {T U : TokenType} (hT : T ∈ v.types) (hU : U ∈ v.types)
    (h : T.name = U.name) : T = U :=
  Option.some.inj ((hv T hT).symm.trans (h ▸ hv U hU))

theorem mem_carriers (hv : v.Distinct) (ht : t.type ∈ v.types) (c : Category) :
    t.name ∈ v.carriers c ↔ t.has c = true := by
  simp only [carriers, List.mem_map, List.mem_filter]
  constructor
  · rintro ⟨T, ⟨hT, hc⟩, hn⟩
    rw [hv.eq hT ht hn] at hc
    exact hc
  · exact fun h => ⟨t.type, ⟨ht, h⟩, rfl⟩

theorem mem_groups {name : String} {c : Category} :
    (name, c) ∈ v.groups ↔ ∃ T ∈ v.types, T.name = name ∧ T.pattern = .anyOf c := by
  simp only [groups, List.mem_filterMap]
  constructor
  · rintro ⟨T, hT, h⟩
    split at h
    next c' hp =>
      cases h
      exact ⟨T, hT, rfl, hp⟩
    next => cases h
  · rintro ⟨T, hT, rfl, hp⟩
    exact ⟨T, hT, by rw [hp]⟩

/-- A token that the type of a name is a candidate for has one of the names that the
type stands for. -/
theorem name_mem_stoodFor (hv : v.Distinct) (ht : t.type ∈ v.types) {name : String}
    {T : TokenType} (hT : v.get? name = some T) (ha : T.Accepts v t) :
    t.name ∈ v.stoodFor name := by
  obtain ⟨hmem, hname⟩ := mem_of_get? hT
  unfold stoodFor
  split
  next c hl =>
    obtain ⟨l₁, l₂, hg, _⟩ := List.lookup_eq_some_iff.mp hl
    obtain ⟨U, hU, hn, hp⟩ := mem_groups.mp (show (name, c) ∈ v.groups by simp [hg])
    obtain rfl := hv.eq hU hmem (hn.trans hname.symm)
    simp only [TokenType.Accepts, hp] at ha
    exact (mem_carriers hv ht c).mpr ha.2
  next hl =>
    unfold TokenType.Accepts at ha
    split at ha
    next c hp =>
      have := List.lookup_eq_none_iff.mp hl _ (mem_groups.mpr ⟨T, hmem, hname, hp⟩)
      simp at this
    next =>
      rw [List.mem_singleton, ← hname, ← ha]
      rfl

end

end Vocabulary

namespace Grammar

/-- The names of some tokens. -/
abbrev Word := List String

def names (tokens : List Token) : Word :=
  tokens.map Token.name

namespace Lookahead

/-- The answer on tokens of these names. -/
def holdsOn (v : Vocabulary) : Lookahead → Word → Bool
  | .is name, w => w[0]?.any (· == name)
  | .anyOf names, w => w[0]?.any fun u => names.any (u == ·)
  | .tagged c _, w => w[0]?.any ((v.carriers c).contains ·)
  | .either a b, w => a.holdsOn v w || b.holdsOn v w
  | .both a b, w => a.holdsOn v w && b.holdsOn v w
  | .negated a, w => !a.holdsOn v w
  | .aheadIs d name, w => w[d]?.any (· == name)
  | .aheadTagged d c, w => w[d]?.any ((v.carriers c).contains ·)
  | .atEnd, w => w.isEmpty

/-- The names of a token at the distance that matter to the question, if nothing
comes behind it. -/
def asked (v : Vocabulary) (d : Nat) : Lookahead → List String
  | .is name => if d = 0 then name :: (v.stoodFor name).filter (· != name) else []
  | .anyOf names =>
    if d = 0 then names.flatMap fun name => name :: (v.stoodFor name).filter (· != name) else []
  | .tagged c offered =>
    if d = 0 then
      v.carriers c ++
        if v.contains offered then (v.stoodFor offered).filter (!(v.carriers c).contains ·) else []
    else []
  | .either a b | .both a b => a.asked v d ++ b.asked v d
  | .negated a => a.asked v d
  | .aheadIs e name => if e = d then [name] else []
  | .aheadTagged e c => if e = d then v.carriers c else []
  | .atEnd => []

/-! ### Names decide -/

section
variable {v : Vocabulary} {σ : Setting} {size : Nat} {open_ : List String} {s : State}

theorem peek_name (hs : σ.sentinel = Token.endOfInput size) {name : String} (hn : name ≠ "EOF")
    (d : Nat) : ((s.peek σ d).name == name) = (names s.rest)[d]?.any (· == name) := by
  simp only [State.peek, names, List.getElem?_map, hs]
  cases s.rest[d]? with
  | none => simpa using hn.symm
  | some t => rfl

theorem peek_has (hs : σ.sentinel = Token.endOfInput size) (hv : v.Distinct)
    (ht : ∀ u ∈ s.rest, u.type ∈ v.types) {c : Category} (hc : c ≠ .endOfInput) (d : Nat) :
    (s.peek σ d).has c = (names s.rest)[d]?.any ((v.carriers c).contains ·) := by
  simp only [State.peek, names, List.getElem?_map, hs]
  cases hd : s.rest[d]? with
  | none => simpa [endOfInput_has] using hc
  | some t =>
    have := Vocabulary.mem_carriers hv (ht t (List.mem_of_getElem? hd)) c
    simp only [Option.getD_some, Option.map_some, Option.any_some]
    rw [Bool.eq_iff_iff, List.contains_iff_mem, this]

theorem askFor_eq_holdsOn (hσ : σ.vocabulary = v) (hs : σ.sentinel = Token.endOfInput size)
    (ht : ∀ u ∈ s.rest, u.type ∈ v.types) {name : String} (hn : name ≠ "EOF") :
    (askFor σ open_ name s).1 = (names s.rest)[0]?.any (· == name) := by
  unfold askFor
  split
  next h =>
    have hrest : s.rest = [] := by simpa using (Bool.and_eq_true_iff.mp h).2
    simp [hrest, names]
  next =>
    rw [peek_name hs hn]
    cases hw : s.rest with
    | nil => simp [names]
    | cons t ts =>
      have hmem : t.type ∈ v.types := ht t (by simp [hw])
      have : t.name = name → v.contains name = true := fun h =>
        List.any_eq_true.mpr ⟨t.type, hmem, beq_iff_eq.mpr h⟩
      simp only [names, List.map_cons, List.getElem?_cons_zero, Option.any_some, hσ]
      by_cases h : t.name = name
      · simp [h, this h]
      · simp [h]

theorem foldl_alsoAsk_eq_holdsOn (hσ : σ.vocabulary = v)
    (hs : σ.sentinel = Token.endOfInput size) {a : Bool × State}
    (ht : ∀ u ∈ a.2.rest, u.type ∈ v.types) {list : List String} (hg : ∀ n ∈ list, n ≠ "EOF") :
    (list.foldl (alsoAsk σ open_) a).1 =
      (a.1 || (names a.2.rest)[0]?.any fun u => list.any (u == ·)) := by
  induction list generalizing a with
  | nil => simp
  | cons n ns ih =>
    have hr : (alsoAsk σ open_ a n).2.rest = a.2.rest := (askFor_notes σ open_ n a.2).rest
    rw [List.foldl_cons, ih (hr ▸ ht) fun m hm => hg m (List.mem_cons_of_mem n hm), hr]
    simp only [alsoAsk]
    rw [askFor_eq_holdsOn hσ hs ht (hg n (List.mem_cons_self ..))]
    cases (names a.2.rest)[0]? <;> simp [Bool.or_assoc]

/-- On tokens of the vocabulary, names decide. -/
theorem ask_eq_holdsOn (hv : v.Distinct) (hσ : σ.vocabulary = v)
    (hs : σ.sentinel = Token.endOfInput size) (ht : ∀ u ∈ s.rest, u.type ∈ v.types)
    (test : Lookahead) (hg : test.grounded = true) :
    (test.ask σ open_ s).1 = test.holdsOn v (names s.rest) := by
  induction test generalizing s with
  | is name => exact askFor_eq_holdsOn hσ hs ht (by simpa [grounded] using hg)
  | anyOf list =>
    exact foldl_alsoAsk_eq_holdsOn (a := (false, s)) hσ hs ht (by simpa [grounded] using hg)
  | tagged category offered =>
    have hp := peek_has hs hv ht (by simpa [grounded] using hg) 0
    unfold ask
    split
    next h =>
      have hrest : s.rest = [] := by simpa using (Bool.and_eq_true_iff.mp h).2
      simp [holdsOn, hrest, names]
    next => exact hp
  | either a b iha ihb =>
    simp only [grounded, Bool.and_eq_true] at hg
    have hr : (a.ask σ open_ s).2.rest = s.rest := (ask_notes ..).rest
    have hb := ihb (hr ▸ ht) hg.2
    rw [hr] at hb
    rw [ask_either, holdsOn, ← iha ht hg.1, ← hb]
    cases (a.ask σ open_ s).1 <;> rfl
  | both a b iha ihb =>
    simp only [grounded, Bool.and_eq_true] at hg
    have hr : (a.ask σ open_ s).2.rest = s.rest := (ask_notes ..).rest
    have hb := ihb (hr ▸ ht) hg.2
    rw [hr] at hb
    rw [ask_both, holdsOn, ← iha ht hg.1, ← hb]
    cases (a.ask σ open_ s).1 <;> rfl
  | negated a ih => exact congrArg not (ih ht hg)
  | aheadIs distance name => exact peek_name hs (by simpa [grounded] using hg) distance
  | aheadTagged distance category =>
    exact peek_has hs hv ht (by simpa [grounded] using hg) distance
  | atEnd => cases hg

end

/-! ### Names that matter -/

theorem le_reach_of_mem_asked {v : Vocabulary} {d : Nat} {u : String} {test : Lookahead}
    (h : u ∈ test.asked v d) : d ≤ test.reach := by
  induction test with
  | is | anyOf | tagged =>
    unfold asked at h
    split at h
    next hd => exact Nat.le_of_eq hd
    next => cases h
  | either a b iha ihb | both a b iha ihb =>
    rcases List.mem_append.mp h with h | h
    · exact Nat.le_trans (iha h) (Nat.le_max_left ..)
    · exact Nat.le_trans (ihb h) (Nat.le_max_right ..)
  | negated a ih => exact ih h
  | aheadIs | aheadTagged =>
    unfold asked at h
    split at h
    next hd => exact Nat.le_of_eq hd.symm
    next => cases h
  | atEnd => cases h

/-- A name behind a word that does not matter leaves the answer as it is. -/
theorem holdsOn_append {v : Vocabulary} {test : Lookahead} (hg : test.grounded = true) {w : Word}
    {u : String} (h : u ∉ test.asked v w.length) :
    test.holdsOn v (w ++ [u]) = test.holdsOn v w := by
  have hlookup : ∀ d, d ≠ w.length → (w ++ [u])[d]? = w[d]? := by
    intro d hd
    rcases Nat.lt_or_gt_of_ne hd with hlt | hlt
    · exact List.getElem?_append_left hlt
    · rw [List.getElem?_eq_none (by simp; omega), List.getElem?_eq_none (by omega)]
  induction test with
  | is name =>
    cases w with
    | nil =>
      simp only [asked, List.length_nil, if_true, List.mem_cons, not_or] at h
      simpa [holdsOn] using h.1
    | cons => rfl
  | anyOf names =>
    cases w with
    | nil =>
      simp only [asked, List.length_nil, if_true, List.mem_flatMap, List.mem_cons, not_exists,
        not_and, not_or] at h
      simpa [holdsOn] using fun n hn => (h n hn).1
    | cons => rfl
  | tagged c offered =>
    cases w with
    | nil =>
      simp only [asked, List.length_nil, if_true, List.mem_append, not_or] at h
      simpa [holdsOn] using h.1
    | cons => rfl
  | either a b iha ihb | both a b iha ihb =>
    simp only [grounded, Bool.and_eq_true, asked, List.mem_append, not_or] at hg h
    simp only [holdsOn, iha hg.1 h.1, ihb hg.2 h.2]
  | negated a ih => exact congrArg not (ih hg h)
  | aheadIs d name | aheadTagged d c =>
    by_cases hd : d = w.length
    · simp_all [asked, holdsOn]
    · simp only [holdsOn, hlookup d hd]
  | atEnd => cases hg

section
variable {v : Vocabulary} {t : Token} {σ : Setting} {open_ : List String} {s : State}
  {c : Candidate}

theorem asked_of_note (hv : v.Distinct) (hσ : σ.vocabulary = v) (ht : t.type ∈ v.types)
    {name : String} (hc : c ∈ (s.note σ open_ name).noted) (ha : c.type.Accepts v t) :
    c ∈ s.noted ∨ v.contains name = true ∧ t.name ∈ v.stoodFor name := by
  rcases mem_noted_note hc with h | hT
  · exact .inl h
  · rw [hσ] at hT
    obtain ⟨hmem, hname⟩ := Vocabulary.mem_of_get? hT
    exact .inr ⟨List.any_eq_true.mpr ⟨_, hmem, beq_iff_eq.mpr hname⟩,
      Vocabulary.name_mem_stoodFor hv ht hT ha⟩

theorem asked_of_askFor (hv : v.Distinct) (hσ : σ.vocabulary = v) (ht : t.type ∈ v.types)
    {name : String} (hc : c ∈ (askFor σ open_ name s).2.noted) (ha : c.type.Accepts v t) :
    c ∈ s.noted ∨ t.name ∈ (is name).asked v 0 := by
  unfold askFor at hc
  split at hc
  next =>
    refine (asked_of_note hv hσ ht hc ha).imp_right fun h => ?_
    by_cases hn : t.name = name
    · simp [asked, hn]
    · simp [asked, hn, h.2]
  next => exact .inl hc

theorem asked_of_foldl_alsoAsk (hv : v.Distinct) (hσ : σ.vocabulary = v) (ht : t.type ∈ v.types)
    (ha : c.type.Accepts v t) {names : List String} {a : Bool × State}
    (hc : c ∈ (names.foldl (alsoAsk σ open_) a).2.noted) :
    c ∈ a.2.noted ∨ t.name ∈ (anyOf names).asked v 0 := by
  induction names generalizing a with
  | nil => exact .inl hc
  | cons n ns ih =>
    have hcons : (anyOf (n :: ns)).asked v 0 = (is n).asked v 0 ++ (anyOf ns).asked v 0 := rfl
    rw [hcons, List.mem_append]
    rcases ih hc with h | h
    · exact (asked_of_askFor hv hσ ht h ha).imp_right .inl
    · exact .inr (.inr h)

/-- A token that a noted type is a candidate for has a name that matters. -/
theorem asked_of_accepts (hv : v.Distinct) (hσ : σ.vocabulary = v) (ht : t.type ∈ v.types)
    (ha : c.type.Accepts v t) (test : Lookahead) (hc : c ∈ (test.ask σ open_ s).2.noted) :
    c ∈ s.noted ∨ t.name ∈ test.asked v 0 := by
  induction test generalizing s with
  | is name => exact asked_of_askFor hv hσ ht hc ha
  | anyOf names => exact asked_of_foldl_alsoAsk (a := (false, s)) hv hσ ht ha hc
  | tagged category offered =>
    unfold ask at hc
    split at hc
    next =>
      refine (asked_of_note hv hσ ht hc ha).imp_right fun h => ?_
      by_cases hn : t.name ∈ v.carriers category
      · simp [asked, hn]
      · simp [asked, hn, h.1, h.2]
    next => exact .inl hc
  | either a b iha ihb =>
    rw [ask_either] at hc
    simp only [asked, List.mem_append]
    split at hc
    next => exact (iha hc).imp_right .inl
    next =>
      rcases ihb hc with hc | h
      · exact (iha hc).imp_right .inl
      · exact .inr (.inr h)
  | both a b iha ihb =>
    rw [ask_both] at hc
    simp only [asked, List.mem_append]
    split at hc
    next =>
      rcases ihb hc with hc | h
      · exact (iha hc).imp_right .inl
      · exact .inr (.inr h)
    next => exact (iha hc).imp_right .inl
  | negated a ih => exact ih hc
  | aheadIs | aheadTagged | atEnd => exact .inl hc

end

/-- A question that looks at the next token only is answered by its name. -/
theorem holdsOn_cons {v : Vocabulary} {test : Lookahead} (hr : test.reach = 0) (u : String)
    (w : Word) : test.holdsOn v (u :: w) = test.holdsOn v [u] := by
  induction test with
  | is | anyOf | tagged | atEnd => rfl
  | either a b iha ihb | both a b iha ihb =>
    simp only [reach] at hr
    simp only [holdsOn, iha (by omega), ihb (by omega)]
  | negated a ih => exact congrArg not (ih hr)
  | aheadIs d name | aheadTagged d c =>
    obtain rfl : d = 0 := hr
    rfl

end Lookahead

end Grammar

end GraphLanguages
