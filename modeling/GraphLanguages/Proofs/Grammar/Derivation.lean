import GraphLanguages.Proofs.Grammar.Form
import GraphLanguages.Proofs.Grammar.Forest

/-! Derivation trees.

A form derives words, and it unfolds into forests: a token is a leaf there, and the name of a
production a node over a forest of that production (`Unfolds`). The leaves of such a forest
are a word of the form, and every word of a form is had that way (`Unfolds.derives`,
`exists_unfolds`). How a form is bracketed makes no difference to its forests either
(`unfolds_of_normal`). -/
namespace GraphLanguages.Grammar
open Computability GraphLanguages.Tree

/-- The forest is a derivation of the form by the productions. -/
inductive Unfolds (rules : List (String × Form)) : Form → List Tree → Prop
  | empty : Unfolds rules .empty []
  | token {names} {t : Token} : t.name ∈ names → Unfolds rules (.token names) [.leaf t]
  | seq {a b f f'} : Unfolds rules a f → Unfolds rules b f' → Unfolds rules (.seq a b) (f ++ f')
  | first {a b f} : Unfolds rules a f → Unfolds rules (.alt a b) f
  | second {a b f} : Unfolds rules b f → Unfolds rules (.alt a b) f
  | none {a} : Unfolds rules (.many a) []
  | more {a f f'} : Unfolds rules a f → Unfolds rules (.many a) f' →
      Unfolds rules (.many a) (f ++ f')
  | rule {name φ f} : rules.lookup name = some φ → Unfolds rules φ f →
      Unfolds rules (.rule name) [.node name f]

section
variable {rules : List (String × Form)} {a b φ ψ : Form} {f : List Tree}

theorem not_unfolds_never : ¬ Unfolds rules .never f := by
  rintro ⟨⟩

theorem unfolds_empty : Unfolds rules .empty f ↔ f = [] :=
  ⟨by rintro ⟨⟩; rfl, by rintro rfl; exact .empty⟩

theorem unfolds_token {names : List String} :
    Unfolds rules (.token names) f ↔ ∃ t : Token, t.name ∈ names ∧ f = [.leaf t] := by
  constructor
  · rintro ⟨⟩
    exact ⟨_, ‹_›, rfl⟩
  · rintro ⟨t, ht, rfl⟩
    exact .token ht

theorem unfolds_seq :
    Unfolds rules (.seq a b) f ↔
      ∃ f₁ f₂, Unfolds rules a f₁ ∧ Unfolds rules b f₂ ∧ f₁ ++ f₂ = f := by
  constructor
  · rintro ⟨⟩
    exact ⟨_, _, ‹_›, ‹_›, rfl⟩
  · rintro ⟨f₁, f₂, ha, hb, rfl⟩
    exact .seq ha hb

theorem unfolds_alt : Unfolds rules (.alt a b) f ↔ Unfolds rules a f ∨ Unfolds rules b f := by
  constructor
  · rintro (_ | _)
    · exact .inl ‹_›
    · exact .inr ‹_›
  · exact fun h => h.elim .first .second

theorem unfolds_many :
    Unfolds rules (.many a) f ↔ Unfolds rules (.alt (.seq a (.many a)) .empty) f := by
  constructor
  · rintro (_ | _)
    · exact .second .empty
    · exact .first (.seq ‹_› ‹_›)
  · rw [unfolds_alt, unfolds_seq, unfolds_empty]
    rintro (⟨f₁, f₂, ha, hm, rfl⟩ | rfl)
    · exact .more ha hm
    · exact .none

theorem unfolds_rule {name : String} :
    Unfolds rules (.rule name) f ↔
      ∃ φ g, rules.lookup name = some φ ∧ Unfolds rules φ g ∧ f = [.node name g] := by
  constructor
  · rintro ⟨⟩
    exact ⟨_, _, ‹_›, ‹_›, rfl⟩
  · rintro ⟨φ, g, hl, h, rfl⟩
    exact .rule hl h

/-! ### Words and their trees -/

/-- The leaves of a derivation are a word of the form. -/
theorem Unfolds.derives (h : Unfolds rules φ f) : Derives rules φ (names (leavesOf f)) := by
  induction h with
  | empty => exact .empty
  | token ht => exact .token ht
  | seq _ _ iha ihb =>
    rw [leavesOf_append, names, List.map_append]
    exact .seq iha ihb
  | first _ ih => exact .first ih
  | second _ ih => exact .second ih
  | none => exact .none
  | more _ _ iha ihm =>
    rw [leavesOf_append, names, List.map_append]
    exact .more iha ihm
  | @rule name φ f hl _ ih =>
    have hleaves : leavesOf [.node name f] = leavesOf f := List.append_nil _
    rw [hleaves]
    exact .rule hl ih

/-- Tokens with the names of a word have a derivation. -/
theorem exists_unfolds {w : Word} (h : Derives rules φ w) {tokens : List Token}
    (hw : names tokens = w) : ∃ f, Unfolds rules φ f ∧ leavesOf f = tokens := by
  induction h generalizing tokens with
  | empty =>
    obtain rfl := List.map_eq_nil_iff.mp hw
    exact ⟨[], .empty, rfl⟩
  | none =>
    obtain rfl := List.map_eq_nil_iff.mp hw
    exact ⟨[], .none, rfl⟩
  | @token names u hu =>
    obtain ⟨t, rfl, rfl⟩ := List.map_eq_singleton_iff.mp hw
    exact ⟨[.leaf t], .token hu, rfl⟩
  | seq _ _ iha ihb =>
    obtain ⟨ts, us, rfl, hts, hus⟩ := List.map_eq_append_iff.mp hw
    obtain ⟨f, hf, rfl⟩ := iha hts
    obtain ⟨f', hf', rfl⟩ := ihb hus
    exact ⟨f ++ f', .seq hf hf', leavesOf_append f f'⟩
  | more _ _ iha ihm =>
    obtain ⟨ts, us, rfl, hts, hus⟩ := List.map_eq_append_iff.mp hw
    obtain ⟨f, hf, rfl⟩ := iha hts
    obtain ⟨f', hf', rfl⟩ := ihm hus
    exact ⟨f ++ f', .more hf hf', leavesOf_append f f'⟩
  | first _ ih =>
    obtain ⟨f, hf, hl⟩ := ih hw
    exact ⟨f, .first hf, hl⟩
  | second _ ih =>
    obtain ⟨f, hf, hl⟩ := ih hw
    exact ⟨f, .second hf, hl⟩
  | @rule name φ w hlookup _ ih =>
    obtain ⟨f, hf, hl⟩ := ih hw
    exact ⟨[.node name f], .rule hlookup hf, (List.append_nil _).trans hl⟩

/-! ### Forests as words over trees -/

/-- A leaf of that name. -/
def leafNamed (name : String) : WordsOver Tree :=
  {f | ∃ t : Token, t.name = name ∧ f = [.leaf t]}

/-- What each name unfolds into. -/
def unfolded (rules : List (String × Form)) (name : String) : WordsOver Tree :=
  {f | Unfolds rules (.rule name) f}

theorem mem_language_unfolded :
    f ∈ φ.language leafNamed (unfolded rules) ↔ Unfolds rules φ f := by
  induction φ generalizing f with
  | never => exact ⟨fun h => absurd h (Language.notMem_zero f), fun h => absurd h not_unfolds_never⟩
  | empty => exact (Language.mem_one f).trans unfolds_empty.symm
  | token names =>
    rw [unfolds_token]
    constructor
    · rintro ⟨_, hu, t, rfl, rfl⟩
      exact ⟨t, hu, rfl⟩
    · rintro ⟨t, ht, rfl⟩
      exact ⟨t.name, ht, t, rfl, rfl⟩
  | seq a b iha ihb =>
    simp only [Form.language, Language.mem_mul, iha, ihb, unfolds_seq]
    constructor
    · rintro ⟨f₁, ha, f₂, hb, h⟩
      exact ⟨f₁, f₂, ha, hb, h⟩
    · rintro ⟨f₁, f₂, ha, hb, h⟩
      exact ⟨f₁, ha, f₂, hb, h⟩
  | alt a b iha ihb => simp only [Form.language, Language.mem_add, iha, ihb, unfolds_alt]
  | many a ih =>
    simp only [Form.language, Language.mem_kstar]
    constructor
    · rintro ⟨parts, rfl, h⟩
      induction parts with
      | nil => exact .none
      | cons part parts ihp =>
        exact .more (ih.mp (h part (List.mem_cons_self ..)))
          (ihp fun p hp => h p (List.mem_cons_of_mem _ hp))
    · intro h
      generalize hφ : Form.many a = φ at h
      induction h with
      | none => exact ⟨[], rfl, by simp⟩
      | @more a' f f' ha _ _ ihm =>
        cases hφ
        obtain ⟨parts, rfl, hp⟩ := ihm rfl
        exact ⟨f :: parts, rfl, List.forall_mem_cons.mpr ⟨ih.mpr ha, hp⟩⟩
      | _ => cases hφ
  | rule name => rfl

/-- Forms that come out alike unfold alike. -/
theorem unfolds_of_normal {order : List String} (h : φ.normal order = ψ.normal order) :
    Unfolds rules φ f ↔ Unfolds rules ψ f := by
  rw [← mem_language_unfolded, ← mem_language_unfolded, ← Form.language_normal order φ, h,
    Form.language_normal]

end

end GraphLanguages.Grammar
