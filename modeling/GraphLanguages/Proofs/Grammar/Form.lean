import Mathlib.Computability.Language
import GraphLanguages.Proofs.Grammar.Words

/-! Productions in extended Backus–Naur form.

A form is one side of a production, over names of token types and of other productions,
and `Derives` says which words it stands for. Forms that bracket, distribute or order
their alternatives differently stand for the same words. `Form.normal` brings a form
into one shape without changing them (`derives_normal`), so productions that come out
alike derive alike (`derives_iff_of_normal`). -/
namespace Computability

/-- A set of words over some letters. -/
abbrev WordsOver (α : Type) : Type := Language α

end Computability

namespace GraphLanguages.Grammar
open Computability

inductive Form where
  | never
  | empty
  /-- A token with one of the names. -/
  | token (names : List String)
  | seq (first second : Form)
  | alt (first second : Form)
  /-- Any number of times, also none. -/
  | many (item : Form)
  | rule (name : String)
deriving DecidableEq, Repr

namespace Form

def steps : List Form → Form
  | [] => .empty
  | [φ] => φ
  | φ :: φs => .seq φ (steps φs)

def oneOf : List Form → Form
  | [] => .never
  | [φ] => φ
  | φ :: φs => .alt φ (oneOf φs)

def optional (φ : Form) : Form :=
  .alt φ .empty

def several (φ : Form) : Form :=
  .seq φ (.many φ)

end Form

/-- The word follows from the form by the productions. -/
inductive Derives (rules : List (String × Form)) : Form → Word → Prop
  | empty : Derives rules .empty []
  | token {names u} : u ∈ names → Derives rules (.token names) [u]
  | seq {a b w w'} : Derives rules a w → Derives rules b w' → Derives rules (.seq a b) (w ++ w')
  | first {a b w} : Derives rules a w → Derives rules (.alt a b) w
  | second {a b w} : Derives rules b w → Derives rules (.alt a b) w
  | none {a} : Derives rules (.many a) []
  | more {a w w'} : Derives rules a w → Derives rules (.many a) w' →
      Derives rules (.many a) (w ++ w')
  | rule {name φ w} : rules.lookup name = some φ → Derives rules φ w → Derives rules (.rule name) w

section
variable {rules : List (String × Form)} {a b : Form} {w : Word}

theorem not_derives_never : ¬ Derives rules .never w := by
  rintro ⟨⟩

theorem derives_empty : Derives rules .empty w ↔ w = [] :=
  ⟨by rintro ⟨⟩; rfl, by rintro rfl; exact .empty⟩

theorem derives_token {names : List String} :
    Derives rules (.token names) w ↔ ∃ u ∈ names, w = [u] := by
  constructor
  · rintro ⟨⟩
    exact ⟨_, ‹_›, rfl⟩
  · rintro ⟨u, hu, rfl⟩
    exact .token hu

theorem derives_seq :
    Derives rules (.seq a b) w ↔
      ∃ w₁ w₂, Derives rules a w₁ ∧ Derives rules b w₂ ∧ w₁ ++ w₂ = w := by
  constructor
  · rintro ⟨⟩
    exact ⟨_, _, ‹_›, ‹_›, rfl⟩
  · rintro ⟨w₁, w₂, ha, hb, rfl⟩
    exact .seq ha hb

theorem derives_alt : Derives rules (.alt a b) w ↔ Derives rules a w ∨ Derives rules b w := by
  constructor
  · rintro (_ | _)
    · exact .inl ‹_›
    · exact .inr ‹_›
  · exact fun h => h.elim .first .second

theorem derives_many :
    Derives rules (.many a) w ↔ Derives rules (.alt (.seq a (.many a)) .empty) w := by
  constructor
  · rintro (_ | _)
    · exact .second .empty
    · exact .first (.seq ‹_› ‹_›)
  · rw [derives_alt, derives_seq, derives_empty]
    rintro (⟨w₁, w₂, ha, hm, rfl⟩ | rfl)
    · exact .more ha hm
    · exact .none

theorem derives_rule {name : String} :
    Derives rules (.rule name) w ↔ ∃ φ, rules.lookup name = some φ ∧ Derives rules φ w := by
  constructor
  · rintro ⟨⟩
    exact ⟨_, ‹_›, ‹_›⟩
  · rintro ⟨φ, hl, h⟩
    exact .rule hl h

end

/-! ### Forms as languages -/

/-- The words of a form, given those that stand for each token and for each named form. -/
def Form.language {α : Type} (letter meaning : String → WordsOver α) : Form → WordsOver α
  | .never => 0
  | .empty => 1
  | .token names => {w | ∃ u ∈ names, w ∈ letter u}
  | .seq a b => a.language letter meaning * b.language letter meaning
  | .alt a b => a.language letter meaning + b.language letter meaning
  | .many a => (a.language letter meaning)∗
  | .rule name => meaning name

/-- A token stands for its name. -/
def spelled (name : String) : WordsOver String := {[name]}

/-- What the productions derive from each name. -/
def derived (rules : List (String × Form)) (name : String) : WordsOver String :=
  {w | Derives rules (.rule name) w}

theorem mem_language {rules : List (String × Form)} {φ : Form} {w : Word} :
    w ∈ φ.language spelled (derived rules) ↔ Derives rules φ w := by
  induction φ generalizing w with
  | never => exact ⟨fun h => absurd h (Language.notMem_zero w), fun h => absurd h not_derives_never⟩
  | empty => exact (Language.mem_one w).trans derives_empty.symm
  | token names => exact derives_token.symm
  | seq a b iha ihb =>
    simp only [Form.language, Language.mem_mul, iha, ihb, derives_seq]
    exact ⟨fun ⟨w₁, ha, w₂, hb, h⟩ => ⟨w₁, w₂, ha, hb, h⟩,
      fun ⟨w₁, w₂, ha, hb, h⟩ => ⟨w₁, ha, w₂, hb, h⟩⟩
  | alt a b iha ihb => simp only [Form.language, Language.mem_add, iha, ihb, derives_alt]
  | many a ih =>
    simp only [Form.language, Language.mem_kstar]
    constructor
    · rintro ⟨parts, rfl, h⟩
      induction parts with
      | nil => exact .none
      | cons part parts ihp =>
        exact .more (ih.mp (h part (List.mem_cons_self ..)))
          (ihp fun p hp => h p (List.mem_cons_of_mem _ hp))
    · intro h
      generalize hφ : Form.many a = φ at h
      induction h with
      | none => exact ⟨[], rfl, by simp⟩
      | @more a' w w' ha _ _ ihm =>
        cases hφ
        obtain ⟨parts, rfl, hp⟩ := ihm rfl
        exact ⟨w :: parts, rfl, List.forall_mem_cons.mpr ⟨ih.mpr ha, hp⟩⟩
      | _ => cases hφ
  | rule name => rfl

/-! ### One shape for all -/

/-- Alternatives apart: the empty word, single tokens, and the rest in order. -/
structure Choices where
  empty : Bool := false
  tokens : List String := []
  others : List Form := []

namespace Choices

def language {α : Type} (letter meaning : String → WordsOver α) (c : Choices) : WordsOver α :=
  (if c.empty then 1 else 0) + (Form.token c.tokens).language letter meaning +
    (c.others.map (Form.language letter meaning)).sum

def both (c c' : Choices) : Choices where
  empty := c.empty || c'.empty
  tokens := c.tokens ++ c'.tokens
  others := c.others ++ c'.others

/-- The alternatives as a form, with the tokens in the given order. -/
def form (order : List String) (c : Choices) : Form :=
  let tokens := order.filter (c.tokens.contains ·) ++ c.tokens.filter (!order.contains ·)
  .oneOf <| (if tokens.isEmpty then [] else [.token tokens]) ++ c.others ++
    if c.empty then [.empty] else []

end Choices

namespace Form
variable {α : Type} {letter meaning : String → WordsOver α}

def choices : Form → Choices
  | .never => {}
  | .empty => { empty := true }
  | .token names => { tokens := names }
  | .alt a b => a.choices.both b.choices
  | φ => { others := [φ] }

/-- The first form, in its shape, and then the second. -/
def andThen (order : List String) : Form → Form → Form
  | .never, _ => .never
  | .empty, b => b
  | .seq x y, b => .seq x (y.andThen order b)
  | .alt x y, b =>
    if (alt x y).choices.empty then .seq (.alt x y) b
    else ((x.andThen order b).choices.both (y.andThen order b).choices).form order
  | a, .empty => a
  | a, b => .seq a b

def normal (order : List String) : Form → Form
  | .never => .never
  | .empty => .empty
  | .token names => Choices.form order { tokens := names }
  | .seq a b => (a.normal order).andThen order (b.normal order)
  | .alt a b => ((a.normal order).choices.both (b.normal order).choices).form order
  | .many a => .many (a.normal order)
  | .rule name => .rule name

theorem mem_language_token {names : List String} {w : List α} :
    w ∈ (token names).language letter meaning ↔ ∃ u ∈ names, w ∈ letter u := Iff.rfl

theorem language_token_congr {names names' : List String} (h : ∀ u, u ∈ names ↔ u ∈ names') :
    (token names).language letter meaning = (token names').language letter meaning := by
  ext w
  simp only [mem_language_token, h]

theorem language_token_append (names names' : List String) :
    (token (names ++ names')).language letter meaning =
      (token names).language letter meaning + (token names').language letter meaning := by
  ext w
  simp only [Language.mem_add, mem_language_token, List.mem_append, or_and_right, exists_or]

theorem language_token_nil : (token []).language letter meaning = 0 := by
  ext w
  simp only [mem_language_token, List.not_mem_nil, false_and, exists_false, Language.notMem_zero]

theorem language_oneOf (φs : List Form) :
    (oneOf φs).language letter meaning = (φs.map (language letter meaning)).sum := by
  induction φs with
  | nil => rfl
  | cons φ φs ih =>
    cases φs with
    | nil => exact (add_zero _).symm
    | cons => exact congrArg (φ.language letter meaning + ·) ih

theorem language_both (c c' : Choices) :
    (c.both c').language letter meaning =
      c.language letter meaning + c'.language letter meaning := by
  have hempty : (if (c.both c').empty then (1 : WordsOver α) else 0) =
      (if c.empty then 1 else 0) + if c'.empty then 1 else 0 := by
    unfold Choices.both
    cases c.empty <;> cases c'.empty <;> simp
  have htokens : (token (c.both c').tokens).language letter meaning = _ :=
    language_token_append c.tokens c'.tokens
  have hothers : ((c.both c').others.map (language letter meaning)).sum =
      (c.others.map (language letter meaning)).sum +
        (c'.others.map (language letter meaning)).sum := by
    simp only [Choices.both, List.map_append, List.sum_append]
  rw [Choices.language, hempty, htokens, hothers, Choices.language, Choices.language]
  ac_rfl

theorem language_choices (φ : Form) :
    φ.choices.language letter meaning = φ.language letter meaning := by
  induction φ with
  | alt a b iha ihb => rw [choices, language_both, iha, ihb, language]
  | never | empty =>
    simp only [choices, Choices.language, language_token_nil, List.map_nil, List.sum_nil, add_zero]
    rfl
  | token names =>
    simp only [choices, Choices.language, List.map_nil, List.sum_nil, add_zero]
    exact zero_add _
  | seq | many | rule =>
    simp only [choices, Choices.language, language_token_nil, List.map_cons, List.map_nil,
      List.sum_cons, List.sum_nil, add_zero]
    exact zero_add _

theorem language_form (order : List String) (c : Choices) :
    (c.form order).language letter meaning = c.language letter meaning := by
  have htokens : ∀ names : List String,
      ((if names.isEmpty then [] else [token names]).map (language letter meaning)).sum =
        (token names).language letter meaning := by
    intro names
    cases names with
    | nil => exact language_token_nil.symm
    | cons => exact add_zero _
  have hempty : ((if c.empty then [empty] else []).map (language letter meaning)).sum =
      if c.empty then 1 else 0 := by
    cases c.empty with
    | false => rfl
    | true => exact add_zero _
  have hsame : (token (order.filter (c.tokens.contains ·) ++
      c.tokens.filter (!order.contains ·))).language letter meaning =
        (token c.tokens).language letter meaning := by
    apply language_token_congr
    intro u
    by_cases hu : u ∈ order <;> simp [hu]
  rw [Choices.form, language_oneOf, List.map_append, List.map_append, List.sum_append,
    List.sum_append, htokens, hempty, hsame, Choices.language]
  ac_rfl

theorem language_andThen (order : List String) (a b : Form) :
    (a.andThen order b).language letter meaning =
      a.language letter meaning * b.language letter meaning := by
  induction a with
  | never => exact (zero_mul _).symm
  | empty => exact (one_mul _).symm
  | seq x y _ ih => rw [andThen, language, ih, language, mul_assoc]
  | alt x y ihx ihy =>
    rw [andThen]
    split
    · rfl
    · rw [language_form, language_both, language_choices, language_choices, ihx, ihy, language,
        add_mul]
  | token | many | rule =>
    cases b with
    | empty => exact (mul_one _).symm
    | _ => rfl

theorem language_normal (order : List String) (φ : Form) :
    (φ.normal order).language letter meaning = φ.language letter meaning := by
  induction φ with
  | never | empty | rule => rfl
  | token names => exact (language_form order _).trans (language_choices (.token names))
  | seq a b iha ihb => rw [normal, language_andThen, iha, ihb, language]
  | alt a b iha ihb =>
    rw [normal, language_form, language_both, language_choices, language_choices, iha, ihb,
      language]
  | many a ih => rw [normal, language, ih, language]

end Form

section
variable {rules rules' : List (String × Form)} {φ φ' : Form} {order : List String} {w : Word}

theorem derives_normal : Derives rules (φ.normal order) w ↔ Derives rules φ w := by
  rw [← mem_language, Form.language_normal, mem_language]

/-- All productions in that shape. -/
def normalRules (order : List String) (rules : List (String × Form)) : List (String × Form) :=
  rules.map fun r => (r.1, r.2.normal order)

theorem lookup_normalRules (name : String) :
    (normalRules order rules).lookup name = (rules.lookup name).map (Form.normal order) := by
  induction rules with
  | nil => rfl
  | cons r rules ih =>
    rw [normalRules, List.map_cons, List.lookup_cons, List.lookup_cons]
    cases name == r.1
    · exact ih
    · rfl

theorem derives_normalRules : Derives (normalRules order rules) φ w ↔ Derives rules φ w := by
  constructor <;> intro h <;> induction h with
  | empty => exact .empty
  | token hu => exact .token hu
  | seq _ _ iha ihb => exact .seq iha ihb
  | first _ ih => exact .first ih
  | second _ ih => exact .second ih
  | none => exact .none
  | more _ _ iha ihm => exact .more iha ihm
  | rule hl _ ih =>
    first
    | obtain ⟨ψ, hψ, rfl⟩ := Option.map_eq_some_iff.mp (lookup_normalRules _ ▸ hl)
      exact .rule hψ (derives_normal.mp ih)
    | exact .rule (by rw [lookup_normalRules, hl]; rfl) (derives_normal.mpr ih)

/-- Productions that come out alike derive alike. -/
theorem derives_iff_of_normal (hrules : normalRules order rules = normalRules order rules')
    (h : φ.normal order = φ'.normal order) : Derives rules φ w ↔ Derives rules' φ' w := by
  calc Derives rules φ w
      ↔ Derives (normalRules order rules) (φ.normal order) w := by
        rw [derives_normalRules, derives_normal]
    _ ↔ Derives (normalRules order rules') (φ'.normal order) w := by rw [hrules, h]
    _ ↔ Derives rules' φ' w := by rw [derives_normalRules, derives_normal]

end

end GraphLanguages.Grammar
