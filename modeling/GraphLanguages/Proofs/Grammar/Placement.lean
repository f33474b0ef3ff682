import GraphLanguages.Proofs.Grammar.Predictive

/-! Names that stand only before certain others.

A form places a name if every word of it has one of the others directly behind the name
(`onlyBefore_of_derives`). So a grammar whose productions all do so accepts the name in such
places only (`onlyBefore_of_parse`); a name that nothing may follow is not accepted at all. -/
namespace GraphLanguages.Grammar

/-! ### Words -/

/-- Wherever the name stands in the word, one of the others is next. -/
def OnlyBefore (name : String) (next : List String) (w : Word) : Prop :=
  ∀ front back, w = front ++ name :: back → ∃ u ∈ next, u ∈ back.head?

namespace OnlyBefore
variable {name : String} {next : List String} {w w' : Word} {u : String}

theorem of_not_mem (h : name ∉ w) : OnlyBefore name next w := by
  rintro front back rfl
  exact absurd (by simp) h

theorem append (h : OnlyBefore name next w) (h' : OnlyBefore name next w') :
    OnlyBefore name next (w ++ w') := by
  intro front back heq
  rcases List.append_eq_append_iff.mp heq with ⟨between, -, hw'⟩ | ⟨between, hw, hback⟩
  · exact h' between back hw'
  · cases between with
    | nil => exact h' [] back hback.symm
    | cons _ between =>
      obtain ⟨rfl, rfl⟩ := List.cons.inj hback
      obtain ⟨u, hu, hhead⟩ := h front between hw
      exact ⟨u, hu, List.mem_head?_append_of_mem_head? hhead⟩

/-- A word in front that only has others of the names behind it. -/
theorem cons (h : OnlyBefore name next w) (hu : u = name → ∃ n ∈ next, n ∈ w.head?) :
    OnlyBefore name next (u :: w) := by
  intro front back heq
  cases front with
  | nil =>
    obtain ⟨rfl, rfl⟩ := List.cons.inj heq
    exact hu rfl
  | cons _ front =>
    obtain ⟨-, hw⟩ := List.cons.inj heq
    exact h front back hw

theorem head (h : OnlyBefore name next (name :: w)) : ∃ n ∈ next, n ∈ w.head? :=
  h [] w rfl

theorem tail (h : OnlyBefore name next (u :: w)) : OnlyBefore name next w := by
  rintro front back rfl
  exact h (u :: front) back rfl

/-- A name that nothing may follow is not there. -/
theorem not_mem (h : OnlyBefore name [] w) : name ∉ w := by
  intro hmem
  obtain ⟨front, back, hw⟩ := List.append_of_mem hmem
  obtain ⟨u, hu, -⟩ := h front back hw
  cases hu

end OnlyBefore

/-! ### Forms -/

namespace Form

/-- Does every word of the form start with one of the names? -/
def startsIn (names : List String) : Form → Bool
  | .never => true
  | .token names' => names'.all names.contains
  | .seq a _ => a.startsIn names
  | .alt a b => a.startsIn names && b.startsIn names
  | .empty | .many _ | .rule _ => false

/-- Is the name, where it is spelled out in the form, followed by one of the others? -/
def places (name : String) (next : List String) : Form → Bool
  | .never | .empty | .rule _ => true
  | .token names => !names.contains name
  | .seq (.token names) b =>
    (!names.contains name || b.startsIn next) && b.places name next
  | .seq a b | .alt a b => a.places name next && b.places name next
  | .many a => a.places name next

end Form

section
variable {rules : List (String × Form)} {φ : Form} {w : Word} {name : String}
  {next : List String}

theorem head_of_startsIn (h : Derives rules φ w) (hφ : φ.startsIn next = true) :
    ∃ u ∈ next, u ∈ w.head? := by
  induction h with
  | empty | none | more | rule => cases hφ
  | @token names u hu =>
    exact ⟨u, by simpa using List.all_eq_true.mp hφ u hu, rfl⟩
  | seq _ _ iha _ =>
    obtain ⟨u, hu, hhead⟩ := iha hφ
    exact ⟨u, hu, List.mem_head?_append_of_mem_head? hhead⟩
  | first _ ih => exact ih (Bool.and_eq_true_iff.mp hφ).1
  | second _ ih => exact ih (Bool.and_eq_true_iff.mp hφ).2

/-- The words of a form that places the name have it in such places only. -/
theorem onlyBefore_of_derives (hrules : ∀ r ∈ rules, r.2.places name next = true)
    (h : Derives rules φ w) (hφ : φ.places name next = true) : OnlyBefore name next w := by
  induction h with
  | empty | none => exact .of_not_mem (List.not_mem_nil)
  | @token names u hu =>
    have hnot : name ∉ names := by simpa [Form.places] using hφ
    refine .of_not_mem fun hmem => hnot ?_
    rwa [List.mem_singleton.mp hmem]
  | @seq a b w w' ha hb iha ihb =>
    by_cases htoken : ∃ names, a = .token names
    · -- a token may be the name itself, if what comes behind it starts well
      obtain ⟨names, rfl⟩ := htoken
      obtain ⟨u, hu, rfl⟩ := derives_token.mp ha
      simp only [Form.places, Bool.and_eq_true, Bool.or_eq_true] at hφ
      refine (ihb hφ.2).cons fun heq => ?_
      have hmem : name ∈ names := heq ▸ hu
      exact head_of_startsIn hb (hφ.1.resolve_left (by simpa using hmem))
    · rw [Form.places, Bool.and_eq_true] at hφ
      · exact (iha hφ.1).append (ihb hφ.2)
      · exact fun names heq => htoken ⟨names, heq⟩
  | first _ ih => exact ih (Bool.and_eq_true_iff.mp hφ).1
  | second _ ih => exact ih (Bool.and_eq_true_iff.mp hφ).2
  | more _ _ iha ihm => exact (iha hφ).append (ihm hφ)
  | @rule name' φ w hl _ ih =>
    obtain ⟨_, _, hsplit, -⟩ := List.lookup_eq_some_iff.mp hl
    exact ih (hrules (name', φ) (by rw [hsplit]; simp))

end

/-! ### Grammars -/

/-- The productions of the grammar place all names of the table. -/
structure Places (v : Vocabulary) (g : Grammar) (table : List (String × List String)) : Prop where
  rules : ∀ r ∈ g.productions v, ∀ e ∈ table, r.2.places e.1 e.2 = true
  entry : ∀ e ∈ table, (g.entry.form v g []).places e.1 e.2 = true

instance (v : Vocabulary) (g : Grammar) (table : List (String × List String)) :
    Decidable (Places v g table) :=
  decidable_of_iff
    ((∀ r ∈ g.productions v, ∀ e ∈ table, r.2.places e.1 e.2 = true) ∧
      ∀ e ∈ table, (g.entry.form v g []).places e.1 e.2 = true)
    ⟨fun h => ⟨h.1, h.2⟩, fun h => ⟨h.rules, h.entry⟩⟩

/-- What is parsed without an error has these names in such places only. -/
theorem Places.onlyBefore_of_parse {v : Vocabulary} {g : Grammar}
    {table : List (String × List String)} (h : Places v g table) (hg : Progressive g)
    (hv : v.WellNamed) {root : String} {size : Nat} {tokens : List Token}
    (htokens : ∀ u ∈ tokens, u.type ∈ v.types)
    (hparse : (g.parse v root size tokens).2 = none) :
    ∀ e ∈ table, OnlyBefore e.1 e.2 (names tokens) := fun e he =>
  onlyBefore_of_derives (fun r hr => h.rules r hr e he) (derives_of_parse hg hv htokens hparse)
    (h.entry e he)

end GraphLanguages.Grammar
