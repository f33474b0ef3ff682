import GraphLanguages.Text.Regex

/-! What regular expressions match.

What a match takes is a word of the expression (`accepts_of_match?`), so matches have what
all words have in common: the characters they may start with (`mayStart_of_match?`) and
those they consist of (`Expr.Accepts.within`). A class repeated takes all it can
(`match?_run`). -/
namespace GraphLanguages.Text.Regex

/-! ### Words -/

/-- The characters are a word of the expression. -/
inductive Expr.Accepts : Expr → List Char → Prop
  | empty : Accepts .empty []
  | one {k c} : k.holds c = true → Accepts (.one k) [c]
  | seq {a b u w} : Accepts a u → Accepts b w → Accepts (.seq a b) (u ++ w)
  | preferred {a b u} : Accepts a u → Accepts (.alt a b) u
  | other {a b u} : Accepts b u → Accepts (.alt a b) u
  | none {a} : Accepts (.star a) []
  | more {a u w} : Accepts a u → Accepts (.star a) w → Accepts (.star a) (u ++ w)

/-- The characters from one mark to another are a word of the expression. -/
def Expr.Leads (e : Expr) (m m' : Mark) : Prop :=
  ∃ u, m.rest = u ++ m'.rest ∧ m'.taken = m.taken + u.length ∧ e.Accepts u

namespace Expr.Leads
variable {a b : Expr} {m m₁ m' : Mark}

theorem seq (h : a.Leads m m₁) (h' : b.Leads m₁ m') : (Expr.seq a b).Leads m m' := by
  obtain ⟨u, hr, ht, hu⟩ := h
  obtain ⟨w, hr', ht', hw⟩ := h'
  refine ⟨u ++ w, ?_, ?_, .seq hu hw⟩
  · rw [hr, hr', List.append_assoc]
  · rw [ht', ht, List.length_append, Nat.add_assoc]

theorem none (m : Mark) : (Expr.star a).Leads m m :=
  ⟨[], rfl, rfl, .none⟩

theorem more (h : a.Leads m m₁) (h' : (Expr.star a).Leads m₁ m') : (Expr.star a).Leads m m' := by
  obtain ⟨u, hr, ht, hu⟩ := h
  obtain ⟨w, hr', ht', hw⟩ := h'
  refine ⟨u ++ w, ?_, ?_, .more hu hw⟩
  · rw [hr, hr', List.append_assoc]
  · rw [ht', ht, List.length_append, Nat.add_assoc]

end Expr.Leads

theorem leads_of_mem_repeated {e : Expr} {step : Mark → List Mark}
    (hstep : ∀ m, ∀ m' ∈ step m, e.Leads m m') {fuel : Nat} {m m' : Mark} {others : List Mark}
    (h : m' ∈ repeated step fuel m others) : (Expr.star e).Leads m m' ∨ m' ∈ others := by
  induction fuel generalizing m others with
  | zero =>
    rcases List.mem_cons.mp h with rfl | h
    · exact .inl (.none m')
    · exact .inr h
  | succ fuel ih =>
    -- what the steps leave behind is tried from the first on, with the later ones as others
    have hrounds : ∀ nexts ⊆ step m,
        m' ∈ nexts.foldr (fun next later =>
          if m.taken < next.taken then repeated step fuel next later else later)
          (m :: others) →
        (Expr.star e).Leads m m' ∨ m' ∈ others := by
      intro nexts
      induction nexts with
      | nil =>
        intro _ h
        rcases List.mem_cons.mp h with rfl | h
        · exact .inl (.none m')
        · exact .inr h
      | cons next nexts ihn =>
        intro hsub h
        have hrest := ihn fun x hx => hsub (List.mem_cons_of_mem next hx)
        rw [List.foldr_cons] at h
        split at h
        next =>
          rcases ih h with h | h
          · exact .inl ((hstep m next (hsub (List.mem_cons_self ..))).more h)
          · exact hrest h
        next => exact hrest h
    exact hrounds (step m) (List.Subset.refl _) h

/-- A match takes a word of the expression. -/
theorem leads_of_mem_ends {e : Expr} {m m' : Mark} (h : m' ∈ e.ends m) : e.Leads m m' := by
  induction e generalizing m m' with
  | empty =>
    obtain rfl := List.mem_singleton.mp h
    exact ⟨[], rfl, rfl, .empty⟩
  | one k =>
    rw [Expr.ends] at h
    split at h
    next => cases h
    next c cs hr =>
      split at h
      next hk =>
        obtain rfl := List.mem_singleton.mp h
        exact ⟨[c], hr, rfl, .one hk⟩
      next => cases h
  | seq a b iha ihb =>
    obtain ⟨m₁, ha, hb⟩ := List.mem_flatMap.mp h
    exact (iha ha).seq (ihb hb)
  | alt a b iha ihb =>
    rcases List.mem_append.mp h with h | h
    · obtain ⟨u, hr, ht, hu⟩ := iha h
      exact ⟨u, hr, ht, .preferred hu⟩
    · obtain ⟨u, hr, ht, hu⟩ := ihb h
      exact ⟨u, hr, ht, .other hu⟩
  | star a ih => exact (leads_of_mem_repeated (fun _ _ => ih) h).resolve_right (List.not_mem_nil)

theorem accepts_of_match? {e : Expr} {cs : List Char} {n : Nat} (h : e.match? cs = some n) :
    ∃ rest, cs = cs.take n ++ rest ∧ n ≤ cs.length ∧ e.Accepts (cs.take n) := by
  obtain ⟨m, hm, rfl⟩ := Option.map_eq_some_iff.mp h
  obtain ⟨u, hr, ht, hu⟩ := leads_of_mem_ends (List.mem_of_head? hm)
  have hcs : cs = u ++ m.rest := hr
  have htaken : m.taken = u.length := by rw [ht]; exact Nat.zero_add _
  have hu' : cs.take m.taken = u := by rw [hcs, htaken, List.take_left]
  rw [hu']
  exact ⟨m.rest, hcs, by rw [hcs, htaken, List.length_append]; omega, hu⟩

/-! ### How words start -/

/-- Is the word of no characters one of the expression? -/
def Expr.nullable : Expr → Bool
  | .empty | .star _ => true
  | .one _ => false
  | .seq a b => a.nullable && b.nullable
  | .alt a b => a.nullable || b.nullable

/-- May a word of the expression start with the character? -/
def Expr.mayStart (c : Char) : Expr → Bool
  | .empty => false
  | .one k => k.holds c
  | .seq a b => a.mayStart c || a.nullable && b.mayStart c
  | .alt a b => a.mayStart c || b.mayStart c
  | .star a => a.mayStart c

theorem Expr.Accepts.starts {e : Expr} {u : List Char} (h : e.Accepts u) :
    (u = [] → e.nullable = true) ∧ ∀ c ∈ u.head?, e.mayStart c = true := by
  induction h with
  | empty => exact ⟨fun _ => rfl, by simp⟩
  | @one k c hk =>
    refine ⟨fun h => (nomatch h), fun d hd => ?_⟩
    obtain rfl := Option.some.inj hd
    exact hk
  | @seq a b u w _ _ iha ihb =>
    obtain ⟨hna, hsa⟩ := iha
    obtain ⟨hnb, hsb⟩ := ihb
    cases u with
    | nil =>
      refine ⟨fun h => ?_, fun c hc => ?_⟩
      · simp [Expr.nullable, hna rfl, hnb h]
      · simp [Expr.mayStart, hna rfl, hsb c hc]
    | cons d u =>
      refine ⟨fun h => (nomatch h), fun c hc => ?_⟩
      simp [Expr.mayStart, hsa c hc]
  | preferred _ ih =>
    refine ⟨fun h => ?_, fun c hc => ?_⟩
    · simp [Expr.nullable, ih.1 h]
    · simp [Expr.mayStart, ih.2 c hc]
  | other _ ih =>
    refine ⟨fun h => ?_, fun c hc => ?_⟩
    · simp [Expr.nullable, ih.1 h]
    · simp [Expr.mayStart, ih.2 c hc]
  | none => exact ⟨fun _ => rfl, by simp⟩
  | @more a u w _ _ iha ihw =>
    refine ⟨fun _ => rfl, fun c hc => ?_⟩
    cases u with
    | nil => exact ihw.2 c hc
    | cons d u => exact iha.2 c hc

/-- A match that takes something starts with a character that words may start with. -/
theorem mayStart_of_match? {e : Expr} {c : Char} {cs : List Char} {n : Nat}
    (h : e.match? (c :: cs) = some n) (hn : 0 < n) : e.mayStart c = true := by
  obtain ⟨_, -, -, hu⟩ := accepts_of_match? h
  obtain ⟨n, rfl⟩ := Nat.exists_eq_succ_of_ne_zero (Nat.ne_of_gt hn)
  exact hu.starts.2 c rfl

/-! ### What words consist of -/

/-- All classes of the expression hold characters with the property only. -/
def Expr.Within (p : Char → Prop) : Expr → Prop
  | .empty => True
  | .one k => ∀ c, k.holds c = true → p c
  | .seq a b | .alt a b => a.Within p ∧ b.Within p
  | .star a => a.Within p

theorem Expr.Accepts.within {p : Char → Prop} {e : Expr} {u : List Char} (h : e.Accepts u)
    (he : e.Within p) : ∀ c ∈ u, p c := by
  induction h with
  | empty | none => simp
  | @one k c hk =>
    intro d hd
    obtain rfl := List.mem_singleton.mp hd
    exact he d hk
  | seq _ _ iha ihb =>
    intro c hc
    exact (List.mem_append.mp hc).elim (iha he.1 c) (ihb he.2 c)
  | preferred _ ih => exact ih he.1
  | other _ ih => exact ih he.2
  | more _ _ iha ihw =>
    intro c hc
    exact (List.mem_append.mp hc).elim (iha he c) (ihw he c)

/-! ### Repeated classes -/

theorem head?_repeated_one (k : CharClass) {fuel : Nat} {m : Mark} (hf : m.rest.length ≤ fuel)
    (others : List Mark) :
    (repeated (Expr.one k).ends fuel m others).head?.map Mark.taken =
      some (m.taken + (m.rest.takeWhile k.holds).length) := by
  induction fuel generalizing m others with
  | zero =>
    have hr : m.rest = [] := List.length_eq_zero_iff.mp (Nat.le_zero.mp hf)
    simp [repeated, hr]
  | succ fuel ih =>
    rw [repeated]
    cases hr : m.rest with
    | nil => simp [Expr.ends, hr]
    | cons c cs =>
      by_cases hk : k.holds c = true
      · have hlength : cs.length ≤ fuel := by
          rw [hr, List.length_cons] at hf
          omega
        have hnext : (Expr.one k).ends m = [⟨m.taken + 1, cs⟩] := by simp [Expr.ends, hr, hk]
        rw [hnext, List.foldr_cons, List.foldr_nil, if_pos (Nat.lt_succ_self _),
          ih (m := ⟨m.taken + 1, cs⟩) hlength, List.takeWhile_cons_of_pos hk, List.length_cons]
        exact congrArg some (Nat.add_right_comm m.taken 1 _)
      · simp [Expr.ends, hr, hk]

/-- A character of one class and then as many of another as there are. -/
theorem match?_run {first others : CharClass} {c : Char} (h : first.holds c = true)
    (cs : List Char) :
    (Expr.seq (.one first) (.star (.one others))).match? (c :: cs) =
      some ((cs.takeWhile others.holds).length + 1) := by
  have hfirst : (Expr.one first).ends (starting (c :: cs)) = [⟨1, cs⟩] := by
    simp [Expr.ends, starting, h]
  rw [Expr.match?, Expr.ends, hfirst, List.flatMap_singleton, Expr.ends,
    head?_repeated_one others (Nat.le_refl _), Nat.add_comm]

end GraphLanguages.Text.Regex
