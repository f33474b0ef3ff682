import GraphLanguages.Proofs.Text.Regex

/-! How far matches reach.

The ways to match that end within the text in front are the same whatever follows it
(`ends_append`), so a match that ends there is the match of that text alone
(`match?_append`). And where a text begins with a word of the expression, there is a match
(`isSome_match?_of_accepts`). -/
namespace GraphLanguages.Text.Regex

/-! ### Text that follows -/

/-- The mark as it is without the text that follows, if it lies in front of that. -/
def Mark.before? (rest : List Char) (m : Mark) : Option Mark :=
  if rest <:+ m.rest then some ⟨m.taken, m.rest.take (m.rest.length - rest.length)⟩ else none

variable {rest : List Char} {m m' : Mark}

theorem Mark.before?_append (n : Nat) (cs rest : List Char) :
    Mark.before? rest ⟨n, cs ++ rest⟩ = some ⟨n, cs⟩ := by
  rw [before?, if_pos (List.suffix_append cs rest)]
  simp

theorem Mark.before?_eq_some (h : m.before? rest = some m') :
    m = ⟨m'.taken, m'.rest ++ rest⟩ := by
  unfold before? at h
  split at h
  next hsuffix =>
    obtain ⟨cs, hcs⟩ := hsuffix
    obtain rfl := Option.some.inj h
    obtain ⟨n, _⟩ := m
    obtain rfl : cs ++ rest = _ := hcs
    simp
  next => cases h

theorem Mark.before?_eq_none : m.before? rest = none ↔ ¬rest <:+ m.rest := by
  rw [before?, ite_eq_right_iff]
  simp

/-- Behind a mark in the text that follows there are only more of them. -/
theorem before?_eq_none_of_leads {e : Expr} (h : e.Leads m m') (hm : m.before? rest = none) :
    m'.before? rest = none := by
  obtain ⟨u, hu, -, -⟩ := h
  rw [Mark.before?_eq_none] at hm ⊢
  exact fun hs => hm (hu ▸ hs.trans (List.suffix_append u m'.rest))

/-! ### Repetitions -/

/-- Steps go along words of an expression. -/
def Along (e : Expr) (step : Mark → List Mark) : Prop :=
  ∀ m, ∀ m' ∈ step m, e.Leads m m'

theorem Expr.Leads.shorter {e : Expr} (h : e.Leads m m') (hlt : m.taken < m'.taken) :
    m'.rest.length < m.rest.length := by
  obtain ⟨u, hu, htaken, -⟩ := h
  rw [hu, List.length_append]
  omega

/-- One round of repetitions: those from the marks of one step, and then the mark itself. -/
def rounds (step : Mark → List Mark) (fuel : Nat) (m : Mark) (others nexts : List Mark) :
    List Mark :=
  nexts.foldr (fun next later =>
    if m.taken < next.taken then repeated step fuel next later else later) (m :: others)

theorem repeated_succ (step : Mark → List Mark) (fuel : Nat) (m : Mark) (others : List Mark) :
    repeated step (fuel + 1) m others = rounds step fuel m others (step m) := rfl

theorem rounds_cons (step : Mark → List Mark) (fuel : Nat) (m next : Mark)
    (others nexts : List Mark) :
    rounds step fuel m others (next :: nexts) =
      if m.taken < next.taken then repeated step fuel next (rounds step fuel m others nexts)
      else rounds step fuel m others nexts := rfl

/-- A repetition takes a character at least, so as much fuel as there are is enough. -/
theorem repeated_fuel {e : Expr} {step : Mark → List Mark} (hstep : Along e step) {fuel : Nat}
    (hfuel : m.rest.length ≤ fuel) (others : List Mark) :
    repeated step (fuel + 1) m others = repeated step fuel m others := by
  induction fuel generalizing m others with
  | zero =>
    rw [repeated_succ]
    have hleads := hstep m
    generalize step m = nexts at hleads
    induction nexts with
    | nil => rfl
    | cons next nexts ihn =>
      have hnext : ¬m.taken < next.taken := fun hlt => by
        have := (hleads next (.head _)).shorter hlt
        omega
      rw [rounds_cons, if_neg hnext]
      exact ihn fun m' hm' => hleads m' (.tail _ hm')
  | succ fuel ih =>
    rw [repeated_succ, repeated_succ]
    have hleads := hstep m
    generalize step m = nexts at hleads
    induction nexts with
    | nil => rfl
    | cons next nexts ihn =>
      rw [rounds_cons, rounds_cons, ihn fun m' hm' => hleads m' (.tail _ hm')]
      by_cases hlt : m.taken < next.taken
      · have := (hleads next (.head _)).shorter hlt
        rw [if_pos hlt, if_pos hlt, ih (by omega)]
      · rw [if_neg hlt, if_neg hlt]

theorem repeated_fuel_add {e : Expr} {step : Mark → List Mark} (hstep : Along e step)
    (extra : Nat) (others : List Mark) :
    repeated step (m.rest.length + extra) m others = repeated step m.rest.length m others := by
  induction extra with
  | zero => rfl
  | succ extra ih => rw [← Nat.add_assoc, repeated_fuel hstep (Nat.le_add_right ..), ih]

/-- Repetitions from a mark in the text that follows leave nothing in front of it. -/
theorem filterMap_repeated_of_none {e : Expr} {step : Mark → List Mark} (hstep : Along e step)
    (fuel : Nat) (hm : m.before? rest = none) (others : List Mark) :
    (repeated step fuel m others).filterMap (Mark.before? rest) =
      others.filterMap (Mark.before? rest) := by
  induction fuel generalizing m others with
  | zero => rw [repeated, List.filterMap_cons_none hm]
  | succ fuel ih =>
    rw [repeated_succ]
    have hleads := hstep m
    generalize step m = nexts at hleads
    induction nexts with
    | nil => exact List.filterMap_cons_none hm
    | cons next nexts ihn =>
      have hrest := ihn fun m' hm' => hleads m' (.tail _ hm')
      rw [rounds_cons]
      split
      · rw [ih (before?_eq_none_of_leads (hleads next (.head _)) hm), hrest]
      · exact hrest

/-- Steps that are the same in front of the text that follows repeat alike. -/
theorem filterMap_repeated {e : Expr} {step : Mark → List Mark} (hstep : Along e step)
    (hsame : ∀ n cs, (step ⟨n, cs ++ rest⟩).filterMap (Mark.before? rest) = step ⟨n, cs⟩)
    (fuel n : Nat) (cs : List Char) (others : List Mark) :
    (repeated step fuel ⟨n, cs ++ rest⟩ others).filterMap (Mark.before? rest) =
      repeated step fuel ⟨n, cs⟩ (others.filterMap (Mark.before? rest)) := by
  induction fuel generalizing n cs others with
  | zero => exact List.filterMap_cons_some (Mark.before?_append n cs rest)
  | succ fuel ih =>
    rw [repeated_succ, repeated_succ, ← hsame n cs]
    generalize step ⟨n, cs ++ rest⟩ = nexts
    induction nexts with
    | nil => exact List.filterMap_cons_some (Mark.before?_append n cs rest)
    | cons next nexts ihn =>
      rw [rounds_cons]
      cases hnext : next.before? rest with
      | none =>
        rw [List.filterMap_cons_none hnext, ← ihn]
        split
        · exact filterMap_repeated_of_none hstep fuel hnext _
        · rfl
      | some next' =>
        rw [List.filterMap_cons_some hnext, rounds_cons, ← ihn]
        obtain rfl := Mark.before?_eq_some hnext
        split
        · exact ih next'.taken next'.rest _
        · rfl

/-! ### Matches in front of more text -/

theorem ends_append (e : Expr) (n : Nat) (cs rest : List Char) :
    (e.ends ⟨n, cs ++ rest⟩).filterMap (Mark.before? rest) = e.ends ⟨n, cs⟩ := by
  induction e generalizing n cs with
  | empty => exact List.filterMap_cons_some (Mark.before?_append n cs rest)
  | one k =>
    cases cs with
    | nil =>
      -- a character can be taken from the text that follows only
      refine List.filterMap_eq_nil_iff.mpr fun m' hm' => Mark.before?_eq_none.mpr fun hs => ?_
      obtain ⟨u, hu, -, haccepts⟩ := leads_of_mem_ends hm'
      have hlength := congrArg List.length hu
      rw [List.nil_append, List.length_append] at hlength
      have := hs.length_le
      cases haccepts
      simp only [List.length_cons] at hlength
      omega
    | cons c cs =>
      by_cases hk : k.holds c
      · simp only [List.cons_append, Expr.ends, hk, if_true]
        exact List.filterMap_cons_some (Mark.before?_append _ cs rest)
      · simp only [List.cons_append, Expr.ends, hk]
        rfl
  | seq a b iha ihb =>
    rw [Expr.ends, Expr.ends, ← iha n cs]
    generalize a.ends ⟨n, cs ++ rest⟩ = nexts
    induction nexts with
    | nil => rfl
    | cons next nexts ihn =>
      rw [List.flatMap_cons, List.filterMap_append, ihn]
      cases hnext : next.before? rest with
      | none =>
        rw [List.filterMap_cons_none hnext, List.filterMap_eq_nil_iff.mpr fun m' hm' =>
          before?_eq_none_of_leads (leads_of_mem_ends hm') hnext, List.nil_append]
      | some next' =>
        rw [List.filterMap_cons_some hnext, List.flatMap_cons]
        obtain rfl := Mark.before?_eq_some hnext
        rw [ihb]
  | alt a b iha ihb => rw [Expr.ends, Expr.ends, List.filterMap_append, iha, ihb]
  | star a ih =>
    have hstep : Along a a.ends := fun _ _ => leads_of_mem_ends
    rw [Expr.ends, Expr.ends, filterMap_repeated hstep ih, List.length_append]
    exact repeated_fuel_add (m := ⟨n, cs⟩) hstep rest.length []

/-- A match that ends in front of the text that follows is a match without that text. -/
theorem match?_append {e : Expr} {cs rest : List Char}
    (h : ∀ n ∈ e.match? (cs ++ rest), n ≤ cs.length) :
    e.match? (cs ++ rest) = e.match? cs := by
  have hends := ends_append e 0 cs rest
  rw [Expr.match?, starting] at h
  rw [Expr.match?, Expr.match?, starting, starting, ← hends]
  cases hmarks : e.ends ⟨0, cs ++ rest⟩ with
  | nil => rfl
  | cons m marks =>
    rw [hmarks] at h
    have htaken : m.taken ≤ cs.length := h m.taken rfl
    obtain ⟨u, hu, hlength, -⟩ := leads_of_mem_ends (hmarks ▸ List.mem_cons_self)
    have hsuffix : rest <:+ m.rest := by
      refine List.suffix_of_suffix_length_le (List.suffix_append cs rest) ⟨u, hu.symm⟩ ?_
      have := congrArg List.length hu
      simp only [List.length_append] at this
      omega
    cases hm : m.before? rest with
    | none => exact absurd hsuffix (Mark.before?_eq_none.mp hm)
    | some m' =>
      rw [List.filterMap_cons_some hm, Mark.before?_eq_some hm]
      rfl

/-! ### Words are found -/

theorem accepts_seq {a b : Expr} {w : List Char} :
    (Expr.seq a b).Accepts w ↔ ∃ u v, a.Accepts u ∧ b.Accepts v ∧ w = u ++ v := by
  constructor
  · intro h
    cases h with
    | seq hu hv => exact ⟨_, _, hu, hv, rfl⟩
  · rintro ⟨u, v, hu, hv, rfl⟩
    exact .seq hu hv

theorem accepts_alt {a b : Expr} {w : List Char} :
    (Expr.alt a b).Accepts w ↔ a.Accepts w ∨ b.Accepts w := by
  constructor
  · intro h
    cases h with
    | preferred h => exact .inl h
    | other h => exact .inr h
  · rintro (h | h)
    · exact .preferred h
    · exact .other h

theorem accepts_one {k : CharClass} {w : List Char} :
    (Expr.one k).Accepts w ↔ ∃ c, k.holds c = true ∧ w = [c] := by
  constructor
  · intro h
    cases h with
    | one hc => exact ⟨_, hc, rfl⟩
  · rintro ⟨c, hc, rfl⟩
    exact .one hc

/-- Repetitions hold what each of them adds to. -/
theorem Expr.Accepts.star_induction {e : Expr} {p : List Char → Prop} (nil : p [])
    (more : ∀ u w, e.Accepts u → p w → p (u ++ w)) {w : List Char}
    (h : (Expr.star e).Accepts w) : p w := by
  generalize hstar : Expr.star e = star at h
  induction h with
  | empty | one | seq | preferred | other => cases hstar
  | none => exact nil
  | more hu _ _ ih =>
    cases hstar
    exact more _ _ hu (ih rfl)

theorem repeated_append (step : Mark → List Mark) (fuel : Nat) (m : Mark) (others : List Mark) :
    repeated step fuel m others = repeated step fuel m [] ++ others := by
  induction fuel generalizing m others with
  | zero => rfl
  | succ fuel ih =>
    rw [repeated_succ, repeated_succ]
    generalize step m = nexts
    induction nexts with
    | nil => rfl
    | cons next nexts ihn =>
      rw [rounds_cons, rounds_cons, ihn]
      split
      · rw [ih next (_ ++ _), ih next (rounds _ _ _ _ _), List.append_assoc]
      · rfl

theorem mem_repeated_self (step : Mark → List Mark) (fuel : Nat) (m : Mark) :
    m ∈ repeated step fuel m [] := by
  cases fuel with
  | zero => exact .head _
  | succ fuel =>
    rw [repeated_succ]
    generalize step m = nexts
    induction nexts with
    | nil => exact .head _
    | cons next nexts ihn =>
      rw [rounds_cons]
      split
      · rw [repeated_append]
        exact List.mem_append_right _ ihn
      · exact ihn

/-- A repetition goes on from each step that takes something. -/
theorem mem_repeated_of_step {step : Mark → List Mark} {fuel : Nat} (next : Mark)
    (hnext : next ∈ step m) (hlt : m.taken < next.taken) (h : m' ∈ repeated step fuel next []) :
    m' ∈ repeated step (fuel + 1) m [] := by
  rw [repeated_succ]
  generalize step m = nexts at hnext
  induction nexts with
  | nil => cases hnext
  | cons first nexts ihn =>
    rw [rounds_cons]
    rcases List.mem_cons.mp hnext with rfl | hnext
    · rw [if_pos hlt, repeated_append]
      exact List.mem_append_left _ h
    · split
      · rw [repeated_append]
        exact List.mem_append_right _ (ihn hnext)
      · exact ihn hnext

/-- No word of the expression has the character. -/
def Expr.avoids (c : Char) : Expr → Bool
  | .empty => true
  | .one k => !k.holds c
  | .seq a b | .alt a b => a.avoids c && b.avoids c
  | .star a => a.avoids c

theorem Expr.within_of_avoids {c : Char} {e : Expr} (h : e.avoids c = true) :
    e.Within (· ≠ c) := by
  induction e with
  | empty => trivial
  | one k =>
    rintro d hd rfl
    simp [avoids, hd] at h
  | seq a b iha ihb | alt a b iha ihb =>
    rw [avoids, Bool.and_eq_true] at h
    exact ⟨iha h.1, ihb h.2⟩
  | star a ih => exact ih h

theorem mem_ends_of_accepts {e : Expr} {u : List Char} (h : e.Accepts u) (n : Nat)
    (rest : List Char) : ⟨n + u.length, rest⟩ ∈ e.ends ⟨n, u ++ rest⟩ := by
  induction h generalizing n rest with
  | empty => exact .head _
  | one hk =>
    rw [List.singleton_append, Expr.ends]
    simp [hk]
  | seq _ _ iha ihb =>
    rw [Expr.ends, List.append_assoc, List.length_append, ← Nat.add_assoc]
    exact List.mem_flatMap.mpr ⟨_, iha n _, ihb _ rest⟩
  | preferred _ ih => exact List.mem_append_left _ (ih n rest)
  | other _ ih => exact List.mem_append_right _ (ih n rest)
  | none => exact mem_repeated_self _ _ _
  | @more a u w _ _ iha ihw =>
    by_cases hu : u = []
    · rw [hu]
      exact ihw n rest
    · have hpos : 0 < u.length := List.length_pos_iff.mpr hu
      have hlater := ihw (n + u.length) rest
      rw [Expr.ends] at hlater ⊢
      obtain ⟨extra, hextra⟩ : ∃ extra, (u ++ w ++ rest).length =
          ((w ++ rest).length + extra) + 1 := ⟨u.length - 1, by simp; omega⟩
      have htaken : n + (u ++ w).length = n + u.length + w.length := by
        rw [List.length_append, Nat.add_assoc]
      rw [hextra, htaken]
      refine mem_repeated_of_step ⟨n + u.length, w ++ rest⟩
        (by rw [List.append_assoc]; exact iha n _) (Nat.lt_add_of_pos_right hpos) ?_
      rw [repeated_fuel_add (m := ⟨n + u.length, w ++ rest⟩) fun _ _ => leads_of_mem_ends]
      exact hlater

theorem isSome_match?_of_accepts {e : Expr} {u : List Char} (h : e.Accepts u)
    (rest : List Char) : (e.match? (u ++ rest)).isSome := by
  have hmem := mem_ends_of_accepts h 0 rest
  rw [Expr.match?, starting]
  cases hends : e.ends ⟨0, u ++ rest⟩ with
  | nil => rw [hends] at hmem; cases hmem
  | cons m marks => rfl

end GraphLanguages.Text.Regex
