import GraphLanguages.Proofs.Grammar.Forest

/-! The token taken last.

The rules around the last leaf of a tree (`lastRules?`) stay what they are as long as no
token is taken (`Runs.lastRules?_of_nil`), and a node that is closed adds its own name to
them (`Runs.lastRules?_close`). -/
namespace GraphLanguages

namespace Tree

/-! ### The rules around the last leaf -/

mutual

/-- The rules around the last leaf, outermost first. -/
def lastRules? : Tree → Option (List String)
  | .leaf _ => some []
  | .node name children => (lastRulesIn? children).map (name :: ·)

def lastRulesIn? : List Tree → Option (List String)
  | [] => none
  | t :: ts => (lastRulesIn? ts).or (lastRules? t)

end

theorem lastRulesIn?_append (ts us : List Tree) :
    lastRulesIn? (ts ++ us) = (lastRulesIn? us).or (lastRulesIn? ts) := by
  induction ts with
  | nil => simp [lastRulesIn?]
  | cons t ts ih => simp [lastRulesIn?, ih, Option.or_assoc]

mutual

theorem lastRules?_eq_none (t : Tree) : t.lastRules? = none ↔ t.leaves = [] := by
  cases t with
  | leaf t => simp [lastRules?, leaves]
  | node name children => simpa [lastRules?, leaves] using lastRulesIn?_eq_none children

theorem lastRulesIn?_eq_none (ts : List Tree) : lastRulesIn? ts = none ↔ leavesOf ts = [] := by
  cases ts with
  | nil => simp [lastRulesIn?, leavesOf]
  | cons t ts =>
    simp [lastRulesIn?, leavesOf, lastRulesIn?_eq_none ts, lastRules?_eq_none t, and_comm]

end

end Tree

namespace Grammar
open GraphLanguages.Tree

/-! ### The token taken last -/

/-- The rules around the token taken last, as far as they lie below the open ones. -/
def State.lastRules? (s : State) : Option (List String) :=
  lastRulesIn? s.forest.reverse

namespace Grows
variable {open_ : List String} {s s' : State} {trees : List Tree}

theorem lastRules? (h : Grows open_ s s' trees) :
    s'.lastRules? = (lastRulesIn? trees).or s.lastRules? := by
  simp [State.lastRules?, h.forest, lastRulesIn?_append]

/-- Where no token is taken, the one taken last stays where it is. -/
theorem lastRules?_of_nil (h : Grows open_ s s' trees) (hs : s.rest = []) :
    s'.lastRules? = s.lastRules? := by
  have hleaves : leavesOf trees = [] := by
    have := h.rest
    rw [hs] at this
    exact (List.append_eq_nil_iff.mp this.symm).1
  rw [h.lastRules?, (lastRulesIn?_eq_none trees).mpr hleaves, Option.none_or]

/-- The trees that a run adds hold the last token if they hold any. -/
theorem lastRules?_of_all (h : Grows open_ s s' trees) (hs : s.rest ≠ []) (hs' : s'.rest = []) :
    ∃ rules, lastRulesIn? trees = some rules ∧ s'.lastRules? = some rules := by
  cases hl : lastRulesIn? trees with
  | none =>
    have := h.rest
    rw [(lastRulesIn?_eq_none trees).mp hl, hs'] at this
    exact absurd this hs
  | some rules => exact ⟨rules, rfl, by rw [h.lastRules?, hl, Option.some_or]⟩

end Grows

section
variable {σ : Setting} {open_ : List String} {p : Phrase} {s : State} {o : Outcome}

theorem Runs.lastRules?_of_nil (h : Runs σ open_ p s o) (hd : open_.length ≤ maxDepth)
    (hs : s.rest = []) : o.state.lastRules? = s.lastRules? := by
  obtain ⟨_, hgrows⟩ := h.grows hd
  exact hgrows.lastRules?_of_nil hs

/-- A node that is closed adds its name. -/
theorem lastRules?_close {s : State} {rules : List String} (h : s.lastRules? = some rules)
    (name : String) (outer : List Tree) :
    (s.close name outer).lastRules? = some (name :: rules) := by
  have hinner : lastRulesIn? s.forest.reverse = some rules := h
  simp [State.lastRules?, State.close, lastRulesIn?_append, lastRulesIn?, Tree.lastRules?, hinner]

/-- A run that takes all tokens takes the last one below its node. -/
theorem Runs.lastRules?_close {name : String} (h : Runs σ (name :: open_) p s o)
    (hd : open_.length < maxDepth) (hs : s.rest ≠ []) (hall : o.state.rest = [])
    (outer : List Tree) :
    ∃ rules, o.state.lastRules? = some rules ∧
      (o.map (State.close name outer)).state.lastRules? = some (name :: rules) := by
  obtain ⟨trees, hgrows⟩ := h.grows hd
  obtain ⟨rules, -, hrules⟩ := hgrows.lastRules?_of_all hs hall
  have hclose : (o.map (State.close name outer)).state = o.state.close name outer := by
    cases o <;> rfl
  exact ⟨rules, hrules, hclose ▸ Grammar.lastRules?_close hrules name outer⟩

end

end Grammar

end GraphLanguages
