import GraphLanguages.Proofs.Grammar.Form

/-! What lies ahead.

An outlook names, place by place, what the next tokens may be, as far as that is known.
A question about one place splits outlooks (`Sees.narrow`), and a form in front of what
is known already has an outlook of its own (`sees_ahead`). The end of the tokens goes
by the name of the sentinel. -/
namespace GraphLanguages

namespace Vocabulary

def names (v : Vocabulary) : List String :=
  v.types.map (·.name)

theorem contains_iff {v : Vocabulary} {name : String} :
    v.contains name = true ↔ name ∈ v.names := by
  simp [contains, names]

/-- Do all names in the list stand for types? -/
def Spells (v : Vocabulary) (w : List String) : Prop :=
  ∀ u ∈ w, u ∈ v.names

/-- Types have names of their own, and none has that of the sentinel. -/
structure WellNamed (v : Vocabulary) : Prop where
  distinct : v.Distinct
  no_end : "EOF" ∉ v.names

end Vocabulary

namespace Grammar

/-- The name at a place of a word, that of the sentinel behind its end. -/
def look (w : Word) (place : Nat) : String :=
  (w[place]?).getD "EOF"

theorem look_tail (w : Word) (place : Nat) : look w.tail place = look w (place + 1) := by
  rw [look, look, List.getElem?_tail]

/-! ### Questions about one place -/

namespace Lookahead

/-- The place that the question is about, if it is about the token at one place. -/
def place? : Lookahead → Option Nat
  | .is name => if name = "EOF" then none else some 0
  | .anyOf names => if "EOF" ∈ names then none else some 0
  | .tagged c _ => if c = .endOfInput then none else some 0
  | .either a b | .both a b => if a.place? = b.place? then a.place? else none
  | .negated a => a.place?
  | .aheadIs place name => if name = "EOF" then none else some place
  | .aheadTagged place c => if c = .endOfInput then none else some place
  | .atEnd => none

/-- The answer if that place has the name. -/
def accepts (v : Vocabulary) : Lookahead → String → Bool
  | .is name, u | .aheadIs _ name, u => Vocabulary.sameName u name
  | .anyOf names, u => names.any (Vocabulary.sameName u)
  | .tagged c _, u | .aheadTagged _ c, u => (v.carriers c).any (Vocabulary.sameName u)
  | .either a b, u => a.accepts v u || b.accepts v u
  | .both a b, u => a.accepts v u && b.accepts v u
  | .negated a, u => !a.accepts v u
  | .atEnd, u => u == "EOF"

theorem any_getElem?_eq {w : Word} {place : Nat} {p : String → Bool} (h : p "EOF" = false) :
    w[place]?.any p = p (look w place) := by
  unfold look
  cases w[place]? with
  | none => exact h.symm
  | some => rfl

theorem carriers_end {v : Vocabulary} (hv : "EOF" ∉ v.names) (c : Category) :
    (v.carriers c).contains "EOF" = false := by
  rw [← Bool.not_eq_true, List.contains_iff_mem]
  intro h
  obtain ⟨T, hT, hn⟩ := List.mem_map.mp h
  exact hv (List.mem_map.mpr ⟨T, List.mem_of_mem_filter hT, hn⟩)

theorem grounded_of_place? {test : Lookahead} {place : Nat} (h : test.place? = some place) :
    test.grounded = true := by
  induction test with
  | is name | aheadIs d name =>
    simp only [place?] at h
    split at h
    next => cases h
    next hn => simpa [grounded] using hn
  | anyOf names =>
    simp only [place?] at h
    split at h
    next => cases h
    next hn => exact List.all_eq_true.mpr fun n hm => bne_iff_ne.mpr fun he => hn (he ▸ hm)
  | tagged c offered | aheadTagged d c =>
    simp only [place?] at h
    split at h
    next => cases h
    next hc => simpa [grounded] using hc
  | either a b iha ihb | both a b iha ihb =>
    simp only [place?] at h
    split at h
    next hab => simp only [grounded, iha h, ihb (hab ▸ h), Bool.and_self]
    next => cases h
  | negated a ih => exact ih h
  | atEnd => cases h

/-- A question about one place is answered by the name there. -/
theorem holdsOn_eq_accepts {v : Vocabulary} (hv : v.WellNamed) {test : Lookahead} {place : Nat}
    (hp : test.place? = some place) (w : Word) :
    test.holdsOn v w = test.accepts v (look w place) := by
  induction test with
  | is name | aheadIs d name =>
    simp only [place?] at hp
    split at hp
    next => cases hp
    next hn =>
      cases hp
      rw [accepts, Vocabulary.sameName_eq]
      exact any_getElem?_eq (by simpa using Ne.symm hn)
  | anyOf names =>
    simp only [place?] at hp
    split at hp
    next => cases hp
    next hn =>
      cases hp
      rw [accepts, Vocabulary.any_sameName, List.contains_eq_any_beq]
      refine any_getElem?_eq (p := fun u => names.any (u == ·))
        (List.any_eq_false.mpr fun n hm => ?_)
      exact fun he => hn (beq_iff_eq.mp he ▸ hm)
  | tagged c offered | aheadTagged d c =>
    simp only [place?] at hp
    split at hp
    next => cases hp
    next =>
      cases hp
      rw [accepts, Vocabulary.any_sameName]
      exact any_getElem?_eq (carriers_end hv.no_end c)
  | either a b iha ihb | both a b iha ihb =>
    simp only [place?] at hp
    split at hp
    next hab => simp only [holdsOn, accepts, iha hp, ihb (hab ▸ hp)]
    next => cases hp
  | negated a ih => exact congrArg not (ih hp)
  | atEnd => cases hp

end Lookahead

/-! ### Outlooks -/

/-- The names that the next places may have; of places behind the list nothing is known. -/
abbrev Outlook := List (List String)

/-- The word is one that the outlook allows. -/
def Sees : Outlook → Word → Prop
  | [], _ => True
  | names :: k, w => look w 0 ∈ names ∧ Sees k w.tail

namespace Outlook

/-- Nothing can be seen. -/
def dark : Outlook := [[], []]

/-- Only the end can be seen. -/
def last : Outlook := [["EOF"]]

/-- Keeps those names of a place; `all` are the names of a place that is not known. -/
def narrow (all : List String) (keep : String → Bool) : Nat → Outlook → Outlook
  | 0, names :: k => names.filter keep :: k
  | 0, [] => [all.filter keep]
  | place + 1, names :: k => names :: narrow all keep place k
  | place + 1, [] => all :: narrow all keep place []

/-- Is it known that a place has one of those names? -/
def ensures (check : String → Bool) : Nat → Outlook → Bool
  | 0, names :: _ => names.all check
  | place + 1, _ :: k => ensures check place k
  | _, [] => false

/-- Does the second outlook allow nothing but what the first does? -/
def covers : Outlook → Outlook → Bool
  | [], _ => true
  | names :: k, names' :: k' =>
    (names'.all fun u => names.any (Vocabulary.sameName u)) && covers k k'
  | _ :: _, [] => false

/-- What either outlook allows. -/
def union (k k' : Outlook) : Outlook :=
  List.zipWith (fun names names' =>
    names ++ names'.filter fun u => !names.any (Vocabulary.sameName u)) k k'

end Outlook

section
variable {k k' : Outlook} {w : Word}

theorem sees_nil (w : Word) : Sees [] w := trivial

theorem sees_last : Sees .last [] :=
  ⟨List.mem_singleton_self _, trivial⟩

theorem look_mem {v : Vocabulary} (hw : v.Spells w) (place : Nat) :
    look w place ∈ "EOF" :: v.names := by
  unfold look
  cases h : w[place]? with
  | none => exact List.mem_cons_self ..
  | some u => exact List.mem_cons_of_mem _ (hw u (List.mem_of_getElem? h))

theorem Sees.narrow {all : List String} {keep : String → Bool} {place : Nat} (h : Sees k w)
    (hall : ∀ d, look w d ∈ all) (hk : keep (look w place) = true) :
    Sees (k.narrow all keep place) w := by
  have htail : ∀ d, look w.tail d ∈ all := fun d => look_tail w d ▸ hall (d + 1)
  induction place generalizing k w with
  | zero =>
    cases k with
    | nil => exact ⟨List.mem_filter.mpr ⟨hall 0, hk⟩, trivial⟩
    | cons names k => exact ⟨List.mem_filter.mpr ⟨h.1, hk⟩, h.2⟩
  | succ place ih =>
    rw [← look_tail] at hk
    have hstep {k : Outlook} (h : Sees k w.tail) : Sees (k.narrow all keep place) w.tail :=
      ih h htail hk fun d => look_tail w.tail d ▸ htail (d + 1)
    cases k with
    | nil => exact ⟨hall 0, hstep trivial⟩
    | cons names k => exact ⟨h.1, hstep h.2⟩

theorem Sees.ensures {check : String → Bool} {place : Nat} (h : Sees k w)
    (hk : k.ensures check place = true) : check (look w place) = true := by
  induction place generalizing k w with
  | zero =>
    cases k with
    | nil => cases hk
    | cons names k => exact List.all_eq_true.mp hk _ h.1
  | succ place ih =>
    cases k with
    | nil => cases hk
    | cons names k => exact look_tail w place ▸ ih h.2 hk

theorem Sees.covered (h : Sees k' w) (hk : k.covers k' = true) : Sees k w := by
  induction k generalizing k' w with
  | nil => trivial
  | cons names k ih =>
    cases k' with
    | nil => cases hk
    | cons names' k' =>
      simp only [Outlook.covers, Vocabulary.any_sameName, Bool.and_eq_true, List.all_eq_true] at hk
      exact ⟨List.contains_iff_mem.mp (hk.1 _ h.1), ih h.2 hk.2⟩

theorem sees_union (h : Sees k w ∨ Sees k' w) : Sees (k.union k') w := by
  induction k generalizing k' w with
  | nil => trivial
  | cons names k ih =>
    cases k' with
    | nil => trivial
    | cons names' k' =>
      refine ⟨?_, ih (h.imp And.right And.right)⟩
      simp only [List.mem_append, List.mem_filter, Vocabulary.any_sameName]
      by_cases hmem : look w 0 ∈ names
      · exact .inl hmem
      · exact .inr ⟨(h.resolve_left fun h => hmem h.1).1, by simp [hmem]⟩

theorem Sees.tail (h : Sees k w) : Sees k.tail w.tail := by
  cases k with
  | nil => trivial
  | cons names k => exact h.2

theorem Sees.take (h : Sees k w) (n : Nat) : Sees (k.take n) w := by
  induction n generalizing k w with
  | zero => rw [List.take_zero]; trivial
  | succ n ih =>
    cases k with
    | nil => trivial
    | cons names k => exact ⟨h.1, ih h.2⟩

end

/-! ### The outlook of a form -/

/-- No question looks further. -/
def sight : Nat := 2

/-- What can be seen in front of the form when `k` is what can be seen behind it, given
what can be seen in front of the named forms. -/
def Form.ahead (heads : List (String × Outlook)) : Form → Outlook → Outlook
  | .never, _ => .dark
  | .empty, k => k
  | .token names, k => (names :: k).take sight
  | .seq a b, k => a.ahead heads (b.ahead heads k)
  | .alt a b, k => (a.ahead heads k).union (b.ahead heads k)
  | .many a, k =>
    -- each round sees a little further; if it does not settle, nothing is known
    let k₁ := k.union (a.ahead heads k)
    let k₂ := k.union (a.ahead heads k₁)
    if k₂.covers k && k₂.covers (a.ahead heads k₂) then k₂ else []
  | .rule name, _ => (heads.lookup name).getD []

/-- What can be seen in front of the named forms is right. -/
def Heads (rules : List (String × Form)) (heads : List (String × Outlook)) : Prop :=
  ∀ r ∈ rules, ((heads.lookup r.1).getD []).covers (r.2.ahead heads []) = true

instance (rules : List (String × Form)) (heads : List (String × Outlook)) :
    Decidable (Heads rules heads) :=
  inferInstanceAs (Decidable (∀ r ∈ rules, _))

/-- A word of a form, with something behind it, is one that its outlook allows. -/
theorem sees_ahead {rules : List (String × Form)} {heads : List (String × Outlook)}
    (hh : Heads rules heads) {φ : Form} {w r : Word} (h : Derives rules φ w) {k : Outlook}
    (hk : Sees k r) : Sees (φ.ahead heads k) (w ++ r) := by
  induction h generalizing k r with
  | empty => exact hk
  | @token names u hu =>
    have : Sees (names :: k) (u :: r) := ⟨hu, hk⟩
    exact this.take sight
  | @seq a b w w' _ _ iha ihb =>
    rw [List.append_assoc]
    exact iha (ihb hk)
  | first _ ih => exact sees_union (.inl (ih hk))
  | second _ ih => exact sees_union (.inr (ih hk))
  | none =>
    unfold Form.ahead
    extract_lets
    split
    next hc => exact hk.covered (Bool.and_eq_true_iff.mp hc).1
    next => trivial
  | @more a w w' _ _ iha ihm =>
    have hrest := ihm hk
    rw [List.append_assoc]
    unfold Form.ahead at hrest ⊢
    extract_lets at hrest ⊢
    split at hrest
    next hc =>
      rw [if_pos hc]
      exact (iha hrest).covered (Bool.and_eq_true_iff.mp hc).2
    next hc =>
      rw [if_neg hc]
      trivial
  | @rule name φ w hl _ ih =>
    obtain ⟨l₁, l₂, hrules, _⟩ := List.lookup_eq_some_iff.mp hl
    exact (ih (sees_nil _)).covered (hh (name, φ) (by simp [hrules]))

end Grammar

end GraphLanguages
