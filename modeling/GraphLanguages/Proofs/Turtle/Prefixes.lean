import GraphLanguages.Proofs.Images
import GraphLanguages.Proofs.PrefixedNames
import GraphLanguages.Proofs.Text.Blank

/-! Which prefixes are reported.

A prefix is declared where it stands right behind a keyword that declares prefixes, whatever
comes behind it, and from there on (`DeclaresAt`). The check goes through the tokens once. At each
of them it knows the prefixes that are declared before it (`KnownBefore`), so what it reports are
the names whose prefix is not among these (`undeclaredFrom_spec`), in their order, and nothing
else (`undeclared_exact`). -/
namespace GraphLanguages.Turtle

/-! ### Declarations and uses -/

/-- At a place, a prefix is declared: it stands right behind a keyword for that. -/
inductive DeclaresAt (tokens : List Token) : Nat → String → Prop
  | behind {i : Nat} {keyword t : Token} : tokens[i]? = some keyword →
      keyword.name = "TTL_PREFIX" ∨ keyword.name = "SPARQL_PREFIX" →
      tokens[i + 1]? = some t → t.name = "PNAME_NS" → DeclaresAt tokens (i + 1) t.image

/-- A name begins with its prefix, which ends with the first colon. -/
def HasPrefix (image prefix_ : String) : Prop :=
  ∃ alias_ name, ':' ∉ alias_ ∧ prefix_.toList = alias_ ++ [':'] ∧
    image.toList = alias_ ++ ':' :: name

/-- At a place, a prefix is used that is not declared before. -/
structure UndeclaredAt (tokens : List Token) (i : Nat) (t : Token) : Prop where
  place : tokens[i]? = some t
  name : t.name = "PNAME_NS" ∨ t.name = "PNAME_LN"
  uses : ∀ prefix_, ¬DeclaresAt tokens i prefix_
  undeclared : ∃ prefix_, HasPrefix t.image prefix_ ∧ ∀ j < i, ¬DeclaresAt tokens j prefix_

theorem namespaceOf_eq {image : String} {alias_ name : List Char}
    (h : image.toList = alias_ ++ ':' :: name) (halias : ':' ∉ alias_) :
    namespaceOf image = String.ofList (alias_ ++ [':']) := by
  rw [namespaceOf, h, Text.span_mark halias]
  rfl

/-- What a name with a colon is looked up by is its prefix. -/
theorem hasPrefix_iff {image : String} (h : ':' ∈ image.toList) {prefix_ : String} :
    HasPrefix image prefix_ ↔ prefix_ = namespaceOf image := by
  constructor
  · intro h
    obtain ⟨alias_, name, halias, hprefix, himage⟩ := h
    rw [namespaceOf_eq himage halias, ← hprefix, String.ofList_toList]
  · intro heq
    obtain ⟨alias_, name, himage, halias⟩ := List.eq_append_cons_of_mem h
    refine ⟨alias_, name, halias, ?_, himage⟩
    rw [heq, namespaceOf_eq himage halias, String.toList_ofList]

/-! ### One step -/

/-- The token in front of a place. -/
def tokenBefore? (tokens : List Token) : Nat → Option Token
  | 0 => none
  | n + 1 => tokens[n]?

/-- The prefixes that are declared before a place. -/
def KnownBefore (tokens : List Token) (n : Nat) (known : List String) : Prop :=
  ∀ prefix_, prefix_ ∈ known ↔ ∃ j < n, DeclaresAt tokens j prefix_

section
variable {tokens : List Token} {n : Nat} {t : Token} {known : List String}

theorem declares_iff {previous : Option Token} :
    declares previous = true ↔
      ∃ t, previous = some t ∧ (t.name = "TTL_PREFIX" ∨ t.name = "SPARQL_PREFIX") := by
  simp [declares, Option.any_eq_true]

/-- The check takes a token for a declaration where it is one. -/
theorem declaresAt_iff (ht : tokens[n]? = some t) {prefix_ : String} :
    DeclaresAt tokens n prefix_ ↔
      (t.name == "PNAME_NS" && declares (tokenBefore? tokens n)) = true ∧ t.image = prefix_ := by
  rw [Bool.and_eq_true, beq_iff_eq, declares_iff]
  constructor
  · intro h
    cases h with
    | behind hkeyword hdeclares ht' hname =>
      obtain rfl := Option.some.inj (ht.symm.trans ht')
      exact ⟨⟨hname, _, hkeyword, hdeclares⟩, rfl⟩
  · intro h
    obtain ⟨⟨hname, keyword, hkeyword, hdeclares⟩, rfl⟩ := h
    cases n with
    | zero => cases hkeyword
    | succ n => exact .behind hkeyword hdeclares ht hname

/-- Behind a declaration its prefix is known as well. -/
theorem KnownBefore.declared (h : KnownBefore tokens n known) (ht : tokens[n]? = some t)
    (hd : DeclaresAt tokens n t.image) : KnownBefore tokens (n + 1) (t.image :: known) := by
  intro prefix_
  rw [List.mem_cons, h prefix_]
  constructor
  · intro hmem
    rcases hmem with rfl | ⟨j, hj, hat⟩
    · exact ⟨n, Nat.lt_succ_self n, hd⟩
    · exact ⟨j, Nat.lt_succ_of_lt hj, hat⟩
  · intro hmem
    obtain ⟨j, hj, hat⟩ := hmem
    rcases Nat.lt_succ_iff_lt_or_eq.mp hj with hj | rfl
    · exact .inr ⟨j, hj, hat⟩
    · exact .inl ((declaresAt_iff ht).mp hat).2.symm

/-- Behind any other token, the same prefixes are known. -/
theorem KnownBefore.same (h : KnownBefore tokens n known)
    (hn : ∀ prefix_, ¬DeclaresAt tokens n prefix_) : KnownBefore tokens (n + 1) known := by
  intro prefix_
  rw [h prefix_]
  constructor
  · intro hmem
    obtain ⟨j, hj, hat⟩ := hmem
    exact ⟨j, Nat.lt_succ_of_lt hj, hat⟩
  · intro hmem
    obtain ⟨j, hj, hat⟩ := hmem
    rcases Nat.lt_succ_iff_lt_or_eq.mp hj with hj | rfl
    · exact ⟨j, hj, hat⟩
    · exact absurd hat (hn prefix_)

/-- A name that is no declaration is reported if its prefix is not known. -/
theorem undeclaredAt_iff (h : KnownBefore tokens n known) (ht : tokens[n]? = some t)
    (hcolon : t.name = "PNAME_NS" ∨ t.name = "PNAME_LN" → ':' ∈ t.image.toList)
    (hn : ∀ prefix_, ¬DeclaresAt tokens n prefix_) :
    UndeclaredAt tokens n t ↔
      ((t.name == "PNAME_NS" || t.name == "PNAME_LN") &&
        !known.contains (namespaceOf t.image)) = true := by
  have hunknown : (!known.contains (namespaceOf t.image)) = true ↔
      ∀ j < n, ¬DeclaresAt tokens j (namespaceOf t.image) := by
    rw [Bool.not_eq_true', ← Bool.not_eq_true, List.contains_iff_mem, h]
    simp only [not_exists, not_and]
  rw [Bool.and_eq_true, Bool.or_eq_true, beq_iff_eq, beq_iff_eq, hunknown]
  constructor
  · intro hat
    obtain ⟨prefix_, hprefix, hundeclared⟩ := hat.undeclared
    have hname := hat.name
    obtain rfl := (hasPrefix_iff (hcolon hname)).mp hprefix
    exact ⟨hname, hundeclared⟩
  · intro hreported
    obtain ⟨hname, hundeclared⟩ := hreported
    exact ⟨ht, hname, hn, _, (hasPrefix_iff (hcolon hname)).mpr rfl, hundeclared⟩

/-- From one place on is at that place or from the next one on. -/
theorem undeclared_from_iff {i : Nat} :
    (n ≤ i ∧ ∃ t, UndeclaredAt tokens i t) ↔
      (i = n ∧ ∃ t, UndeclaredAt tokens n t) ∨ n + 1 ≤ i ∧ ∃ t, UndeclaredAt tokens i t := by
  constructor
  · intro hfrom
    obtain ⟨hle, h⟩ := hfrom
    rcases Nat.eq_or_lt_of_le hle with rfl | hlt
    · exact .inl ⟨rfl, h⟩
    · exact .inr ⟨hlt, h⟩
  · intro hfrom
    rcases hfrom with ⟨rfl, h⟩ | ⟨hlt, h⟩
    · exact ⟨Nat.le_refl _, h⟩
    · exact ⟨Nat.le_of_succ_le hlt, h⟩

end

/-! ### All steps -/

/-- The check reports the uses of undeclared prefixes from a place on, in their order. -/
theorem undeclaredFrom_spec {tokens : List Token}
    (hcolons : ∀ t ∈ tokens, t.name = "PNAME_NS" ∨ t.name = "PNAME_LN" → ':' ∈ t.image.toList)
    {known : List String} {n : Nat} (hknown : KnownBefore tokens n known) :
    ∃ places : List Nat, places.Pairwise (· < ·) ∧
      (∀ i, i ∈ places ↔ n ≤ i ∧ ∃ t, UndeclaredAt tokens i t) ∧
      List.Forall₂ (fun i e => tokens[i]? = some e.token ∧ e = undeclared e.token) places
        (undeclaredFrom known (tokenBefore? tokens n) (tokens.drop n)) := by
  induction hrest : tokens.drop n generalizing n known with
  | nil =>
    have hend : tokens.length ≤ n := List.drop_eq_nil_iff.mp hrest
    refine ⟨[], .nil, fun i => ⟨fun h => absurd h List.not_mem_nil, ?_⟩, .nil⟩
    intro hfrom
    obtain ⟨hle, t, hat⟩ := hfrom
    have hnone : tokens[i]? = none := List.getElem?_eq_none (hend.trans hle)
    rw [hat.place] at hnone
    cases hnone
  | cons t ts ih =>
    have ht : tokens[n]? = some t := by
      rw [← List.head?_drop, hrest, List.head?_cons]
    have hts : tokens.drop (n + 1) = ts := by
      rw [← List.tail_drop, hrest, List.tail_cons]
    have hcolon := hcolons t (List.mem_of_getElem? ht)
    have hnext : some t = tokenBefore? tokens (n + 1) := ht.symm
    rw [undeclaredFrom]
    split
    next hdeclares =>
      have hat : DeclaresAt tokens n t.image := (declaresAt_iff ht).mpr ⟨hdeclares, rfl⟩
      obtain ⟨places, hgrow, hplaces, hreported⟩ := ih (hknown.declared ht hat) hts
      refine ⟨places, hgrow, fun i => ?_, hnext ▸ hreported⟩
      rw [hplaces, undeclared_from_iff (n := n), or_iff_right]
      intro hhere
      obtain ⟨-, t', hat'⟩ := hhere
      exact hat'.uses _ hat
    next hdeclares =>
      have hn : ∀ prefix_, ¬DeclaresAt tokens n prefix_ := fun prefix_ hat =>
        hdeclares ((declaresAt_iff ht).mp hat).1
      have hiff := undeclaredAt_iff hknown ht hcolon hn
      obtain ⟨places, hgrow, hplaces, hreported⟩ := ih (hknown.same hn) hts
      split
      next hundeclared =>
        refine ⟨n :: places, List.pairwise_cons.mpr ⟨fun i hi => ((hplaces i).mp hi).1, hgrow⟩,
          fun i => ?_, .cons ⟨ht, rfl⟩ (hnext ▸ hreported)⟩
        have hhere : ∃ t, UndeclaredAt tokens n t := ⟨t, hiff.mpr hundeclared⟩
        rw [List.mem_cons, hplaces, undeclared_from_iff (n := n), and_iff_left hhere]
      next hundeclared =>
        refine ⟨places, hgrow, fun i => ?_, hnext ▸ hreported⟩
        rw [hplaces, undeclared_from_iff (n := n), or_iff_right]
        intro hhere
        obtain ⟨-, t', hat⟩ := hhere
        obtain rfl := Option.some.inj (ht.symm.trans hat.place)
        exact hundeclared (hiff.mp hat)

/-! ### Documents -/

theorem colon_of_mem {flavour : Flavour} {checksPrefixes : Bool} {raw : List Char} {t : Token}
    (ht : t ∈ ((frontend flavour checksPrefixes).parseDocument raw).tokens)
    (hname : t.name = "PNAME_NS" ∨ t.name = "PNAME_LN") : ':' ∈ t.image.toList := by
  have hpatterns : ∀ T ∈ (vocabulary flavour).types,
      (T.name = "PNAME_NS" → T.pattern = .regex Rdf.namespaceRegex) ∧
        (T.name = "PNAME_LN" → T.pattern = .regex Rdf.prefixedNameRegex) := by
    cases flavour <;> decide +kernel
  have hlexed : t ∈ (Lexer.ofVocabulary (vocabulary flavour) Rdf.skipped).tokenize raw := ht
  have htype : t.type ∈ (vocabulary flavour).types := Lexer.type_mem_of_tokenize hlexed
  rcases hname with hname | hname
  · have himage := Lexer.accepts_image hlexed ((hpatterns _ htype).1 hname) (by rw [hname]; decide)
    exact Rdf.colon_of_accepts (.inr rfl) himage
  · have himage := Lexer.accepts_image hlexed ((hpatterns _ htype).2 hname) (by rw [hname]; decide)
    exact Rdf.colon_of_accepts (.inl rfl) himage

/-- **Exactly the names whose prefix is not declared before them are reported, in their order.**
Declarations themselves are not, and it does not matter whether the document is a correct one. -/
theorem undeclared_exact (flavour : Flavour) (raw : List Char) :
    let o := (frontend flavour true).parseDocument raw
    ∃ places : List Nat, places.Pairwise (· < ·) ∧
      (∀ i, i ∈ places ↔ ∃ t, UndeclaredAt o.tokens i t) ∧
      List.Forall₂ (fun i e => o.tokens[i]? = some e.token ∧ e = undeclared e.token) places
        o.semantic := by
  intro o
  have hnone : KnownBefore o.tokens 0 [] := by simp [KnownBefore]
  obtain ⟨places, hgrow, hplaces, hreported⟩ :=
    undeclaredFrom_spec (fun t ht => colon_of_mem ht) hnone
  refine ⟨places, hgrow, fun i => ?_, hreported⟩
  rw [hplaces, and_iff_right (Nat.zero_le i)]

end GraphLanguages.Turtle
