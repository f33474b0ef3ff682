import Mathlib.Order.Bounds.Basic
import GraphLanguages.Language
import GraphLanguages.Completion.Items

/-! What the terms of SHACL shapes stand for.

A prefix stands for what the document binds it to last (`LastFor`), but the prefix of the terms is
the one that their namespace is bound to last (`LastOf`, `exists_lastOf_of_declaredPrefix?`). The
two meet where that prefix is not bound again behind: the term that is offered is then the one that
is described (`items_denote`). Where the namespace is bound nowhere, the usual prefix is taken,
whatever the document uses it for. -/
namespace GraphLanguages.Shacl
open Completion

/-! ### Bindings -/

/-- At a place, a keyword, a prefix and an IRI follow each other. -/
structure BindsAt (tokens : List Token) (k : Nat) (prefix_ iri : String) : Prop where
  keyword : ∃ t, tokens[k]? = some t ∧ (t.name = "TTL_PREFIX" ∨ t.name = "SPARQL_PREFIX")
  alias_ : ∃ t, tokens[k + 1]? = some t ∧ t.name = "PNAME_NS" ∧ t.image = prefix_
  target : ∃ t, tokens[k + 2]? = some t ∧ t.name = "IRIREF" ∧ t.image = "<" ++ iri ++ ">"

/-- The last place where something is bound to the IRI. -/
def LastOf (tokens : List Token) (iri : String) (k : Nat) : Prop :=
  IsGreatest {k | ∃ prefix_, BindsAt tokens k prefix_ iri} k

/-- The last place where the prefix is bound to something. -/
def LastFor (tokens : List Token) (prefix_ : String) (k : Nat) : Prop :=
  IsGreatest {k | ∃ iri, BindsAt tokens k prefix_ iri} k

section
variable {tokens : List Token} {k : Nat} {prefix_ prefix' iri iri' : String}

theorem BindsAt.unique (h : BindsAt tokens k prefix_ iri) (h' : BindsAt tokens k prefix' iri') :
    prefix_ = prefix' ∧ iri = iri' := by
  obtain ⟨-, ⟨a, ha, -, rfl⟩, t, ht, -, htarget⟩ := h
  obtain ⟨-, ⟨a', ha', -, rfl⟩, t', ht', -, htarget'⟩ := h'
  obtain rfl := Option.some.inj (ha.symm.trans ha')
  obtain rfl := Option.some.inj (ht.symm.trans ht')
  have hsame : "<" ++ iri ++ ">" = "<" ++ iri' ++ ">" := htarget.symm.trans htarget'
  refine ⟨rfl, String.toList_inj.mp ?_⟩
  simpa using congrArg String.toList hsame

theorem bindsAt_succ {t : Token} :
    BindsAt (t :: tokens) (k + 1) prefix_ iri ↔ BindsAt tokens k prefix_ iri :=
  ⟨fun ⟨hk, ha, ht⟩ => ⟨hk, ha, ht⟩, fun ⟨hk, ha, ht⟩ => ⟨hk, ha, ht⟩⟩

theorem bindsAt_zero : BindsAt tokens 0 prefix_ iri ↔ boundPrefix? iri tokens = some prefix_ := by
  constructor
  · intro h
    obtain ⟨⟨t, ht, hname⟩, ⟨a, ha, haname, rfl⟩, u, hu, huname, htarget⟩ := h
    match tokens, ht, ha, hu with
    | t' :: a' :: u' :: rest, ht, ha, hu =>
      obtain rfl : t' = t := by simpa using ht
      obtain rfl : a' = a := by simpa using ha
      obtain rfl : u' = u := by simpa using hu
      simp [boundPrefix?, hname, haname, huname, htarget]
  · intro h
    match tokens, h with
    | t :: a :: u :: rest, h =>
      obtain ⟨⟨⟨⟨hname, haname⟩, huname⟩, htarget⟩, rfl⟩ := by simpa [boundPrefix?] using h
      exact ⟨⟨t, rfl, hname⟩, ⟨a, rfl, haname, rfl⟩, u, rfl, huname, htarget⟩

theorem not_bindsAt_nil : ¬BindsAt [] k prefix_ iri := by
  intro h
  obtain ⟨t, ht, -⟩ := h.keyword
  cases ht

/-- A binding is the one that the first three tokens make, or one of those behind. -/
theorem declaredPrefix?_cons {t : Token} :
    declaredPrefix? iri (t :: tokens) =
      (declaredPrefix? iri tokens).or (boundPrefix? iri (t :: tokens)) := by
  rw [declaredPrefix?]
  cases declaredPrefix? iri tokens <;> rfl

theorem declaredPrefix?_eq_none_iff :
    declaredPrefix? iri tokens = none ↔ ∀ k prefix_, ¬BindsAt tokens k prefix_ iri := by
  induction tokens with
  | nil => exact ⟨fun _ _ _ => not_bindsAt_nil, fun _ => rfl⟩
  | cons t tokens ih =>
    have hfirst : boundPrefix? iri (t :: tokens) = none ↔
        ∀ prefix_, ¬BindsAt (t :: tokens) 0 prefix_ iri := by
      simp only [bindsAt_zero, Option.eq_none_iff_forall_ne_some, ne_eq]
    have hbehind : declaredPrefix? iri tokens = none ↔
        ∀ k prefix_, ¬BindsAt (t :: tokens) (k + 1) prefix_ iri := by
      simpa only [bindsAt_succ] using ih
    rw [declaredPrefix?_cons, Option.or_eq_none_iff, hfirst, hbehind, and_comm]
    exact Nat.and_forall_add_one (p := fun k => ∀ prefix_, ¬BindsAt (t :: tokens) k prefix_ iri)

/-- The prefix that is found is the one of the last binding. -/
theorem exists_lastOf_of_declaredPrefix? (h : declaredPrefix? iri tokens = some prefix_) :
    ∃ k, LastOf tokens iri k ∧ BindsAt tokens k prefix_ iri := by
  induction tokens with
  | nil => cases h
  | cons t tokens ih =>
    rw [declaredPrefix?_cons, Option.or_eq_some_iff] at h
    rcases h with h | ⟨hnone, h⟩
    · obtain ⟨k, hlast, hbinds⟩ := ih h
      refine ⟨k + 1, ⟨⟨prefix_, bindsAt_succ.mpr hbinds⟩, ?_⟩, bindsAt_succ.mpr hbinds⟩
      intro j hj
      obtain ⟨other, hother⟩ := hj
      cases j with
      | zero => exact Nat.zero_le _
      | succ j => exact Nat.succ_le_succ (hlast.2 ⟨other, bindsAt_succ.mp hother⟩)
    · have hbinds := bindsAt_zero.mpr h
      refine ⟨0, ⟨⟨prefix_, hbinds⟩, ?_⟩, hbinds⟩
      intro j hj
      obtain ⟨other, hother⟩ := hj
      cases j with
      | zero => exact le_rfl
      | succ j =>
        exact absurd (bindsAt_succ.mp hother) (declaredPrefix?_eq_none_iff.mp hnone j other)

/-- The only prefix keyword makes the last binding of all. -/
theorem BindsAt.last_of_only (h : BindsAt tokens k prefix_ iri)
    (honly : ∀ j < tokens.length, ∀ t ∈ tokens[j]?,
      t.name = "TTL_PREFIX" ∨ t.name = "SPARQL_PREFIX" → j = k) :
    LastOf tokens iri k ∧ LastFor tokens prefix_ k := by
  have hplace (j : Nat) (alias_ target : String) (hj : BindsAt tokens j alias_ target) : j = k := by
    obtain ⟨t, ht, hname⟩ := hj.keyword
    obtain ⟨hlt, -⟩ := List.getElem?_eq_some_iff.mp ht
    exact honly j hlt t ht hname
  exact ⟨⟨⟨prefix_, h⟩, fun j ⟨alias_, hj⟩ => (hplace j alias_ iri hj).le⟩,
    ⟨iri, h⟩, fun j ⟨target, hj⟩ => (hplace j prefix_ target hj).le⟩

end

/-! ### Terms -/

/-- Namespaces, the usual prefixes for them, and their terms. -/
def vocabularies : List (String × String × List (String × ItemKind)) :=
  [(shaclNamespace, "sh:", shaclTerms), (xsdNamespace, "xsd:", xsdTerms)]

/-- A suggestion inserts a term under a prefix. Where the last binding of the namespace is also
the last one of its prefix, that is the prefix, and what it stands for in the end makes the term
the described one; where the namespace is bound nowhere, it is the usual prefix. -/
structure Denotes (tokens : List Token) (namespace_ usual prefix_ term : String)
    (s : Suggestion) : Prop where
  label : s.label = prefix_ ++ term
  newText : s.newText = s.label
  detail : s.detail = some (namespace_ ++ term)
  bound : ∀ k alias_, BindsAt tokens k alias_ namespace_ → LastOf tokens namespace_ k →
    LastFor tokens alias_ k → prefix_ = alias_ ∧
      ∀ j iri, LastFor tokens prefix_ j → BindsAt tokens j prefix_ iri →
        s.detail = some (iri ++ term)
  unbound : (∀ k alias_, ¬BindsAt tokens k alias_ namespace_) → prefix_ = usual

/-- Each term of a vocabulary stands for what is said of it. -/
theorem exists_denotes {c : Context} {namespace_ usual : String}
    {terms : List (String × ItemKind)} {s : Suggestion}
    (hs : s ∈ termItems c namespace_ usual terms) :
    ∃ prefix_, ∃ term ∈ terms.map Prod.fst,
      Denotes c.otherTokens namespace_ usual prefix_ term s := by
  obtain ⟨⟨term, kind⟩, hterm, rfl⟩ := List.mem_map.mp hs
  refine ⟨_, term, List.mem_map_of_mem hterm, rfl, rfl, rfl, ?_, ?_⟩
  · intro k alias_ hbinds hlast hkept
    cases hdeclared : declaredPrefix? namespace_ c.otherTokens with
    | none => exact absurd hbinds (declaredPrefix?_eq_none_iff.mp hdeclared k alias_)
    | some prefix_ =>
      obtain ⟨k', hlast', hbinds'⟩ := exists_lastOf_of_declaredPrefix? hdeclared
      obtain rfl := hlast.unique hlast'
      obtain ⟨rfl, -⟩ := hbinds.unique hbinds'
      refine ⟨rfl, fun j iri hj hiri => ?_⟩
      obtain rfl := hkept.unique hj
      obtain ⟨-, rfl⟩ := hbinds.unique hiri
      rfl
  · intro hnone
    rw [declaredPrefix?_eq_none_iff.mpr hnone]
    rfl

theorem exists_vocabulary_of_mem_augment {c : Context} {s : Suggestion}
    (hs : s ∈ (augment c).leading ++ (augment c).trailing) :
    ∃ namespace_ usual terms, (namespace_, usual, terms) ∈ vocabularies ∧
      s ∈ termItems c namespace_ usual terms := by
  simp only [augment, List.append_nil] at hs
  split at hs
  · rcases List.mem_append.mp hs with hs | hs
    · exact ⟨_, _, _, List.mem_cons_self, hs⟩
    · exact ⟨_, _, _, List.mem_cons_of_mem _ List.mem_cons_self, hs⟩
  · cases hs

/-- **A term of SHACL shapes is offered under the prefix that its namespace is bound to last. If
that prefix is not bound again behind, it stands for the namespace, so the name that is inserted is
that of the described term. If the namespace is bound nowhere, the term is offered under its usual
prefix.** -/
theorem items_denote (options : Options) (raw : List Char) (offset : Nat) (data : Data)
    (cursor : Cursor) :
    let p := Language.shacl.profile options
    let tokens := (p.frontend.parseDocument raw).tokens
    let context : Context :=
      { tokens, offset, cursor, candidates := candidatesAt p tokens cursor, data }
    ∀ s ∈ (p.augment context).leading ++ (p.augment context).trailing,
      ∃ namespace_ usual terms, (namespace_, usual, terms) ∈ vocabularies ∧
        ∃ prefix_, ∃ term ∈ terms.map Prod.fst,
          Denotes context.otherTokens namespace_ usual prefix_ term s := by
  intro p tokens context s hs
  obtain ⟨namespace_, usual, terms, hvocabulary, hitem⟩ := exists_vocabulary_of_mem_augment hs
  exact ⟨namespace_, usual, terms, hvocabulary, exists_denotes hitem⟩

/-- Under the prefix that a document declares, the terms of SHACL are offered behind it. -/
theorem items_denote_declared :
    let p := Language.shacl.profile {}
    let raw := "@prefix s:<http://www.w3.org/ns/shacl#>.s:".toList
    let tokens := (p.frontend.parseDocument raw).tokens
    let cursor : Cursor := ⟨some 4, 4, ⟨40, 42⟩, none⟩
    let context : Context :=
      { tokens, offset := 42, cursor, candidates := candidatesAt p tokens cursor, data := {} }
    Cursor.locate? p.completion tokens 42 = some cursor ∧
      (BindsAt context.otherTokens 0 "s:" shaclNamespace ∧
        LastOf context.otherTokens shaclNamespace 0 ∧ LastFor context.otherTokens "s:" 0) ∧
      ∃ s ∈ (p.augment context).leading ++ (p.augment context).trailing, s.label = "s:Shape" ∧
        ∃ namespace_ usual terms, (namespace_, usual, terms) ∈ vocabularies ∧
          ∃ prefix_, ∃ term ∈ terms.map Prod.fst,
            Denotes context.otherTokens namespace_ usual prefix_ term s := by
  intro p raw tokens cursor context
  have hbinds : BindsAt context.otherTokens 0 "s:" shaclNamespace :=
    bindsAt_zero.mpr (by decide)
  have hitem : ∃ s ∈ (p.augment context).leading ++ (p.augment context).trailing,
      s.label = "s:Shape" := by
    decide
  obtain ⟨s, hs, hlabel⟩ := hitem
  exact ⟨by decide, ⟨hbinds, hbinds.last_of_only (by decide)⟩, s, hs, hlabel,
    items_denote {} raw 42 {} cursor s hs⟩

/-- The usual prefix is taken although the document binds it to something else. -/
theorem items_usual_prefix_taken :
    let p := Language.shacl.profile {}
    let raw := "@prefix sh:<u>.sh:".toList
    let tokens := (p.frontend.parseDocument raw).tokens
    let cursor : Cursor := ⟨some 4, 4, ⟨15, 18⟩, none⟩
    let context : Context :=
      { tokens, offset := 18, cursor, candidates := candidatesAt p tokens cursor, data := {} }
    Cursor.locate? p.completion tokens 18 = some cursor ∧
      BindsAt context.otherTokens 0 "sh:" "u" ∧ LastFor context.otherTokens "sh:" 0 ∧
      ∃ s ∈ (p.augment context).leading, s.label = "sh:" ++ "Shape" ∧
        s.detail = some (shaclNamespace ++ "Shape") ∧ s.detail ≠ some ("u" ++ "Shape") := by
  intro p raw tokens cursor context
  have hbinds : BindsAt context.otherTokens 0 "sh:" "u" :=
    bindsAt_zero.mpr (by decide)
  exact ⟨by decide, hbinds, (hbinds.last_of_only (by decide)).2,
    by decide⟩

end GraphLanguages.Shacl
