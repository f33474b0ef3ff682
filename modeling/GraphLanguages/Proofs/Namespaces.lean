import Mathlib.Data.List.Induction
import Mathlib.Data.List.Nodup
import GraphLanguages.Namespaces
import GraphLanguages.Proofs.Text.Bytes
import GraphLanguages.Proofs.Transport.Order

/-! Prefixed names.

Namespaces are in the order of their aliases, each of which is there once. So the entry with the
shortest local name of an IRI, and of those as short the one that comes first, is a matter
of lengths and aliases alone (`Best`): it is what the scan has found after each entry
(`mostSpecific?_spec`). The namespaces that leave a local name are the proper beginnings of the
IRI with no white space behind them (`localName?_plain`). Where the IRI stands in brackets, the
closing one counts as a local name behind a namespace that is all of the IRI
(`localName?_bracketed`). -/
namespace GraphLanguages.Namespaces
open Text Unicode Transport

/-! ### Order -/

/-- An alias stands for one IRI. -/
theorem eq_of_alias {m : Namespaces} {e e' : String × String} (he : e ∈ m.entries)
    (he' : e' ∈ m.entries) (halias : e.1 = e'.1) : e = e' := by
  have hnodup : (m.entries.map Prod.fst).Nodup :=
    List.pairwise_map.mpr (m.ordered.imp fun hlt => ne_of_lt hlt)
  exact List.inj_on_of_nodup_map hnodup he he' halias

/-! ### The shortest local name -/

/-- The entry gives a local name such that no entry gives a shorter one, and none with a smaller
alias one as short. -/
structure Best (iri : List Char) (entries : List (String × String)) (e : String × String)
    (name : List Char) : Prop where
  mem : e ∈ entries
  gives : localName? iri e.2.toList = some name
  least : ∀ e' ∈ entries, ∀ name' ∈ localName? iri e'.2.toList,
    bytes name < bytes name' ∨ bytes name = bytes name' ∧ e.1 ≤ e'.1

section
variable {iri : List Char} {entries : List (String × String)}

theorem mostSpecific?_concat (e : String × String) :
    mostSpecific? iri (entries ++ [e]) =
      match localName? iri e.2.toList with
      | none => mostSpecific? iri entries
      | some name =>
        if (mostSpecific? iri entries).all fun b => bytes name < bytes b.2 then some (e.1, name)
        else mostSpecific? iri entries := by
  rw [mostSpecific?, List.foldl_append]
  rfl

/-- Behind the best entry one with no local name, or with one no shorter, changes nothing. -/
theorem Best.concat {b e : String × String} {name : List Char} (h : Best iri entries b name)
    (hlt : b.1 < e.1) (hle : ∀ name' ∈ localName? iri e.2.toList, bytes name ≤ bytes name') :
    Best iri (entries ++ [e]) b name := by
  refine ⟨List.mem_append_left _ h.mem, h.gives, fun e' he' name' hname' => ?_⟩
  rcases List.mem_append.mp he' with he' | he'
  · exact h.least e' he' name' hname'
  · obtain rfl := List.mem_singleton.mp he'
    rcases Nat.lt_or_eq_of_le (hle name' hname') with hshorter | hsame
    · exact .inl hshorter
    · exact .inr ⟨hsame, le_of_lt hlt⟩

/-- An entry with a shorter local name than all before it is the best one. -/
theorem best_concat {e : String × String} {name : List Char}
    (hname : localName? iri e.2.toList = some name)
    (hlt : ∀ e' ∈ entries, ∀ name' ∈ localName? iri e'.2.toList, bytes name < bytes name') :
    Best iri (entries ++ [e]) e name := by
  refine ⟨List.mem_append_right _ (List.mem_singleton_self e), hname, fun e' he' name' hname' => ?_⟩
  rcases List.mem_append.mp he' with he' | he'
  · exact .inl (hlt e' he' name' hname')
  · obtain rfl := List.mem_singleton.mp he'
    obtain rfl : name = name' := Option.some.inj (hname.symm.trans hname')
    exact .inr ⟨rfl, le_refl _⟩

/-- What the scan has found. -/
theorem mostSpecific?_spec (h : entries.Pairwise (·.1 < ·.1)) :
    (mostSpecific? iri entries = none ∧ ∀ e ∈ entries, localName? iri e.2.toList = none) ∨
      ∃ e name, mostSpecific? iri entries = some (e.1, name) ∧ Best iri entries e name := by
  induction entries using List.reverseRecOn with
  | nil => exact .inl ⟨rfl, fun e he => absurd he List.not_mem_nil⟩
  | append_singleton entries e ih =>
    obtain ⟨hentries, -, hbehind⟩ := List.pairwise_append.mp h
    have hlast (b : String × String) (hb : b ∈ entries) : b.1 < e.1 :=
      hbehind b hb e (List.mem_singleton_self e)
    rw [mostSpecific?_concat]
    cases hname : localName? iri e.2.toList with
    | none =>
      rcases ih hentries with ⟨hnone, hall⟩ | ⟨b, shortest, hfound, hbest⟩
      · refine .inl ⟨hnone, fun e' he' => ?_⟩
        rcases List.mem_append.mp he' with he' | he'
        · exact hall e' he'
        · rw [List.mem_singleton.mp he', hname]
      · refine .inr ⟨b, shortest, hfound, hbest.concat (hlast b hbest.mem) fun name' hname' => ?_⟩
        cases hname.symm.trans hname'
    | some name =>
      rcases ih hentries with ⟨hnone, hall⟩ | ⟨b, shortest, hfound, hbest⟩
      · refine .inr ⟨e, name, by rw [hnone]; rfl, best_concat hname fun e' he' name' hname' => ?_⟩
        cases (hall e' he').symm.trans hname'
      · by_cases hlt : bytes name < bytes shortest
        · refine .inr ⟨e, name, by simp [hfound, hlt], best_concat hname ?_⟩
          intro e' he' name' hname'
          rcases hbest.least e' he' name' hname' with hshorter | ⟨hsame, -⟩
          · exact hlt.trans hshorter
          · exact hsame ▸ hlt
        · refine .inr ⟨b, shortest, by simp [hfound, hlt],
            hbest.concat (hlast b hbest.mem) fun name' hname' => ?_⟩
          obtain rfl : name = name' := Option.some.inj (hname.symm.trans hname')
          exact Nat.le_of_not_lt hlt

end

section
variable {m : Namespaces} {iri : String}

theorem Best.unique {e e' : String × String} {name name' : List Char}
    (h : Best iri.toList m.entries e name) (h' : Best iri.toList m.entries e' name') :
    e = e' ∧ name = name' := by
  have hle := h.least e' h'.mem name' h'.gives
  have hge := h'.least e h.mem name h.gives
  have halias : e.1 = e'.1 := by
    rcases hle with hlt | ⟨hsame, hle⟩
    · rcases hge with hgt | ⟨hsame, -⟩
      · exact absurd hlt (Nat.lt_asymm hgt)
      · exact absurd hlt (Nat.not_lt.mpr (Nat.le_of_eq hsame))
    · rcases hge with hgt | ⟨-, hge⟩
      · exact absurd hgt (Nat.not_lt.mpr (Nat.le_of_eq hsame))
      · exact le_antisymm hle hge
  obtain rfl := eq_of_alias h.mem h'.mem halias
  exact ⟨rfl, Option.some.inj (h.gives.symm.trans h'.gives)⟩

theorem abbreviate?_eq_some_iff {short : String} :
    m.abbreviate? iri = some short ↔
      ∃ e name, Best iri.toList m.entries e name ∧ short = e.1 ++ ":" ++ String.ofList name := by
  have hscan := @mostSpecific?_spec iri.toList m.entries m.ordered
  rcases hscan with ⟨hnone, hall⟩ | ⟨b, shortest, hfound, hbest⟩
  · rw [abbreviate?, hnone]
    constructor
    · intro h
      cases h
    · intro h
      obtain ⟨e, name, hbest, -⟩ := h
      cases (hall e hbest.mem).symm.trans hbest.gives
  · rw [abbreviate?, hfound]
    constructor
    · intro h
      exact ⟨b, shortest, hbest, (Option.some.inj h).symm⟩
    · intro h
      obtain ⟨e, name, hbest', rfl⟩ := h
      obtain ⟨rfl, rfl⟩ := hbest.unique hbest'
      rfl

theorem abbreviate?_eq_none_iff :
    m.abbreviate? iri = none ↔ ∀ e ∈ m.entries, localName? iri.toList e.2.toList = none := by
  have hscan := @mostSpecific?_spec iri.toList m.entries m.ordered
  rcases hscan with ⟨hnone, hall⟩ | ⟨b, shortest, hfound, hbest⟩
  · rw [abbreviate?, hnone]
    exact iff_of_true rfl hall
  · rw [abbreviate?, hfound]
    constructor
    · intro h
      cases h
    · intro hall
      cases (hall b hbest.mem).symm.trans hbest.gives

end

/-! ### Local names -/

/-- The name is what the namespace, which is not empty, leaves of the IRI: something without
white space. -/
structure Leaves (namespace_ name iri : String) : Prop where
  split : namespace_ ++ name = iri
  namespace_ne : namespace_ ≠ ""
  name_ne : name ≠ ""
  solid : ∀ c ∈ name.toList, isSpace c = false

theorem leaves_iff {namespace_ iri : String} {name : List Char} :
    Leaves namespace_ (String.ofList name) iri ↔
      namespace_.toList ++ name = iri.toList ∧ namespace_.toList ≠ [] ∧ name ≠ [] ∧
        ∀ c ∈ name, isSpace c = false := by
  constructor
  · intro h
    obtain ⟨hsplit, hne, hname, hsolid⟩ := h
    rw [String.toList_ofList] at hsolid
    refine ⟨?_, fun h => hne (String.toList_eq_nil_iff.mp h), fun h => hname ?_, hsolid⟩
    · rw [← hsplit, String.toList_append, String.toList_ofList]
    · rw [h]
  · intro h
    obtain ⟨hsplit, hne, hname, hsolid⟩ := h
    refine ⟨?_, fun h => hne (String.toList_eq_nil_iff.mpr h), fun h => hname ?_, ?_⟩
    · rw [← String.toList_inj, String.toList_append, String.toList_ofList, hsplit]
    · rw [← String.toList_ofList (l := name), h]
      rfl
    · rwa [String.toList_ofList]

theorem withoutClosing_of_not_mem {cs : List Char} (h : '>' ∉ cs) : withoutClosing cs = cs := by
  rw [withoutClosing, if_neg]
  intro hlast
  have hlast : cs.getLast? = some '>' := by simpa using (Bool.and_eq_true_iff.mp hlast).1
  exact h (List.mem_of_getLast? hlast)

/-- A bracket is dropped from behind something, and stays where it is alone. -/
theorem withoutClosing_concat (cs : List Char) :
    withoutClosing (cs ++ ['>']) = if cs = [] then ['>'] else cs := by
  by_cases h : cs = []
  · subst h
    rfl
  · have hlength : 0 < cs.length := List.length_pos_iff.mpr h
    rw [if_neg h, withoutClosing, if_pos (by simpa using hlength), List.dropLast_concat]

/-- What is behind a namespace is a name if something is left of it without white space. -/
theorem filter_name_eq_some_iff {namespace_ inner name : List Char} :
    (if namespace_.isEmpty then none
      else ((namespace_.isPrefixOf? inner).map withoutClosing).filter fun name =>
        !name.isEmpty && !name.any isSpace) = some name ↔
      namespace_ ≠ [] ∧ (∃ rest, namespace_ ++ rest = inner ∧ withoutClosing rest = name) ∧
        name ≠ [] ∧ ∀ c ∈ name, isSpace c = false := by
  by_cases h : namespace_ = []
  · simp [h]
  · rw [if_neg (by simpa using h), Option.filter_eq_some_iff, Option.map_eq_some_iff]
    simp [h, List.isPrefixOf?_eq_some_iff_append_eq]

section
variable {iri namespace_ : String} {name : List Char}

/-- Of an IRI without brackets a namespace leaves what is behind it. -/
theorem localName?_plain (hopen : '<' ∉ iri.toList) (hclose : '>' ∉ iri.toList) :
    localName? iri.toList namespace_.toList = some name ↔
      Leaves namespace_ (String.ofList name) iri := by
  have hinner : localName? iri.toList namespace_.toList =
      if namespace_.toList.isEmpty then none
      else ((namespace_.toList.isPrefixOf? iri.toList).map withoutClosing).filter fun name =>
        !name.isEmpty && !name.any isSpace := by
    rw [localName?]
    intro rest hiri
    exact hopen (hiri ▸ List.mem_cons_self ..)
  rw [hinner, filter_name_eq_some_iff, leaves_iff]
  constructor
  · intro h
    obtain ⟨hne, ⟨rest, hsplit, rfl⟩, hname⟩ := h
    have hrest : '>' ∉ rest := fun hmem => hclose (hsplit ▸ List.mem_append_right _ hmem)
    rw [withoutClosing_of_not_mem hrest] at hname ⊢
    exact ⟨hsplit, hne, hname⟩
  · intro h
    obtain ⟨hsplit, hne, hname⟩ := h
    have hrest : '>' ∉ name := fun hmem => hclose (hsplit ▸ List.mem_append_right _ hmem)
    exact ⟨hne, ⟨name, hsplit, withoutClosing_of_not_mem hrest⟩, hname⟩

/-- Of an IRI in brackets a namespace leaves the same, or the closing bracket if it is all of the
IRI. -/
theorem localName?_bracketed :
    localName? ("<" ++ iri ++ ">").toList namespace_.toList = some name ↔
      Leaves namespace_ (String.ofList name) iri ∨
        (namespace_ = iri ∧ iri ≠ "" ∧ name = ['>']) := by
  have hinner : localName? ("<" ++ iri ++ ">").toList namespace_.toList =
      if namespace_.toList.isEmpty then none
      else ((namespace_.toList.isPrefixOf? (iri.toList ++ ['>'])).map withoutClosing).filter
        fun name => !name.isEmpty && !name.any isSpace := by
    rw [String.toList_append, String.toList_append]
    rfl
  rw [hinner, filter_name_eq_some_iff, leaves_iff]
  constructor
  · intro h
    obtain ⟨hne, ⟨rest, hsplit, rfl⟩, hname, hsolid⟩ := h
    rcases List.eq_nil_or_concat' rest with rfl | ⟨before, c, rfl⟩
    · exact absurd rfl hname
    · rw [← List.append_assoc] at hsplit
      obtain ⟨hbegin, hc⟩ := List.append_inj' hsplit rfl
      obtain rfl : c = '>' := List.singleton_inj.mp hc
      rw [withoutClosing_concat] at hname hsolid ⊢
      by_cases hbefore : before = []
      · subst hbefore
        rw [List.append_nil, String.toList_inj] at hbegin
        refine .inr ⟨hbegin, fun hiri => hne ?_, rfl⟩
        rw [hbegin, hiri]
        rfl
      · rw [if_neg hbefore] at hname hsolid ⊢
        exact .inl ⟨hbegin, hne, hname, hsolid⟩
  · intro h
    rcases h with ⟨hsplit, hne, hname, hsolid⟩ | ⟨rfl, hne, rfl⟩
    · refine ⟨hne, ⟨name ++ ['>'], ?_, ?_⟩, hname, hsolid⟩
      · rw [← List.append_assoc, hsplit]
      · rw [withoutClosing_concat, if_neg hname]
    · refine ⟨fun h => hne (String.toList_eq_nil_iff.mp h), ⟨['>'], rfl, rfl⟩, by decide, ?_⟩
      intro c hc
      rw [List.mem_singleton.mp hc]
      rfl

end

/-! ### Abbreviations -/

/-- Of two namespaces of an IRI the longer one leaves less. -/
theorem Leaves.bytes_add {namespace_ name iri : String} (h : Leaves namespace_ name iri) :
    bytes namespace_.toList + bytes name.toList = bytes iri.toList := by
  rw [← h.split, String.toList_append, bytes_append]

/-- Namespaces of an IRI are told apart by how long they are. -/
theorem Leaves.eq_of_bytes {namespace_ namespace_' name name' iri : String}
    (h : Leaves namespace_ name iri) (h' : Leaves namespace_' name' iri)
    (heq : bytes namespace_.toList = bytes namespace_'.toList) : namespace_ = namespace_' := by
  have hsplit : namespace_.toList ++ name.toList = namespace_'.toList ++ name'.toList := by
    rw [← String.toList_append, ← String.toList_append, h.split, h'.split]
  have htake := takeBytes?_append namespace_.toList name.toList
  rw [hsplit, heq, takeBytes?_append] at htake
  exact (String.toList_inj.mp (Option.some.inj htake)).symm

section
variable {m : Namespaces} {iri : String}

/-- The shortest name is that behind the longest namespace. -/
theorem best_plain_iff (hopen : '<' ∉ iri.toList) (hclose : '>' ∉ iri.toList)
    {e : String × String} {name : List Char} :
    Best iri.toList m.entries e name ↔
      e ∈ m.entries ∧ Leaves e.2 (String.ofList name) iri ∧
        (∀ e' ∈ m.entries, ∀ name', Leaves e'.2 name' iri →
          bytes e'.2.toList ≤ bytes e.2.toList) ∧
        ∀ e' ∈ m.entries, e'.2 = e.2 → encode e.1 ≤ encode e'.1 := by
  constructor
  · intro h
    have hleaves := (localName?_plain hopen hclose).mp h.gives
    have hlength := hleaves.bytes_add
    rw [String.toList_ofList] at hlength
    refine ⟨h.mem, hleaves, fun e' he' name' hname' => ?_, fun e' he' heq => ?_⟩
    · have hlength' := hname'.bytes_add
      rw [← String.ofList_toList (s := name')] at hname'
      have hleast := h.least e' he' name'.toList ((localName?_plain hopen hclose).mpr hname')
      omega
    · have hgives := h.gives
      rw [← heq] at hgives
      rcases h.least e' he' name hgives with hlt | ⟨-, hle⟩
      · exact absurd hlt (Nat.lt_irrefl _)
      · exact encode_le_encode_iff.mpr hle
  · intro h
    obtain ⟨hmem, hleaves, hlongest, hfirst⟩ := h
    refine ⟨hmem, (localName?_plain hopen hclose).mpr hleaves, fun e' he' name' hname' => ?_⟩
    have hleaves' := (localName?_plain hopen hclose).mp hname'
    have hle := hlongest e' he' _ hleaves'
    have hlength := hleaves.bytes_add
    have hlength' := hleaves'.bytes_add
    rw [String.toList_ofList] at hlength hlength'
    by_cases heq : bytes e'.2.toList = bytes e.2.toList
    · refine .inr ⟨by omega, encode_le_encode_iff.mp (hfirst e' he' ?_)⟩
      exact hleaves'.eq_of_bytes hleaves heq
    · exact .inl (by omega)

end

/-- **An IRI is abbreviated with the longest namespace that leaves a local name of it**, under the
first of its aliases. -/
theorem abbreviate?_exact (m : Namespaces) (iri : String)
    (hopen : '<' ∉ iri.toList) (hclose : '>' ∉ iri.toList) :
    ((m.abbreviate? iri).isSome ↔ ∃ e ∈ m.entries, ∃ name, Leaves e.2 name iri) ∧
      ∀ short, m.abbreviate? iri = some short ↔
        ∃ e ∈ m.entries, ∃ name, Leaves e.2 name iri ∧ short = e.1 ++ ":" ++ name ∧
          (∀ e' ∈ m.entries, ∀ name', Leaves e'.2 name' iri →
            bytes e'.2.toList ≤ bytes e.2.toList) ∧
          ∀ e' ∈ m.entries, e'.2 = e.2 → encode e.1 ≤ encode e'.1 := by
  constructor
  · rw [← Option.ne_none_iff_isSome, ne_eq, abbreviate?_eq_none_iff]
    push Not
    refine exists_congr fun e => and_congr_right fun he => ?_
    rw [Option.ne_none_iff_exists']
    constructor
    · intro h
      obtain ⟨name, hname⟩ := h
      exact ⟨_, (localName?_plain hopen hclose).mp hname⟩
    · intro h
      obtain ⟨name, hname⟩ := h
      rw [← String.ofList_toList (s := name)] at hname
      exact ⟨_, (localName?_plain hopen hclose).mpr hname⟩
  · intro short
    rw [abbreviate?_eq_some_iff]
    constructor
    · intro h
      obtain ⟨e, name, hbest, hshort⟩ := h
      obtain ⟨he, hname, hrest⟩ := (best_plain_iff hopen hclose).mp hbest
      exact ⟨e, he, _, hname, hshort, hrest⟩
    · intro h
      obtain ⟨e, he, name, hname, hshort, hrest⟩ := h
      rw [← String.ofList_toList (s := name)] at hname hshort
      exact ⟨e, _, (best_plain_iff hopen hclose).mpr ⟨he, hname, hrest⟩, hshort⟩

/-- Two namespaces are all of an IRI but its last letter, or one that leaves more. -/
theorem abbreviate?_exact_specific :
    let m := ofRows ["c=http://foo.org/bar/", "a=http://foo.org/", "b=http://foo.org/bar/"]
    let iri := "http://foo.org/bar/fizz"
    '<' ∉ iri.toList ∧ '>' ∉ iri.toList ∧ m.abbreviate? iri = some "b:fizz" ∧
      ∃ e ∈ m.entries, ∃ name, Leaves e.2 name iri ∧ "b:fizz" = e.1 ++ ":" ++ name := by
  intro m iri
  have hopen : '<' ∉ iri.toList := by decide
  have hclose : '>' ∉ iri.toList := by decide
  have hshort : m.abbreviate? iri = some "b:fizz" := by decide
  obtain ⟨-, hiff⟩ := abbreviate?_exact m iri hopen hclose
  obtain ⟨e, he, name, hname, hsplit, -⟩ := (hiff "b:fizz").mp hshort
  exact ⟨hopen, hclose, hshort, e, he, name, hname, hsplit⟩

/-! ### Brackets -/

section
variable {m : Namespaces} {iri : String}

theorem Leaves.bytes_pos {namespace_ name : String} (h : Leaves namespace_ name iri) :
    0 < bytes name.toList :=
  Text.bytes_pos fun hnil => h.name_ne (String.toList_eq_nil_iff.mp hnil)

/-- A namespace that is all of the IRI leaves nothing of it. -/
theorem Leaves.namespace_ne_iri {namespace_ name : String} (h : Leaves namespace_ name iri) :
    namespace_ ≠ iri := by
  intro heq
  have hlength := h.bytes_add
  have hpos := h.bytes_pos
  rw [heq] at hlength
  omega

/-- A name made of the closing bracket is no name of the IRI. -/
theorem Leaves.concat_ne {namespace_ alias_ alias_' : String} {name : List Char}
    (hclose : '>' ∉ iri.toList) (h : Leaves namespace_ (String.ofList name) iri) :
    alias_ ++ ":" ++ ">" ≠ alias_' ++ ":" ++ String.ofList name := by
  intro heq
  obtain ⟨hsplit, -, hname, -⟩ := leaves_iff.mp h
  obtain ⟨before, c, rfl⟩ := (List.eq_nil_or_concat' name).resolve_left hname
  have hlist := congrArg String.toList heq
  simp only [String.toList_append, String.toList_ofList, ← List.append_assoc] at hlist
  obtain ⟨-, hc⟩ := List.append_inj' hlist rfl
  obtain rfl : '>' = c := List.singleton_inj.mp hc
  exact hclose (hsplit ▸ List.mem_append_right _ (List.mem_append_right _ (.head _)))

/-- Some entry with a smaller alias leaves a single byte of the IRI. -/
def HasShorter (m : Namespaces) (iri alias_ : String) : Prop :=
  ∃ e ∈ m.entries, encode e.1 < encode alias_ ∧
    ∃ name, Leaves e.2 name iri ∧ bytes name.toList = 1

/-- The best entry stays so in brackets, if what the closing one counts for comes too late. -/
theorem Best.bracketed (hopen : '<' ∉ iri.toList) (hclose : '>' ∉ iri.toList)
    (hall : ∀ e ∈ m.entries, e.2 = iri → iri = "" ∨ m.HasShorter iri e.1)
    {e : String × String} {name : List Char} (h : Best iri.toList m.entries e name) :
    Best ("<" ++ iri ++ ">").toList m.entries e name := by
  have hleaves := (localName?_plain hopen hclose).mp h.gives
  refine ⟨h.mem, localName?_bracketed.mpr (.inl hleaves), fun e' he' name' hname' => ?_⟩
  rcases localName?_bracketed.mp hname' with hleaves' | ⟨hiri, hne, rfl⟩
  · exact h.least e' he' name' ((localName?_plain hopen hclose).mpr hleaves')
  · obtain ⟨e'', he'', halias, name'', hname'', hbyte⟩ := (hall e' he' hiri).resolve_left hne
    rw [← String.ofList_toList (s := name'')] at hname''
    have hleast := h.least e'' he'' _ ((localName?_plain hopen hclose).mpr hname'')
    have hpos := hleaves.bytes_pos
    rw [String.toList_ofList] at hpos
    have hone : bytes ['>'] = 1 := rfl
    rcases hleast with hlt | ⟨hsame, hle⟩
    · omega
    · exact .inr ⟨by omega, hle.trans (le_of_lt (encode_lt_encode_iff.mp halias))⟩

/-- A namespace that is all of the IRI changes nothing only behind one that leaves a single
byte. -/
theorem hasShorter_of_same (hopen : '<' ∉ iri.toList) (hclose : '>' ∉ iri.toList)
    (hsame : m.abbreviate? ("<" ++ iri ++ ">") = m.abbreviate? iri) {e : String × String}
    (he : e ∈ m.entries) (hiri : e.2 = iri) (hne : iri ≠ "") : m.HasShorter iri e.1 := by
  have hgives : localName? ("<" ++ iri ++ ">").toList e.2.toList = some ['>'] :=
    localName?_bracketed.mpr (.inr ⟨hiri, hne, rfl⟩)
  obtain ⟨short, hshort⟩ : ∃ short, m.abbreviate? ("<" ++ iri ++ ">") = some short := by
    apply Option.ne_none_iff_exists'.mp
    intro hnone
    cases (abbreviate?_eq_none_iff.mp hnone e he).symm.trans hgives
  obtain ⟨b, name, hbest, hbrackets⟩ := abbreviate?_eq_some_iff.mp hshort
  rw [hsame] at hshort
  obtain ⟨b', name', hbest', hplain⟩ := abbreviate?_eq_some_iff.mp hshort
  rcases localName?_bracketed.mp hbest.gives with hleaves | ⟨-, -, rfl⟩
  · have hpos := hleaves.bytes_pos
    have hone : bytes ['>'] = 1 := rfl
    have hleast := hbest.least e he _ hgives
    refine ⟨b, hbest.mem, ?_, _, hleaves, ?_⟩
    · rcases hleast with hlt | ⟨-, hle⟩
      · rw [String.toList_ofList] at hpos
        omega
      · refine encode_lt_encode_iff.mpr (lt_of_le_of_ne hle fun halias => ?_)
        obtain rfl := eq_of_alias hbest.mem he halias
        exact hleaves.namespace_ne_iri hiri
    · rw [String.toList_ofList] at hpos ⊢
      omega
  · have hleaves' := (localName?_plain hopen hclose).mp hbest'.gives
    exact absurd (hbrackets.symm.trans hplain) (hleaves'.concat_ne hclose)

/-- Where no namespace leaves anything of the IRI, none does so in brackets. -/
theorem abbreviate?_bracketed_eq_none (hopen : '<' ∉ iri.toList)
    (hclose : '>' ∉ iri.toList)
    (hall : ∀ e ∈ m.entries, e.2 = iri → iri = "" ∨ m.HasShorter iri e.1)
    (hplain : m.abbreviate? iri = none) : m.abbreviate? ("<" ++ iri ++ ">") = none := by
  have hnone := abbreviate?_eq_none_iff.mp hplain
  have hleaves (e : String × String) (he : e ∈ m.entries) (name : List Char) :
      ¬Leaves e.2 (String.ofList name) iri := by
    intro hleaves
    cases (hnone e he).symm.trans ((localName?_plain hopen hclose).mpr hleaves)
  rw [abbreviate?_eq_none_iff]
  intro e he
  apply Option.eq_none_iff_forall_ne_some.mpr
  intro name hname
  rcases localName?_bracketed.mp hname with hname | ⟨hiri, hne, -⟩
  · exact hleaves e he name hname
  · obtain ⟨e', he', -, name', hname', -⟩ := (hall e he hiri).resolve_left hne
    exact hleaves e' he' name'.toList (String.ofList_toList.symm ▸ hname')

end

/-- **Brackets change nothing unless a namespace is all of the IRI**, and then they do so exactly
if no entry with a smaller alias leaves a single byte. -/
theorem abbreviate?_brackets_iff (m : Namespaces) (iri : String)
    (hopen : '<' ∉ iri.toList) (hclose : '>' ∉ iri.toList) :
    m.abbreviate? ("<" ++ iri ++ ">") = m.abbreviate? iri ↔
      ∀ e ∈ m.entries, e.2 = iri → iri = "" ∨ m.HasShorter iri e.1 := by
  constructor
  · intro hsame e he hiri
    by_cases hne : iri = ""
    · exact .inl hne
    · exact .inr (hasShorter_of_same hopen hclose hsame he hiri hne)
  · intro hall
    cases hplain : m.abbreviate? iri with
    | none => exact abbreviate?_bracketed_eq_none hopen hclose hall hplain
    | some short =>
      obtain ⟨b, name, hbest, hshort⟩ := abbreviate?_eq_some_iff.mp hplain
      exact abbreviate?_eq_some_iff.mpr ⟨b, name, hbest.bracketed hopen hclose hall, hshort⟩

/-- A namespace that is all of the IRI counts for less than one in front of it that leaves a
byte. -/
theorem abbreviate?_brackets_iff_byte :
    let m := ofRows ["a=urn:", "b=urn:x"]
    '<' ∉ "urn:x".toList ∧ '>' ∉ "urn:x".toList ∧
      m.abbreviate? ("<" ++ "urn:x" ++ ">") = m.abbreviate? "urn:x" ∧
      ∀ e ∈ m.entries, e.2 = "urn:x" → "urn:x" = "" ∨ m.HasShorter "urn:x" e.1 := by
  intro m
  have hopen : '<' ∉ "urn:x".toList := by decide
  have hclose : '>' ∉ "urn:x".toList := by decide
  have hsame : m.abbreviate? ("<" ++ "urn:x" ++ ">") = m.abbreviate? "urn:x" := by decide
  have hiff := abbreviate?_brackets_iff m "urn:x" hopen hclose
  exact ⟨hopen, hclose, hsame, hiff.mp hsame⟩

/-- In brackets, the IRI of a namespace has the closing one as its local name. -/
theorem namespace_abbreviated_in_brackets :
    let m := ofRows ["foo=http://foo.org/"]
    let iri := "http://foo.org/"
    '<' ∉ iri.toList ∧ '>' ∉ iri.toList ∧ m.abbreviate? ("<" ++ iri ++ ">") = some "foo:>" ∧
      m.abbreviate? iri = none ∧ m.abbreviate? ("<" ++ iri ++ ">") ≠ m.abbreviate? iri := by
  decide

end GraphLanguages.Namespaces
