import GraphLanguages.Proofs.Sparql.QuadData
import GraphLanguages.Proofs.Turtle.Flavours

/-! Triples of Turtle as quad data of SPARQL.

Both languages write triples alike, but SPARQL reads parentheses with nothing between them as
one token (`joined`). What a form of Turtle derives is carried over to a form of SPARQL part
by part (`Carries`), objects by induction on their length (`carries_object`); so what derives
as a document without directives is quad data between braces (`derives_quadData`). -/
namespace GraphLanguages.InsertData
open Grammar

/-! ### Words -/

/-- Parentheses with nothing between them are one token. -/
def joined : Word → Word
  | u :: u' :: w =>
    if u = "LParen" ∧ u' = "RParen" then "NIL" :: joined w else u :: joined (u' :: w)
  | w => w

/-- A word that leaves no parenthesis to its neighbours. -/
structure Whole (w : Word) : Prop where
  head : w.head? ≠ some "RParen"
  last : w.getLast? ≠ some "LParen"

section
variable {u : String} {w w' : Word}

theorem joined_empty (w : Word) : joined ("LParen" :: "RParen" :: w) = "NIL" :: joined w := by
  rw [joined, if_pos ⟨rfl, rfl⟩]

theorem joined_cons (h : u ≠ "LParen" ∨ w.head? ≠ some "RParen") :
    joined (u :: w) = u :: joined w := by
  cases w with
  | nil => rfl
  | cons u' w =>
    have hapart : ¬(u = "LParen" ∧ u' = "RParen") := by
      rintro ⟨rfl, rfl⟩
      simp at h
    rw [joined, if_neg hapart]

theorem joined_append (h : w.getLast? ≠ some "LParen" ∨ w'.head? ≠ some "RParen") :
    joined (w ++ w') = joined w ++ joined w' := by
  fun_induction joined w with
  | case1 u u' w hempty ih =>
    obtain ⟨rfl, rfl⟩ := hempty
    rw [List.cons_append, List.cons_append, joined_empty, List.cons_append, ih ?_]
    cases w with
    | nil => exact .inl (by simp)
    | cons => simpa [List.getLast?_cons_cons] using h
  | case2 u u' w hapart ih =>
    rw [List.cons_append, List.cons_append, joined, if_neg hapart, ← List.cons_append,
      ih (by simpa [List.getLast?_cons_cons] using h), List.cons_append]
  | case3 w hshort =>
    cases w with
    | nil => rfl
    | cons u w =>
      cases w with
      | nil => exact joined_cons (by simpa using h)
      | cons u' w => exact absurd rfl (hshort u u' w)

theorem Whole.nil : Whole [] :=
  ⟨nofun, nofun⟩

theorem Whole.append (h : Whole w) (h' : Whole w') : Whole (w ++ w') := by
  constructor
  · cases w with
    | nil => exact h'.head
    | cons u w => exact h.head
  · rw [List.getLast?_append]
    cases hw : w'.getLast? with
    | none => exact h.last
    | some u =>
      rw [Option.some_or, ← hw]
      exact h'.last

end

/-! ### Forms -/

/-- Shorter words than that which derive as Turtle derive as SPARQL, once they are joined. -/
def Carries (n : Nat) (φ ψ : Form) : Prop :=
  ∀ w, w.length < n → Derives Turtle.Published.productions φ w →
    Whole w ∧ Derives Sparql.Published.productions ψ (joined w)

/-- No parenthesis is one of the names. -/
def Unbracketed (names : List String) : Prop :=
  "LParen" ∉ names ∧ "RParen" ∉ names

instance (names : List String) : Decidable (Unbracketed names) :=
  inferInstanceAs (Decidable (_ ∧ _))

section
variable {m n : Nat} {a b c d : Form} {names names' : List String}

theorem Unbracketed.whole (h : Unbracketed names) {u : String} (hu : u ∈ names) : Whole [u] :=
  ⟨by rintro ⟨⟩; exact h.2 hu, by rintro ⟨⟩; exact h.1 hu⟩

theorem carries_token (h : Unbracketed names) (hsubset : names ⊆ names') :
    Carries n (.token names) (.token names') := by
  intro w _ hw
  obtain ⟨u, hu, rfl⟩ := derives_token.mp hw
  exact ⟨h.whole hu, .token (hsubset hu)⟩

theorem carries_empty : Carries n .empty .empty := by
  intro w _ hw
  obtain rfl := derives_empty.mp hw
  exact ⟨.nil, .empty⟩

theorem Carries.seq (ha : Carries n a c) (hb : Carries n b d) :
    Carries n (.seq a b) (.seq c d) := by
  intro w hlt hw
  obtain ⟨w₁, w₂, h₁, h₂, rfl⟩ := derives_seq.mp hw
  rw [List.length_append] at hlt
  obtain ⟨hwhole₁, h₁⟩ := ha w₁ (by omega) h₁
  obtain ⟨hwhole₂, h₂⟩ := hb w₂ (by omega) h₂
  rw [joined_append (.inl hwhole₁.last)]
  exact ⟨hwhole₁.append hwhole₂, .seq h₁ h₂⟩

/-- Behind a token, words are shorter. -/
theorem Carries.behind (hb : Carries n b d) (h : Unbracketed names) (hsubset : names ⊆ names') :
    Carries (n + 1) (.seq (.token names) b) (.seq (.token names') d) := by
  intro w hlt hw
  obtain ⟨w₁, w₂, h₁, h₂, rfl⟩ := derives_seq.mp hw
  obtain ⟨u, hu, rfl⟩ := derives_token.mp h₁
  rw [List.singleton_append, List.length_cons] at hlt
  obtain ⟨hwhole, h₂⟩ := hb w₂ (by omega) h₂
  rw [joined_append (.inl (h.whole hu).last)]
  exact ⟨(h.whole hu).append hwhole, .seq (.token (hsubset hu)) h₂⟩

theorem Carries.into (ha : Carries n a c)
    (h : ∀ w, Derives Sparql.Published.productions c w →
      Derives Sparql.Published.productions d w) : Carries n a d :=
  fun w hlt hw => (ha w hlt hw).imp_right (h _)

theorem Carries.first (ha : Carries n a c) : Carries n a (.alt c d) :=
  ha.into fun _ => .first

theorem Carries.second (ha : Carries n a d) : Carries n a (.alt c d) :=
  ha.into fun _ => .second

theorem Carries.either (ha : Carries n a c) (hb : Carries n b c) : Carries n (.alt a b) c :=
  fun w hlt hw => (derives_alt.mp hw).elim (ha w hlt) (hb w hlt)

theorem Carries.optional (ha : Carries n a c) : Carries n a.optional c.optional :=
  .either ha.first carries_empty.second

theorem Carries.many (ha : Carries n a c) : Carries n (.many a) (.many c) := by
  intro w hlt hw
  generalize hφ : Form.many a = φ at hw
  induction hw with
  | none => exact ⟨.nil, .none⟩
  | @more _ w w' h _ _ ih =>
    cases hφ
    rw [List.length_append] at hlt
    obtain ⟨hwhole, h⟩ := ha w (by omega) h
    obtain ⟨hwhole', h'⟩ := ih (by omega) rfl
    rw [joined_append (.inl hwhole.last)]
    exact ⟨hwhole.append hwhole', .more h h'⟩
  | empty | token | seq | first | second | rule => cases hφ

theorem Carries.mono (h : Carries n a c) (hmn : m ≤ n) : Carries m a c :=
  fun w hlt => h w (Nat.lt_of_lt_of_le hlt hmn)

end

/-! ### Triples -/

section
variable {n : Nat}

theorem carries_iri : Carries n Turtle.Published.iri Sparql.Published.iri :=
  carries_token (by decide) (List.Subset.refl _)

theorem carries_blankNode : Carries n Turtle.Published.blankNode Sparql.Published.blankNode :=
  carries_token (by decide) (List.Subset.refl _)

theorem carries_name (name : String) (h : Unbracketed [name]) :
    Carries n (Turtle.Published.token name) (Sparql.Published.token name) :=
  carries_token h (List.Subset.refl _)

theorem carries_literal : Carries n Turtle.Published.literal Sparql.Published.literal := by
  have hstring : Carries n Turtle.Published.string Sparql.Published.string :=
    carries_token (by decide) (List.Subset.refl _)
  have hnumber : Carries n (.token ["INTEGER", "DECIMAL", "DOUBLE"])
      (.token ["INTEGER", "DECIMAL", "DOUBLE"]) := carries_token (by decide) (List.Subset.refl _)
  have htype := (carries_name (n := n) "DoubleCaret" (by decide)).seq carries_iri
  have htag := carries_name (n := n) "LANGTAG" (by decide)
  have htail := (Carries.either htag.first htype.second).optional
  refine .either (hstring.seq htail).first (.either hnumber.first.second ?_)
  exact .either (carries_name "TRUE" (by decide)).first.second.second
    (carries_name "FALSE" (by decide)).second.second.second

theorem carries_verb : Carries n Turtle.Published.verb Sparql.Published.verb :=
  .either (carries_name "A" (by decide)).first.second carries_iri.second.second

/-- Objects of that length are carried over. -/
abbrev CarriesObjects (n : Nat) : Prop :=
  Carries n (.rule "object") (.rule "GraphNode")

theorem carries_objectList (h : CarriesObjects n) :
    Carries n Turtle.Published.objectList Sparql.Published.objectList :=
  .seq h (.many (.seq (carries_name "Comma" (by decide)) h))

theorem carries_predicateObjectList (h : CarriesObjects n) :
    Carries n Turtle.Published.predicateObjectList Sparql.Published.propertyList := by
  have hpair := carries_verb.seq (carries_objectList h)
  exact carries_verb.seq ((carries_objectList h).seq
    (.many (.seq (carries_name "Semicolon" (by decide)) hpair.optional)))

theorem carries_blankNodePropertyList (h : CarriesObjects n) :
    Carries (n + 1) Turtle.Published.blankNodePropertyList
      Sparql.Published.blankNodePropertyList :=
  .behind ((carries_predicateObjectList h).seq (carries_name "RBracket" (by decide)))
    (by decide) (List.Subset.refl _)

/-- A collection with nothing in it becomes one token. -/
theorem carries_collection (h : CarriesObjects n) :
    Carries (n + 1) Turtle.Published.collection
      (.alt Sparql.Published.collection (Sparql.Published.token "NIL")) := by
  intro w hlt hw
  obtain ⟨opening, rest, hopening, hrest, rfl⟩ := derives_seq.mp hw
  obtain ⟨items, closing, hitems, hclosing, rfl⟩ := derives_seq.mp hrest
  obtain ⟨u, hu, rfl⟩ := derives_token.mp hopening
  obtain ⟨u', hu', rfl⟩ := derives_token.mp hclosing
  obtain rfl := List.mem_singleton.mp hu
  obtain rfl := List.mem_singleton.mp hu'
  have hwhole : Whole (["LParen"] ++ (items ++ ["RParen"])) := by
    refine ⟨by simp, ?_⟩
    rw [← List.append_assoc, List.getLast?_concat]
    decide
  refine ⟨hwhole, ?_⟩
  by_cases hempty : items = []
  · rw [hempty]
    exact .second (.token (List.mem_singleton_self _))
  have hsome : Derives Turtle.Published.productions (.several (.rule "object")) items :=
    (derives_alt.mp (derives_many.mp hitems)).resolve_right (hempty ∘ derives_empty.mp)
  rw [List.length_append, List.length_append] at hlt
  obtain ⟨hitemsWhole, hderives⟩ := Carries.seq h (.many h) items (by simp at hlt; omega) hsome
  have hhead : (items ++ ["RParen"]).head? ≠ some "RParen" := by
    cases items with
    | nil => exact absurd rfl hempty
    | cons u items => exact hitemsWhole.head
  have hjoined : joined (["LParen"] ++ (items ++ ["RParen"])) =
      ["LParen"] ++ (joined items ++ ["RParen"]) := by
    rw [List.singleton_append, joined_cons (.inr hhead), joined_append (.inl hitemsWhole.last)]
    rfl
  rw [hjoined]
  exact .first (.seq (.token (List.mem_singleton_self _))
    (.seq hderives (.token (List.mem_singleton_self _))))

/-! What may be an object and a subject is a node of a graph in SPARQL. -/

theorem carries_iri_node : Carries n Turtle.Published.iri Sparql.Published.graphNode :=
  carries_iri.first.second.second

theorem carries_blankNode_node :
    Carries n Turtle.Published.blankNode Sparql.Published.graphNode :=
  carries_blankNode.first.second.second.second.second

theorem carries_collection_node (h : CarriesObjects n) :
    Carries (n + 1) Turtle.Published.collection Sparql.Published.graphNode :=
  (carries_collection h).into fun _ hw =>
    (derives_alt.mp hw).elim (.first ∘ .first) (.second ∘ .second ∘ .second ∘ .second ∘ .second)

theorem carries_object : CarriesObjects n := by
  induction n with
  | zero => exact fun w hlt => absurd hlt (Nat.not_lt_zero _)
  | succ n ih =>
    have hobject : Carries (n + 1) Turtle.Published.object Sparql.Published.graphNode :=
      .either carries_iri_node (.either carries_blankNode_node
        (.either (carries_collection_node ih)
          (.either (carries_blankNodePropertyList ih).second.first
            carries_literal.first.second.second.second)))
    intro w hlt hw
    obtain ⟨φ, hφ, hw⟩ := derives_rule.mp hw
    obtain rfl : Turtle.Published.object = φ := Option.some.inj hφ
    exact (hobject w hlt hw).imp_right (.rule rfl)

/-- Every node of a graph with properties is a subject. -/
theorem derives_triples_of_node {w : Word}
    (h : Derives Sparql.Published.productions
      (.seq Sparql.Published.graphNode Sparql.Published.propertyList) w) :
    Derives Sparql.Published.productions Sparql.Published.triples w := by
  obtain ⟨w₁, w₂, hnode, hproperties, rfl⟩ := derives_seq.mp h
  rcases derives_alt.mp hnode with hnode | hterm
  · exact .first (.seq hnode (.first hproperties))
  · exact .second (.seq hterm hproperties)

theorem carries_triples : Carries n Turtle.Published.triples Sparql.Published.triples := by
  have hverbs : Carries (n + 1) Turtle.Published.predicateObjectList
      Sparql.Published.propertyList := carries_predicateObjectList carries_object
  have hproperties : Carries (n + 1) Turtle.Published.blankNodePropertyList
      Sparql.Published.triplesNode := (carries_blankNodePropertyList carries_object).second
  have hsubject : Carries (n + 1)
      (.oneOf [Turtle.Published.iri, Turtle.Published.blankNode, Turtle.Published.collection])
      Sparql.Published.graphNode :=
    .either carries_iri_node
      (.either carries_blankNode_node (carries_collection_node carries_object))
  have htriples : Carries (n + 1) Turtle.Published.triples Sparql.Published.triples :=
    .either (hproperties.seq hverbs.optional).first
      ((hsubject.seq hverbs).into fun _ => derives_triples_of_node)
  exact htriples.mono (Nat.le_succ n)

end

/-! ### Documents -/

/-- Triples with a full stop behind each of them are a template. -/
theorem derives_template {w : Word}
    (h : Derives Sparql.Published.productions
      (.many (.seq Sparql.Published.triples (Sparql.Published.token "Period"))) w) :
    Derives Sparql.Published.productions (.optional Sparql.Published.triplesTemplate) w := by
  generalize hφ : Form.many _ = φ at h
  induction h with
  | none => exact .second .empty
  | more hitem _ _ ih =>
    cases hφ
    obtain ⟨triples, stop, htriples, hstop, rfl⟩ := derives_seq.mp hitem
    rw [List.append_assoc]
    rcases derives_alt.mp (ih rfl) with htemplate | hempty
    · obtain ⟨next, others, hnext, hothers, rfl⟩ := derives_seq.mp htemplate
      obtain ⟨middle, last, hmiddle, hlast, rfl⟩ := derives_seq.mp hothers
      have hmore := Derives.more (hstop.seq hnext) hmiddle
      have hall := htriples.seq (hmore.seq hlast)
      simp only [List.append_assoc] at hall
      exact .first hall
    · obtain rfl := derives_empty.mp hempty
      rw [List.append_nil]
      exact .first (htriples.seq (Derives.none.seq (.first hstop)))
  | empty | token | seq | first | second | rule => cases hφ

/-- A directive has one of these tokens. -/
theorem directive_of_derives {w : Word}
    (h : Derives Turtle.Published.productions Turtle.Published.directive w) :
    ∃ u ∈ ["TTL_PREFIX", "TTL_BASE", "SPARQL_PREFIX", "SPARQL_BASE"], u ∈ w := by
  have hfirst : ∀ {name : String} {rest : Form}, Derives Turtle.Published.productions
      (.seq (Turtle.Published.token name) rest) w → name ∈ w := by
    intro name rest h
    obtain ⟨w₁, w₂, htoken, -, rfl⟩ := derives_seq.mp h
    obtain ⟨u, hu, rfl⟩ := derives_token.mp htoken
    rw [List.mem_singleton.mp hu]
    exact List.mem_cons_self ..
  rcases derives_alt.mp h with h | h
  · exact ⟨_, by decide, hfirst h⟩
  rcases derives_alt.mp h with h | h
  · exact ⟨_, by decide, hfirst h⟩
  rcases derives_alt.mp h with h | h
  · exact ⟨_, by decide, hfirst h⟩
  · exact ⟨_, by decide, hfirst h⟩

/-- **A document of Turtle without directives is quad data of SPARQL between braces.** -/
theorem derives_quadData {w : Word}
    (h : Derives Turtle.Published.productions Turtle.Published.turtleDoc w)
    (hw : ∀ u ∈ ["TTL_PREFIX", "TTL_BASE", "SPARQL_PREFIX", "SPARQL_BASE"], u ∉ w) :
    Derives Sparql.Published.productions Sparql.Published.quadData
      ("LCurly" :: (joined w ++ ["RCurly"])) := by
  have hstatements : Derives Turtle.Published.productions
      (.many (.seq Turtle.Published.triples (Turtle.Published.token "Period"))) w := by
    refine Turtle.derives_many_without (fun w hw h => ?_) h hw
    rcases derives_alt.mp h with hdirective | htriples
    · obtain ⟨u, hu, hmem⟩ := directive_of_derives hdirective
      exact absurd hmem (hw u hu)
    · exact htriples
  have hcarries := ((carries_triples (n := w.length + 1)).seq
    (carries_name "Period" (by decide))).many
  obtain ⟨-, hstatements⟩ := hcarries w (Nat.lt_succ_self _) hstatements
  have hquads : Derives Sparql.Published.productions Sparql.Published.quads (joined w) := by
    rw [← List.append_nil (joined w)]
    exact .seq (derives_template hstatements) .none
  exact .seq (.token (List.mem_singleton_self _))
    (.seq hquads (.token (List.mem_singleton_self _)))

end GraphLanguages.InsertData
