import GraphLanguages.Proofs.Documents
import GraphLanguages.Server.Session

/-! Open documents under handlers that run side by side.

Handlers share the store and use it in turn, one operation at a time. What a handler fills
in is a parse of a text it read before, and by then the document may have been changed,
closed or opened again, with the same text or another. No two updates issue one handle, so
a parse is kept only for the text it was made of (`Coherent.fill`). Every operation keeps
the store coherent, and with that every snapshot shows a text with its own parse or with
none. -/
namespace GraphLanguages

theorem ParseState.updated_empty (state : ParseState) :
    ({} : ParseState).updated state = state := by
  simp [ParseState.updated]

theorem ParseState.updated_self (state : ParseState) : state.updated state = state := by
  simp [ParseState.updated]

theorem ParseCache.mem_of_mem_clear {c : ParseCache} {uri : Uri} {e : Uri × ParseState}
    (h : e ∈ (c.clear uri).states) : e ∈ c.states ∧ e.1 ≠ uri := by
  simpa using List.mem_filter.mp h

namespace Documents

/-- What a handler does to the store at once. -/
inductive Operation where
  /-- A new text, with its parse unless that failed. -/
  | update (uri : Uri) (text : String) (parsed : Bool)
  | snapshot (uri : Uri)
  /-- The parse of a text that was read before. -/
  | fill (uri : Uri) (handle : TextHandle)
  | remove (uri : Uri)

/-- The store, and the texts that handlers have read from it. -/
structure Shared where
  documents : Documents := {}
  read : List TextHandle := []

namespace Operation

/-- The document that the operation is about. -/
def uri : Operation → Uri
  | .update uri _ _ | .snapshot uri | .fill uri _ | .remove uri => uri

/-- A text has to be read before it is parsed. -/
def Ready (s : Shared) : Operation → Prop
  | .fill _ handle => handle ∈ s.read
  | .update .. | .snapshot _ | .remove _ => True

def perform (parse : String → ParseState) (s : Shared) : Operation → Shared
  | .update uri text parsed =>
    { s with
      documents := s.documents.update uri text (if parsed then some (parse text) else none) }
  | .snapshot uri =>
    { s with read := ((s.documents.snapshot? uri).map Prod.fst).toList ++ s.read }
  | .fill uri handle =>
    { s with documents := s.documents.fill uri handle (parse handle.text) }
  | .remove uri => { s with documents := s.documents.remove uri }

end Operation

/-- Operations of any handlers, one after the other, lead from an empty store to this one. -/
inductive Interleaving (parse : String → ParseState) : List Operation → Shared → Prop
  | start : Interleaving parse [] {}
  | step {ops : List Operation} {s : Shared} (op : Operation) : Interleaving parse ops s →
      op.Ready s → Interleaving parse (ops ++ [op]) (op.perform parse s)

/-! ### The documents -/

section
variable {d : Documents} {uri other : Uri} {handle : TextHandle} {parse : ParseState}

theorem snapshot?_update_unparsed (text : String) :
    (d.update uri text none).snapshot? uri = some (⟨d.issued, text⟩, {}) := by
  simp [snapshot?, update, ParseCache.get_clear_self]

/-- A parse is kept for the text of this handle, or not at all. -/
theorem fill_cases (d : Documents) (uri : Uri) (handle : TextHandle) (parse : ParseState) :
    (∃ current, d.texts.lookup uri = some current ∧ current.id = handle.id ∧
      d.fill uri handle parse = { d with parses := d.parses.save uri parse }) ∨
    d.fill uri handle parse = d := by
  unfold fill
  split
  next h =>
    obtain ⟨current, hcurrent, hid⟩ := (Option.any_eq_true ..).mp h
    exact .inl ⟨current, hcurrent, by simpa using hid, rfl⟩
  next => exact .inr rfl

theorem snapshot?_fill_of_ne (h : other ≠ uri) :
    (d.fill uri handle parse).snapshot? other = d.snapshot? other := by
  rcases fill_cases d uri handle parse with ⟨-, -, -, heq⟩ | heq
  · rw [heq, snapshot?, snapshot?, ParseCache.get_save_of_ne h]
  · rw [heq]

theorem isSome_snapshot? : (d.snapshot? uri).isSome = (d.texts.lookup uri).isSome :=
  Option.isSome_map

theorem mem_texts_of_snapshot? {state : ParseState} (h : d.snapshot? uri = some (handle, state)) :
    handle ∈ d.texts.map Prod.snd := by
  obtain ⟨current, hcurrent, heq⟩ := Option.map_eq_some_iff.mp h
  obtain ⟨before, behind, htexts, -⟩ := List.lookup_eq_some_iff.mp hcurrent
  obtain ⟨rfl, -⟩ := Prod.mk.inj heq
  simp [htexts]

end

/-- An operation on one document leaves what is seen of the others. -/
theorem Operation.snapshot?_perform_of_ne (parse : String → ParseState) (s : Shared)
    (op : Operation) {other : Uri} (h : other ≠ op.uri) :
    (op.perform parse s).documents.snapshot? other = s.documents.snapshot? other := by
  cases op with
  | update uri text parsed => exact snapshot?_update_of_ne h text _
  | snapshot uri => rfl
  | fill uri handle => exact snapshot?_fill_of_ne h
  | remove uri => exact snapshot?_remove_of_ne h

/-- Entries of the cache under other addresses were there before. -/
theorem Operation.mem_perform_of_ne (parse : String → ParseState) (s : Shared) (op : Operation)
    {e : Uri × ParseState} (he : e ∈ (op.perform parse s).documents.parses.states)
    (h : e.1 ≠ op.uri) : e ∈ s.documents.parses.states := by
  have hsave {c : ParseCache} {uri : Uri} {state : ParseState} (hne : e.1 ≠ uri)
      (hmem : e ∈ (c.save uri state).states) : e ∈ c.states := by
    rcases List.mem_cons.mp hmem with rfl | hmem
    · exact absurd rfl hne
    · exact (ParseCache.mem_of_mem_clear hmem).1
  cases op with
  | update uri text parsed =>
    cases parsed with
    | true => exact (ParseCache.mem_of_mem_clear (hsave h he)).1
    | false => exact (ParseCache.mem_of_mem_clear he).1
  | snapshot uri => exact he
  | fill uri handle =>
    rcases fill_cases s.documents uri handle (parse handle.text) with ⟨-, -, -, heq⟩ | heq
    all_goals simp only [perform, heq] at he
    · exact hsave h he
    · exact he
  | remove uri => exact (ParseCache.mem_of_mem_clear he).1

/-! ### Handles -/

/-- Handles with numbers below the next one, each number once. -/
structure Distinct (next : Nat) (handles : List TextHandle) : Prop where
  issued : ∀ a ∈ handles, a.id < next
  unique : ∀ a ∈ handles, ∀ b ∈ handles, a.id = b.id → a = b

namespace Distinct
variable {next : Nat} {handles handles' : List TextHandle}

theorem subset (h : Distinct next handles) (hs : handles' ⊆ handles) : Distinct next handles' where
  issued a ha := h.issued a (hs ha)
  unique a ha b hb := h.unique a (hs ha) b (hs hb)

theorem issue (h : Distinct next handles) (text : String) :
    Distinct (next + 1) (⟨next, text⟩ :: handles) where
  issued a ha := by
    rcases List.mem_cons.mp ha with rfl | ha
    · exact Nat.lt_succ_self next
    · exact Nat.lt_succ_of_lt (h.issued a ha)
  unique a ha b hb hid := by
    rcases List.mem_cons.mp ha with rfl | ha <;> rcases List.mem_cons.mp hb with rfl | hb
    · rfl
    · exact absurd hid.symm (Nat.ne_of_lt (h.issued b hb))
    · exact absurd hid (Nat.ne_of_lt (h.issued a ha))
    · exact h.unique a ha b hb hid

end Distinct

/-! ### What every operation keeps -/

namespace Shared

/-- The texts that somebody holds: the store, or a handler that has read them. -/
def handles (s : Shared) : List TextHandle :=
  s.documents.texts.map Prod.snd ++ s.read

/-- Parses are of the texts they are kept with, and no two texts have one handle. -/
structure Coherent (parse : String → ParseState) (s : Shared) : Prop where
  parses : ∀ uri handle state, s.documents.snapshot? uri = some (handle, state) →
    state = {} ∨ state = parse handle.text
  texts : ∀ e ∈ s.documents.parses.states, (s.documents.snapshot? e.1).isSome
  handles : Distinct s.documents.issued s.handles

variable {parse : String → ParseState} {s : Shared}

theorem coherent_start : Coherent parse {} where
  parses _ _ _ h := by cases h
  texts _ h := by cases h
  handles := ⟨fun _ h => absurd h List.not_mem_nil, fun _ h => absurd h List.not_mem_nil⟩

namespace Coherent

/-- It is enough to look at the document that an operation is about. -/
theorem perform (h : s.Coherent parse) (op : Operation)
    (hparses : ∀ handle state,
      (op.perform parse s).documents.snapshot? op.uri = some (handle, state) →
        state = {} ∨ state = parse handle.text)
    (htexts : ∀ e ∈ (op.perform parse s).documents.parses.states, e.1 = op.uri →
      ((op.perform parse s).documents.snapshot? op.uri).isSome)
    (hhandles : Distinct (op.perform parse s).documents.issued (op.perform parse s).handles) :
    (op.perform parse s).Coherent parse where
  parses uri handle state hs := by
    by_cases huri : uri = op.uri
    · exact hparses handle state (huri ▸ hs)
    · rw [op.snapshot?_perform_of_ne parse s huri] at hs
      exact h.parses uri handle state hs
  texts e he := by
    by_cases huri : e.1 = op.uri
    · exact huri ▸ htexts e he huri
    · rw [op.snapshot?_perform_of_ne parse s huri]
      exact h.texts e (op.mem_perform_of_ne parse s he huri)
  handles := hhandles

/-- An operation that leaves its document with a text, and with no parse or that of the text. -/
theorem perform_of_snapshot? (h : s.Coherent parse) (op : Operation) {handle : TextHandle}
    {state : ParseState}
    (hsnapshot : (op.perform parse s).documents.snapshot? op.uri = some (handle, state))
    (hstate : state = {} ∨ state = parse handle.text)
    (hhandles : Distinct (op.perform parse s).documents.issued (op.perform parse s).handles) :
    (op.perform parse s).Coherent parse := by
  refine h.perform op (fun handle state hs => ?_) (fun e _ _ => ?_) hhandles
  · obtain ⟨rfl, rfl⟩ := Prod.mk.inj (Option.some.inj (hsnapshot.symm.trans hs))
    exact hstate
  · rw [hsnapshot]
    rfl

theorem update (h : s.Coherent parse) (uri : Uri) (text : String) (parsed : Bool) :
    ((Operation.update uri text parsed).perform parse s).Coherent parse := by
  have hsnapshot : ((Operation.update uri text parsed).perform parse s).documents.snapshot? uri =
      some (⟨s.documents.issued, text⟩, if parsed then parse text else {}) := by
    cases parsed with
    | true => exact snapshot?_update_self text (parse text)
    | false => exact snapshot?_update_unparsed text
  refine h.perform_of_snapshot? _ hsnapshot ?_ ?_
  · cases parsed with
    | true => exact .inr rfl
    | false => exact .inl rfl
  · -- the handle that is replaced is held by those alone who have read it
    have hsub : ((s.documents.texts.filter fun e => e.1 != uri).map Prod.snd ++ s.read).Sublist
        s.handles := (List.filter_sublist.map _).append (List.Sublist.refl _)
    exact (h.handles.issue text).subset (hsub.cons_cons _).subset

theorem snapshot (h : s.Coherent parse) (uri : Uri) :
    ((Operation.snapshot uri).perform parse s).Coherent parse := by
  refine h.perform _ (h.parses uri) (fun e he huri => huri ▸ h.texts e he) (h.handles.subset ?_)
  intro a ha
  rcases List.mem_append.mp ha with ha | ha
  · exact List.mem_append.mpr (.inl ha)
  · rcases List.mem_append.mp ha with ha | ha
    · obtain ⟨found, hfound, rfl⟩ := Option.map_eq_some_iff.mp (Option.mem_toList.mp ha)
      exact List.mem_append.mpr (.inl (mem_texts_of_snapshot? hfound))
    · exact List.mem_append.mpr (.inr ha)

theorem fill (h : s.Coherent parse) (uri : Uri) {handle : TextHandle} (hread : handle ∈ s.read) :
    ((Operation.fill uri handle).perform parse s).Coherent parse := by
  rcases fill_cases s.documents uri handle (parse handle.text) with
    ⟨current, hcurrent, hid, heq⟩ | heq
  · have hbefore : s.documents.snapshot? uri = some (current, s.documents.parses.get uri) := by
      rw [snapshot?, hcurrent, Option.map_some]
    -- the text in the store is the one that was parsed, whatever happened in between
    obtain rfl : current = handle :=
      h.handles.unique current (List.mem_append.mpr (.inl (mem_texts_of_snapshot? hbefore))) handle
        (List.mem_append.mpr (.inr hread)) hid
    have hsnapshot : ((Operation.fill uri current).perform parse s).documents.snapshot? uri =
        some (current, parse current.text) := by
      simp only [Operation.perform, heq, snapshot?, hcurrent, Option.map_some,
        ParseCache.get_save_self]
      rcases h.parses uri current _ hbefore with hget | hget
      all_goals rw [hget]
      · rw [ParseState.updated_empty]
      · rw [ParseState.updated_self]
    refine h.perform_of_snapshot? _ hsnapshot (.inr rfl) ?_
    simpa only [Shared.handles, Operation.perform, heq] using h.handles
  · have : (Operation.fill uri handle).perform parse s = s := by
      simp only [Operation.perform, heq]
    rw [this]
    exact h

theorem remove (h : s.Coherent parse) (uri : Uri) :
    ((Operation.remove uri).perform parse s).Coherent parse := by
  have hsnapshot : ((Operation.remove uri).perform parse s).documents.snapshot? uri = none :=
    snapshot?_remove_self
  refine h.perform _ (fun handle state hs => ?_) (fun e he huri => ?_) (h.handles.subset ?_)
  · cases hsnapshot.symm.trans hs
  · exact absurd huri (ParseCache.mem_of_mem_clear he).2
  · exact ((List.filter_sublist.map _).append (List.Sublist.refl _)).subset

/-- Every operation keeps the store coherent. -/
theorem step (h : s.Coherent parse) (op : Operation) (hop : op.Ready s) :
    (op.perform parse s).Coherent parse := by
  cases op with
  | update uri text parsed => exact h.update uri text parsed
  | snapshot uri => exact h.snapshot uri
  | fill uri handle => exact h.fill uri hop
  | remove uri => exact h.remove uri

end Coherent

theorem coherent_of_interleaving {ops : List Operation} (h : Interleaving parse ops s) :
    s.Coherent parse := by
  induction h with
  | start => exact coherent_start
  | step op _ hop ih => exact ih.step op hop

end Shared

/-- **However handlers take turns, a parse is seen with the text it was made of.** Every
snapshot shows no parse or that of its text, nothing is kept of documents without a text, and
an operation on one document changes nothing that is seen of another. -/
theorem snapshot?_of_interleaving (parse : String → ParseState) (ops : List Operation)
    (s : Shared) (h : Interleaving parse ops s) :
    (∀ uri handle state, s.documents.snapshot? uri = some (handle, state) →
        state = {} ∨ state = parse handle.text) ∧
      (∀ e ∈ s.documents.parses.states, (s.documents.texts.lookup e.1).isSome) ∧
      ∀ (op : Operation) (other : Uri), other ≠ op.uri →
        (op.perform parse s).documents.snapshot? other = s.documents.snapshot? other := by
  have hcoherent := Shared.coherent_of_interleaving h
  refine ⟨hcoherent.parses, fun e he => ?_, fun op other => op.snapshot?_perform_of_ne parse s⟩
  rw [← isSome_snapshot?]
  exact hcoherent.texts e he

/-- A text is read, its document closed and opened again with the same text, and read once
more. The first reader's parse is dropped, the second one's is kept. -/
theorem snapshot?_of_interleaving_reopened :
    let parse (text : String) := (Server.parsed (Language.turtle.profile {}) text).1
    let a : Uri := ⟨"a"⟩
    let late : List Operation :=
      [.update a "<s>" false, .snapshot a, .remove a, .update a "<s>" false, .snapshot a,
        .fill a ⟨0, "<s>"⟩]
    (late.foldl (Operation.perform parse) {}).documents.snapshot? a = some (⟨1, "<s>"⟩, {}) ∧
      ∃ s state, Interleaving parse (late ++ [.fill a ⟨1, "<s>"⟩]) s ∧
        s.documents.snapshot? a = some (⟨1, "<s>"⟩, state) ∧ state.isEmpty = false ∧
        (state = {} ∨ state = parse "<s>") ∧ (a, state) ∈ s.documents.parses.states ∧
        (s.documents.texts.lookup a).isSome ∧ ⟨"b"⟩ ≠ a ∧
        ((Operation.remove a).perform parse s).documents.snapshot? ⟨"b"⟩ =
          s.documents.snapshot? ⟨"b"⟩ := by
  intro parse a late
  have hparsed : (parse "<s>").isEmpty = false := rfl
  clear_value parse
  have hread : Interleaving parse [.update a "<s>" false, .snapshot a] _ :=
    .step (.snapshot a) (.step (.update a "<s>" false) .start trivial) trivial
  have hreopened : Interleaving parse
      [.update a "<s>" false, .snapshot a, .remove a, .update a "<s>" false, .snapshot a] _ :=
    .step (.snapshot a) (.step (.update a "<s>" false) (.step (.remove a) hread trivial) trivial)
      trivial
  have hlate : Interleaving parse late _ :=
    .step (.fill a ⟨0, "<s>"⟩) hreopened (.tail _ (.head _))
  have hupdated := ParseState.updated_empty (parse "<s>")
  obtain ⟨s, hfilled, hsnapshot, hentry⟩ :
      ∃ s, Interleaving parse (late ++ [.fill a ⟨1, "<s>"⟩]) s ∧
        s.documents.snapshot? a = some (⟨1, "<s>"⟩, ({} : ParseState).updated (parse "<s>")) ∧
        (a, ({} : ParseState).updated (parse "<s>")) ∈ s.documents.parses.states :=
    ⟨_, .step (.fill a ⟨1, "<s>"⟩) hlate (.head _), rfl, .head _⟩
  rw [hupdated] at hsnapshot hentry
  obtain ⟨hparses, htexts, hothers⟩ := snapshot?_of_interleaving parse _ s hfilled
  have hother : (⟨"b"⟩ : Uri) ≠ a := by decide
  exact ⟨rfl, s, _, hfilled, hsnapshot, hparsed, hparses a _ _ hsnapshot, hentry,
    htexts _ hentry, hother, hothers (.remove a) ⟨"b"⟩ hother⟩

end Documents

end GraphLanguages
