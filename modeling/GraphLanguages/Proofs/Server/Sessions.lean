import GraphLanguages.Proofs.Completion.Edits
import GraphLanguages.Proofs.Server.Calls

/-! What a session keeps, whatever it is told.

A session speaks a profile of its language and has a parse of every text by some profile
(`Session.Parsed`), also when a client connects again with other options. So a request for
an open document is answered from a parse that lies in the text, and the edits surround the
place asked for (`complete_surrounds`). -/
namespace GraphLanguages.Server
open Completion Text

namespace Session

/-- The session speaks a profile of the language, and its texts have parses by some. -/
structure Parsed (l : Language) (s : Session) : Prop where
  language : s.language = l
  profile : ∃ options, s.profile = l.profile options
  parses : ∀ uri handle state, s.documents.snapshot? uri = some (handle, state) →
    ∃ options, state = (parsed (l.profile options) handle.text).1

namespace Parsed
variable {l : Language} {s : Session}

theorem start (l : Language) : Parsed l { language := l } where
  language := rfl
  profile := ⟨{}, rfl⟩
  parses _ _ _ h := by cases h

/-- No parse has to be made for a request. -/
theorem withParse (h : s.Parsed l) (uri : Uri) :
    s.withParse uri = (s, (s.documents.snapshot? uri).map fun found => (found.1.text, found.2)) := by
  unfold Session.withParse
  cases hs : s.documents.snapshot? uri with
  | none => rfl
  | some found =>
    obtain ⟨handle, state⟩ := found
    obtain ⟨options, rfl⟩ := h.parses uri handle state hs
    rfl

theorem setText (h : s.Parsed l) (uri : Uri) (text : String) : (s.setText uri text).1.Parsed l where
  language := h.language
  profile := h.profile
  parses other handle state hs := by
    obtain ⟨options, hprofile⟩ := h.profile
    by_cases he : other = uri
    · subst he
      rw [Session.setText, Documents.snapshot?_update_self, hprofile] at hs
      cases hs
      exact ⟨options, rfl⟩
    · rw [Session.setText, Documents.snapshot?_update_of_ne he] at hs
      exact h.parses other handle state hs

theorem close (h : s.Parsed l) (uri : Uri) : (s.close uri).Parsed l where
  language := h.language
  profile := h.profile
  parses other handle state hs := by
    by_cases he : other = uri
    · subst he
      rw [Session.close, Documents.snapshot?_remove_self] at hs
      cases hs
    · rw [Session.close, Documents.snapshot?_remove_of_ne he] at hs
      exact h.parses other handle state hs

/-- Every call leaves texts with parses of their own. -/
theorem perform (h : s.Parsed l) (call : Call) : (s.perform call).1.Parsed l := by
  cases call with
  | connect options =>
    exact ⟨h.language, ⟨options, by rw [← h.language]; rfl⟩, h.parses⟩
  | openDocument uri text => exact h.setText uri text
  | change uri texts =>
    simp only [Session.perform, Session.change]
    cases texts.getLast? with
    | none => exact h
    | some text => exact h.setText uri text
  | close uri => exact h.close uri
  | updateData update => exact ⟨h.language, h.profile, h.parses⟩
  | complete uri at_ =>
    simp only [Session.perform, Session.complete, h.withParse]
    exact h
  | hover uri at_ =>
    simp only [Session.perform, Session.hover, h.withParse]
    exact h
  | fold uri => exact h

end Parsed

theorem parsed_after (l : Language) (calls : List Call) : (Session.after l calls).Parsed l := by
  induction calls using List.reverseRecOn with
  | nil => exact .start l
  | append_singleton calls call ih =>
    rw [Session.after_concat]
    exact ih.perform call

/-! ### Edits -/

/-- The edit replaces what is around the offset: it is between boundaries of the text, and
its span leads back to the ends. -/
structure Edit.Surrounds (e : Edit) (offset : Nat) (text : String) : Prop where
  replace : e.suggestion.replace.Surrounds offset text.toList
  inside : e.suggestion.replace.stop ≤ bytes text.toList
  span : e.span.Delimits (LineIndex.ofText text) e.suggestion.replace.start
    e.suggestion.replace.stop

theorem edits_surround (l : Language) (options : Options) (data : Data) {text : String}
    {o : ParseOutput} (ho : o.LiesIn text.toList) (hsize : bytes text.toList < 4294967296)
    (at_ : Position) : ∀ e ∈ edits (l.profile options) data text o.tokens at_,
      e.Surrounds ((LineIndex.ofText text).offset at_) text := by
  have hindex := LineIndex.lawful_ofText text
  intro e he
  obtain ⟨s, hs, rfl⟩ := List.mem_map.mp he
  have hreplace : s.replace.Surrounds ((LineIndex.ofText text).offset at_) text.toList :=
    Profile.surrounds_of_mem_complete (l.lawful options).progressive (l.addsInPlace options) ho
      (hindex.isBoundary_offset at_) s hs
  exact ⟨hreplace, hreplace.stopBoundary.le_bytes, hindex.delimits_span hsize
    hreplace.startBoundary hreplace.stopBoundary (hreplace.start_le.trans hreplace.le_stop)⟩

theorem nodup_labels_edits (p : Profile) (data : Data) (text : String)
    (tokens : List Token) (at_ : Position) :
    ((edits p data text tokens at_).map (·.suggestion.label)).Nodup := by
  rw [edits, List.map_map]
  exact p.nodup_labels_complete ..

end Session

/-- **Suggestions surround the cursor.** Whatever a session was told, for an open document it
answers with edits of different labels, each between boundaries of the text around the place
asked for, whose spans lead back to the ends. -/
theorem complete_surrounds (l : Language) (calls : List Call) (uri : Uri) (at_ : Position)
    (handle : TextHandle) (state : ParseState)
    (hopen : (Session.after l calls).documents.snapshot? uri = some (handle, state))
    (hsize : bytes handle.text.toList < 4294967296) :
    ∃ es, ((Session.after l calls).complete uri at_).2 = some es ∧
      (es.map (·.suggestion.label)).Nodup ∧
      ∀ e ∈ es, e.Surrounds ((LineIndex.ofText handle.text).offset at_) handle.text := by
  have hs := Session.parsed_after l calls
  obtain ⟨options, hprofile⟩ := hs.profile
  obtain ⟨options', rfl⟩ := hs.parses uri handle state hopen
  let o := (l.profile options').frontend.parseDocument handle.text.toList
  have ho : o.LiesIn handle.text.toList :=
    (l.lawful options').liesIn (l.checksTokens options') handle.text.toList
  refine ⟨Session.edits (l.profile options) (Session.after l calls).data handle.text o.tokens at_,
    ?_, Session.nodup_labels_edits .., Session.edits_surround l options _ ho hsize at_⟩
  simp only [Session.complete, hs.withParse, hopen, hprofile]
  rfl

/-- Behind `str` and `s` in the second line, both are replaced by the longer word. -/
theorem complete_surrounds_strstarts :
    let text := "#é\r\nstrs"
    let s := Session.after .sparql [.connect {}, .openDocument ⟨"a"⟩ text]
    ∃ state es e, s.documents.snapshot? ⟨"a"⟩ = some (⟨0, text⟩, state) ∧
      bytes text.toList < 4294967296 ∧ (s.complete ⟨"a"⟩ ⟨1, 4⟩).2 = some es ∧
      (es.map (·.suggestion.label)).Nodup ∧ e ∈ es ∧ e.suggestion.label = "strstarts" ∧
      e.suggestion.replace = ⟨5, 9⟩ ∧ e.span = ⟨⟨1, 0⟩, ⟨1, 4⟩⟩ ∧
      e.Surrounds ((LineIndex.ofText text).offset ⟨1, 4⟩) text := by
  intro text s
  have hsize : bytes text.toList < 4294967296 := by decide
  have hopen : s.documents.snapshot? ⟨"a"⟩ =
      some (⟨0, text⟩, (parsed (Language.sparql.profile {}) text).1) := rfl
  have hoffered : (s.complete ⟨"a"⟩ ⟨1, 4⟩).2.any (·.any fun e =>
      e.suggestion.label = "strstarts" && e.suggestion.replace = ⟨5, 9⟩ &&
        e.span = ⟨⟨1, 0⟩, ⟨1, 4⟩⟩) = true := by
    decide +kernel
  obtain ⟨es, hes, hnodup, hsurrounds⟩ :=
    complete_surrounds .sparql _ ⟨"a"⟩ ⟨1, 4⟩ ⟨0, text⟩ _ hopen hsize
  have hes : (s.complete ⟨"a"⟩ ⟨1, 4⟩).2 = some es := hes
  rw [hes, Option.any_some, List.any_eq_true] at hoffered
  obtain ⟨e, he, hlabel⟩ := hoffered
  simp only [Bool.and_eq_true, decide_eq_true_eq] at hlabel
  exact ⟨_, es, e, hopen, hsize, hes, hnodup, he, hlabel.1.1, hlabel.1.2, hlabel.2,
    hsurrounds e he⟩

end GraphLanguages.Server
