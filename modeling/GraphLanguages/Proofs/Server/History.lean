import Mathlib.Data.List.Induction
import GraphLanguages.Proofs.Server.Calls

/-! What a session replies, from its history alone.

The text that a document was given last, the profile that a client chose and the data it
sent can be read off the calls so far. A session keeps all three (`Faithful`), together
with the parse of every text, so it replies what is computed from scratch from them
(`perform_eq_fromScratch`), however long documents were open and whatever happened to
others. -/
namespace GraphLanguages.Server
open Completion Text

namespace Call

def options? : Call → Option Options
  | .connect options => some options
  | _ => none

def update? : Call → Option Update
  | .updateData update => some update
  | _ => none

/-- What the call says about the text of a document, if anything: a text, or that there
is none any more. -/
def tells? (uri : Uri) : Call → Option (Option String)
  | .openDocument u text => if u = uri then some (some text) else none
  | .change u texts => if u = uri then texts.getLast?.map some else none
  | .close u => if u = uri then some none else none
  | _ => none

def isAboutText : Call → Bool
  | .openDocument .. | .change .. | .close _ => true
  | _ => false

/-- The document that the call is about. -/
def uri? : Call → Option Uri
  | .openDocument uri _ | .change uri _ | .close uri | .complete uri _ | .hover uri _ | .fold uri =>
    some uri
  | .connect _ | .updateData _ => none

/-- May the call matter to later ones about the document? -/
def bearsOn (uri : Uri) (call : Call) : Bool :=
  call.options?.isSome || call.update?.isSome || (call.isAboutText && call.uri? == some uri)

end Call

/-! ### The history of a session -/

/-- A client connects at most once, and before it tells of any document. -/
def Orderly (calls : List Call) : Prop :=
  calls.Pairwise fun earlier later =>
    later.options?.isSome → earlier.options? = none ∧ earlier.isAboutText = false

instance (calls : List Call) : Decidable (Orderly calls) :=
  inferInstanceAs (Decidable (calls.Pairwise _))

/-- The text that a document was given last, unless it was closed since. -/
def lastText? (uri : Uri) (calls : List Call) : Option String :=
  (calls.reverse.findSome? (Call.tells? uri)).join

/-- The profile that the client chose, or the usual one. -/
def chosenProfile (l : Language) (calls : List Call) : Profile :=
  l.profile ((calls.findSome? Call.options?).getD {})

/-- The completion data after all updates, in order. -/
def collectedData (calls : List Call) : Data :=
  (calls.filterMap Call.update?).foldl Data.apply .empty

/-- The reply to a call after some calls, computed without a session. -/
def fromScratch (l : Language) (calls : List Call) (call : Call) : Reply :=
  let p := chosenProfile l calls
  let parse (text : String) := p.frontend.parseDocument text.toList
  match call with
  | .connect options =>
    { answer := .introduction ⟨(l.profile options).completion.triggers, l.serverName⟩ }
  | .openDocument uri text => { published := [⟨uri, p.diagnose text⟩] }
  | .change uri texts =>
    { published := (texts.getLast?.map fun text => ⟨uri, p.diagnose text⟩).toList }
  | .close _ | .updateData _ => {}
  | .complete uri at_ =>
    { answer := .edits ((lastText? uri calls).map fun text =>
        Session.edits p (collectedData calls) text (parse text).tokens at_) }
  | .hover uri at_ =>
    { answer := .rule ((lastText? uri calls).map fun text =>
        Session.ruleAt? text (parse text).tree at_) }
  | .fold uri =>
    { answer := .regions ((lastText? uri calls).map fun text =>
        Folding.regions p.declarationKeywords text.toList) }

section
variable {l : Language} {calls : List Call} {call : Call} {uri : Uri}

theorem lastText?_concat :
    lastText? uri (calls ++ [call]) = ((call.tells? uri).getD (lastText? uri calls)) := by
  simp only [lastText?, List.reverse_append, List.reverse_singleton, List.singleton_append,
    List.findSome?_cons]
  cases call.tells? uri <;> rfl

theorem collectedData_concat :
    collectedData (calls ++ [call]) =
      (call.update?.map (collectedData calls).apply).getD (collectedData calls) := by
  simp only [collectedData, List.filterMap_append, List.foldl_append]
  cases h : call.update? <;> simp [h]

theorem chosenProfile_concat (h : call.options? = none) :
    chosenProfile l (calls ++ [call]) = chosenProfile l calls := by
  simp [chosenProfile, List.findSome?_append, h]

theorem tells?_of_not_about (h : call.isAboutText = false) : call.tells? uri = none := by
  cases call <;> first | rfl | cases h

namespace Orderly

theorem init (h : Orderly (calls ++ [call])) : Orderly calls :=
  (List.pairwise_append.mp h).1

theorem before (h : Orderly (calls ++ [call])) (hc : call.options?.isSome) :
    ∀ c ∈ calls, c.options? = none ∧ c.isAboutText = false := fun c hm =>
  (List.pairwise_append.mp h).2.2 c hm call (List.mem_singleton_self _) hc

theorem filter (h : Orderly (calls ++ [call])) (p : Call → Bool) :
    Orderly (calls.filter p ++ [call]) :=
  h.sublist (List.filter_sublist.append (List.Sublist.refl _))

end Orderly

theorem lastText?_eq_none (h : ∀ c ∈ calls, c.isAboutText = false) :
    lastText? uri calls = none := by
  have : calls.reverse.findSome? (Call.tells? uri) = none :=
    List.findSome?_eq_none_iff.mpr fun c hc => tells?_of_not_about (h c (List.mem_reverse.mp hc))
  simp [lastText?, this]

end

/-! ### What a session keeps of it -/

/-- The session is that of the language after the calls, as far as replies tell. -/
structure Faithful (l : Language) (calls : List Call) (s : Session) : Prop where
  language : s.language = l
  profile : s.profile = chosenProfile l calls
  data : s.data = collectedData calls
  /-- Documents have their last texts, and the parses of these. -/
  texts : ∀ uri, (s.documents.snapshot? uri).map (fun found => (found.1.text, found.2)) =
    (lastText? uri calls).map fun text => (text, (parsed (chosenProfile l calls) text).1)

namespace Faithful
variable {l : Language} {calls : List Call} {s : Session} {call : Call}

theorem start (l : Language) : Faithful l [] { language := l } :=
  ⟨rfl, rfl, rfl, fun _ => rfl⟩

/-- The parse of a document is the kept one, so reading it changes nothing. -/
theorem withParse (h : Faithful l calls s) (uri : Uri) :
    s.withParse uri = (s, (lastText? uri calls).map fun text =>
      (text, (parsed (chosenProfile l calls) text).1)) := by
  have htext := h.texts uri
  unfold Session.withParse
  cases hs : s.documents.snapshot? uri with
  | none =>
    rw [hs] at htext
    rw [← htext]
    rfl
  | some found =>
    obtain ⟨handle, state⟩ := found
    rw [hs] at htext
    have hlast : (lastText? uri calls).map (fun text =>
        (text, (parsed (chosenProfile l calls) text).1)) = some (handle.text, state) := htext.symm
    have hkept : state.isEmpty = false := by
      obtain ⟨text, -, heq⟩ := Option.map_eq_some_iff.mp hlast
      rw [← (Prod.mk.inj heq).2]
      rfl
    simp only [hlast, hkept, Bool.false_eq_true, if_false]

/-- The reply is the one computed from scratch. -/
theorem reply (h : Faithful l calls s) (call : Call) :
    (s.perform call).2 = fromScratch l calls call := by
  cases call with
  | connect options => simp only [Session.perform, Session.connect, fromScratch, h.language]
  | openDocument uri text =>
    simp only [Session.perform, Session.setText, fromScratch, h.profile]
    rfl
  | change uri texts =>
    simp only [Session.perform, Session.change, fromScratch]
    cases texts.getLast? with
    | none => rfl
    | some text =>
      simp only [Session.setText, h.profile]
      rfl
  | close | updateData => rfl
  | complete uri at_ =>
    simp only [Session.perform, Session.complete, h.withParse, fromScratch]
    cases lastText? uri calls with
    | none => rfl
    | some text =>
      simp only [Option.map_some, Option.bind_some, parsed, h.profile, h.data]
  | hover uri at_ =>
    simp only [Session.perform, Session.hover, h.withParse, fromScratch]
    cases lastText? uri calls <;> rfl
  | fold uri =>
    have htext := congrArg (Option.map Prod.fst) (h.texts uri)
    simp only [Option.map_map] at htext
    simp only [Session.perform, Session.folding, fromScratch, h.profile]
    cases hs : s.documents.snapshot? uri <;> cases hl : lastText? uri calls <;>
      simp_all

/-- A call that is no connection keeps what was chosen and adds its data, so a session is
faithful behind it if every document is as the call tells. -/
theorem next (h : Faithful l calls s) {s' : Session} (hl : s'.language = s.language)
    (hp : s'.profile = s.profile) (hdata : s'.data = (call.update?.map s.data.apply).getD s.data)
    (ho : call.options? = none)
    (htexts : ∀ uri, (s'.documents.snapshot? uri).map (fun found => (found.1.text, found.2)) =
      ((call.tells? uri).getD (lastText? uri calls)).map fun text =>
        (text, (parsed (chosenProfile l calls) text).1)) : Faithful l (calls ++ [call]) s' where
  language := hl.trans h.language
  profile := by rw [chosenProfile_concat ho, hp, h.profile]
  data := by rw [collectedData_concat, hdata, h.data]
  texts uri := by
    rw [chosenProfile_concat ho, lastText?_concat]
    exact htexts uri

/-- A document that is given a text has it, with its parse; the others are as before. -/
theorem setText (h : Faithful l calls s) {uri : Uri} {text : String}
    (ho : call.options? = none) (hu : call.update? = none)
    (ht : ∀ other, call.tells? other = if uri = other then some (some text) else none) :
    Faithful l (calls ++ [call]) (s.setText uri text).1 := by
  refine h.next rfl rfl (by rw [hu]; rfl) ho fun other => ?_
  rw [ht]
  simp only [Session.setText]
  by_cases he : uri = other
  · subst he
    rw [Documents.snapshot?_update_self, h.profile]
    simp
  · rw [Documents.snapshot?_update_of_ne (Ne.symm he), h.texts other]
    simp [he]

/-- A call that tells nothing of a text leaves the documents as they are. -/
theorem of_documents (h : Faithful l calls s) {s' : Session} (hl : s'.language = s.language)
    (hp : s'.profile = s.profile) (hd : s'.documents = s.documents)
    (hdata : s'.data = (call.update?.map s.data.apply).getD s.data)
    (ho : call.options? = none) (ht : ∀ uri, call.tells? uri = none) :
    Faithful l (calls ++ [call]) s' :=
  h.next hl hp hdata ho fun uri => by
    rw [ht, hd]
    exact h.texts uri

/-- A document that is closed is gone; the others are as before. -/
theorem close (h : Faithful l calls s) (uri : Uri) :
    Faithful l (calls ++ [.close uri]) (s.perform (.close uri)).1 := by
  refine h.next rfl rfl rfl rfl fun other => ?_
  simp only [Session.perform, Session.close, Call.tells?]
  by_cases he : uri = other
  · subst he
    rw [Documents.snapshot?_remove_self]
    simp
  · rw [Documents.snapshot?_remove_of_ne (Ne.symm he), h.texts other]
    simp [he]

/-- The one connection comes before any text, so no parse is one of another profile. -/
theorem connect (h : Faithful l calls s) {options : Options}
    (horder : Orderly (calls ++ [.connect options])) :
    Faithful l (calls ++ [.connect options]) (s.perform (.connect options)).1 := by
  have hbefore := horder.before rfl
  have hnone : calls.findSome? Call.options? = none :=
    List.findSome?_eq_none_iff.mpr fun c hc => (hbefore c hc).1
  have hprofile : chosenProfile l (calls ++ [.connect options]) = l.profile options := by
    simp [chosenProfile, List.findSome?_append, hnone, Call.options?]
  have htext : ∀ uri, lastText? uri calls = none := fun uri =>
    lastText?_eq_none fun c hc => (hbefore c hc).2
  refine ⟨h.language, ?_, ?_, fun uri => ?_⟩
  · rw [hprofile, ← h.language]
    rfl
  · rw [collectedData_concat]
    exact h.data
  · have hs := h.texts uri
    rw [htext] at hs
    rw [lastText?_concat, tells?_of_not_about rfl, Option.getD_none, htext]
    exact hs

/-- Every call keeps a session faithful to its history. -/
theorem perform (h : Faithful l calls s) (horder : Orderly (calls ++ [call])) :
    Faithful l (calls ++ [call]) (s.perform call).1 := by
  cases call with
  | connect options => exact h.connect horder
  | openDocument uri text => exact h.setText rfl rfl fun other => rfl
  | change uri texts =>
    simp only [Session.perform, Session.change]
    cases hlast : texts.getLast? with
    | none => exact h.of_documents rfl rfl rfl rfl rfl fun other => by simp [Call.tells?, hlast]
    | some text => exact h.setText rfl rfl fun other => by simp [Call.tells?, hlast]
  | close uri => exact h.close uri
  | updateData update => exact h.of_documents rfl rfl rfl rfl rfl fun _ => rfl
  | complete uri at_ =>
    have hs : (s.perform (.complete uri at_)).1 = s := by
      simp only [Session.perform, Session.complete, h.withParse]
    rw [hs]
    exact h.of_documents rfl rfl rfl rfl rfl fun _ => rfl
  | hover uri at_ =>
    have hs : (s.perform (.hover uri at_)).1 = s := by
      simp only [Session.perform, Session.hover, h.withParse]
    rw [hs]
    exact h.of_documents rfl rfl rfl rfl rfl fun _ => rfl
  | fold uri => exact h.of_documents rfl rfl rfl rfl rfl fun _ => rfl

end Faithful

theorem faithful_after (l : Language) {calls : List Call} (h : Orderly calls) :
    Faithful l calls (Session.after l calls) := by
  induction calls using List.reverseRecOn with
  | nil => exact .start l
  | append_singleton calls call ih =>
    rw [Session.after_concat]
    exact (ih h.init).perform h

/-! ### Other documents -/

section
variable {l : Language} {calls : List Call} {uri : Uri}

theorem lastText?_filter :
    lastText? uri (calls.filter (Call.bearsOn uri)) = lastText? uri calls := by
  induction calls using List.reverseRecOn with
  | nil => rfl
  | append_singleton calls call ih =>
    rw [List.filter_append, lastText?_concat]
    cases hb : call.bearsOn uri with
    | true =>
      rw [List.filter_cons_of_pos hb, List.filter_nil, lastText?_concat, ih]
    | false =>
      have : call.tells? uri = none := by
        cases call <;> simp_all [Call.bearsOn, Call.tells?, Call.isAboutText, Call.uri?]
      rw [List.filter_cons_of_neg (by simp [hb]), List.filter_nil, List.append_nil, ih, this]
      rfl

theorem chosenProfile_filter :
    chosenProfile l (calls.filter (Call.bearsOn uri)) = chosenProfile l calls := by
  have : (calls.filter (Call.bearsOn uri)).findSome? Call.options? =
      calls.findSome? Call.options? := by
    induction calls with
    | nil => rfl
    | cons call calls ih =>
      cases ho : call.options? with
      | some options => simp [Call.bearsOn, ho]
      | none =>
        rw [List.filter_cons]
        split <;> simp [ho, ih]
  rw [chosenProfile, this, chosenProfile]

theorem collectedData_filter :
    collectedData (calls.filter (Call.bearsOn uri)) = collectedData calls := by
  have : (calls.filter (Call.bearsOn uri)).filterMap Call.update? =
      calls.filterMap Call.update? := by
    rw [List.filterMap_filter]
    congr 1
    funext call
    cases hu : call.update? <;> simp [Call.bearsOn, hu]
  rw [collectedData, this, collectedData]

/-- Calls about other documents, and requests, do not matter to a reply. -/
theorem fromScratch_filter (call : Call) (h : call.uri? = some uri) :
    fromScratch l (calls.filter (Call.bearsOn uri)) call = fromScratch l calls call := by
  cases call <;> cases h <;>
    simp only [fromScratch, lastText?_filter, chosenProfile_filter, collectedData_filter]

end

/-- **After any history a session replies what is computed from scratch from the last text
of the document, the profile and the data, and no call about another document matters.** -/
theorem perform_eq_fromScratch (l : Language) (calls : List Call) (call : Call)
    (h : Orderly (calls ++ [call])) :
    ((Session.after l calls).perform call).2 = fromScratch l calls call ∧
      ∀ uri ∈ call.uri?,
        ((Session.after l (calls.filter (Call.bearsOn uri))).perform call).2 =
          ((Session.after l calls).perform call).2 := by
  have hreply := (faithful_after l h.init).reply call
  refine ⟨hreply, fun uri huri => ?_⟩
  rw [hreply, (faithful_after l (h.filter _).init).reply call, fromScratch_filter call huri]

/-- A document that was opened and changed, next to one that was closed again. -/
theorem perform_eq_fromScratch_changed :
    let calls : List Call :=
      [.connect {}, .openDocument ⟨"a"⟩ "<s>", .openDocument ⟨"b"⟩ "", .hover ⟨"a"⟩ ⟨0, 1⟩,
        .change ⟨"a"⟩ ["", "@base <a> ."], .close ⟨"b"⟩]
    Orderly (calls ++ [.hover ⟨"a"⟩ ⟨0, 1⟩]) ∧
      ((Session.after .turtle calls).perform (.hover ⟨"a"⟩ ⟨0, 1⟩)).2 =
        { answer := .rule (some (some ⟨"base", ⟨0, 0⟩, ⟨0, 11⟩⟩)) } := by
  intro calls
  have h : Orderly (calls ++ [.hover ⟨"a"⟩ ⟨0, 1⟩]) := by decide
  exact ⟨h, (perform_eq_fromScratch .turtle calls _ h).1.trans (by decide +kernel)⟩

end GraphLanguages.Server
