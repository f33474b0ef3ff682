import GraphLanguages.Proofs.Documents
import GraphLanguages.Server.Connection

/-! Calls of a session, one after the other.

A call is performed by the function of the session that serves it, and brings a reply:
an answer, if it is a request, and what is published. A connection serves a message by
performing the call that its parameters spell out (`serve?_eq_perform`). -/
namespace GraphLanguages.Server
open Completion Text

/-- What a client may ask of a session, or tell it. -/
inductive Call where
  | connect (options : Options)
  | openDocument (uri : Uri) (text : String)
  /-- Every change holds a whole text. -/
  | change (uri : Uri) (texts : List String)
  | close (uri : Uri)
  | updateData (update : Update)
  | complete (uri : Uri) (at_ : Position)
  | hover (uri : Uri) (at_ : Position)
  | fold (uri : Uri)

inductive Answer where
  /-- Notifications have none. -/
  | nothing
  | introduction (i : Introduction)
  | edits (found : Option (List Session.Edit))
  | rule (found : Option (Option Session.RuleSpan))
  | regions (found : Option (List Folding.Region))
deriving DecidableEq

structure Reply where
  answer : Answer := .nothing
  published : List Publication := []
deriving DecidableEq

namespace Session

def perform (s : Session) : Call → Session × Reply
  | .connect options => ((s.connect options).1, { answer := .introduction (s.connect options).2 })
  | .openDocument uri text =>
    ((s.setText uri text).1, { published := [(s.setText uri text).2] })
  | .change uri texts =>
    ((s.change uri texts).1, { published := (s.change uri texts).2.toList })
  | .close uri => (s.close uri, {})
  | .updateData update => (s.updateData update, {})
  | .complete uri at_ => ((s.complete uri at_).1, { answer := .edits (s.complete uri at_).2 })
  | .hover uri at_ => ((s.hover uri at_).1, { answer := .rule (s.hover uri at_).2 })
  | .fold uri => (s, { answer := .regions (s.folding uri) })

/-- A server of a language after some calls. -/
def after (l : Language) (calls : List Call) : Session :=
  calls.foldl (fun s call => (s.perform call).1) { language := l }

theorem after_concat (l : Language) (calls : List Call) (call : Call) :
    after l (calls ++ [call]) = ((after l calls).perform call).1 := by
  simp [after]

end Session

/-! ### Calls in messages -/

/-- The call that parameters spell out for a service. -/
def Call.ofParams? (params : Json) : Service → Option Call
  | .connected => none
  | .openDocument =>
    (uriOf? params).bind fun uri =>
      ((params.get? "textDocument").bind textOf?).map (.openDocument uri)
  | .changeDocument => (uriOf? params).map fun uri => .change uri (textsOf params)
  | .closeDocument => (uriOf? params).map .close
  | .updateData => (Update.ofJson? params).map .updateData
  | .complete => (placeOf? params).map fun place => .complete place.1 place.2
  | .hover => (placeOf? params).map fun place => .hover place.1 place.2
  | .fold => (uriOf? params).map .fold

def Answer.result : Answer → Option (Except Rpc.Error Json)
  | .nothing => none
  | .introduction i => some (.ok i.toJson)
  | .edits found => some (.ok (.ofOption (fun es => .array (es.map Session.Edit.toJson)) found))
  | .rule found => some (.ok (.ofOption hoverJson found))
  | .regions found => some (.ok (.ofOption (fun rs => .array (rs.map regionJson)) found))

/-- The reply as the protocol writes it. -/
def Reply.outcome (r : Reply) : Outcome where
  result := r.answer.result
  sent := r.published.flatMap fun p => (Outcome.publish p).sent

/-- A connection serves a message by performing the call in it. -/
theorem serve?_eq_perform (s : Session) (params : Json) {service : Service}
    (h : service ≠ .connected) :
    Connection.serve? s params service = (Call.ofParams? params service).map fun call =>
      ((s.perform call).1, (s.perform call).2.outcome) := by
  cases service with
  | connected => exact absurd rfl h
  | openDocument =>
    simp only [Connection.serve?, Call.ofParams?]
    cases uriOf? params with
    | none => rfl
    | some uri => cases (params.get? "textDocument").bind textOf? <;> rfl
  | changeDocument =>
    simp only [Connection.serve?, Call.ofParams?]
    cases uriOf? params with
    | none => rfl
    | some uri =>
      simp only [Option.map_some, Session.perform, Session.change]
      cases (textsOf params).getLast? <;> rfl
  | closeDocument | fold =>
    simp only [Connection.serve?, Call.ofParams?]
    cases uriOf? params <;> rfl
  | updateData =>
    simp only [Connection.serve?, Call.ofParams?]
    cases Update.ofJson? params <;> rfl
  | complete | hover =>
    simp only [Connection.serve?, Call.ofParams?]
    cases placeOf? params <;> rfl

end GraphLanguages.Server
