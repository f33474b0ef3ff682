import GraphLanguages.Server.Answer
import GraphLanguages.Server.Method
import GraphLanguages.Rpc.Message
import GraphLanguages.Completion.Payload

/-! A connection: JSON-RPC messages routed to a session.

A connection starts with one request to connect and ends with a shutdown request and an
exit notification. Before the one, requests are told to wait; after the other, they are
invalid. Notifications that come at the wrong time, or make no sense, are dropped. -/
namespace GraphLanguages.Server
open Rpc Text

inductive Phase where
  | waiting
  | connected
  | shutDown
  | exited
deriving DecidableEq, Repr

structure Connection where
  session : Session
  phase : Phase := .waiting

/-- What a message brings about: a result, if it is one that gets any, and notifications
to the client. -/
structure Outcome where
  result : Option (Except Error Json) := none
  sent : List Json := []

namespace Outcome

def nothing : Outcome := {}

def fail (e : Error) : Outcome := { result := some (.error e) }

def answer (j : Json) : Outcome := { result := some (.ok j) }

def publish (p : Publication) : Outcome :=
  { sent := [notify "textDocument/publishDiagnostics" p.toJson] }

end Outcome

/-! ### Reading parameters -/

def uriOf? (params : Json) : Option Uri :=
  (params.get? "textDocument").bind fun document =>
    ((document.get? "uri").bind Json.string?).map Uri.mk

def positionOf? (params : Json) : Option Position :=
  (params.get? "position").bind fun p =>
    ((p.get? "line").bind Json.nat?).bind fun line =>
      ((p.get? "character").bind Json.nat?).map (Position.mk line)

def placeOf? (params : Json) : Option (Uri × Position) :=
  (uriOf? params).bind fun uri => (positionOf? params).map (uri, ·)

def textOf? (item : Json) : Option String :=
  (item.get? "text").bind Json.string?

def textsOf (params : Json) : List String :=
  (((params.get? "contentChanges").bind Json.array?).getD []).filterMap textOf?

namespace Connection

def forLanguage (language : Language) : Connection := { session := { language } }

/-! ### Services -/

/-- Runs a service; nothing if its parameters make no sense. -/
def serve? (s : Session) (params : Json) : Service → Option (Session × Outcome)
  | .connected => some (s, .nothing)
  | .openDocument =>
    (uriOf? params).bind fun uri =>
      ((params.get? "textDocument").bind textOf?).map fun text =>
        let (s, published) := s.setText uri text
        (s, .publish published)
  | .changeDocument =>
    (uriOf? params).map fun uri =>
      let (s, published) := s.change uri (textsOf params)
      (s, (published.map Outcome.publish).getD .nothing)
  | .closeDocument => (uriOf? params).map fun uri => (s.close uri, .nothing)
  | .updateData =>
    (Completion.Update.ofJson? params).map fun update => (s.updateData update, .nothing)
  | .complete =>
    (placeOf? params).map fun (uri, at_) =>
      let (s, edits) := s.complete uri at_
      (s, .answer (.ofOption (fun es => .array (es.map Session.Edit.toJson)) edits))
  | .hover =>
    (placeOf? params).map fun (uri, at_) =>
      let (s, found) := s.hover uri at_
      (s, .answer (.ofOption hoverJson found))
  | .fold =>
    (uriOf? params).map fun uri =>
      (s, .answer (.ofOption (fun rs => .array (rs.map regionJson)) (s.folding uri)))

/-- Parameters in their usual form, of a message that has any. -/
def readParams (shape : Shape) (m : Message) : Option Json :=
  m.params.bind fun params => shape.read? params

/-- A method of a connection that is open. -/
def dispatch (c : Connection) (m : Message) : Method → Connection × Outcome
  | .notification service shape =>
    if m.id.isSome then (c, .fail .invalidRequest)
    else
      match service.bind fun service =>
        (readParams shape m).bind fun params => serve? c.session params service with
      | some (session, outcome) => ({ c with session }, outcome)
      | none => (c, .nothing)
  | .request service shape =>
    if m.id.isNone then (c, .nothing)
    else
      match readParams shape m, service with
      | none, _ => (c, .fail .invalidParams)
      | some _, none => (c, .fail .unservedMethod)
      | some params, some service =>
        match serve? c.session params service with
        | some (session, outcome) => ({ c with session }, outcome)
        | none => (c, .fail .invalidParams)
  | .connect | .shutdown | .exit | .cancel => (c, .nothing)

/-! ### Routing -/

/-- A client connects once. -/
def connect (c : Connection) (m : Message) : Connection × Outcome :=
  if c.phase != .waiting then (c, .fail .invalidRequest)
  else if m.id.isNone then (c, .nothing)
  else
    match readParams connectParams m with
    | none => (c, .fail .invalidParams)
    | some params =>
      let options := Options.ofValue (params.get? "initializationOptions")
      let (session, introduction) := c.session.connect options
      ({ session, phase := .connected }, .answer introduction.toJson)

/-- Shutdown takes no parameters. Even a request that has some closes the connection. -/
def shutdown (c : Connection) (m : Message) : Connection × Outcome :=
  let c := { c with phase := .shutDown }
  if m.id.isNone then (c, .nothing)
  else if m.params.isSome then (c, .fail .invalidParams)
  else ({ c with session := c.session.requestShutdown }, .answer .null)

/-- A method that needs an open connection. -/
def whenConnected (c : Connection) (run : Connection × Outcome) : Connection × Outcome :=
  match c.phase with
  | .connected => run
  | .waiting => (c, .fail .notInitialized)
  | .shutDown | .exited => (c, .fail .invalidRequest)

def route (c : Connection) (m : Message) : Connection × Outcome :=
  match Method.ofName? m.method with
  | none => (c, .fail (.unknownMethod m.method))
  | some .connect => connect c m
  | some .shutdown => whenConnected c (shutdown c m)
  | some .exit => ({ c with phase := .exited }, .nothing)
  | some .cancel => (c, if m.id.isSome then .fail .invalidRequest else .nothing)
  | some method => whenConnected c (dispatch c m method)

/-- The answer to a message: its response, if it is a request, and notifications. -/
structure Reply where
  response : Option Json
  sent : List Json

inductive Refusal where
  /-- Not a message at all. -/
  | invalidRequest
  /-- The connection is over. -/
  | exited
deriving DecidableEq, Repr

/-- Takes a message in. Results of messages without an id go nowhere. -/
def receive (c : Connection) (j : Json) : Connection × Except Refusal Reply :=
  match Message.ofJson? j with
  | none => (c, .error .invalidRequest)
  | some m =>
    if c.phase == .exited then (c, .error .exited)
    else
      let (c, outcome) := route c m
      let response := m.id.bind fun id => outcome.result.map (Rpc.response id)
      (c, .ok { response, sent := outcome.sent })

end Connection

end GraphLanguages.Server
