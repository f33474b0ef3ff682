import GraphLanguages.Language
import GraphLanguages.Documents
import GraphLanguages.Hover
import GraphLanguages.Folding
import GraphLanguages.Completion.Items

/-! One server and what it has been told: the options of the client, the open documents
and the completion data. Every change of a document is parsed at once and its
diagnostics are published; requests answer from that parse. -/
namespace GraphLanguages.Server
open Completion Text

structure Session where
  language : Language
  /-- The profile the client asked for. -/
  chosen : Option Profile := none
  documents : Documents := {}
  data : Data := .empty
  shutdownRequested : Bool := false

/-- The diagnostics of a document, to be sent to the client. -/
structure Publication where
  uri : Uri
  diagnostics : List Diagnostic
deriving DecidableEq, Repr

/-- What a server says about itself when a client connects. -/
structure Introduction where
  triggers : List String
  serverName : String
deriving DecidableEq, Repr

/-- The tokens and the tree of a text, and its diagnostics. -/
def parsed (p : Profile) (text : String) : ParseState × List Diagnostic :=
  let output := p.frontend.parseDocument text.toList
  ({ tree := some output.tree, tokens := some output.tokens },
    output.diagnostics p.diagnostics text)

namespace Session

/-- Until a client has chosen, the usual grammar is spoken. -/
def profile (s : Session) : Profile :=
  s.chosen.getD (s.language.profile {})

def connect (s : Session) (options : Options) : Session × Introduction :=
  let p := s.language.profile options
  ({ s with chosen := some p }, ⟨p.completion.triggers, s.language.serverName⟩)

def requestShutdown (s : Session) : Session :=
  { s with shutdownRequested := true }

/-! ### Documents -/

/-- A document is opened, or has a new text. -/
def setText (s : Session) (uri : Uri) (text : String) : Session × Publication :=
  let (state, diagnostics) := parsed s.profile text
  ({ s with documents := s.documents.update uri text (some state) }, ⟨uri, diagnostics⟩)

/-- Every change holds the whole text, so only the last one counts. -/
def change (s : Session) (uri : Uri) (texts : List String) : Session × Option Publication :=
  match texts.getLast? with
  | some text =>
    let (s, published) := s.setText uri text
    (s, some published)
  | none => (s, none)

def close (s : Session) (uri : Uri) : Session :=
  { s with documents := s.documents.remove uri }

def updateData (s : Session) (update : Update) : Session :=
  { s with data := s.data.apply update }

/-! ### Requests -/

/-- The text of a document with its parse, which is made now if none is kept. -/
def withParse (s : Session) (uri : Uri) : Session × Option (String × ParseState) :=
  match s.documents.snapshot? uri with
  | none => (s, none)
  | some (handle, state) =>
    if state.isEmpty then
      let (state, _) := parsed s.profile handle.text
      ({ s with documents := s.documents.fill uri handle state }, some (handle.text, state))
    else (s, some (handle.text, state))

/-- A suggestion with the span it replaces. -/
structure Edit where
  suggestion : Suggestion
  span : Span
deriving DecidableEq, Repr

/-- The suggestions at a place of a text with a known parse. -/
def edits (p : Profile) (data : Data) (text : String) (tokens : List Token) (at_ : Position) :
    List Edit :=
  let index := LineIndex.ofText text
  (p.complete text.toList tokens (index.offset at_) data).map fun suggestion =>
    ⟨suggestion, index.span suggestion.replace.start suggestion.replace.stop⟩

/-- No answer for documents that are not open. -/
def complete (s : Session) (uri : Uri) (at_ : Position) : Session × Option (List Edit) :=
  let (s, found) := s.withParse uri
  (s, found.bind fun (text, state) =>
    state.tokens.map fun tokens => edits s.profile s.data text tokens at_)

/-- The rule at a place, with the span of all that it covers. -/
structure RuleSpan where
  rule : String
  span : Span
deriving DecidableEq, Repr

def ruleAt? (text : String) (tree : Tree) (at_ : Position) : Option RuleSpan :=
  let index := LineIndex.ofText text
  (tree.hover? (index.offset at_)).map fun h => ⟨h.rule, index.span h.start h.stop⟩

/-- No answer for documents that are not open, and an empty one between rules. -/
def hover (s : Session) (uri : Uri) (at_ : Position) : Session × Option (Option RuleSpan) :=
  let (s, found) := s.withParse uri
  (s, found.map fun (text, state) => state.tree.bind fun tree => ruleAt? text tree at_)

def folding (s : Session) (uri : Uri) : Option (List Folding.Region) :=
  (s.documents.snapshot? uri).map fun (handle, _) =>
    Folding.regions s.profile.declarationKeywords handle.text.toList

end Session

end GraphLanguages.Server
