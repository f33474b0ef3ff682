import GraphLanguages.ParseOutput
import GraphLanguages.Text.LineIndex

/-! Diagnostics of a document: text that matched nothing, syntax errors and what the
checks after parsing found, in this order. An empty document has none. -/
namespace GraphLanguages

structure Diagnostic where
  span : Text.Span
  message : String
  source : Option String
deriving DecidableEq, Repr

/-- The rule in which an error was found. -/
def SyntaxError.innermost? (e : SyntaxError) : Option String :=
  e.rules.getLast?

structure DiagnosticSettings where
  /-- Is every unknown token reported? -/
  reportsUnknown : Bool := false
  source : SyntaxError → Option String := SyntaxError.innermost?

/-- What an error marks in a text of `size` bytes. At the end of input it is the place
behind the token before, where the error names one, else the end of the text. -/
def SyntaxError.span (e : SyntaxError) (size : Nat) : Nat × Nat :=
  if e.token.isEndOfInput then
    let at_ := (e.previous.map fun t => min t.stop size).getD size
    (at_, at_)
  else
    let start := min e.token.start size
    (start, max (min e.token.stop size) start)

namespace Diagnostic

def unknownMessage : String := "Unknown token"

def ofUnknown (index : Text.LineIndex) (t : Token) : Diagnostic where
  span := index.span t.start t.stop
  message := unknownMessage
  source := none

def ofError (index : Text.LineIndex) (settings : DiagnosticSettings) (e : SyntaxError) :
    Diagnostic :=
  let (start, stop) := e.span index.size
  { span := index.span start stop, message := e.message, source := settings.source e }

end Diagnostic

def ParseOutput.diagnostics (o : ParseOutput) (settings : DiagnosticSettings)
    (text : String) : List Diagnostic :=
  if text.isEmpty then []
  else
    let index := Text.LineIndex.ofText text
    let unknown :=
      if settings.reportsUnknown then o.tokens.filter fun t => t.has .unknown else []
    unknown.map (Diagnostic.ofUnknown index) ++
      (o.errors ++ o.semantic).map (Diagnostic.ofError index settings)

end GraphLanguages
