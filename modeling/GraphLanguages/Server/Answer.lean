import GraphLanguages.Server.Session
import GraphLanguages.Json.Basic

/-! Answers of the server as the protocol writes them. -/
namespace GraphLanguages.Server
open Completion Text

def version : String := "0.3.0"

def positionJson (p : Position) : Json :=
  .ofMembers [("line", .nat p.line), ("character", .nat p.character)]

def spanJson (s : Span) : Json :=
  .ofMembers [("start", positionJson s.start), ("end", positionJson s.stop)]

/-- Documents are synchronised in full, which is kind 1. -/
def Introduction.toJson (i : Introduction) : Json :=
  .ofMembers
    [("capabilities", .ofMembers
      [("textDocumentSync", .nat 1),
       ("completionProvider",
        .ofMembers [("triggerCharacters", .array (i.triggers.map .string))]),
       ("hoverProvider", .bool true),
       ("foldingRangeProvider", .bool true)]),
     ("serverInfo",
      .ofMembers [("name", .string i.serverName), ("version", .string version)])]

/-- Every diagnostic is an error, which is severity 1. -/
def diagnosticJson (d : Diagnostic) : Json :=
  .ofPresent
    [("range", some (spanJson d.span)), ("severity", some (.nat 1)),
     ("source", d.source.map .string), ("message", some (.string d.message))]

def Publication.toJson (p : Publication) : Json :=
  .ofMembers
    [("uri", .string p.uri.text), ("diagnostics", .array (p.diagnostics.map diagnosticJson))]

namespace Session

def Edit.toJson (e : Edit) : Json :=
  let s := e.suggestion
  .ofPresent
    [("label", some (.string s.label)), ("kind", some (.nat s.kind.code)),
     ("detail", s.detail.map .string), ("sortText", s.sortText.map .string),
     ("filterText", s.filterText.map .string),
     ("textEdit", some (.ofMembers
       [("range", spanJson e.span), ("newText", .string s.newText)]))]

/-- A rule is shown as a block of code. -/
def RuleSpan.toJson (r : RuleSpan) : Json :=
  .ofMembers
    [("contents", .string ("```\n" ++ r.rule ++ "\n```")), ("range", spanJson r.span)]

end Session

/-- Between rules there is nothing to show. -/
def hoverJson : Option Session.RuleSpan → Json
  | some rule => rule.toJson
  | none => .ofMembers [("contents", .array [])]

def regionKindName : Folding.RegionKind → String
  | .declarations => "imports"
  | .indentation => "region"

def regionJson (r : Folding.Region) : Json :=
  .ofMembers
    [("startLine", .nat r.first), ("endLine", .nat r.last),
     ("kind", .string (regionKindName r.kind))]

end GraphLanguages.Server
