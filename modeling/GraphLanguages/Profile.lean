import GraphLanguages.Frontend
import GraphLanguages.Diagnostics
import GraphLanguages.Completion.Context

/-! Profiles: all that a server has to know about one language. -/
namespace GraphLanguages

structure Profile where
  /-- How editors call the language. -/
  language : String
  frontend : Frontend
  completion : Completion.Settings := {}
  diagnostics : DiagnosticSettings := {}
  augment : Completion.Context → Completion.Augmentation := fun _ => {}
  /-- Keywords at the start of lines that fold together. -/
  declarationKeywords : List String := []

/-- The diagnostics of a text in this language. -/
def Profile.diagnose (p : Profile) (text : String) : List Diagnostic :=
  (p.frontend.parseDocument text.toList).diagnostics p.diagnostics text

end GraphLanguages
