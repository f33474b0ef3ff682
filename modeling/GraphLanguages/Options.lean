import GraphLanguages.Json.Basic
import GraphLanguages.Text.AsciiCase

/-! What a client may set when it connects. Options that make no sense are taken as the
defaults. -/
namespace GraphLanguages

structure Options where
  /-- The grammar a client wants instead of the usual one. -/
  grammar : Option String := none
deriving DecidableEq, Repr

namespace Options

/-- Absent and null mean no grammar; anything but a string makes no sense. -/
def ofGrammar? : Option Json → Option Options
  | none | some .null => some {}
  | some (.string name) => some ⟨some name⟩
  | some _ => none

/-- Options are an object, or the list of their values. -/
def ofJson? : Json → Option Options
  | .object members => ofGrammar? (members.lookup "grammar")
  | .array [] => some {}
  | .array [value] => ofGrammar? (some value)
  | _ => none

def ofValue (value : Option Json) : Options :=
  (value.bind ofJson?).getD {}

/-- Is a grammar wanted, whatever the case of its name? -/
def wants (o : Options) (name : String) : Bool :=
  o.grammar.any fun g => Text.sameIgnoringCase g.toList name.toList

end Options

end GraphLanguages
