import GraphLanguages.Lexer
import GraphLanguages.Grammar.Run
import GraphLanguages.ParseOutput

/-! The front-end of a language: its lexer and its grammar, put together. -/
namespace GraphLanguages

structure Frontend where
  vocabulary : Vocabulary
  /-- Patterns of text between tokens. -/
  skipped : List Text.Regex
  grammar : Grammar
  /-- Name of the root of every tree. -/
  root : String
  /-- Are codepoint escapes decoded before the text is cut into tokens? -/
  decodesEscapes : Bool := false
  /-- A check of the tokens that parsing does not cover. -/
  check : List Token → List SyntaxError := fun _ => []

namespace Frontend

def lexer (f : Frontend) : Lexer :=
  Lexer.ofVocabulary f.vocabulary f.skipped

/-- The text that is cut into tokens. -/
def decode (f : Frontend) (raw : List Char) : Text.Unescaped :=
  if f.decodesEscapes then Text.unescape raw else ⟨raw, ⟨[]⟩⟩

/-- Offsets are those of the decoded text. -/
def parse (f : Frontend) (raw : List Char) : ParseOutput :=
  let decoded := f.decode raw
  let tokens := f.lexer.tokenize decoded.text
  let (tree, error) :=
    f.grammar.parse f.vocabulary f.root (Text.bytes decoded.text) tokens
  { tree, tokens, errors := error.toList, semantic := f.check tokens
    escapes := if decoded.escapes.isEmpty then none else some decoded.escapes }

/-- The parse of a document, in coordinates of the document. -/
def parseDocument (f : Frontend) (raw : List Char) : ParseOutput :=
  (f.parse raw).toRaw raw

/-- What could come after some tokens, below a root of the given name. -/
def assist (f : Frontend) (root : String) (tokens : List Token) : List Grammar.Candidate :=
  f.grammar.assist f.vocabulary root tokens

end Frontend

end GraphLanguages
