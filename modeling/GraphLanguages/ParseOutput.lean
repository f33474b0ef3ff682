import GraphLanguages.Text.Escape
import GraphLanguages.Tree
import GraphLanguages.SyntaxError

/-! What a parse hands on, and the way back to the raw text.

A language that decodes escapes works on the decoded text, so its offsets are
those of the decoded text until every token is moved to where it is written. -/
namespace GraphLanguages

/-- The token at its place in the raw text, with the raw text it covers. -/
def Token.toRaw (escapes : Text.EscapeMap) (raw : List Char) (t : Token) : Token :=
  if escapes.isEmpty then t
  else
    let start := escapes.toRaw t.start
    if t.image.isEmpty then { t with start, last := start }
    else
      let stop := escapes.toRaw t.stop
      let image := match Text.slice? start stop raw with
        | some cs => String.ofList cs
        | none => t.image
      { t with image, start, last := max (stop - 1) start }

structure ParseOutput where
  tree : Tree
  /-- Without the sentinel. -/
  tokens : List Token
  errors : List SyntaxError
  /-- Found by checks of the language after parsing. -/
  semantic : List SyntaxError
  /-- The escapes that offsets still have to be moved over. -/
  escapes : Option Text.EscapeMap
deriving Repr

namespace ParseOutput

/-- The sentinel goes to the end of the raw text, every other token to its place. -/
def errorToRaw (escapes : Text.EscapeMap) (raw : List Char) (e : SyntaxError) : SyntaxError :=
  let size := Text.bytes raw
  { e with
    token :=
      if e.token.isEndOfInput then { e.token with start := size, last := size }
      else e.token.toRaw escapes raw
    previous := e.previous.map (Token.toRaw escapes raw) }

/-- The same parse in raw coordinates. -/
def toRaw (o : ParseOutput) (raw : List Char) : ParseOutput :=
  match o.escapes with
  | none => o
  | some escapes =>
    { tree := o.tree.mapTokens (Token.toRaw escapes raw)
      tokens := o.tokens.map (Token.toRaw escapes raw)
      errors := o.errors.map (errorToRaw escapes raw)
      semantic := o.semantic.map (errorToRaw escapes raw)
      escapes := none }

end ParseOutput

end GraphLanguages
