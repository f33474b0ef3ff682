import GraphLanguages.Vocabulary
import GraphLanguages.Text.AsciiCase

/-! Cutting text into tokens.

Skipped text comes first: at each place the longest match of a skip pattern is
dropped. Where none matches, every type of the vocabulary is tried and the longest
match wins, ties going to the type listed first. Text that matches nothing becomes
an unknown token: a run of alphanumeric characters and underscores, or else one
character. -/
namespace GraphLanguages

/-- A pattern prepared for matching. -/
inductive Matcher where
  | verbatim (chars : List Char)
  | spaced (words : List (List Char))
  | regex (regex : Text.Regex)
deriving DecidableEq, Repr

namespace Matcher

def ofPattern? : Pattern → Option Matcher
  | .literal text => some (.verbatim text.toList)
  | .keyword text => some (.spaced (Text.words text.toList))
  | .regex r => some (.regex r)
  | .custom | .anyOf _ => none

/-- Length of the words in a text, with at least one white space character before
each of them. -/
def spacedWords? : List (List Char) → List Char → Option Nat
  | [], _ => some 0
  | w :: ws, cs =>
    let gap := (cs.takeWhile Unicode.isSpace).length
    if gap = 0 then none
    else
      (Text.afterIgnoringCase? w (cs.drop gap)).bind fun rest =>
        (spacedWords? ws rest).map (gap + w.length + ·)

def words? : List (List Char) → List Char → Option Nat
  | [], _ => some 0
  | w :: ws, cs =>
    (Text.afterIgnoringCase? w cs).bind fun rest => (spacedWords? ws rest).map (w.length + ·)

/-- Number of characters matched at the start of a text. -/
def match? : Matcher → List Char → Option Nat
  | .verbatim chars, cs => if chars.isPrefixOf cs then some chars.length else none
  | .spaced ws, cs => words? ws cs
  | .regex r, cs => r.match? cs

end Matcher

structure Lexer where
  rules : List (TokenType × Matcher)
  skipped : List Text.Regex
  unknown : TokenType
deriving DecidableEq, Repr

namespace Lexer

def ofVocabulary (v : Vocabulary) (skipped : List Text.Regex) : Lexer where
  rules := v.types.filterMap fun t => (Matcher.ofPattern? t.pattern).map (t, ·)
  skipped := skipped
  unknown := (v.get? Vocabulary.unknownName).getD Vocabulary.unknownType

/-- Length of the text to skip. -/
def skipLength (lx : Lexer) (cs : List Char) : Nat :=
  lx.skipped.foldl (fun longest r => max longest ((r.match? cs).getD 0)) 0

/-- The longest match of a type, none of length zero. -/
def longest? (lx : Lexer) (cs : List Char) : Option (Nat × TokenType) :=
  lx.rules.foldl (fun best rule =>
    match rule.2.match? cs with
    | none => best
    | some n => if (best.elim 0 Prod.fst) < n then some (n, rule.1) else best) none

/-- Length of the text that an unknown token covers. -/
def unknownLength (cs : List Char) : Nat :=
  max 1 (cs.takeWhile fun c => Unicode.isAlphanumeric c || c = '_').length

/-- The token at the start of a text, and its number of characters. -/
def first (lx : Lexer) (cs : List Char) : Nat × TokenType :=
  (lx.longest? cs).getD (unknownLength cs, lx.unknown)

/-- Tokens of a text that begins at `offset`. Every step takes a character, so the
number of characters is fuel enough. -/
def tokensFrom (lx : Lexer) : (fuel : Nat) → (offset : Nat) → List Char → List Token
  | 0, _, _ => []
  | _, _, [] => []
  | fuel + 1, offset, c :: cs =>
    let text := c :: cs
    let skip := lx.skipLength text
    if 0 < skip then
      tokensFrom lx fuel (offset + Text.bytes (text.take skip)) (text.drop skip)
    else
      let (n, type) := lx.first text
      let image := text.take n
      Token.ofImage type (String.ofList image) offset ::
        tokensFrom lx fuel (offset + Text.bytes image) (text.drop n)

def tokenize (lx : Lexer) (cs : List Char) : List Token :=
  lx.tokensFrom cs.length 0 cs

end Lexer

end GraphLanguages
