import GraphLanguages.Grammar.Phrase

/-! Terminals and term rules that SPARQL, Turtle and TriG share. -/
namespace GraphLanguages.Rdf
open Text.Regex Grammar

/-! ### Terminals -/

def digit : Expr := charClass [.range '0' '9']

def hexDigit : Expr := charClass [.range '0' '9', .range 'A' 'F', .range 'a' 'f']

def asciiLetter : List Item := [.range 'a' 'z', .range 'A' 'Z']

/-- `(?:\p{L}(?:[\w.-]*[\w-])?)?:` -/
def namespacePart : Expr :=
  .seq
    (maybe (.seq (charClass [.letter])
      (maybe (.seq (.star (charClass [.word, just '.', just '-']))
        (charClass [.word, just '-'])))))
    (char ':')

def percentEscape : Expr := sequence [char '%', hexDigit, hexDigit]

def backslashEscape : Expr :=
  .seq (char '\\') (charClass (items "-_~.!$&'()*+,;=/?#@%"))

/-- A character of a local name, written as it is or escaped. -/
def localUnit (plain : List Item) : Expr :=
  oneOf (charClass plain) [percentEscape, backslashEscape]

def localPart : Expr :=
  .seq (localUnit [.word, just ':'])
    (maybe (.seq (.star (localUnit [.word, just '.', just ':', just '-']))
      (localUnit [.word, just ':', just '-'])))

def namespaceSource : String := "(?:\\p\x7bL\x7d(?:[\\w.-]*[\\w-])?)?:"

def localSource : String :=
  "(?:[\\w:]|%[0-9A-Fa-f]\x7b2\x7d|\\\\[-_~.!$&'()*+,;=/?#@%])" ++
  "(?:(?:[\\w.:-]|%[0-9A-Fa-f]\x7b2\x7d|\\\\[-_~.!$&'()*+,;=/?#@%])*" ++
  "(?:[\\w:-]|%[0-9A-Fa-f]\x7b2\x7d|\\\\[-_~.!$&'()*+,;=/?#@%]))?"

def iriRegex : Text.Regex where
  source := "^<[^<>\"\x7b\x7d|^`\\\\\\x00-\\x20]*>"
  expr := sequence [char '<',
    .star (exceptFor (items "<>\"\x7b\x7d|^`\\" ++ [.range '\x00' '\x20'])), char '>']

def prefixedNameRegex : Text.Regex where
  source := "^" ++ namespaceSource ++ localSource
  expr := .seq namespacePart localPart

def namespaceRegex : Text.Regex where
  source := "^" ++ namespaceSource
  expr := namespacePart

def blankNodeRegex : Text.Regex where
  source := "^_:\\w(?:[\\w.-]*[\\w-])?"
  expr := sequence [exactly "_:", charClass [.word],
    maybe (.seq (.star (charClass [.word, just '.', just '-'])) (charClass [.word, just '-']))]

/-- Brackets or parentheses with nothing but white space inside. -/
def hollow (opening closing : Char) : Expr :=
  sequence [char opening, .star (charClass (items " \t\r\n")), char closing]

def anonymousRegex : Text.Regex where
  source := "^\\[[ \\t\\r\\n]*\\]"
  expr := hollow '[' ']'

def languageTagRegex : Text.Regex where
  source := "^@[a-zA-Z]+(?:-[a-zA-Z0-9]+)*"
  expr := sequence [char '@', plus (charClass asciiLetter),
    .star (.seq (char '-') (plus (charClass (asciiLetter ++ [.range '0' '9']))))]

def sign : Expr := maybe (charClass (items "+-"))

def exponent : Expr := sequence [charClass (items "eE"), sign, plus digit]

/-- Numbers carry their sign where signs are no operators. -/
def signSource (signed : Bool) : String := if signed then "[+-]?" else ""

def withSign (signed : Bool) (e : Expr) : Expr := if signed then .seq sign e else e

def integerRegex (signed : Bool) : Text.Regex where
  source := "^" ++ signSource signed ++ "[0-9]+"
  expr := withSign signed (plus digit)

def decimalRegex (signed : Bool) : Text.Regex where
  source := "^" ++ signSource signed ++ "[0-9]*\\.[0-9]+"
  expr := withSign signed (sequence [.star digit, char '.', plus digit])

def doubleRegex (signed : Bool) : Text.Regex where
  source := "^" ++ signSource signed ++
    "(?:[0-9]+\\.[0-9]*[eE][+-]?[0-9]+|\\.?[0-9]+[eE][+-]?[0-9]+)"
  expr := withSign signed
    (.alt (sequence [plus digit, char '.', .star digit, exponent])
      (sequence [maybe (char '.'), plus digit, exponent]))

/-- A backslash with any character but a line feed. -/
def escapedInLine : Expr := .seq (char '\\') (exceptFor [just '\n'])

/-- A backslash with any character. -/
def escapedAnywhere : Expr := .seq (char '\\') (exceptFor [])

/-- A string on one line, between two quotes of one kind. -/
def shortString (quote : Char) : Expr :=
  sequence [char quote,
    .star (.alt (exceptFor [just quote, just '\\', just '\n', just '\r']) escapedInLine),
    char quote]

/-- A string over several lines, between three quotes on each side. -/
def longString (quote : Char) : Expr :=
  let three := sequence [char quote, char quote, char quote]
  sequence [three,
    .star (.seq (maybe (.alt (char quote) (.seq (char quote) (char quote))))
      (.alt (exceptFor [just quote, just '\\']) escapedAnywhere)),
    three]

def string1Regex : Text.Regex where
  source := "^'(?:[^'\\\\\\n\\r]|\\\\.)*'"
  expr := shortString '\''

def string2Regex : Text.Regex where
  source := "^\"(?:[^\"\\\\\\n\\r]|\\\\.)*\""
  expr := shortString '"'

def longString1Regex : Text.Regex where
  source := "^(?s)'''(?:(?:'|'')?(?:[^'\\\\]|\\\\.))*'''"
  expr := longString '\''

def longString2Regex : Text.Regex where
  source := "^(?s)\"\"\"(?:(?:\"|\"\")?(?:[^\"\\\\]|\\\\.))*\"\"\""
  expr := longString '"'

def spaceRegex : Text.Regex where
  source := "^\\s+"
  expr := plus (charClass [.space])

def commentRegex : Text.Regex where
  source := "^#[^\\r\\n]*"
  expr := .seq (char '#') (.star (exceptFor (items "\r\n")))

def skipped : List Text.Regex := [spaceRegex, commentRegex]

/-! ### Token types -/

/-- Literals that all carry one category. -/
def literals (category : Category) (table : List (String × String)) : List TokenType :=
  table.map fun entry => (TokenType.literal entry.1 entry.2).withCategories [category]

def punctuation : List TokenType :=
  literals .punctuator
    [("LCurly", "\x7b"), ("RCurly", "\x7d"), ("LParen", "("), ("RParen", ")"),
     ("LBracket", "["), ("RBracket", "]"), ("Period", "."), ("Semicolon", ";"),
     ("Comma", ","), ("DoubleCaret", "^^")]

def terms (signed : Bool) : List TokenType :=
  [((TokenType.regex "IRIREF" iriRegex).withCategories [.iri]).withLabel "<http://example.com>",
   ((TokenType.regex "PNAME_LN" prefixedNameRegex).withCategories
      [.prefixedName]).withLabel "foaf:name",
   ((TokenType.regex "PNAME_NS" namespaceRegex).withCategories
      [.prefixedName]).withLabel "foaf:",
   TokenType.regex "BLANK_NODE_LABEL" blankNodeRegex,
   TokenType.regex "ANON" anonymousRegex,
   TokenType.regex "LANGTAG" languageTagRegex,
   (TokenType.regex "INTEGER" (integerRegex signed)).withCategories [.literal],
   (TokenType.regex "DECIMAL" (decimalRegex signed)).withCategories [.literal],
   (TokenType.regex "DOUBLE" (doubleRegex signed)).withCategories [.literal],
   (TokenType.keyword "TRUE" "true").withCategories [.literal],
   (TokenType.keyword "FALSE" "false").withCategories [.literal],
   (TokenType.regex "STRING_LITERAL1" string1Regex).withCategories [.literal],
   (TokenType.regex "STRING_LITERAL2" string2Regex).withCategories [.literal],
   (TokenType.regex "STRING_LITERAL_LONG1" longString1Regex).withCategories [.literal],
   (TokenType.regex "STRING_LITERAL_LONG2" longString2Regex).withCategories [.literal]]

/-! ### Term rules -/

def strings : List String :=
  ["STRING_LITERAL1", "STRING_LITERAL2", "STRING_LITERAL_LONG1", "STRING_LITERAL_LONG2"]

def numbers : List String := ["INTEGER", "DECIMAL", "DOUBLE"]

def booleans : List String := ["TRUE", "FALSE"]

def iriStarts : List String := ["IRIREF", "PNAME_LN", "PNAME_NS"]

def literalStarts : List String := strings ++ numbers ++ booleans

def blankNodeStarts : List String := ["BLANK_NODE_LABEL", "ANON"]

def startsIri : Lookahead := .anyOf iriStarts

def startsLiteral : Lookahead := .anyOf literalStarts

def startsBlankNode : Lookahead := .anyOf blankNodeStarts

/-- The first type that comes next is taken. -/
def takeFirst (names : List String) : Phrase :=
  .cases (names.map fun name => (.is name, .take)) (.reject (.expectedOneOf names))

def prefixedName : Phrase :=
  .node "PrefixedName" (takeFirst ["PNAME_LN", "PNAME_NS"])

def iri : Phrase :=
  .node "iri"
    (.cases [(.is "IRIREF", .take), (.anyOf ["PNAME_LN", "PNAME_NS"], prefixedName)]
      (.reject (.expectedOneOf iriStarts)))

def blankNode : Phrase :=
  .node "BlankNode" (takeFirst blankNodeStarts)

def string : Phrase :=
  .node "String" (.expectOneOf strings)

def stringLiteral : Phrase :=
  .node "RDFLiteral"
    (.seq string
      (.cases [(.is "LANGTAG", .take), (.is "DoubleCaret", .seq .take iri)] .empty))

def literal : Phrase :=
  .cases
    [(.anyOf strings, stringLiteral),
     (.anyOf numbers, .node "NumericLiteral" .take),
     (.anyOf booleans, .node "BooleanLiteral" .take)]
    (.reject (.expectedOneOf literalStarts))

end GraphLanguages.Rdf
