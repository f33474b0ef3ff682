import GraphLanguages.Text.Regex
import GraphLanguages.Text.Blank
import GraphLanguages.Text.Bytes
import GraphLanguages.Text.Quoted
import GraphLanguages.Unicode.Alphanumeric

/-! Tokens and their types.

A token type names one kind of lexeme, says how it is recognised and carries
categories, which grammars test when any of several types will do. A token is one
occurrence of its type in a text. -/
namespace GraphLanguages

inductive Category where
  /-- Text that matches nothing. -/
  | unknown
  /-- The sentinel behind the last token. -/
  | endOfInput
  | keyword
  | punctuator
  | name
  | variable
  | iri
  | prefixedName
  | literal
  | builtInCall
  | directive
deriving DecidableEq, Repr

/-- How a type is recognised. -/
inductive Pattern where
  /-- This text. -/
  | literal (text : String)
  /-- These words in any ASCII case, with white space between them. -/
  | keyword (text : String)
  | regex (regex : Text.Regex)
  /-- Recognised by nothing. -/
  | custom
  /-- Stands for every type of a category. -/
  | anyOf (category : Category)
deriving DecidableEq, Repr

structure TokenType where
  name : String
  pattern : Pattern
  categories : List Category := []
  /-- An example for messages. -/
  label : Option String := none
deriving DecidableEq, Repr

/-- A keyword with single spaces between its words. -/
def normalizeKeyword (text : String) : String :=
  " ".intercalate ((Text.words text.toList).map String.ofList)

namespace TokenType

/-- Adds categories the type does not carry yet. -/
def withCategories (t : TokenType) (categories : List Category) : TokenType :=
  { t with
    categories := categories.foldl
      (fun known c => if c ∈ known then known else known ++ [c]) t.categories }

def withLabel (t : TokenType) (label : String) : TokenType :=
  { t with label := some label }

def literal (name text : String) : TokenType :=
  { name, pattern := .literal text }

def keyword (name text : String) : TokenType :=
  { name, pattern := .keyword text, categories := [.keyword] }

def regex (name : String) (regex : Text.Regex) : TokenType :=
  { name, pattern := .regex regex }

def custom (name : String) : TokenType :=
  { name, pattern := .custom }

def anyOf (name : String) (category : Category) : TokenType :=
  { name, pattern := .anyOf category }

def has (t : TokenType) (c : Category) : Bool :=
  c ∈ t.categories

/-- The text a completion inserts for the type. -/
def completionText? (t : TokenType) : Option String :=
  match t.pattern with
  | .literal text => some text
  | .keyword text => some (normalizeKeyword text)
  | .regex _ | .custom | .anyOf _ => none

/-- What messages call the type: its name with an example, else its text in quotes,
else its name. -/
def displayName (t : TokenType) : String :=
  match t.label with
  | some label => t.name ++ " e.g. " ++ label
  | none =>
    match t.completionText? with
    | some text => "'" ++ text ++ "'"
    | none => t.name

end TokenType

/-- An occurrence of a type: its text, and the offsets of its first and last byte. -/
structure Token where
  type : TokenType
  image : String
  start : Nat
  last : Nat
deriving DecidableEq, Repr

namespace Token

def ofImage (type : TokenType) (image : String) (start : Nat) : Token :=
  { type, image, start, last := max (start + image.utf8ByteSize - 1) start }

/-- The sentinel behind a text of `size` bytes. -/
def endOfInput (size : Nat) : Token :=
  { type := (TokenType.custom "EOF").withCategories [.endOfInput], image := "",
    start := size, last := size }

def name (t : Token) : String :=
  t.type.name

def has (t : Token) (c : Category) : Bool :=
  t.type.has c

def isEndOfInput (t : Token) : Bool :=
  t.has .endOfInput

/-- The offset behind the token. -/
def stop (t : Token) : Nat :=
  if t.image.isEmpty then t.start else t.last + 1

/-- Does `next` start where the token ends? -/
def abuts (t next : Token) : Bool :=
  !t.image.isEmpty && t.last + 1 == next.start

/-- Could the token be a word that is still being typed? -/
def isWordLike (t : Token) : Bool :=
  !t.image.isEmpty &&
    t.image.toList.all fun c => Unicode.isAlphanumeric c || c = '_' || c = '-'

/-- The token in one line, for logs. -/
def describe (t : Token) : String :=
  t.name ++ "(" ++ Text.quoted t.image ++ " @ " ++ toString t.start ++ "..=" ++
    toString t.last ++ ")"

end Token

/-- Index of the first token that an offset is in or right behind. -/
def tokenIndexAt? (tokens : List Token) (offset : Nat) : Option Nat :=
  tokens.findIdx? fun t => t.start ≤ offset && offset ≤ t.last + 1

end GraphLanguages
