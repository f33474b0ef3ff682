import GraphLanguages.Profile
import GraphLanguages.Unicode.Lowercase

/-! Completion at a place in a document.

The grammar says which token types could come next. Where the cursor is behind two
abutting tokens, longer words that begin with both are candidates as well. Candidates
with a text become suggestions, and what the language adds goes around them. Labels
are unique: the first suggestion of a label stays. -/
namespace GraphLanguages.Completion
open Grammar

/-! ### Longer words -/

def startsWith (text start : String) : Bool :=
  start.toList.isPrefixOf text.toList

/-- Does the text begin with a start in any case? -/
def startsWithInAnyCase (text start : String) : Bool :=
  startsWith (Unicode.lower text) (Unicode.lower start)

/-- The rest of an expression that is marked to ignore case. -/
def caseless? (source : String) : Option String :=
  ("(?i)".toList.isPrefixOf? source.toList).map String.ofList

/-- Is the text of a pattern a longer word that begins with `typed`? An expression is
compared as it is written. -/
def extendsTyped (typed : String) : Pattern → Bool
  | .literal text => startsWith text typed
  | .keyword text => startsWithInAnyCase (normalizeKeyword text) typed
  | .regex r =>
    match caseless? r.source with
    | some rest => startsWith rest typed || startsWithInAnyCase rest typed
    | none => startsWith r.source typed
  | .custom | .anyOf _ => false

/-- The words that begin with two tokens, in place of both. -/
def longerWords (v : Vocabulary) (before at_ : Token) : List Candidate :=
  (v.types.filter fun t => extendsTyped (before.image ++ at_.image) t.pattern).map fun type =>
    { type, rules := [], replace := some (before.start, at_.stop) }

def longerWordsAt (v : Vocabulary) (tokens : List Token) (c : Cursor) : List Candidate :=
  match c.before?.bind (tokens[·]?), c.at?.bind (tokens[·]?) with
  | some before, some at_ => if before.abuts at_ then longerWords v before at_ else []
  | _, _ => []

/-! ### Suggestions of the grammar -/

def isExcluded (settings : Settings) (t : TokenType) : Bool :=
  settings.excluded.any t.has

/-- The suggestion of a type with a text of its own. -/
def typeItem? (settings : Settings) (range : ByteRange) (t : TokenType) : Option Suggestion :=
  if isExcluded settings t then none
  else
    match t.pattern with
    | .literal text => some (.ofLabel text .enumMember range)
    | .keyword text => some (.ofLabel (normalizeKeyword text) .keyword range)
    | .regex _ | .custom | .anyOf _ => none

/-- A type that stands for a category gives the items of all types of the category. -/
def typeItems (settings : Settings) (v : Vocabulary) (range : ByteRange) (t : TokenType) :
    List Suggestion :=
  match t.pattern with
  | .anyOf category =>
    if isExcluded settings t then []
    else (v.types.filter fun u => u.has category).filterMap (typeItem? settings range)
  | _ => (typeItem? settings range t).toList

/-- What a candidate replaces. -/
def candidateRange (range : ByteRange) (c : Candidate) : ByteRange :=
  match c.replace with
  | some (start, stop) => ⟨start, stop⟩
  | none => range

def candidateItems (settings : Settings) (v : Vocabulary) (range : ByteRange)
    (candidates : List Candidate) : List Suggestion :=
  candidates.flatMap fun c => typeItems settings v (candidateRange range c) c.type

/-- The suggestions that begin with what is typed, if anything is. -/
def narrowed (typed : Option (List Char)) (items : List Suggestion) : List Suggestion :=
  match typed with
  | none => items
  | some cs => items.filter fun s => cs.isPrefixOf s.label.toList

/-! ### Completion -/

def Cursor.typedText? (c : Cursor) (text : List Char) : Option (List Char) :=
  c.typed?.bind fun r => Text.slice? r.start r.stop text

/-- What completion asks of a language. Its grammar is known by the answers it gives. -/
structure Completer where
  vocabulary : Vocabulary
  /-- What could come behind some tokens. -/
  assist : List Token → List Candidate
  settings : Settings := {}
  augment : Context → Augmentation := fun _ => {}

namespace Completer

def candidatesAt (k : Completer) (tokens : List Token) (c : Cursor) : List Candidate :=
  k.assist (tokens.take c.assisted) ++ longerWordsAt k.vocabulary tokens c

/-- What is suggested at a cursor, before labels are made unique. -/
def gather (k : Completer) (text : List Char) (tokens : List Token) (offset : Nat) (data : Data)
    (cursor : Cursor) : List Suggestion :=
  let candidates := k.candidatesAt tokens cursor
  let added := k.augment { tokens, offset, cursor, candidates, data }
  let offered := candidateItems k.settings k.vocabulary cursor.range candidates
  added.leading ++ narrowed (cursor.typedText? text) offered ++ added.trailing

/-- The suggestions at an offset of a text with the given tokens. -/
def complete (k : Completer) (text : List Char) (tokens : List Token) (offset : Nat)
    (data : Data) : List Suggestion :=
  let size := Text.bytes text
  let offset := min offset size
  match Cursor.locate? k.settings tokens offset with
  | none => []
  | some cursor =>
    (Suggestion.distinct (k.gather text tokens offset data cursor)).map fun s =>
      { s with replace := s.replace.clamp size }

end Completer

end GraphLanguages.Completion

namespace GraphLanguages

open Completion

def Profile.completer (p : Profile) : Completer where
  vocabulary := p.frontend.vocabulary
  assist := p.frontend.assist p.frontend.root
  settings := p.completion
  augment := p.augment

def Completion.candidatesAt (p : Profile) (tokens : List Token) (c : Cursor) :
    List Grammar.Candidate :=
  p.completer.candidatesAt tokens c

def Profile.complete (p : Profile) (text : List Char) (tokens : List Token) (offset : Nat)
    (data : Data) : List Suggestion :=
  p.completer.complete text tokens offset data

end GraphLanguages
