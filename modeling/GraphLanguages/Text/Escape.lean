import GraphLanguages.Text.Bytes

/-! Codepoint escapes.

Some languages decode `\uXXXX` and `\UXXXXXXXX` before they cut text into tokens; a
pair of surrogates stands for one character. Escapes that are malformed, or name no
character, stay as they are. Decoding turns the raw text into pieces, each one
character with the number of raw bytes it was written with, and the escape map
leads from offsets in the decoded text back to the raw one. -/
namespace GraphLanguages.Text

/-- A character of the decoded text, and how many raw bytes it was written with. -/
structure Piece where
  char : Char
  width : Nat
deriving DecidableEq, Repr

def hexDigit? (c : Char) : Option Nat :=
  if '0' ≤ c && c ≤ '9' then some (c.toNat - 48)
  else if 'a' ≤ c && c ≤ 'f' then some (c.toNat - 87)
  else if 'A' ≤ c && c ≤ 'F' then some (c.toNat - 55)
  else none

/-- The value of exactly `count` hexadecimal digits at the start of a text. -/
def hexFrom? (value : Nat) : (count : Nat) → List Char → Option Nat
  | 0, _ => some value
  | _ + 1, [] => none
  | count + 1, c :: cs => (hexDigit? c).bind fun d => hexFrom? (16 * value + d) count cs

def hex? (count : Nat) (cs : List Char) : Option Nat :=
  hexFrom? 0 count cs

/-- The character of a code point, if it is one. -/
def scalar? (code : Nat) : Option Char :=
  if h : code.isValidChar then some (Char.ofNatAux code h) else none

def isHighSurrogate (unit : Nat) : Bool :=
  0xD800 ≤ unit && unit < 0xDC00

def isLowSurrogate (unit : Nat) : Bool :=
  0xDC00 ≤ unit && unit < 0xE000

/-- The low half of a pair, written as an escape of its own. -/
def lowSurrogate? : List Char → Option Nat
  | '\\' :: 'u' :: cs => (hex? 4 cs).filter fun unit => isLowSurrogate unit
  | _ => none

/-- The piece of an escape at the start of a text. -/
def escape? : List Char → Option Piece
  | '\\' :: 'u' :: cs =>
    (hex? 4 cs).bind fun unit =>
      if isHighSurrogate unit then
        (lowSurrogate? (cs.drop 4)).bind fun low =>
          (scalar? (0x10000 + (unit - 0xD800) * 0x400 + (low - 0xDC00))).map (⟨·, 12⟩)
      else (scalar? unit).map (⟨·, 6⟩)
  | '\\' :: 'U' :: cs => (hex? 8 cs).bind fun code => (scalar? code).map (⟨·, 10⟩)
  | _ => none

/-- The pieces of a text whose first `inside` characters belong to an escape already
decoded. Escapes are written in ASCII, so their width counts characters as well. -/
def piecesFrom (inside : Nat) : List Char → List Piece
  | [] => []
  | c :: cs =>
    match inside with
    | inside + 1 => piecesFrom inside cs
    | 0 =>
      match escape? (c :: cs) with
      | some p => p :: piecesFrom (p.width - 1) cs
      | none => ⟨c, c.utf8Size⟩ :: piecesFrom 0 cs

def pieces (raw : List Char) : List Piece :=
  piecesFrom 0 raw

/-- The bytes that a piece loses by decoding. -/
def Piece.displaced (p : Piece) : Nat :=
  p.width - p.char.utf8Size

/-- An escape: the decoded offset behind its character, and the bytes that it and
all escapes before it lost. -/
structure EscapeEntry where
  position : Nat
  displaced : Nat
deriving DecidableEq, Repr

/-- The escapes of a text, in order. -/
structure EscapeMap where
  entries : List EscapeEntry
deriving DecidableEq, Repr

namespace EscapeMap

def entriesFrom (position displaced : Nat) : List Piece → List EscapeEntry
  | [] => []
  | p :: ps =>
    let position := position + p.char.utf8Size
    let displaced := displaced + p.displaced
    if p.displaced = 0 then entriesFrom position displaced ps
    else ⟨position, displaced⟩ :: entriesFrom position displaced ps

def ofPieces (ps : List Piece) : EscapeMap :=
  ⟨entriesFrom 0 0 ps⟩

def isEmpty (m : EscapeMap) : Bool :=
  m.entries.isEmpty

/-- The raw offset of a decoded one. Right behind a decoded character it lies behind
the escape. -/
def toRaw (m : EscapeMap) (offset : Nat) : Nat :=
  match (m.entries.takeWhile fun e => e.position ≤ offset).getLast? with
  | some e => offset + e.displaced
  | none => offset

end EscapeMap

structure Unescaped where
  text : List Char
  escapes : EscapeMap
deriving DecidableEq, Repr

def unescape (raw : List Char) : Unescaped :=
  let ps := pieces raw
  ⟨ps.map Piece.char, EscapeMap.ofPieces ps⟩

end GraphLanguages.Text
