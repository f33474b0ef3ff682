import GraphLanguages.Text.Blank
import GraphLanguages.Text.AsciiCase
import GraphLanguages.Text.Numeral

/-! Framed messages.

A message is a block of header lines, an empty line, and a body of as many bytes as the
header `Content-Length` says. Of several such headers the last one counts; other lines
are passed over, empty ones as well until the length is known. -/
namespace GraphLanguages.Transport
open Text

inductive StreamError where
  /-- A line that is no text, or a length that is no number. -/
  | invalidData
  | unexpectedEnd
deriving DecidableEq, Repr

/-! ### Lines -/

def lineFeed : UInt8 := 10

/-- The first line with its line feed, and what follows it. -/
def takeLine : List UInt8 → List UInt8 × List UInt8
  | [] => ([], [])
  | b :: bs =>
    if b = lineFeed then ([b], bs)
    else
      let (line, rest) := takeLine bs
      (b :: line, rest)

theorem length_takeLine (bs : List UInt8) :
    (takeLine bs).1.length + (takeLine bs).2.length = bs.length := by
  induction bs with
  | nil => rfl
  | cons b bs ih =>
    by_cases h : b = lineFeed
    · simp [takeLine, h, Nat.add_comm]
    · simp only [takeLine, h, if_false, List.length_cons]
      omega

theorem length_takeLine_pos (b : UInt8) (bs : List UInt8) :
    0 < (takeLine (b :: bs)).1.length := by
  by_cases h : b = lineFeed <;> simp [takeLine, h]

theorem length_rest_lt (b : UInt8) (bs : List UInt8) :
    (takeLine (b :: bs)).2.length < (b :: bs).length := by
  have := length_takeLine (b :: bs)
  have := length_takeLine_pos b bs
  omega

/-- The text that bytes encode. -/
def decode? (bytes : List UInt8) : Option (List Char) :=
  (ByteArray.mk bytes.toArray).utf8Decode?.map Array.toList

def encode (s : String) : List UInt8 :=
  s.toUTF8.toList

/-! ### Frames -/

inductive Header where
  | length (n : Nat)
  | badLength
  | other
deriving DecidableEq, Repr

/-- A header line without its end. -/
def Header.ofLine (line : List Char) : Header :=
  let (name, rest) := line.span (· != ':')
  match rest with
  | ':' :: value =>
    if sameIgnoringCase (trim name) "content-length".toList then
      match unsigned? maxWord (trim value) with
      | some n => .length n
      | none => .badLength
    else .other
  | _ => .other

inductive FrameResult where
  | frame (body rest : List UInt8)
  /-- The stream ends where a line would start. -/
  | finished
  | failed (error : StreamError) (rest : List UInt8)
deriving DecidableEq, Repr

def takeBody (n : Nat) (bytes : List UInt8) : FrameResult :=
  if n ≤ bytes.length then .frame (bytes.take n) (bytes.drop n)
  else .failed .unexpectedEnd []

/-- The first frame of a stream, where `known` is the length read so far. -/
def readFrom (known : Option Nat) (bytes : List UInt8) : FrameResult :=
  match bytes with
  | [] => .finished
  | b :: bs =>
    let split := takeLine (b :: bs)
    match decode? split.1 with
    | none => .failed .invalidData split.2
    | some line =>
      let line := trimEnd line
      if line.isEmpty then
        match known with
        | some n => takeBody n split.2
        | none => readFrom none split.2
      else
        match Header.ofLine line with
        | .length n => readFrom (some n) split.2
        | .badLength => .failed .invalidData split.2
        | .other => readFrom known split.2
termination_by bytes.length
decreasing_by all_goals exact length_rest_lt b bs

def readFrame (bytes : List UInt8) : FrameResult :=
  readFrom none bytes

/-- A body with its header. -/
def writeFrame (body : List UInt8) : List UInt8 :=
  encode ("Content-Length: " ++ toString body.length ++ "\r\n\r\n") ++ body

/-- The bodies of a stream, what ended it, and the bytes it left. -/
structure Frames where
  bodies : List (List UInt8)
  error : Option StreamError
  rest : List UInt8
deriving DecidableEq, Repr

/-- Reads frames until the stream ends or fails. A frame takes a byte at least, so the
number of bytes is fuel enough. -/
def readFramesFrom : (fuel : Nat) → List UInt8 → Frames
  | 0, bytes => ⟨[], none, bytes⟩
  | fuel + 1, bytes =>
    match readFrame bytes with
    | .frame body rest =>
      let later := readFramesFrom fuel rest
      { later with bodies := body :: later.bodies }
    | .finished => ⟨[], none, []⟩
    | .failed e rest => ⟨[], some e, rest⟩

def readFrames (bytes : List UInt8) : Frames :=
  readFramesFrom (bytes.length + 1) bytes

end GraphLanguages.Transport
