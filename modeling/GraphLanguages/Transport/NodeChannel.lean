import GraphLanguages.Transport.Frame
import GraphLanguages.Json.Reader
import GraphLanguages.Text.Quoted

/-! The channel of a Node.js parent process: one JSON message a line.

The channel carries messages of the runtime itself as well, which are not for the
server. The bridge turns lines into frames and frames into lines. -/
namespace GraphLanguages.Transport.NodeChannel
open Text

/-- The variable in which the parent process hands over the channel. -/
def variableName : String := "NODE_CHANNEL_FD"

inductive ChannelError where
  | missing
  /-- The variable holds no file descriptor. -/
  | invalid (value : String)
deriving DecidableEq, Repr

def ChannelError.message : ChannelError → String
  | .missing =>
    variableName ++ " is not set; --node-ipc requires a Node.js parent process"
  | .invalid value =>
    variableName ++ " holds " ++ quoted value ++ ", which is not a file descriptor"

/-- The file descriptor of the channel, from the value of the variable. -/
def descriptor : Option String → Except ChannelError Int
  | none => .error .missing
  | some value =>
    match signed? (-2147483648) 2147483647 (trim value.toList) with
    | some fd => .ok fd
    | none => .error (.invalid value)

/-- Is a message the runtime's own? -/
def isInternal (message : Json) : Bool :=
  ((message.get? "cmd").bind Json.string?).any fun cmd =>
    "NODE_".toList.isPrefixOf cmd.toList

/-- What goes on to the server from a line: the line without the space around it, if it
is a message for the server. -/
def payload? (line : List Char) : Option (List Char) :=
  let text := trim line
  match Json.parse? text with
  | some message => if isInternal message then none else some text
  | none => none

/-- What was written before the input ended or failed. -/
structure Bridged where
  written : List UInt8
  error : Option StreamError
deriving DecidableEq, Repr

def toFramesFrom : (fuel : Nat) → List UInt8 → Bridged
  | 0, _ => ⟨[], none⟩
  | _, [] => ⟨[], none⟩
  | fuel + 1, bytes =>
    let (line, rest) := takeLine bytes
    match decode? line with
    | none => ⟨[], some .invalidData⟩
    | some cs =>
      let later := toFramesFrom fuel rest
      match payload? cs with
      | some text => { later with written := writeFrame (encode (String.ofList text)) ++ later.written }
      | none => later

/-- The frames of the messages in a stream of lines. A line has a byte at least. -/
def toFrames (bytes : List UInt8) : Bridged :=
  toFramesFrom bytes.length bytes

/-- The lines of the messages in a stream of frames. -/
def ofFrames (bytes : List UInt8) : Bridged :=
  let frames := readFrames bytes
  ⟨frames.bodies.flatMap fun body => body ++ [lineFeed], frames.error⟩

end GraphLanguages.Transport.NodeChannel
