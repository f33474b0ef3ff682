import GraphLanguages.CommandLine
import GraphLanguages.Server.Connection
import GraphLanguages.Transport.NodeChannel
import GraphLanguages.Json.Reader
import GraphLanguages.Json.Printer

/-! The command: a language, and how its server is reached.

This is the outer layer. It reads bytes, hands them to the library and writes what comes
back. Of the channels, it serves the standard streams. -/
namespace GraphLanguages.Main
open Transport Server CommandLine

/-- Exactly `count` bytes, less only where the stream ends before. -/
partial def readBytes (input : IO.FS.Stream) (count : Nat) (done : ByteArray) :
    IO ByteArray := do
  if count ≤ done.size then return done
  let chunk ← input.read (count - done.size).toUSize
  if chunk.isEmpty then return done
  readBytes input count (done ++ chunk)

/-- The body of the next frame; none where the stream ends or holds no frames. -/
partial def readBody (input : IO.FS.Stream) (known : Option Nat) :
    IO (Option ByteArray) := do
  let line ← input.getLine
  if line.isEmpty then return none
  let header := Text.trimEnd line.toList
  if header.isEmpty then
    match known with
    | some n =>
      let body ← readBytes input n .empty
      return if body.size == n then some body else none
    | none => readBody input none
  else
    match Header.ofLine header with
    | .length n => readBody input (some n)
    | .badLength => return none
    | .other => readBody input known

def send (output : IO.FS.Stream) (message : Json) : IO Unit := do
  output.write ⟨(writeFrame (encode message.render)).toArray⟩
  output.flush

/-- Serves until the client exits or the stream ends. Was a shutdown requested? -/
partial def serve (input output : IO.FS.Stream) (c : Connection) : IO Bool := do
  match ← readBody input none with
  | none => return c.session.shutdownRequested
  | some body =>
    match (decode? body.toList).bind Json.parse? with
    | none => serve input output c
    | some message =>
      let (c, reply) := c.receive message
      if let .ok reply := reply then
        reply.sent.forM (send output)
        reply.response.forM (send output)
      if c.phase == .exited then return c.session.shutdownRequested
      serve input output c

def usage (l : Language) : String :=
  l.displayName ++ " language server\n\nUsage: " ++ l.serverName ++
    " <--node-ipc|--stdio|--socket <PORT>|--pipe <NAME>>"

def complaint : UsageError → String
  | .noChannel => "error: one of --node-ipc, --stdio, --socket and --pipe is required"
  | .conflict => "error: an argument cannot be used with another one"
  | .unknownArgument => "error: unexpected argument found"
  | .missingValue => "error: a value is required but none was supplied"
  | .badValue => "error: invalid value"
  | .unwantedValue => "error: unexpected value"
  | .helpWanted | .versionWanted => ""

def fail (message : String) : IO UInt32 := do
  IO.eprintln message
  return 1

def run (l : Language) (i : Invocation) : IO UInt32 := do
  match i.channel with
  | .stdio =>
    let clean ← serve (← IO.getStdin) (← IO.getStdout) (.forLanguage l)
    return if clean then 0 else 1
  | .socket port => fail ("Error: failed to connect to 127.0.0.1:" ++ toString port)
  | .pipe name => fail ("Error: failed to connect to pipe " ++ name)
  | .nodeIpc =>
    match NodeChannel.descriptor (← IO.getEnv NodeChannel.variableName) with
    | .error e => fail ("Error: " ++ e.message)
    | .ok _ => fail "Error: node IPC is not supported on this platform"

def start (l : Language) (args : List String) : IO UInt32 := do
  match CommandLine.parse args with
  | .ok i => run l i
  | .error .helpWanted =>
    IO.println (usage l)
    return 0
  | .error .versionWanted =>
    IO.println (l.serverName ++ " " ++ version)
    return 0
  | .error e => fail (complaint e ++ "\n\n" ++ usage l)

end GraphLanguages.Main

/-- The first argument names the language; the others are those of its server. -/
def main (args : List String) : IO UInt32 :=
  match args with
  | name :: args =>
    match GraphLanguages.Language.ofId? name with
    | some l => GraphLanguages.Main.start l args
    | none => GraphLanguages.Main.fail ("error: unknown language " ++ name)
  | [] => GraphLanguages.Main.fail "error: name a language first"
