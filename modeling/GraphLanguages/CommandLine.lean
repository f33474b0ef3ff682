import GraphLanguages.Text.Numeral

/-! The command line of the servers.

A server is told by exactly one option how its client reaches it. Options may come in
any order, each once; those with a value have it behind an equals sign or as the next
argument. Arguments are read from the left, and the first mistake is reported. An
option whose value is the next argument is looked at when the option after it is, so an
argument nobody knows is reported before a bad value in front of it. -/
namespace GraphLanguages.CommandLine
open Text

/-- How a client is reached. -/
inductive Channel where
  | stdio
  | nodeIpc
  /-- A local port on which the client listens. -/
  | socket (port : Nat)
  /-- A named pipe on which the client listens. -/
  | pipe (name : String)
deriving DecidableEq, Repr

structure Invocation where
  channel : Channel
  /-- Passed by some clients, and of no use. -/
  clientProcess : Option Nat
deriving DecidableEq, Repr

inductive UsageError where
  | noChannel
  /-- An option twice, or two channels. -/
  | conflict
  | unknownArgument
  | missingValue
  | badValue
  | unwantedValue
  /-- The user asked for help or for the version. -/
  | helpWanted
  | versionWanted
deriving DecidableEq, Repr

/-- Is the text for the error stream? -/
def UsageError.isMistake : UsageError → Bool
  | .helpWanted | .versionWanted => false
  | _ => true

inductive Switch where
  | stdio
  | nodeIpc
  | help
  | version
deriving DecidableEq, Repr

inductive Setting where
  | socket
  | pipe
  | clientProcess
deriving DecidableEq, Repr

def switchOf? : String → Option Switch
  | "stdio" => some .stdio
  | "node-ipc" => some .nodeIpc
  | "help" => some .help
  | "version" => some .version
  | _ => none

def settingOf? : String → Option Setting
  | "socket" => some .socket
  | "pipe" => some .pipe
  | "clientProcessId" => some .clientProcess
  | _ => none

/-- What was read so far. -/
structure Reading where
  stdio : Bool := false
  nodeIpc : Bool := false
  socket : Option Nat := none
  pipe : Option String := none
  clientProcess : Option Nat := none
  /-- A setting whose value may follow, or has followed, as an argument of its own. -/
  pending : Option (Setting × Option String) := none
deriving DecidableEq, Repr

/-- Digits with a sign or without one, from zero to a limit. -/
def number? (limit : Nat) (value : String) : Option Nat :=
  (signed? 0 limit value.toList).map Int.toNat

/-- Gives a setting its value: the first one, and one that fits. -/
def assign (r : Reading) (s : Setting) (value : String) : Except UsageError Reading :=
  match s with
  | .socket =>
    if r.socket.isSome then .error .conflict
    else
      match number? 65535 value with
      | some n => .ok { r with socket := some n }
      | none => .error .badValue
  | .pipe =>
    if r.pipe.isSome then .error .conflict else .ok { r with pipe := some value }
  | .clientProcess =>
    if r.clientProcess.isSome then .error .conflict
    else
      match number? 4294967295 value with
      | some n => .ok { r with clientProcess := some n }
      | none => .error .badValue

/-- Looks at the setting that waits. -/
def settle (r : Reading) : Except UsageError Reading :=
  match r.pending with
  | none => .ok r
  | some (_, none) => .error .missingValue
  | some (s, some value) => assign { r with pending := none } s value

def turnOn (r : Reading) : Switch → Except UsageError Reading
  | .stdio => if r.stdio then .error .conflict else .ok { r with stdio := true }
  | .nodeIpc => if r.nodeIpc then .error .conflict else .ok { r with nodeIpc := true }
  | .help => .error .helpWanted
  | .version => .error .versionWanted

/-- An option by its long name, with what stands behind an equals sign. -/
def readLong (r : Reading) (name : String) (value : Option String) :
    Except UsageError Reading :=
  match switchOf? name, settingOf? name, value with
  | some _, _, some _ => .error .unwantedValue
  | some switch, _, none => (settle r).bind fun r => turnOn r switch
  | none, some s, some value => (settle r).bind fun r => assign r s value
  | none, some s, none => (settle r).map fun r => { r with pending := some (s, none) }
  | none, none, _ => .error .unknownArgument

def readShort (r : Reading) (c : Char) : Except UsageError Reading :=
  if c = 'h' then (settle r).bind fun r => turnOn r .help
  else if c = 'V' then (settle r).bind fun r => turnOn r .version
  else .error .unknownArgument

/-- An argument that is no option has to be the value of one. -/
def readValue (r : Reading) (value : String) : Except UsageError Reading :=
  match r.pending with
  | some (s, none) => .ok { r with pending := some (s, some value) }
  | _ => .error .unknownArgument

def readArgument (r : Reading) (arg : String) : Except UsageError Reading :=
  match arg.toList with
  | '-' :: '-' :: rest =>
    let (name, value) := rest.span (· != '=')
    readLong r (String.ofList name)
      (match value with
        | [] => none
        | _ :: value => some (String.ofList value))
  | '-' :: c :: _ => readShort r c
  | _ => readValue r arg

/-- The channels that were named. -/
def channels (r : Reading) : List Channel :=
  (if r.stdio then [.stdio] else []) ++ (if r.nodeIpc then [.nodeIpc] else []) ++
    (r.socket.map Channel.socket).toList ++ (r.pipe.map Channel.pipe).toList

def finish (r : Reading) : Except UsageError Invocation :=
  (settle r).bind fun r =>
    match channels r with
    | [] => .error .noChannel
    | [channel] => .ok ⟨channel, r.clientProcess⟩
    | _ => .error .conflict

/-- Two dashes alone end the options, and nothing may follow them. -/
def readFrom (r : Reading) : List String → Except UsageError Invocation
  | [] => finish r
  | arg :: args =>
    if arg = "--" then if args.isEmpty then finish r else .error .unknownArgument
    else (readArgument r arg).bind fun r => readFrom r args

def parse (args : List String) : Except UsageError Invocation :=
  readFrom {} args

end GraphLanguages.CommandLine
