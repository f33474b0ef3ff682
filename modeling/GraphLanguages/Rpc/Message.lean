import GraphLanguages.Json.Basic

/-! JSON-RPC messages. A message with an id is a request and gets a response; one without
is a notification and gets none. -/
namespace GraphLanguages.Rpc

inductive RequestId where
  | number (n : Int)
  | string (s : String)
  | null
deriving DecidableEq, Repr

structure Message where
  method : String
  params : Option Json
  id : Option RequestId
deriving Repr

structure Error where
  code : Int
  /-- Left out where the wording is free. -/
  message : Option String
  data : Option Json := none
deriving Repr

namespace Error

def notInitialized : Error := ⟨-32002, some "Server not initialized", none⟩

def invalidRequest : Error := ⟨-32600, some "Invalid request", none⟩

/-- A method nobody knows. -/
def unknownMethod (name : String) : Error :=
  ⟨-32601, some "Method not found", some (.string name)⟩

/-- A method of the protocol that this server does not serve. -/
def unservedMethod : Error := ⟨-32601, some "Method not found", none⟩

def invalidParams : Error := ⟨-32602, none, none⟩

def toJson (e : Error) : Json :=
  .ofPresent [("code", some (.int e.code)), ("message", e.message.map .string),
    ("data", e.data)]

end Error

namespace RequestId

/-- Numbers are whole and fit 64 bits. -/
def ofJson? : Json → Option RequestId
  | .null => some .null
  | .string s => some (.string s)
  | .number (.whole n) => if n < 9223372036854775808 then some (.number n) else none
  | _ => none

def toJson : RequestId → Json
  | .number n => .int n
  | .string s => .string s
  | .null => .null

end RequestId

namespace Message

/-- A message names the version of the protocol. An id of null is an id. -/
def ofJson? (j : Json) : Option Message :=
  match j.get? "jsonrpc", (j.get? "method").getD (.string ""), j.get? "id" with
  | some (.string "2.0"), .string method, none => some ⟨method, j.get? "params", none⟩
  | some (.string "2.0"), .string method, some id =>
    (RequestId.ofJson? id).map fun id => ⟨method, j.get? "params", some id⟩
  | _, _, _ => none

end Message

/-- The response to a request. -/
def response (id : RequestId) : Except Error Json → Json
  | .ok result =>
    .ofMembers [("jsonrpc", .string "2.0"), ("result", result), ("id", id.toJson)]
  | .error e => .ofMembers [("jsonrpc", .string "2.0"), ("error", e.toJson), ("id", id.toJson)]

def notify (method : String) (params : Json) : Json :=
  .ofMembers [("jsonrpc", .string "2.0"), ("method", .string method), ("params", params)]

end GraphLanguages.Rpc
