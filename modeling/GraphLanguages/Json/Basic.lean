import GraphLanguages.Number.Shortest

/-! JSON values.

The members of an object are ordered by key, each key once. Whole numbers keep all
their digits as far as 64 bits hold them; every other number is a double. -/
namespace GraphLanguages

namespace Json

inductive Numeric where
  /-- From `-2 ^ 63` to `2 ^ 64 - 1`. -/
  | whole (value : Int)
  | double (negative : Bool) (value : Number.Double)
deriving DecidableEq, Repr

end Json

inductive Json where
  | null
  | bool (value : Bool)
  | number (value : Json.Numeric)
  | string (value : String)
  | array (items : List Json)
  | object (members : List (String × Json))
deriving Repr

namespace Json

def nat (n : Nat) : Json := .number (.whole n)

def int (n : Int) : Json := .number (.whole n)

/-- A member in its place; a member of the same key gives way. -/
def insert (key : String) (value : Json) : List (String × Json) → List (String × Json)
  | [] => [(key, value)]
  | (k, v) :: rest =>
    if key < k then (key, value) :: (k, v) :: rest
    else if key = k then (key, value) :: rest
    else (k, v) :: insert key value rest

/-- Of members with one key, the last one counts. -/
def ofMembers (members : List (String × Json)) : Json :=
  .object (members.foldl (fun sorted m => insert m.1 m.2 sorted) [])

/-- An object of the members that have a value. -/
def ofPresent (members : List (String × Option Json)) : Json :=
  ofMembers (members.filterMap fun m => m.2.map (m.1, ·))

def ofOption (write : α → Json) : Option α → Json
  | none => .null
  | some a => write a

/-! ### Looking into a value -/

def get? (key : String) : Json → Option Json
  | .object members => members.lookup key
  | _ => none

def string? : Json → Option String
  | .string s => some s
  | _ => none

def bool? : Json → Option Bool
  | .bool b => some b
  | _ => none

def array? : Json → Option (List Json)
  | .array items => some items
  | _ => none

def nat? : Json → Option Nat
  | .number (.whole (.ofNat n)) => some n
  | _ => none

def isNull : Json → Bool
  | .null => true
  | _ => false

end Json

end GraphLanguages
