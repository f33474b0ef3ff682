import GraphLanguages.Json.Basic
import GraphLanguages.Uri

/-! Shapes of parameters.

A record is written as an object or as an array of its fields in order. Reading a value
by its shape checks it all the way down and gives its usual form, in which every record
is an object. -/
namespace GraphLanguages.Rpc

/-- May a field be missing? -/
inductive Presence where
  | required
  /-- Absent or null; in an array it has its place. -/
  | optional
  /-- Absent, at the end of an array as well. -/
  | defaulted
deriving DecidableEq, Repr

inductive Shape where
  | any
  | bool
  | number
  | string
  | uri
  /-- One of some strings. -/
  | word (choices : List String)
  | int (low high : Int)
  | list (item : Shape)
  | map (value : Shape)
  | either (first second : Shape)
  | nullable (shape : Shape)
  /-- A record that spreads the fields of others is an object only. -/
  | record (spreads : Bool) (fields : List (String × Presence × Shape))

namespace Shape

/-- How many items an array has at least. -/
def least (fields : List (String × Presence × Shape)) : Nat :=
  (fields.reverse.dropWhile fun f => f.2.1 == .defaulted).length

mutual

/-- The usual form of a value of this shape. -/
def read? : Shape → Json → Option Json
  | .any, j => some j
  | .bool, .bool b => some (.bool b)
  | .number, .number n => some (.number n)
  | .string, .string s => some (.string s)
  | .uri, .string s => (Uri.ofText? s).map fun uri => .string uri.text
  | .word choices, .string s => if choices.contains s then some (.string s) else none
  | .int low high, .number (.whole n) =>
    if low ≤ n && n ≤ high then some (.number (.whole n)) else none
  | .list shape, .array items => (items.mapM fun j => shape.read? j).map .array
  | .map shape, .object members =>
    (members.mapM fun m => (shape.read? m.2).map (m.1, ·)).map .object
  | .either a b, j => (a.read? j).or (b.read? j)
  | .nullable _, .null => some .null
  | .nullable shape, j => shape.read? j
  | .record _ fields, .object members => (readMembers? fields members).map Json.ofMembers
  | .record spreads fields, .array items =>
    if spreads || items.length < least fields then none
    else (readItems? fields items).map Json.ofMembers
  | _, _ => none

/-- The fields of a record among the members of an object. -/
def readMembers? :
    List (String × Presence × Shape) → List (String × Json) → Option (List (String × Json))
  | [], _ => some []
  | (name, presence, shape) :: fields, members =>
    match members.lookup name with
    | some .null =>
      if presence == .optional then readMembers? fields members
      else
        (shape.read? .null).bind fun value =>
          (readMembers? fields members).map ((name, value) :: ·)
    | some j =>
      (shape.read? j).bind fun value =>
        (readMembers? fields members).map ((name, value) :: ·)
    | none => if presence == .required then none else readMembers? fields members

/-- The fields of a record among the items of an array, which holds nothing else. -/
def readItems? :
    List (String × Presence × Shape) → List Json → Option (List (String × Json))
  | [], [] => some []
  | [], _ :: _ => none
  | _ :: _, [] => some []
  | (name, presence, shape) :: fields, j :: items =>
    if presence == .optional && j.isNull then readItems? fields items
    else
      (shape.read? j).bind fun value => (readItems? fields items).map ((name, value) :: ·)

end

/-! ### Common shapes -/

/-- Unsigned, of 32 bits. -/
def word32 : Shape := .int 0 4294967295

/-- Signed, of 32 bits. -/
def int32 : Shape := .int (-2147483648) 2147483647

def needs (name : String) (shape : Shape) : String × Presence × Shape :=
  (name, .required, shape)

def mayHave (name : String) (shape : Shape) : String × Presence × Shape :=
  (name, .optional, shape)

end Shape

end GraphLanguages.Rpc
