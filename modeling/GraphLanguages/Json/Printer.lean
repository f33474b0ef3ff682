import GraphLanguages.Json.Basic
import GraphLanguages.Text.Quoted

/-! Writing JSON on one line, without spaces. -/
namespace GraphLanguages.Json

/-- Control characters are escaped, the common ones in their short form. -/
def escapedChar (c : Char) : List Char :=
  if c = '"' then ['\\', '"']
  else if c = '\\' then ['\\', '\\']
  else if c = '\x08' then ['\\', 'b']
  else if c = '\x0c' then ['\\', 'f']
  else if c = '\n' then ['\\', 'n']
  else if c = '\r' then ['\\', 'r']
  else if c = '\t' then ['\\', 't']
  else if c < '\x10' then "\\u000".toList ++ Text.hex c.toNat
  else if c < ' ' then "\\u00".toList ++ Text.hex c.toNat
  else [c]

def renderString (s : String) : String :=
  String.ofList ('"' :: s.toList.flatMap escapedChar ++ ['"'])

def Numeric.render : Numeric → String
  | .whole n => toString n
  | .double negative x => (if negative then "-" else "") ++ x.render

mutual

def render : Json → String
  | .null => "null"
  | .bool b => if b then "true" else "false"
  | .number n => n.render
  | .string s => renderString s
  | .array [] => "[]"
  | .array (item :: items) => "[" ++ render item ++ renderItems items ++ "]"
  | .object [] => "\x7b\x7d"
  | .object ((key, value) :: members) =>
    "\x7b" ++ renderString key ++ ":" ++ render value ++ renderMembers members ++ "\x7d"

def renderItems : List Json → String
  | [] => ""
  | item :: items => "," ++ render item ++ renderItems items

def renderMembers : List (String × Json) → String
  | [] => ""
  | (key, value) :: members =>
    "," ++ renderString key ++ ":" ++ render value ++ renderMembers members

end

end GraphLanguages.Json
