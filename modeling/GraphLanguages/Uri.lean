import GraphLanguages.Text.Quoted

/-! Addresses of documents in their normal form.

Two spellings of one address have the same normal form: the scheme in lower case,
characters that an address cannot hold percent-encoded, and steps to the same or the
parent directory resolved where the path has directories. -/
namespace GraphLanguages

structure Uri where
  text : String
deriving DecidableEq, Repr

namespace Uri

/-! ### Encoding -/

def hexByte (b : UInt8) : List Char :=
  ['%', Nat.digitChar (b.toNat / 16), Nat.digitChar (b.toNat % 16)].map Char.toUpper

/-- The bytes of a character, each as a percent sign with two digits. -/
def percent (c : Char) : List Char :=
  (String.utf8EncodeChar c).flatMap hexByte

/-- Encodes controls, what is not ASCII, and the `reserved` characters. -/
def encode (reserved : List Char) (cs : List Char) : List Char :=
  cs.flatMap fun c =>
    if c < ' ' || '\x7f' ≤ c || reserved.contains c then percent c else [c]

def fragmentReserved : List Char := " \"<>`".toList

def pathReserved : List Char := fragmentReserved ++ "#?\x7b\x7d".toList

/-- Some schemes reserve the apostrophe in queries as well. -/
def queryReserved (special : Bool) : List Char :=
  " \"#<>".toList ++ (if special then ['\''] else [])

/-! ### Parts -/

/-- Schemes whose addresses always have a host, with their usual ports. -/
def portOf : List (String × Nat) :=
  [("http", 80), ("https", 443), ("ws", 80), ("wss", 443), ("ftp", 21)]

def isSchemeChar (c : Char) : Bool :=
  c.isAlphanum || c = '+' || c = '-' || c = '.'

/-- The scheme in lower case, and what follows its colon. -/
def scheme? (cs : List Char) : Option (String × List Char) :=
  match cs.span isSchemeChar with
  | (c :: name, ':' :: rest) =>
    if c.isAlpha then some (String.ofList ((c :: name).map Char.toLower), rest) else none
  | _ => none

/-- Spaces around an address and line ends within it do not count. -/
def clean (cs : List Char) : List Char :=
  let inner := ((cs.dropWhile (· ≤ ' ')).reverse.dropWhile (· ≤ ' ')).reverse
  inner.filter fun c => c != '\t' && c != '\n' && c != '\r'

/-- Encodes what follows a mark. -/
def marked (reserved : List Char) : List Char → List Char
  | [] => []
  | mark :: rest => mark :: encode reserved rest

/-- The part before a query or fragment, and both of them with their marks, encoded. -/
def divide (special : Bool) (cs : List Char) : List Char × List Char :=
  let (front, fragment) := cs.span (· != '#')
  let (path, query) := front.span (· != '?')
  (path, marked (queryReserved special) query ++ marked fragmentReserved fragment)

def isSeparator (special : Bool) (c : Char) : Bool :=
  c = '/' || (special && c = '\\')

/-- The segments of a path, where `pending` holds the segment being read, last
character first. -/
def segmentsFrom (special : Bool) (pending : List Char) : List Char → List (List Char)
  | [] => [pending.reverse]
  | c :: cs =>
    if isSeparator special c then pending.reverse :: segmentsFrom special [] cs
    else segmentsFrom special (c :: pending) cs

def isHere (segment : List Char) : Bool :=
  [".", "%2e"].contains (String.ofList (segment.map Char.toLower))

def isParent (segment : List Char) : Bool :=
  ["..", ".%2e", "%2e.", "%2e%2e"].contains (String.ofList (segment.map Char.toLower))

/-- Resolves segments below the directories `above`, innermost first. A path that ends
in a step names a directory. -/
def resolve (above : List (List Char)) : List (List Char) → List (List Char)
  | [] => above.reverse
  | segment :: rest =>
    let directory (above : List (List Char)) :=
      if rest.isEmpty then ([] :: above).reverse else resolve above rest
    if isHere segment then directory above
    else if isParent segment then directory (above.drop 1)
    else resolve (encode pathReserved segment :: above) rest

/-- A path that starts at the root. -/
def rootedPath (special : Bool) (cs : List Char) : List Char :=
  let inner :=
    match cs with
    | c :: rest => if isSeparator special c then rest else c :: rest
    | [] => []
  (resolve [] (segmentsFrom special [] inner)).flatMap ('/' :: ·)

def forbiddenInHost (c : Char) : Bool :=
  c ≤ ' ' || '\x7f' ≤ c || "#%/:<>?@[\\]^|".toList.contains c

/-- A host by name, in lower case, or in brackets by number. -/
def host? (cs : List Char) : Option (List Char) :=
  match cs with
  | '[' :: rest =>
    if rest.getLast? = some ']' && rest.dropLast.all fun c => c.isAlphanum || c = ':' || c = '.'
    then some (cs.map Char.toLower) else none
  | _ => if cs.any forbiddenInHost then none else some (cs.map Char.toLower)

/-- Host and port, without the usual port of the scheme. -/
def hostAndPort? (usual : Option Nat) (cs : List Char) : Option (List Char) :=
  let (portReversed, hostReversed) := cs.reverse.span Char.isDigit
  match hostReversed with
  | ':' :: hostReversed =>
    let port := (portReversed.reverse.foldl (fun n d => 10 * n + (d.toNat - 48)) 0)
    if 65535 < port then none
    else
      (host? hostReversed.reverse).map fun host =>
        if portReversed.isEmpty || usual = some port then host
        else host ++ ':' :: (toString port).toList
  | _ => host? cs

/-- What stands between the slashes and the path: a user, a host and a port. -/
def authority? (usual : Option Nat) (cs : List Char) : Option (List Char) :=
  let (hostReversed, userReversed) := cs.reverse.span (· != '@')
  match userReversed with
  | '@' :: user =>
    (hostAndPort? usual hostReversed.reverse).map fun host =>
      encode (pathReserved ++ "/;=@[\\]^|".toList) user.reverse ++ '@' :: host
  | _ => hostAndPort? usual cs

/-! ### Addresses by scheme -/

/-- Behind two slashes: the authority, and the path. -/
def splitAuthority (special : Bool) (cs : List Char) : List Char × List Char :=
  cs.span fun c => !isSeparator special c

/-- The address of a file has a host, mostly an empty one. -/
def fileBody? : List Char → Option (List Char)
  | a :: b :: rest =>
    if isSeparator true a && isSeparator true b then
      let (host, path) := splitAuthority true rest
      (host? host).map fun host =>
        "//".toList ++ (if host = "localhost".toList then [] else host) ++ rootedPath true path
    else some ("//".toList ++ rootedPath true (a :: b :: rest))
  | cs => some ("//".toList ++ rootedPath true cs)

def specialBody? (port : Nat) (cs : List Char) : Option (List Char) :=
  let (authority, path) := splitAuthority true (cs.dropWhile (isSeparator true))
  if authority.isEmpty then none
  else (authority? (some port) authority).map fun a => "//".toList ++ a ++ rootedPath true path

/-- Other schemes may have an authority, a path of directories, or a path of their own
making, which stays as it is. -/
def otherBody? : List Char → Option (List Char)
  | '/' :: '/' :: rest =>
    let (authority, path) := splitAuthority false rest
    (authority? none authority).map fun a =>
      "//".toList ++ a ++ (if path.isEmpty then [] else rootedPath false path)
  | '/' :: rest => some (rootedPath false ('/' :: rest))
  | cs => some (encode [] cs)

def ofText? (s : String) : Option Uri :=
  (scheme? (clean s.toList)).bind fun (scheme, rest) =>
    let port := portOf.lookup scheme
    let special := port.isSome || scheme == "file"
    let (path, tail) := divide special rest
    let body? :=
      if scheme == "file" then fileBody? path
      else
        match port with
        | some port => specialBody? port path
        | none => otherBody? path
    body?.map fun body => ⟨scheme ++ ":" ++ String.ofList (body ++ tail)⟩

end Uri

end GraphLanguages
