import GraphLanguages.Json.Basic

/-! Records in JSON: an object with the fields by name, or an array with their values in
order. Members that name no field are ignored; an array has no other items. -/
namespace GraphLanguages.Json

/-- The values of fields, where an array has at least `least` of them. -/
def fields? (names : List String) (least : Nat) : Json → Option (List (Option Json))
  | .object members => some (names.map fun name => members.lookup name)
  | .array items =>
    if least ≤ items.length && items.length ≤ names.length then
      some (items.map some ++ List.replicate (names.length - items.length) none)
    else none
  | _ => none

/-- A field that may be absent or null. -/
def optional? (read : Json → Option α) : Option Json → Option (Option α)
  | none | some .null => some none
  | some j => (read j).map some

/-- Items of an array, each read alike. -/
def listOf? (read : Json → Option α) (j : Json) : Option (List α) :=
  j.array?.bind fun items => items.mapM read

/-- Members of an object, each read alike. -/
def mapOf? (read : Json → Option α) : Json → Option (List (String × α))
  | .object members => members.mapM fun m => (read m.2).map (m.1, ·)
  | _ => none

end GraphLanguages.Json
