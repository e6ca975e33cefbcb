import PluginBridge.Json.Basic
namespace PluginBridge.Json

-- The members of a value that stands for a record with the given fields: an object, or a
-- list of the fields in their order, of which the last ones may be missing.
def record? (names : List String) : Json → Option (List (String × Json))
  | .object members => some members
  | .array items => if items.length ≤ names.length then some (names.zip items) else none
  | _ => none

def required {α : Type} (members : List (String × Json)) (name : String) (read : Json → Option α) :
    Option α := (Members.get? name members).bind read

def withDefault {α : Type} (members : List (String × Json)) (name : String) (default : α)
    (read : Json → Option α) : Option α :=
  match Members.get? name members with
  | some value => read value
  | none => some default

def optional {α : Type} (members : List (String × Json)) (name : String) (read : Json → Option α) :
    Option (Option α) :=
  match Members.get? name members with
  | some .null => some none
  | some value => (read value).map some
  | none => some none

end PluginBridge.Json
