import PluginBridge.Json.Printer
import PluginBridge.Text.Quoted
namespace PluginBridge.Json

inductive Fault where
  | kind (found : Json) (wanted : String)
  | range (found : Json) (wanted : String)
  | missing (field : String)
  | tooShort (count : Nat) (wanted : String)
  | tooLong (count : Nat)
deriving Inhabited, Repr

def found : Json → String
  | .null => "null"
  | .bool b => "boolean `" ++ (Json.bool b).render ++ "`"
  | .number (.integer n) => "integer `" ++ (Json.number (.integer n)).render ++ "`"
  | .number (.float x) => "floating point `" ++ (Json.number (.float x)).render ++ "`"
  | .string s => "string " ++ Text.quoted s
  | .array _ => "sequence"
  | .object _ => "map"

def Fault.message : Fault → String
  | .kind json wanted => "invalid type: " ++ json.found ++ ", expected " ++ wanted
  | .range json wanted => "invalid value: " ++ json.found ++ ", expected " ++ wanted
  | .missing field => "missing field `" ++ field ++ "`"
  | .tooShort count wanted => s!"invalid length {count}, expected {wanted}"
  | .tooLong count => s!"invalid length {count}, expected fewer elements in array"

-- What a value that stands for a record has to look like. A field that is not needed
-- may be left out.
inductive Shape where
  | text
  | flag
  | word (name : String)
  | nullable (shape : Shape)
  | record (name : String) (fields : List (String × Bool × Shape))

namespace Shape

def wanted : Shape → String
  | .text => "a string"
  | .flag => "a boolean"
  | .word name => name
  | .nullable shape => shape.wanted
  | .record name _ => "struct " ++ name

-- Faults are looked for in the order of the members, which is that of their names.
def earliest : List (String × Fault) → Option (String × Fault)
  | [] => none
  | first :: rest =>
    match earliest rest with
    | none => some first
    | some other => if other.1 < first.1 then some other else some first

def firstMissing (members : List (String × Json)) (fields : List (String × Bool × Shape)) : Option Fault :=
  (fields.find? fun field => field.2.1 && (Members.get? field.1 members).isNone).map fun field =>
    .missing field.1

mutual

def fault? : Shape → Json → Option Fault
  | .text, .string _ => none
  | .flag, .bool _ => none
  | .word name, .number (.integer n) => if 0 ≤ n then none else some (.range (.number (.integer n)) name)
  | .nullable _, .null => none
  | .nullable shape, json => shape.fault? json
  | .record _ fields, .object members =>
    ((earliest (faultsIn fields members)).map Prod.snd).or (firstMissing members fields)
  | .record name fields, .array items =>
    match faultAt s!"struct {name} with {fields.length} elements" 0 fields items with
    | some fault => some fault
    | none => if fields.length < items.length then some (.tooLong items.length) else none
  | shape, json => some (.kind json shape.wanted)

def faultsIn : List (String × Bool × Shape) → List (String × Json) → List (String × Fault)
  | [], _ => []
  | (name, _, shape) :: rest, members =>
    match (Members.get? name members).bind shape.fault? with
    | some fault => (name, fault) :: faultsIn rest members
    | none => faultsIn rest members

def faultAt (whole : String) (index : Nat) : List (String × Bool × Shape) → List Json → Option Fault
  | [], _ => none
  | (_, needed, _) :: rest, [] =>
    if needed then some (.tooShort index whole) else faultAt whole (index + 1) rest []
  | (_, _, shape) :: rest, item :: items =>
    match shape.fault? item with
    | some fault => some fault
    | none => faultAt whole (index + 1) rest items

end

def read {α : Type} (shape : Shape) (ofJson? : Json → Option α) (json : Json) : Except Fault α :=
  match ofJson? json with
  | some a => .ok a
  | none => .error ((shape.fault? json).getD default)

end Shape
end PluginBridge.Json
