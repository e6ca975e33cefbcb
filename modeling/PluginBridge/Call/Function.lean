import PluginBridge.Json.Printer
import PluginBridge.Json.Record
namespace PluginBridge

-- How a call travels: as JSON on the command stream, or through shared memory first.
inductive CallMode where
  | json
  | binary
deriving DecidableEq, Inhabited, Repr

namespace CallMode

def name : CallMode → String
  | .json => "json"
  | .binary => "binary"

def ofName? (name : String) : Option CallMode :=
  if name = "json" then some .json else if name = "binary" then some .binary else none

def ofText? (text : String) : Option CallMode := ofName? (String.ofList (text.toList.map Char.toLower))

-- The name, or an object whose one key is the name and holds null.
def ofJson? : Json → Option CallMode
  | .string name => ofName? name
  | .object [(name, .null)] => ofName? name
  | _ => none

end CallMode

structure FunctionSpec where
  name : String
  mode : Option CallMode
  needsContext : Bool
  cacheable : Bool
deriving DecidableEq, Inhabited, Repr

namespace FunctionSpec

def new (name : String) : FunctionSpec := ⟨name, none, false, false⟩

def fieldNames : List String := ["name", "mode", "needsContext", "cacheable"]

def ofJson? (json : Json) : Option FunctionSpec := do
  let members ← json.record? fieldNames
  return {
    name := ← Json.required members "name" Json.toString?
    mode := ← Json.optional members "mode" CallMode.ofJson?
    needsContext := ← Json.withDefault members "needsContext" false Json.toBool?
    cacheable := ← Json.withDefault members "cacheable" false Json.toBool? }

def entries (spec : FunctionSpec) : List (String × Json) :=
  [("name", .string spec.name)] ++ (spec.mode.toList.map fun mode => ("mode", .string mode.name)) ++
    [("needsContext", .bool spec.needsContext), ("cacheable", .bool spec.cacheable)]

def render (spec : FunctionSpec) : String := Json.renderFields spec.entries

end FunctionSpec
end PluginBridge
