import PluginBridge.Json.Record
namespace PluginBridge

structure Visitor where
  name : String
  isReplacing : Bool
  isPreEvalVisitor : Bool
deriving DecidableEq, Inhabited, Repr

structure Processor where
  name : String
  priority : Int
deriving DecidableEq, Inhabited, Repr

structure FileManager where
  name : String
  extensions : List String
deriving DecidableEq, Inhabited, Repr

def Visitor.ofJson? (json : Json) : Option Visitor := do
  let members ← json.record? ["name", "isReplacing", "isPreEvalVisitor"]
  return {
    name := ← Json.required members "name" Json.toString?
    isReplacing := ← Json.withDefault members "isReplacing" false Json.toBool?
    isPreEvalVisitor := ← Json.withDefault members "isPreEvalVisitor" false Json.toBool? }

def Visitor.entries (visitor : Visitor) : List (String × Json) :=
  [("name", .string visitor.name), ("isReplacing", .bool visitor.isReplacing),
    ("isPreEvalVisitor", .bool visitor.isPreEvalVisitor)]

def priorityOfJson? (json : Json) : Option Int :=
  json.toSigned?.filter fun n => -0x80000000 ≤ n && n < 0x80000000

def Processor.ofJson? (json : Json) : Option Processor := do
  let members ← json.record? ["name", "priority"]
  return {
    name := ← Json.required members "name" Json.toString?
    priority := ← Json.withDefault members "priority" 0 priorityOfJson? }

def Processor.entries (processor : Processor) : List (String × Json) :=
  [("name", .string processor.name), ("priority", .number (.integer processor.priority))]

def extensionsOfJson? (json : Json) : Option (List String) := do
  (← json.toArray?).mapM Json.toString?

def FileManager.ofJson? (json : Json) : Option FileManager := do
  let members ← json.record? ["name", "extensions"]
  return {
    name := ← Json.required members "name" Json.toString?
    extensions := ← Json.withDefault members "extensions" [] extensionsOfJson? }

def FileManager.entries (manager : FileManager) : List (String × Json) :=
  [("name", .string manager.name), ("extensions", .array (manager.extensions.map Json.string))]

end PluginBridge
