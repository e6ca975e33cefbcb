import PluginBridge.Call.Function
import PluginBridge.Json.Direct
import PluginBridge.Scope.Entry
namespace PluginBridge

structure Manifest where
  functions : List FunctionSpec
  visitors : List Visitor
  preProcessors : List Processor
  postProcessors : List Processor
  fileManagers : List FileManager
deriving DecidableEq, Inhabited, Repr

namespace Manifest

def empty : Manifest := ⟨[], [], [], [], []⟩

def fieldNames : List String :=
  ["functions", "visitors", "preProcessors", "postProcessors", "fileManagers"]

def listOfJson? {α : Type} (read : Json → Option α) (json : Json) : Option (List α) := do
  (← json.toArray?).mapM read

def ofJson? (json : Json) : Option Manifest := do
  let members ← json.record? fieldNames
  return {
    functions := ← Json.withDefault members "functions" [] (listOfJson? FunctionSpec.ofJson?)
    visitors := ← Json.withDefault members "visitors" [] (listOfJson? Visitor.ofJson?)
    preProcessors := ← Json.withDefault members "preProcessors" [] (listOfJson? Processor.ofJson?)
    postProcessors := ← Json.withDefault members "postProcessors" [] (listOfJson? Processor.ofJson?)
    fileManagers := ← Json.withDefault members "fileManagers" [] (listOfJson? FileManager.ofJson?) }

section
open Json.Direct

def textReader (size : Nat) : Parse Json :=
  let leaves := fun names => names.map fun name => (name, leaf size)
  let spec := record [("name", leaf size), ("mode", choice size), ("needsContext", leaf size),
    ("cacheable", leaf size)] size
  let visitor := record (leaves ["name", "isReplacing", "isPreEvalVisitor"]) size
  let processor := record (leaves ["name", "priority"]) size
  let manager := record (leaves ["name", "extensions"]) size
  record [("functions", listOf spec size), ("visitors", listOf visitor size),
    ("preProcessors", listOf processor size), ("postProcessors", listOf processor size),
    ("fileManagers", listOf manager size)] size

end

def parse? (text : String) : Option Manifest := do
  ofJson? (← Json.Parser.whole (textReader text.length) text.toList)

def entries (manifest : Manifest) : List (String × Json) :=
  [("functions", .array (manifest.functions.map fun spec => .object spec.entries)),
    ("visitors", .array (manifest.visitors.map fun visitor => .object visitor.entries)),
    ("preProcessors", .array (manifest.preProcessors.map fun processor => .object processor.entries)),
    ("postProcessors", .array (manifest.postProcessors.map fun processor => .object processor.entries)),
    ("fileManagers", .array (manifest.fileManagers.map fun manager => .object manager.entries))]

def render (manifest : Manifest) : String := Json.renderFields manifest.entries

end Manifest
end PluginBridge
