import PluginBridge.Call.Argument
import PluginBridge.Flat.Bytes
import PluginBridge.Json.Record
import PluginBridge.Json.Shape
import PluginBridge.Protocol.Error
import PluginBridge.Region.Memory
namespace PluginBridge

inductive PeerError where
  | region (error : RegionError)
  | codec (error : CodecError)
  | invalidRequest (fault : Json.Fault)
deriving Repr

def PeerError.message : PeerError → String
  | .region e => e.message
  | .codec e => e.message
  | .invalidRequest fault => "Invalid request: " ++ fault.message

abbrev PeerAccess := EStateM PeerError Memory

structure RegionCallRequest where
  name : String
  path : String
  dataSize : Nat
  preloaded : Bool
  needsContext : Bool
  contextId : Option Nat

def RegionCallRequest.ofJson? (json : Json) : Option RegionCallRequest := do
  let members ← json.record?
    ["name", "shmPath", "dataSize", "preloaded", "needsContext", "contextId"]
  return {
    name := ← Json.required members "name" Json.toString?
    path := ← Json.required members "shmPath" Json.toString?
    dataSize := ← Json.required members "dataSize" Json.toWord?
    preloaded := ← Json.withDefault members "preloaded" false Json.toBool?
    needsContext := ← Json.withDefault members "needsContext" false Json.toBool?
    contextId := ← Json.optional members "contextId" Json.toWord? }

namespace RegionCallRequest

def shape : Json.Shape :=
  .record "ShmCallRequest" [("name", true, .text), ("shmPath", true, .text),
    ("dataSize", true, .word "usize"), ("preloaded", false, .flag), ("needsContext", false, .flag),
    ("contextId", false, .nullable (.word "u64"))]

def ofJson : Json → Except Json.Fault RegionCallRequest := shape.read ofJson?

end RegionCallRequest

structure RegionCall where
  name : String
  args : List FlatNode
  preloaded : Bool
  needsContext : Bool
  contextId : Option Nat
  region : RegionId
  dataSize : Nat

namespace RegionCall

def access {α : Type} (action : Access α) : PeerAccess α := EStateM.adaptExcept PeerError.region action

def codec {α : Type} : Except CodecError α → PeerAccess α
  | .ok a => pure a
  | .error e => throw (.codec e)

-- Attaches the region of a call and reads the arguments from its start. A tree whose
-- root is no argument list is the only argument.
def ofJson (data : Json) : PeerAccess RegionCall := do
  match RegionCallRequest.ofJson data with
  | .error fault => throw (.invalidRequest fault)
  | .ok request =>
    let region ← access (Memory.attach request.path)
    let bytes ← access (Memory.read region 0 request.dataSize)
    let root ← codec ((FlatTree.ofBytes bytes).bind FlatTree.unflatten)
    let args := if root.slot.kind? == some .arguments then root.children else [root]
    return ⟨request.name, args, request.preloaded, request.needsContext, request.contextId, region,
      request.dataSize⟩

def resultNodes (call : RegionCall) : List ResultNode := call.args.map ResultNode.ofFlat

-- The result goes behind the arguments, at the next multiple of eight.
def resultOffset (call : RegionCall) : Nat := (call.dataSize + 7) / 8 * 8

-- Writes the result into the region and says where, or says the result itself when the
-- region is too small for it.
def reply (call : RegionCall) (result : Node) : PeerAccess Json := do
  let bytes ← codec (result.flatten.bind FlatTree.toBytes)
  let size := (((← get).region? call.region).map Region.size).getD 0
  if call.resultOffset + bytes.size ≤ size then
    access (Memory.write call.region call.resultOffset bytes)
    access (Memory.sync call.region)
    return .ofEntries [("resultOffset", .natural call.resultOffset), ("resultSize", .natural bytes.size)]
  else return .ofEntries [("json", (ResultNode.ofNode result).toJson)]

end RegionCall
end PluginBridge
