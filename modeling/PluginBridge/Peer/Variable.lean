import PluginBridge.Call.Result
import PluginBridge.Call.Rebuild
import PluginBridge.Peer.Service
import PluginBridge.Region.Memory
import PluginBridge.Wire.Preload
namespace PluginBridge

namespace PeerVariable

def callbackName : String := "getVariable"

def question (name : String) (contextId : Option Nat) : Json :=
  .ofEntries [("name", .string name), ("depth", .natural 0),
    ("contextId", (contextId.map Json.natural).getD .null)]

structure Place where
  path : String
  offset : Nat
  size : Nat

def placeOf? (answer : Json) : Option Place :=
  ((answer.get? "shmPath").bind Json.toString?).map fun path =>
    ⟨path, ((answer.get "offset").toWord?).getD 0, ((answer.get "size").toWord?).getD 0⟩

def read (place : Place) : EStateM String Memory (PreloadedVariable × Nat) := fun memory =>
  match Memory.openReadOnly place.path memory with
  | .error e memory => .error e.message memory
  | .ok region memory =>
    match Memory.read region place.offset place.size memory with
    | .error e memory => .error e.message memory
    | .ok bytes memory =>
      match Cursor.run (PreloadedVariable.decode bytes) 0 with
      | .error e => .error e.message memory
      | .ok var => .ok (var, ((memory.region? region).map Region.size).getD 0) memory

def inlineValue? (answer : Json) : Option ResultNode :=
  (answer.get? "json").map fun var => .ofJson (var.get "value")

end PeerVariable
end PluginBridge
