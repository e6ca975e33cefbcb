import PluginBridge.Call.Rebuild
import PluginBridge.Flat.Flatten
namespace PluginBridge

inductive CallArg where
  | node (tree : Node)
  | json (value : Json)

namespace CallArg

def toJson : CallArg → Json
  | .node tree => (ResultNode.ofNode tree).toJson
  | .json value => value

def toNode : CallArg → Node
  | .node tree => tree
  | .json value => (ResultNode.ofJson value).toNode

def toWire? : CallArg → Option WireValue
  | .json .null => some .null
  | .json (.bool b) => some (.boolean b)
  | .json (.number n) => some (.number n.toFloat)
  | .json (.string s) => some (.keyword s)
  | .json _ => none
  | .node tree => if WireValue.supports tree then some (.ofNode tree) else none

def listKey (args : List CallArg) : String := (Json.array (args.map toJson)).render

-- An argument that cannot be flattened on its own is sent as null.
def flattenable (arg : CallArg) : Node :=
  match arg.toNode.flatten with
  | .ok _ => arg.toNode
  | .error _ => .null

def flattenAll (args : List CallArg) : Except CodecError FlatTree :=
  (Node.plain (.arguments (args.map flattenable))).flatten

end CallArg
end PluginBridge
