import PluginBridge.Dispatch.Session
import PluginBridge.Json.Shape
import PluginBridge.Wire.Convert
import PluginBridge.Wire.Preload
namespace PluginBridge

structure VariableRequest where
  name : String
  depth : Nat
  contextId : Option Nat
deriving DecidableEq, Repr

namespace VariableRequest

def ofJson? (json : Json) : Option VariableRequest := do
  let members ← json.record? ["name", "depth", "contextId"]
  return {
    name := ← Json.required members "name" Json.toString?
    depth := ← Json.withDefault members "depth" 0 Json.toWord?
    contextId := ← Json.optional members "contextId" Json.toWord? }

def shape : Json.Shape :=
  .record "VariableRequest" [("name", true, .text), ("depth", false, .word "usize"),
    ("contextId", false, .nullable (.word "u64"))]

def ofJson : Json → Except Json.Fault VariableRequest := shape.read ofJson?

end VariableRequest

def Variable.toJson (definition : Variable) : Json :=
  .ofEntries [("name", .string definition.name), ("important", .bool definition.important),
    ("value", (ResultNode.ofNode definition.value).toJson)]

def Variable.toPreloaded (definition : Variable) : PreloadedVariable :=
  ⟨definition.name, definition.important, .ofNode definition.value⟩

def variablePlace (path : String) (size : Nat) : Json :=
  .ofEntries [("shmPath", .string path), ("offset", .natural 0), ("size", .natural size)]

namespace Session
variable {σ : Type}

-- The context of the call that is named. Without a name it has to be the only one.
def contextFor? (session : Session σ) (id : Option Nat) : Option EvalContext :=
  match id, session.active with
  | some id, active => (active.find? fun entry => entry.1 == id).map Prod.snd
  | none, [(_, context)] => some context
  | none, _ => none

def placeVariable (definition : Variable) (session : Session σ) : Option (String × Json) × Session σ :=
  match definition.toPreloaded.encode with
  | .error _ => (none, session)
  | .ok bytes =>
    match session.createFilled bytes.size bytes with
    | (.error _, session) => (none, session)
    | (.ok id, session) => (some (session.keyOf id, variablePlace (session.pathOf id) bytes.size), session)

def findVariable (data : Json) (session : Session σ) : Except String (Option Variable) :=
  match VariableRequest.ofJson data with
  | .error fault => .error fault.message
  | .ok request => .ok <| (session.contextFor? request.contextId).bind fun context =>
      context.resolve? request.depth request.name

def answerCallback (id : Nat) (outcome : Except String Json) (session : Session σ) : Session σ :=
  { session with stream := session.stream.answer id outcome }

def variableCallback : String := "getVariable"

def serveCallback (callback : Callback) (session : Session σ) : Session σ :=
  if callback.name = variableCallback ∧ session.servesVariables then
    match session.findVariable callback.data with
    | .error message => session.answerCallback callback.id (.error message)
    | .ok none => session.answerCallback callback.id (.ok .null)
    | .ok (some definition) => { session with serving := some (.found callback.id definition) }
  else session.answerCallback callback.id (.error (Multiplexer.unknownCallback callback.name))

def placeSupported (definition : Variable) (session : Session σ) : Option (String × Json) × Session σ :=
  if WireValue.supports definition.value then session.placeVariable definition else (none, session)

-- The next step with what was begun. Any other value, and one that no region can be made for,
-- stands in the answer itself. The key of a region is noted once the region is there, and only
-- then the answer goes out.
def proceed (session : Session σ) : Session σ :=
  match session.serving with
  | none => session
  | some (.found callback definition) =>
    match session.placeSupported definition with
    | (some (key, answer), session) => { session with serving := some (.placed callback key answer) }
    | (none, session) =>
      { session with serving := none }.answerCallback callback (.ok (.ofEntries [("json", definition.toJson)]))
  | some (.placed callback key answer) =>
    { session with serving := none, variableKeys := session.variableKeys ++ [key] }.answerCallback callback
      (.ok answer)

end Session
end PluginBridge
