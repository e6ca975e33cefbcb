import PluginBridge.Call.Rebuild
import PluginBridge.Peer.RegionCall
import PluginBridge.Peer.Service
import PluginBridge.Peer.Variable
import PluginBridge.Protocol.Peer
import PluginBridge.Wire.Convert
namespace PluginBridge

-- A peer with a few functions of its own in place of plugins. It serves every way in
-- which a call can come.

structure EchoProtocol where
  peer : ProtocolPeer
  names : List (UInt32 × String)
  polling : Bool
deriving Inhabited

structure EchoState where
  calls : Nat
  protocol : Option EchoProtocol
deriving Inhabited

namespace Echo

def initial : EchoState := ⟨0, none⟩

def named (name : String) (more : List (String × Json)) : Json := .ofEntries (("name", .string name) :: more)

def functionEntries : List Json :=
  [named "add" [], named "jsonadd" [("mode", .string "json")], named "echo" [], named "fail" [],
    named "calls" [("cacheable", .bool true)], named "var" [("needsContext", .bool true)],
    named "varsource" [("needsContext", .bool true)]]

def label (path : String) : String := Memory.keyOfPath path

def manifest (path : String) (options : Json) : Except String Json :=
  if Message.holds "missing".toList path.toList then .error ("Cannot find plugin " ++ path)
  else
    let priority : Int := ((options.get? "priority").bind Json.toSigned?).getD 1
    let processor := fun suffix =>
      Json.array [named (label path ++ suffix) [("priority", .number (.integer priority))]]
    .ok (.ofEntries [("functions", .array functionEntries),
      ("visitors", .array [named (label path ++ "-visitor") []]),
      ("preProcessors", processor "-pre"), ("postProcessors", processor "-post"),
      ("fileManagers", .array [named (label path ++ "-files") [("extensions", .array [.string ".mem"])]])])

inductive Demand where
  | outcome (outcome : Except String ResultNode)
  | count
  | variable (name : String) (origin : Bool)

-- The sum of nothing is negative zero, to which any number can be added unchanged.
def sum (args : List ResultNode) : Binary64 :=
  (args.filterMap ResultNode.toFloat?).foldl Binary64.add Binary64.negZero

def unit (args : List ResultNode) : String :=
  ((args.filterMap fun arg => (arg.field? "unit").bind Json.toString?).find? (· ≠ "")).getD ""

def variableDemand (function : String) (args : List ResultNode) (origin : Bool) : Demand :=
  match args.head?.bind ResultNode.toString? with
  | some name => .variable name origin
  | none => .outcome (.error (function ++ " expects a variable name"))

def demand (function : String) (args : List ResultNode) : Demand :=
  match function with
  | "add" | "jsonadd" => .outcome (.ok (.dimension (sum args) (unit args)))
  | "echo" => .outcome (.ok (args.headD .null))
  | "fail" => .outcome (.error "fail was called")
  | "calls" => .count
  | "var" => variableDemand function args false
  | "varsource" => variableDemand function args true
  | _ => .outcome (.error ("Unknown function: " ++ function))

def countResult (state : EchoState) : ResultNode × EchoState :=
  (.dimension (Binary64.ofNat (state.calls + 1)) "", { state with calls := state.calls + 1 })

abbrev Found := Option (ResultNode × String)

def variableResult (origin : Bool) : Found → ResultNode
  | some (value, source) => if origin then .keyword source else value
  | none => .null

abbrev Respond := Except String Json → Reaction EchoState

def findInAnswer (answer : Json) (next : Except String Found → Reaction EchoState) : Reaction EchoState :=
  match PeerVariable.placeOf? answer with
  | some place =>
    .onMemory (PeerVariable.read place) fun outcome =>
      next (outcome.map fun (var, _) => some (.ofWire var.value, "callback"))
  | none => next (.ok ((PeerVariable.inlineValue? answer).map fun value => (value, "callback")))

def goOn (next : Except String Found → Reaction EchoState) : Except String Json → Reaction EchoState
  | .ok answer => findInAnswer answer next
  | .error text => next (.error text)

-- Looks for a variable among those that came with the call, then asks the host.
def findVariable (known : String → Found) (contextId : Option Nat) (name : String)
    (next : Except String Found → Reaction EchoState) : Reaction EchoState :=
  match known name with
  | some found => next (.ok (some found))
  | none => .ask PeerVariable.callbackName (PeerVariable.question name contextId) (goOn next)

def run (function : String) (args : List ResultNode) (known : String → Found) (contextId : Option Nat)
    (finish : Except String ResultNode → Reaction EchoState) : Reaction EchoState :=
  match demand function args with
  | .outcome outcome => finish outcome
  | .count => .onState countResult fun result => finish (.ok result)
  | .variable name origin =>
    findVariable known contextId name fun outcome => finish (outcome.map (variableResult origin))

def text (json : Json) (key : String) : String := ((json.get key).toString?).getD ""

def given (data : Json) (name : String) : Found :=
  (((data.get "context").get "variables").get? name).map fun var => (.ofJson (var.get "value"), "context")

def callJson (data : Json) (respond : Respond) : Reaction EchoState :=
  let args := (((data.get "args").toArray?).getD []).map ResultNode.ofJson
  run (text data "name") args (given data) ((data.get "contextId").toWord?) fun outcome =>
    respond (outcome.map ResultNode.toJson)

def fromPreloaded (vars : List PreloadedVariable) (name : String) : Found :=
  (vars.find? fun var => var.name == name).map fun var => (.ofWire var.value, "preload")

def replyIn (call : RegionCall) (respond : Respond) (outcome : Except String ResultNode) :
    Reaction EchoState :=
  match outcome with
  | .error text => respond (.error text)
  | .ok result =>
    .onMemory (call.reply result.toNode) fun reply => respond (reply.mapError PeerError.message)

def runInRegion (call : RegionCall) (vars : List PreloadedVariable) (respond : Respond) :
    Reaction EchoState :=
  run call.name call.resultNodes (fromPreloaded vars) call.contextId (replyIn call respond)

-- A call whose arguments lie in a region. One that cannot be read is sent back, so that
-- the host tries another way.
def callRegion (data : Json) (respond : Respond) : Reaction EchoState :=
  .onMemory (RegionCall.ofJson data) fun outcome =>
    match outcome with
    | .error e => respond (.ok (.ofEntries [("fallback", .string e.message)]))
    | .ok call =>
      .inspect fun state _ =>
        match state.protocol with
        | some protocol =>
          if call.preloaded then
            .onMemory protocol.peer.preloaded fun vars =>
              match vars with
              | .ok vars => runInRegion call vars respond
              | .error e => respond (.error e.message)
          else runInRegion call [] respond
        | none => runInRegion call [] respond

def stop (state : EchoState) : EchoState := { state with protocol := none }

def attach (path : String) (layout : Layout) : ProtocolAccess ProtocolPeer := do
  let peer ← ProtocolPeer.attach path layout
  peer.markReady
  return peer

def serve (peer : ProtocolPeer) (state : EchoState) : EchoState :=
  { state with protocol := some ⟨peer, [], true⟩ }

def initProtocol (data : Json) (respond : Respond) : Reaction EchoState :=
  .modify stop <|
    match Layout.ofJson (data.get "layout"), (data.get "path").toString? with
    | .error fault, _ => respond (.error fault.message)
    | .ok _, none => respond (.error "initProtocol expects a path")
    | .ok layout, some path =>
      .onMemory (attach path layout) fun outcome =>
        match outcome with
        | .error e => respond (.error e.message)
        | .ok peer => .modify (serve peer) (respond (.ok (.ofEntries [("polling", .bool true)])))

def registerFunction (data : Json) (state : EchoState) : Except String Json × EchoState :=
  match (data.get "name").toString?, (data.get "id").toWord? with
  | some name, some id =>
    match state.protocol with
    | none => (.error "protocol is not initialized", state)
    | some protocol =>
      let names := (UInt32.ofNat id, name) :: protocol.names
      (.ok .null, { state with protocol := some { protocol with names := names } })
  | _, _ => (.error "registerFunction expects a name and an id", state)

def handle (request : Request) : Reaction EchoState :=
  let respond : Respond := fun outcome => .respond request.id outcome .rest
  let data := request.data
  match request.command with
  | "ping" => respond (.ok (.string "pong"))
  | "initProtocol" => initProtocol data respond
  | "registerFunction" => .onState (registerFunction data) respond
  | "loadPlugin" => respond (manifest (text data "path") (data.get "options"))
  | "callFunction" => callJson data respond
  | "callFunctionShm" => callRegion data respond
  | "shutdown" => .modify stop (.respond request.id (.ok .null) .leave)
  | command => respond (.error ("Unknown command: " ++ command))

def protocolOutcome (protocol : EchoProtocol) (request : ProtocolRequest) (state : EchoState) :
    Except String ResultNode × EchoState :=
  match List.lookup request.functionId protocol.names with
  | none => (.error s!"Unknown function id {request.functionId}", state)
  | some function =>
    match demand function (request.args.map ResultNode.ofWire) with
    | .outcome outcome => (outcome, state)
    | .count => let (result, state) := countResult state; (.ok result, state)
    | .variable _ _ => (.error "variables are not available on the protocol path", state)

def sendOutcome (peer : ProtocolPeer) (outcome : Except String ResultNode) : ProtocolAccess Unit :=
  match outcome with
  | .error text => peer.respondError text
  | .ok result =>
    if WireValue.supports result.toNode then peer.respond (.ofNode result.toNode)
    else peer.respondError "result has no wire form"

-- Takes and answers the request that waits in the protocol region. After a failure it
-- looks there no more.
def poll (state : EchoState) (memory : Memory) : EchoState × Memory :=
  match state.protocol with
  | none => (state, memory)
  | some protocol =>
    let halted := fun (state : EchoState) => { state with protocol := some { protocol with polling := false } }
    if !protocol.polling then (state, memory)
    else
      match protocol.peer.pollRequest memory with
      | .error _ memory => (halted state, memory)
      | .ok none memory => (state, memory)
      | .ok (some request) memory =>
        let (outcome, state) := protocolOutcome protocol request state
        match sendOutcome protocol.peer outcome memory with
        | .ok _ memory => (state, memory)
        | .error _ memory => (halted state, memory)

def service : Service EchoState := ⟨handle, poll⟩

def session (input : List StreamLine) : List String × Bool :=
  let step := (Conversation.start initial).advance service input true .empty
  (step.output.filterMap PeerOutput.line?, step.state.hasFailed)

end Echo
end PluginBridge
