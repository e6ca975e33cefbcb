import PluginBridge.Dispatch.Preload
import PluginBridge.Flat.Bytes
namespace PluginBridge.Session
variable {σ : Type}

abbrev CallContext := Option (Nat × EvalContext)

def contextJson (session : Session σ) (context : EvalContext) : Json :=
  .ofEntries [("variables",
    .ofEntries ((session.commonVariables context).map fun definition =>
      (definition.name, definition.toJson)))]

def contextEntries (session : Session σ) (spec : FunctionSpec) (context : CallContext) :
    List (String × Json) :=
  match context with
  | some (id, context) =>
    if spec.needsContext then
      [("contextId", .natural id), ("context", session.contextJson context)]
    else []
  | none => []

def callJson (peer : Peer σ) (spec : FunctionSpec) (args : List CallArg) (context : CallContext) :
    Dispatch σ ResultNode := do
  modify (·.count fun counts => { counts with json := counts.json + 1 })
  let session ← get
  let data := Json.ofEntries ([("name", .string spec.name), ("args", .array (args.map CallArg.toJson)),
    ("needsContext", .bool spec.needsContext)] ++ session.contextEntries spec context)
  return .ofJson (← sendCall peer "callFunction" data)

def setHost (host : ProtocolHost) (session : Session σ) : Session σ :=
  { session with protocol := session.protocol.map fun link => { link with host := host } }

-- The id of a function in the protocol. The peer learns of it before its first use; when
-- that fails the function has no id.
def protocolId (peer : Peer σ) (host : ProtocolHost) (name : String) :
    Session σ → Option UInt32 × Session σ := fun session =>
  let ((id, new), host) := host.registerFunction name
  let session := session.setHost host
  if new then
    let data := Json.ofEntries [("name", .string name), ("id", .natural id.toNat)]
    match sendCall peer "registerFunction" data session with
    | .ok _ session => (some id, session)
    | .error _ session => (none, session.setHost (host.unregisterFunction name).2)
  else (some id, session)

def maxProtocolArgs : Nat := Layout.maxArgs

def isSizeFault : ProtocolError → Bool
  | .sectionFull _ _ _ => true
  | .tooManyArguments _ _ => true
  | .codec _ => true
  | _ => false

def countFallback (session : Session σ) : Session σ :=
  session.count fun counts => { counts with fallbacks := counts.fallbacks + 1 }

def pollPeer (peer : Peer σ) (session : Session σ) : Session σ :=
  let (state, memory) := peer.poll session.peer session.store.memory
  { session with peer := state, store := { session.store with memory := memory } }

-- Signals a staged call and takes the response. Nothing waits after a timeout: a late
-- response would pass for the answer to the next call, so the protocol ends.
def finishProtocol (peer : Peer σ) (host : ProtocolHost) : Dispatch σ ResultNode := fun session =>
  let session := session.count fun counts => { counts with protocol := counts.protocol + 1 }
  match session.onMemory host.signalRequest with
  | (.error e, session) => .error (.protocol e) session
  | (.ok _, session) =>
    match (session.pollPeer peer).onMemory host.takeResponse with
    | (.ok value, session) => .ok (.ofWire value) session
    | (.error (.peer text), session) => .error (.peer text) session
    | (.error (.timeout waited), session) => .error (.protocol (.timeout waited)) session.shutdownProtocol
    | (.error e, session) => .error (.protocol e) session

-- The call through the protocol; none when it has to take another way, of which the
-- peer then has seen nothing.
def callProtocol (peer : Peer σ) (spec : FunctionSpec) (args : List CallArg) :
    Dispatch σ (Option ResultNode) := fun session =>
  match session.protocol, args.mapM CallArg.toWire? with
  | some link, some wire =>
    if maxProtocolArgs < args.length then .ok none session
    else
      match protocolId peer link.host spec.name session with
      | (none, session) => .ok none session
      | (some id, session) =>
        let host := (session.protocol.map ProtocolLink.host).getD link.host
        match session.onMemory (host.stageCall id wire) with
        | (.error _, session) => .ok none session
        | (.ok (host, staged), session) =>
          let session := session.setHost host
          match staged with
          | .ok _ => EStateM.map some (finishProtocol peer host) session
          | .error e =>
            let session := session.countFallback
            .ok none (if isSizeFault e then session else session.shutdownProtocol)
  | _, _ => .ok none session

structure CallRegion where
  id : RegionId
  key : String
  dataSize : Nat

def minCallRegion : Nat := 4096

def writeCallRegion (args : List CallArg) (session : Session σ) : Option CallRegion × Session σ :=
  match (CallArg.flattenAll args).bind FlatTree.toBytes with
  | .error _ => (none, session)
  | .ok bytes =>
    match session.createFilled (max (bytes.size * 2) minCallRegion) bytes with
    | (.error _, session) => (none, session)
    | (.ok id, session) => (some ⟨id, session.keyOf id, bytes.size⟩, session)

def regionEntries (session : Session σ) (spec : FunctionSpec) (argCount : Nat) (region : CallRegion)
    (preloaded : Bool) (context : CallContext) : List (String × Json) :=
  [("name", .string spec.name), ("shmPath", .string (session.pathOf region.id)),
    ("shmKey", .string region.key),
    ("shmSize", .natural (((session.region? region.id).map Region.size).getD 0)),
    ("dataSize", .natural region.dataSize), ("argCount", .natural argCount),
    ("needsContext", .bool spec.needsContext), ("preloaded", .bool preloaded)] ++
  match context with
  | some (id, _) => if spec.needsContext then [("contextId", .natural id)] else []
  | none => []

def wordField (response : Json) (key : String) : Except DispatchError Nat :=
  match (response.get? key).bind Json.toWord? with
  | some n => .ok n
  | none => .error (.invalidResponse (.missing key response))

def resultOfBytes (bytes : ByteArray) : Except DispatchError ResultNode :=
  match (FlatTree.ofBytes bytes).bind FlatTree.unflatten with
  | .ok root => .ok (.ofFlat root)
  | .error e => .error (.invalidResponse (.tree e))

-- The result as the response describes it; none when the peer wants the call as JSON.
def readResult (region : CallRegion) (response : Json) : Dispatch σ (Option ResultNode) := do
  if (response.get? "fallback").isSome then return none
  match response.get? "json" with
  | some value => return some (.ofJson value)
  | none =>
    let offset ← liftExcept (wordField response "resultOffset")
    let size ← liftExcept (wordField response "resultSize")
    let session ← get
    match session.onMemory (Memory.read region.id offset size) with
    | (.error e, _) => throw (.invalidResponse (.region e))
    | (.ok bytes, _) => return some (← liftExcept (resultOfBytes bytes))
where
  liftExcept {α : Type} : Except DispatchError α → Dispatch σ α
    | .ok a => pure a
    | .error e => throw e

def callRegion (peer : Peer σ) (spec : FunctionSpec) (argCount : Nat) (region : CallRegion)
    (preloaded : Bool) (context : CallContext) : Dispatch σ (Option ResultNode) := do
  modify (·.count fun counts => { counts with region := counts.region + 1 })
  let session ← get
  let data := Json.ofEntries (session.regionEntries spec argCount region preloaded context)
  readResult region (← sendCall peer "callFunctionShm" data)

end PluginBridge.Session
