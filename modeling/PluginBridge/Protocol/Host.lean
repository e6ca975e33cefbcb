import PluginBridge.Protocol.Control
import PluginBridge.Text.Lossy
import PluginBridge.Wire.Preload
namespace PluginBridge

-- The host's end: what it staged so far and the ids it gave to functions.
structure ProtocolHost where
  block : ProtocolRegion
  argCount : Nat
  argCursor : Nat
  functions : List (String × UInt32)
  timeout : Duration
deriving Inhabited, Repr

namespace ProtocolHost
open ProtocolRegion (access codec outcome fromOutcome)

def new (block : ProtocolRegion) (timeout : Duration) : ProtocolHost := ⟨block, 0, 0, [], timeout⟩

def functionId? (host : ProtocolHost) (name : String) : Option UInt32 :=
  (host.functions.find? fun entry => entry.1 == name).map Prod.snd

-- The id of a function and whether the name is new. A new name gets one more than the
-- number of names that are registered.
def registerFunction (host : ProtocolHost) (name : String) : (UInt32 × Bool) × ProtocolHost :=
  match host.functionId? name with
  | some id => ((id, false), host)
  | none =>
    let id := UInt32.ofNat (host.functions.length + 1)
    ((id, true), { host with functions := host.functions ++ [(name, id)] })

def unregisterFunction (host : ProtocolHost) (name : String) : Bool × ProtocolHost :=
  ((host.functionId? name).isSome,
    { host with functions := host.functions.filter fun entry => entry.1 != name })

def clearedFields (fields : ControlFields) : List Nat :=
  [fields.requestReady, fields.responseReady, fields.errorFlag, fields.resultOffset,
    fields.resultSize]

def clearSlots (block : ProtocolRegion) : Nat → Nat → ProtocolAccess Unit
  | 0, _ => pure ()
  | count + 1, index => do
    access (Memory.writeU32 block.region (block.layout.argSlot index) 0)
    clearSlots block count (index + 1)

def prepareCall (host : ProtocolHost) (id : UInt32) (count : Nat) : ProtocolAccess ProtocolHost := do
  let fields := host.block.layout.fields
  if fields.maxArgs < count then throw (.tooManyArguments count fields.maxArgs)
  host.block.setAll 0 (clearedFields fields)
  host.block.set fields.functionId id
  host.block.set fields.argCount (← codec (Bytes.word32? count))
  clearSlots host.block fields.maxArgs 0
  return { host with argCount := count, argCursor := 0 }

def writeArg (host : ProtocolHost) (index : Nat) (value : WireValue) :
    ProtocolAccess ProtocolHost := do
  if host.argCount ≤ index then throw (.argumentIndex index host.argCount)
  let bytes ← codec value.encode
  let layout := host.block.layout
  let available := layout.argsSize - host.argCursor
  if available < bytes.size then throw (.sectionFull .arguments bytes.size available)
  let offset := layout.argsOffset + host.argCursor
  access (Memory.write host.block.region offset bytes)
  access (Memory.writeU32 host.block.region (layout.argSlot index) (← codec (Bytes.word32? offset)))
  return { host with argCursor := host.argCursor + bytes.size }

def writeArgs (host : ProtocolHost) :
    Nat → List WireValue → ProtocolAccess (ProtocolHost × Except ProtocolError Unit)
  | _, [] => pure (host, .ok ())
  | index, value :: rest => do
    match ← outcome (host.writeArg index value) with
    | .ok host => writeArgs host (index + 1) rest
    | .error e => return (host, .error e)

-- Writes a whole call. The peer sees nothing of it before the request is signalled. What
-- was written before a failure stays staged.
def stageCall (host : ProtocolHost) (id : UInt32) (args : List WireValue) :
    ProtocolAccess (ProtocolHost × Except ProtocolError Unit) := do
  match ← outcome (host.prepareCall id args.length) with
  | .ok host => host.writeArgs 0 args
  | .error e => return (host, .error e)

def signalRequest (host : ProtocolHost) : ProtocolAccess Unit := do
  let layout := host.block.layout
  if 0 < host.argCursor then
    access (Memory.syncRange host.block.region layout.argsOffset host.argCursor)
  host.block.set layout.fields.requestReady 1
  host.block.syncControl

def waitForResponse (host : ProtocolHost) (timeout : Option Duration) : ProtocolAccess Unit := do
  host.block.syncControl
  let ready ← host.block.get host.block.layout.fields.responseReady
  if ready ≠ 1 then throw (.timeout (timeout.getD host.timeout))

def readResult (host : ProtocolHost) : ProtocolAccess WireValue := do
  let layout := host.block.layout
  let failed ← host.block.get layout.fields.errorFlag
  if failed = 1 then
    let offset ← host.block.get layout.fields.errorOffset
    let size ← host.block.get layout.fields.errorSize
    ProtocolRegion.checkWithin .error offset.toNat size.toNat layout.errorOffset layout.errorSize
    let text ← host.block.view offset.toNat size.toNat fun bytes => .ok (lossyText bytes)
    throw (.peer text)
  else
    let offset ← host.block.get layout.fields.resultOffset
    let size ← host.block.get layout.fields.resultSize
    ProtocolRegion.checkWithin .result offset.toNat size.toNat layout.resultsOffset layout.resultsSize
    host.block.view offset.toNat size.toNat WireValue.ofBytes

def clearResponse (host : ProtocolHost) : ProtocolAccess Unit := do
  host.block.setAll 0 [host.block.layout.fields.requestReady, host.block.layout.fields.responseReady]
  host.block.syncControl

-- Takes the response to a request that was signalled and clears the flags, whatever the
-- response is.
def takeResponse (host : ProtocolHost) : ProtocolAccess WireValue := do
  let result ← outcome do
    host.waitForResponse none
    host.readResult
  let _ ← outcome host.clearResponse
  fromOutcome result

def finishCall (host : ProtocolHost) : ProtocolAccess WireValue := do
  host.signalRequest
  host.takeResponse

def call (host : ProtocolHost) (id : UInt32) (args : List WireValue) :
    ProtocolAccess (ProtocolHost × Except ProtocolError WireValue) := do
  let (host, staged) ← host.stageCall id args
  match staged with
  | .ok _ => return (host, ← outcome host.finishCall)
  | .error e => return (host, .error e)

def preload (host : ProtocolHost) (vars : List PreloadedVariable) : ProtocolAccess Unit := do
  let bytes ← codec (Preload.encode vars)
  let layout := host.block.layout
  if layout.preloadSize < bytes.size then
    throw (.sectionFull .preload bytes.size layout.preloadSize)
  access (Memory.write host.block.region layout.preloadOffset bytes)
  access (Memory.syncRange host.block.region layout.preloadOffset bytes.size)

def readPreloaded (host : ProtocolHost) : ProtocolAccess (List PreloadedVariable) :=
  host.block.view host.block.layout.preloadOffset host.block.layout.preloadSize Preload.decode

def peerReady (host : ProtocolHost) : ProtocolAccess Bool := do
  host.block.syncControl
  return (← host.block.get host.block.layout.fields.peerReady) == 1

def requestShutdown (host : ProtocolHost) : ProtocolAccess Unit := do
  host.block.set host.block.layout.fields.shutdown 1
  host.block.syncControl

end ProtocolHost
end PluginBridge
