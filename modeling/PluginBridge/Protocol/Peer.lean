import PluginBridge.Protocol.Control
import PluginBridge.Wire.Preload
namespace PluginBridge

structure ProtocolRequest where
  functionId : UInt32
  args : List WireValue
deriving Inhabited, Repr

structure ProtocolPeer where
  block : ProtocolRegion
deriving DecidableEq, Inhabited, Repr

namespace ProtocolPeer
open ProtocolRegion (access codec)

def attach (path : String) (layout : Layout) : ProtocolAccess ProtocolPeer := do
  let region ← access (Memory.attach path)
  return ⟨← ProtocolRegion.ofRegion region layout⟩

def markReady (peer : ProtocolPeer) : ProtocolAccess Unit := do
  peer.block.set peer.block.layout.fields.peerReady 1
  peer.block.syncControl

def shutdownRequested (peer : ProtocolPeer) : ProtocolAccess Bool := do
  peer.block.syncControl
  return (← peer.block.get peer.block.layout.fields.shutdown) == 1

-- An argument starts where its slot says and may take all that is left of its section.
def readArg (peer : ProtocolPeer) (index : Nat) : ProtocolAccess WireValue := do
  let layout := peer.block.layout
  let offset ← access (Memory.readU32 peer.block.region (layout.argSlot index))
  ProtocolRegion.checkWithin .argument offset.toNat 1 layout.argsOffset layout.argsSize
  peer.block.view offset.toNat (layout.argsOffset + layout.argsSize - offset.toNat) WireValue.ofBytes

def readArgs (peer : ProtocolPeer) : Nat → Nat → ProtocolAccess (List WireValue)
  | 0, _ => pure []
  | count + 1, index => do
    let first ← peer.readArg index
    let rest ← peer.readArgs count (index + 1)
    return first :: rest

-- Takes the request that is waiting, if there is one. The request counts as taken also
-- when its arguments cannot be read.
def pollRequest (peer : ProtocolPeer) : ProtocolAccess (Option ProtocolRequest) := do
  let fields := peer.block.layout.fields
  peer.block.syncControl
  let ready ← peer.block.get fields.requestReady
  if ready ≠ 1 then return none
  let id ← peer.block.get fields.functionId
  let count ← peer.block.get fields.argCount
  let args ←
    if fields.maxArgs < count.toNat then pure (.error (.tooManyArguments count.toNat fields.maxArgs))
    else ProtocolRegion.outcome (peer.readArgs count.toNat 0)
  peer.block.set fields.requestReady 0
  match args with
  | .ok args => return some ⟨id, args⟩
  | .error e => throw e

def waitRequest (peer : ProtocolPeer) : ProtocolAccess (Option ProtocolRequest) := do
  match ← peer.pollRequest with
  | some request => return some request
  | none =>
    let _ ← peer.shutdownRequested
    return none

def signalResponse (peer : ProtocolPeer) : ProtocolAccess Unit := do
  peer.block.set peer.block.layout.fields.responseReady 1
  peer.block.syncControl

def respondError (peer : ProtocolPeer) (text : String) : ProtocolAccess Unit := do
  let layout := peer.block.layout
  let bytes := text.toUTF8.extract 0 (min text.utf8ByteSize layout.errorSize)
  access (Memory.write peer.block.region layout.errorOffset bytes)
  peer.block.set layout.fields.errorOffset (← codec (Bytes.word32? layout.errorOffset))
  peer.block.set layout.fields.errorSize (← codec (Bytes.word32? bytes.size))
  peer.block.set layout.fields.errorFlag 1
  peer.signalResponse

def respond (peer : ProtocolPeer) (value : WireValue) : ProtocolAccess Unit := do
  let bytes ← codec value.encode
  let layout := peer.block.layout
  if layout.resultsSize < bytes.size then
    peer.respondError
      s!"result of {bytes.size} bytes exceeds the {layout.resultsSize} byte result section"
  else
    access (Memory.write peer.block.region layout.resultsOffset bytes)
    access (Memory.syncRange peer.block.region layout.resultsOffset (max bytes.size 1))
    peer.block.set layout.fields.resultOffset (← codec (Bytes.word32? layout.resultsOffset))
    peer.block.set layout.fields.resultSize (← codec (Bytes.word32? bytes.size))
    peer.block.set layout.fields.errorFlag 0
    peer.signalResponse

def preloaded (peer : ProtocolPeer) : ProtocolAccess (List PreloadedVariable) :=
  peer.block.view peer.block.layout.preloadOffset peer.block.layout.preloadSize Preload.decode

end ProtocolPeer
end PluginBridge
