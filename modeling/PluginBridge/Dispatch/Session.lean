import PluginBridge.Call.Cache
import PluginBridge.Context.Frames
import PluginBridge.Dispatch.Error
import PluginBridge.Peer.Machine
import PluginBridge.Protocol.Host
import PluginBridge.Region.Manager
import PluginBridge.Settings
import PluginBridge.Stream.Multiplexer
namespace PluginBridge

structure CallCounts where
  json : Nat
  region : Nat
  protocol : Nat
  fallbacks : Nat
deriving DecidableEq, Inhabited, Repr

structure ProtocolLink where
  key : String
  host : ProtocolHost
deriving Inhabited

-- How far the host has come with a callback that asks for a variable: the variable is found, or
-- it has a region under this key and an answer that says so.
inductive PendingVariable where
  | found (callback : Nat) (definition : Variable)
  | placed (callback : Nat) (key : String) (answer : Json)

-- The host between two steps, with the peer that it talks to. `passedOn` of the lines
-- that it wrote have reached the peer, `inbox` came back and was not read yet, and
-- `serving` is what was read last if it is not answered yet. Of the calls in flight those
-- that have a context are known by the ids sent along with them.
structure Session (σ : Type) where
  settings : Settings
  store : Store
  stream : Multiplexer
  peer : σ
  passedOn : Nat
  inbox : List PeerOutput
  serving : Option PendingVariable
  protocol : Option ProtocolLink
  cache : ResultCache
  active : List (Nat × EvalContext)
  lastContext : Nat
  inFlight : Nat
  preloaded : Option Fingerprint
  variableKeys : List String
  servesVariables : Bool
  counts : CallCounts

abbrev Dispatch (σ α : Type) := EStateM DispatchError (Session σ) α

namespace Session
variable {σ : Type}

def start (settings : Settings) (peer : σ) : Session σ where
  settings := settings
  store := .new settings.capacity
  stream := .new
  peer := peer
  passedOn := 0
  inbox := []
  serving := none
  protocol := none
  cache := .empty
  active := []
  lastContext := 0
  inFlight := 0
  preloaded := none
  variableKeys := []
  servesVariables := true
  counts := ⟨0, 0, 0, 0⟩

def onStore {α : Type} (action : StoreAccess α) (session : Session σ) :
    Except RegionError α × Session σ :=
  match action session.store with
  | .ok a store => (.ok a, { session with store := store })
  | .error e store => (.error e, { session with store := store })

def onMemory {ε α : Type} (action : EStateM ε Memory α) (session : Session σ) :
    Except ε α × Session σ :=
  match action session.store.memory with
  | .ok a memory => (.ok a, { session with store := { session.store with memory := memory } })
  | .error e memory => (.error e, { session with store := { session.store with memory := memory } })

def destroyRegion (key : String) (session : Session σ) : Session σ :=
  (session.onStore (Store.destroy key)).2

def destroyRegions (keys : List String) (session : Session σ) : Session σ :=
  keys.foldl (fun session key => session.destroyRegion key) session

def region? (session : Session σ) (id : RegionId) : Option Region := session.store.memory.region? id

def keyOf (session : Session σ) (id : RegionId) : String := ((session.region? id).map Region.key).getD ""

def pathOf (session : Session σ) (id : RegionId) : String :=
  (((session.region? id).bind fun region => session.store.memory.file? region.file).map
    BackingFile.path).getD ""

-- Makes a region that begins with the bytes. A region that cannot be filled is ended.
def createFilled (size : Nat) (bytes : ByteArray) (session : Session σ) :
    Except RegionError RegionId × Session σ :=
  match session.onStore (Store.create size) with
  | (.error e, session) => (.error e, session)
  | (.ok id, session) =>
    match session.onMemory (do Memory.write id 0 bytes; Memory.sync id) with
    | (.ok _, session) => (.ok id, session)
    | (.error e, session) => (.error e, session.destroyRegion (session.keyOf id))

def count (change : CallCounts → CallCounts) (session : Session σ) : Session σ :=
  { session with counts := change session.counts }

def hasProtocol (session : Session σ) : Bool := session.protocol.isSome

def statistics (session : Session σ) : List Nat :=
  let counts := session.counts
  [counts.json, counts.region, counts.protocol, counts.fallbacks, session.cache.hits]

def beginCompilation (session : Session σ) : Session σ :=
  { session with cache := session.cache.clear, preloaded := none }

def invalidate (function : String) (session : Session σ) : Nat × Session σ :=
  let (removed, cache) := session.cache.invalidate function
  (removed, { session with cache := cache })

def destroyAll (session : Session σ) : Session σ := { session with store := session.store.destroyAll }

end Session
end PluginBridge
