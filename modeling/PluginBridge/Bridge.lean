import PluginBridge.Dispatch.Call
import PluginBridge.Plugin.Manifest
namespace PluginBridge

inductive HostError where
  | spawn
  | notReady (reason : StreamError)
  | stream (error : StreamError)
  | manifest
deriving DecidableEq, Repr

def HostError.message : HostError → String
  | .spawn => "Failed to start plugin host"
  | .notReady reason => "Plugin host did not become ready: " ++ reason.message
  | .stream e => e.message
  | .manifest => "Invalid plugin manifest"

-- All that a compiler needs to call plugins: the talk with the peer that runs them and
-- the scopes that they are registered in.
structure Bridge (σ : Type) where
  session : Session σ
  scopes : Hierarchy
  shutDown : Bool

namespace Bridge
variable {σ : Type}

def exchange (peer : Peer σ) (session : Session σ) : Session σ := session.exchange peer peer.pace

def endPeer (peer : Peer σ) (session : Session σ) : Session σ :=
  let (_, stream) := session.stream.notify "shutdown" .null
  let session := exchange peer { session with stream := stream.closeWriter }
  let session := exchange peer (session.hear peer .ended)
  { session with stream := session.stream.close }

-- Starts with a peer that runs and waits until it answers. With shared memory the
-- persistent protocol is offered as well; calls do without it when that fails.
def start (settings : Settings) (peer : Peer σ) (launched : Option σ) : Except HostError (Bridge σ) :=
  match launched with
  | none => .error .spawn
  | some state =>
    let session := { Session.start settings state with servesVariables := false }
    match Session.send peer "ping" .null settings.startupTimeout session with
    | .error e _ => .error (.notReady e)
    | .ok _ session =>
      let session := { session with servesVariables := true }
      match settings.mode with
      | .json => .ok ⟨session, .root, false⟩
      | .binary =>
        match Session.initProtocol peer session with
        | .ok _ session => .ok ⟨session, .root, false⟩
        | .error _ session => .ok ⟨session, .root, false⟩

def send (peer : Peer σ) (command : String) (data : Json) (bridge : Bridge σ) :
    Except StreamError Json × Bridge σ :=
  match Session.send peer command data bridge.session.settings.callTimeout bridge.session with
  | .ok result session => (.ok result, { bridge with session := session })
  | .error e session => (.error e, { bridge with session := session })

-- Enters a function into a scope. Results of functions of that name are kept no longer.
def addFunction (scope : Nat) (bridge : Bridge σ) (spec : FunctionSpec) : Bridge σ :=
  { bridge with
    scopes := (bridge.scopes.addFunction scope spec).2
    session := (bridge.session.invalidate spec.name).2 }

def register (scope : Nat) (manifest : Manifest) (bridge : Bridge σ) : Bridge σ :=
  let bridge := manifest.functions.foldl (addFunction scope) bridge
  let scopes := manifest.visitors.foldl (fun tree v => tree.addVisitor scope v) bridge.scopes
  let scopes := manifest.preProcessors.foldl (fun tree p => tree.addPreProcessor scope p) scopes
  let scopes := manifest.postProcessors.foldl (fun tree p => tree.addPostProcessor scope p) scopes
  let scopes := manifest.fileManagers.foldl (fun tree m => tree.addFileManager scope m) scopes
  { bridge with scopes := scopes }

-- A plugin that answers null registers nothing.
def manifestOf? (answer : Json) : Option Manifest :=
  if answer.isNull then some .empty else Manifest.ofJson? answer

def loadPlugin (peer : Peer σ) (scope : Nat) (path : String) (options : Json) (bridge : Bridge σ) :
    Except HostError Manifest × Bridge σ :=
  let data := Json.ofEntries [("path", .string path), ("options", options)]
  match bridge.send peer "loadPlugin" data with
  | (.error e, bridge) => (.error (.stream e), bridge)
  | (.ok answer, bridge) =>
    match manifestOf? answer with
    | none => (.error .manifest, bridge)
    | some manifest => (.ok manifest, bridge.register scope manifest)

def call (peer : Peer σ) (scope : Nat) (name : String) (args : List CallArg)
    (context : Option EvalContext) (bridge : Bridge σ) :
    Option (Except DispatchError ResultNode) × Bridge σ :=
  match bridge.scopes.lookupFunction? scope name with
  | none => (none, bridge)
  | some bound =>
    match Session.call peer bound.spec bound.origin args context bridge.session with
    | .ok result session => (some (.ok result), { bridge with session := session })
    | .error e session => (some (.error e), { bridge with session := session })

def beginCompilation (bridge : Bridge σ) : Bridge σ :=
  { bridge with session := bridge.session.beginCompilation }

def shutdown (peer : Peer σ) (bridge : Bridge σ) : Bridge σ :=
  let session := bridge.session.shutdownProtocol
  let session := if bridge.shutDown then session else endPeer peer session
  { bridge with session := session.destroyAll, shutDown := true }

def hasPeer (bridge : Bridge σ) : Bool := !bridge.shutDown

def isRunning (bridge : Bridge σ) : Bool := !bridge.shutDown && !bridge.session.stream.closed

end Bridge
end PluginBridge
