import PluginBridge.Call.Function
import PluginBridge.Numeric.Natural
import PluginBridge.Text.Blank
import PluginBridge.Text.Duration
namespace PluginBridge

structure Settings where
  mode : CallMode
  command : String
  arguments : List String
  callTimeout : Duration
  protocolTimeout : Duration
  pollMicros : Nat
  startupTimeout : Duration
  shutdownGrace : Duration
  cacheResults : Bool
  preloadNames : List String
  capacity : Option Nat
  logFilter : String
deriving DecidableEq, Inhabited, Repr

namespace Settings

def commonVariables : List String :=
  ["@primary", "@secondary", "@base-color", "@text-color", "@background-color", "@font-family",
    "@font-size", "@base-font-size", "@line-height", "@spacing", "@border-radius", "@breakpoint"]

def standard : Settings where
  mode := .binary
  command := "node"
  arguments := []
  callTimeout := ⟨30000⟩
  protocolTimeout := ⟨5000⟩
  pollMicros := 50
  startupTimeout := ⟨10000⟩
  shutdownGrace := ⟨2000⟩
  cacheResults := true
  preloadNames := commonVariables
  capacity := none
  logFilter := "less_bridge=info"

def switchOfText? (text : String) : Option Bool :=
  match String.ofList (text.toList.map Char.toLower) with
  | "1" | "true" | "on" => some true
  | "0" | "false" | "off" => some false
  | _ => none

-- Settings from environment variables. One that is missing or cannot be read leaves the
-- standard value in place.
def ofEnvironment (lookup : String → Option String) : Settings :=
  let read := fun {α : Type} (name : String) (ofText? : String → Option α) (standard : α) =>
    ((lookup name).bind ofText?).getD standard
  let millis := fun (name : String) (standard : Duration) =>
    read name (fun text => (wordOfText? text).map Duration.mk) standard
  { mode := read "LESS_BRIDGE_IPC_MODE" CallMode.ofText? standard.mode
    command := read "LESS_BRIDGE_NODE" some standard.command
    arguments := read "LESS_BRIDGE_PEER_ARGS" (some ∘ Text.words) standard.arguments
    callTimeout := millis "LESS_BRIDGE_CALL_TIMEOUT_MS" standard.callTimeout
    protocolTimeout := millis "LESS_BRIDGE_PROTOCOL_TIMEOUT_MS" standard.protocolTimeout
    pollMicros := read "LESS_BRIDGE_POLL_INTERVAL_US" wordOfText? standard.pollMicros
    startupTimeout := millis "LESS_BRIDGE_STARTUP_TIMEOUT_MS" standard.startupTimeout
    shutdownGrace := millis "LESS_BRIDGE_SHUTDOWN_GRACE_MS" standard.shutdownGrace
    cacheResults := read "LESS_BRIDGE_CACHE" switchOfText? standard.cacheResults
    preloadNames := read "LESS_BRIDGE_PRELOAD_VARS"
      (fun text => some (((Text.split (· == ',') text).map Text.trim).filter (· ≠ "")))
      standard.preloadNames
    capacity := read "LESS_BRIDGE_SHM_LIMIT" (fun text => (wordOfText? text).map some) standard.capacity
    logFilter := ((lookup "RUST_LOG").or (lookup "LESS_BRIDGE_LOG")).getD standard.logFilter }

end Settings
end PluginBridge
