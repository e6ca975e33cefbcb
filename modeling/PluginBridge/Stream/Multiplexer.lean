import PluginBridge.Stream.Error
import PluginBridge.Stream.Message
import PluginBridge.Text.Lines
namespace PluginBridge

inductive WriteHalf where
  | working
  | dropped
  | broken
deriving DecidableEq, Inhabited, Repr

-- The side of the stream that sends commands. `waiting` are the ids of the commands
-- without response, `delivered` the outcomes that nobody took yet, `sent` all lines
-- that were written. Once the other side has ended its stream it is closed.
structure Multiplexer where
  lastId : Nat
  waiting : List Nat
  delivered : List (Nat × Except StreamError Json)
  write : WriteHalf
  closed : Bool
  sent : Array String
deriving Inhabited

namespace Multiplexer

def new : Multiplexer := ⟨0, [], [], .working, false, #[]⟩

def writeLine (line : String) (mux : Multiplexer) : Except StreamError Unit × Multiplexer :=
  match mux.write with
  | .working => (.ok (), { mux with sent := mux.sent.push line })
  | .dropped => (.error .disconnected, mux)
  | .broken => (.error .broken, mux)

def nextId (mux : Multiplexer) : Nat × Multiplexer :=
  (mux.lastId + 1, { mux with lastId := mux.lastId + 1 })

def forget (id : Nat) (mux : Multiplexer) : Multiplexer :=
  { mux with waiting := mux.waiting.filter (· != id) }

-- Writes a command that waits for its response. The id is used up even when the stream
-- is closed.
def start (command : String) (data : Json) (mux : Multiplexer) : Except StreamError Nat × Multiplexer :=
  let (id, mux) := mux.nextId
  if mux.closed then (.error .disconnected, mux)
  else
    let mux := { mux with waiting := mux.waiting ++ [id] }
    match mux.writeLine (Request.line ⟨id, command, data⟩) with
    | (.ok _, mux) => (.ok id, mux)
    | (.error e, mux) => (.error e, mux.forget id)

def complete (id : Nat) (outcome : Except StreamError Json) (mux : Multiplexer) : Multiplexer :=
  if mux.waiting.contains id then
    { mux.forget id with delivered := mux.delivered ++ [(id, outcome)] }
  else mux

def answer (id : Nat) (outcome : Except String Json) (mux : Multiplexer) : Multiplexer :=
  (mux.writeLine (Response.ofOutcome id outcome).line).2

def close (mux : Multiplexer) : Multiplexer := { mux with closed := true, waiting := [] }

def refusal : String := "host does not accept commands"

def unknownCallback (name : String) : String := "Unknown callback: " ++ name

def receive (line : String) (mux : Multiplexer) : Option Callback × Multiplexer :=
  if mux.closed || Text.isBlank line then (none, mux)
  else
    match Message.parse? line with
    | some (.response response) =>
      (none, mux.complete response.id (response.outcome.mapError StreamError.remote))
    | some (.callback callback) => (some callback, mux)
    | some (.request request) => (none, mux.answer request.id (.error refusal))
    | none =>
      match Message.responseId? line with
      | some id => (none, mux.complete id (.error .malformed))
      | none => (none, mux)

def finish (id : Nat) (command : String) (timeout : Duration) (mux : Multiplexer) :
    Except StreamError Json × Multiplexer :=
  match mux.delivered.find? fun entry => entry.1 == id with
  | some (_, outcome) =>
    (outcome, { mux with delivered := mux.delivered.filter fun entry => entry.1 != id })
  | none =>
    if mux.waiting.contains id then (.error (.timeout command timeout), mux.forget id)
    else (.error .disconnected, mux)

def notify (command : String) (data : Json) (mux : Multiplexer) : Except StreamError Nat × Multiplexer :=
  if mux.closed then (.error .disconnected, mux)
  else
    let (id, mux) := mux.nextId
    match mux.writeLine (Request.line ⟨id, command, data⟩) with
    | (.ok _, mux) => (.ok id, mux)
    | (.error e, mux) => (.error e, mux)

def closeWriter (mux : Multiplexer) : Multiplexer := { mux with write := .dropped }

-- From now on writing fails. There is nothing to fail once the writer has been dropped.
def breakWriter (mux : Multiplexer) : Multiplexer :=
  if mux.write = .dropped then mux else { mux with write := .broken }

end Multiplexer
end PluginBridge
