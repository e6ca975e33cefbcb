import PluginBridge.Stream.Error
import PluginBridge.Stream.Message
import PluginBridge.Text.Lines
namespace PluginBridge

-- The side of the stream that serves commands: the lines it has not read yet, commands
-- that came while it waited for something else, and the lines that it wrote.
structure Channel where
  input : List StreamLine
  queued : List Request
  lastCallback : Nat
  sent : List String
deriving Inhabited

abbrev ChannelAccess := EStateM StreamError Channel

namespace Channel

def ofInput (input : List StreamLine) : Channel := ⟨input, [], 0, []⟩

def writeLine (line : String) (channel : Channel) : Channel :=
  { channel with sent := channel.sent ++ [line] }

def refusal : String := "peer does not serve callbacks"

def setAside (message : Message) (channel : Channel) : Channel :=
  match message with
  | .request request => { channel with queued := channel.queued ++ [request] }
  | .response _ => channel
  | .callback callback => channel.writeLine (Response.failed callback.id refusal).line

-- Reads lines up to the first message that is wanted; none when the lines end before.
-- A line that is no message is passed over.
def await {α : Type} (wanted : Message → Option α) :
    List StreamLine → Channel → EStateM.Result StreamError Channel (Option α)
  | [], channel => .ok none { channel with input := [] }
  | .garbled :: rest, channel => .error .garbled { channel with input := rest }
  | .text line :: rest, channel =>
    match Message.parse? (Text.trim line) with
    | none => await wanted rest channel
    | some message =>
      match wanted message with
      | some a => .ok (some a) { channel with input := rest }
      | none => await wanted rest (channel.setAside message)

def requestOf? : Message → Option Request
  | .request request => some request
  | _ => none

def outcomeOf? (id : Nat) : Message → Option (Except String Json)
  | .response response => if response.id = id then some response.outcome else none
  | _ => none

def nextRequest : ChannelAccess (Option Request) := fun channel =>
  match channel.queued with
  | request :: rest => .ok (some request) { channel with queued := rest }
  | [] => await requestOf? channel.input channel

def respond (id : Nat) (outcome : Except String Json) : ChannelAccess Unit := fun channel =>
  .ok () (channel.writeLine (Response.ofOutcome id outcome).line)

def ask (name : String) (data : Json) : ChannelAccess Nat := fun channel =>
  let id := channel.lastCallback + 1
  .ok id ({ channel with lastCallback := id }.writeLine (Callback.line ⟨id, name, data⟩))

def awaitAnswer (id : Nat) : ChannelAccess (Option (Except String Json)) := fun channel =>
  await (outcomeOf? id) channel.input channel

def callback (name : String) (data : Json) : ChannelAccess (Except String Json) := do
  match ← awaitAnswer (← ask name data) with
  | some outcome => return outcome
  | none => throw .disconnected

end Channel
end PluginBridge
