import PluginBridge.Peer.RegionCall
import PluginBridge.Peer.Service
import PluginBridge.Peer.Variable
import PluginBridge.Protocol.Peer
import PluginBridge.Text.Blank
namespace PluginBridge

-- A peer that does what it is told, to see what a host makes of it.

inductive Manner where
  | first
  | list
  | count
  | tooLarge
  | silent
  | refuse
deriving DecidableEq, Inhabited, Repr

inductive Rule where
  | respond (outcome : Except String Json)
  | result (result : ResultNode)
  | sum
  | echo (index : Nat)
  | found
  | hang
  | leave
  | raw (texts : List String)
  | callback (name data : String) (next : Rule)
  | serve (manner : Manner)

inductive Sight where
  | command (request : Request)
  | arguments (args : List ResultNode)
  | answer (answer : Json)
  | place (preloaded : PreloadedVariable) (place : PeerVariable.Place) (regionSize : Nat)
  | refusal (text : String)
  | request (request : ProtocolRequest) (preloaded : List PreloadedVariable)

structure Script where
  rules : List (String × List Rule)
  served : List (ProtocolPeer × Manner)
  seen : List Sight

namespace Script

def ofRules (rules : List (String × List Rule)) : Script := ⟨rules, [], []⟩

def see (sight : Sight) (script : Script) : Script := { script with seen := script.seen ++ [sight] }

def serveToo (peer : ProtocolPeer) (manner : Manner) (script : Script) : Script :=
  { script with served := script.served ++ [(peer, manner)] }

def nextRule (command : String) (script : Script) : Option Rule × Script :=
  match List.lookup command script.rules with
  | some (rule :: next :: rest) =>
    (some rule, { script with rules := (command, next :: rest) :: script.rules })
  | some [rule] => (some rule, script)
  | _ => (none, script)

structure Task where
  request : Request
  args : List ResultNode
  call : Option RegionCall

def Task.contextText (task : Task) : String :=
  match (task.request.data.get "contextId").toWord? with
  | some id => id.repr
  | none => "null"

def Task.idText (task : Task) : String := task.request.id.repr

def Task.respond (task : Task) (outcome : Except String Json) : Reaction Script :=
  .respond task.request.id outcome .rest

def Task.answer (task : Task) (result : ResultNode) : Reaction Script :=
  match task.call with
  | none => task.respond (.ok result.toJson)
  | some call =>
    .onMemory (call.reply result.toNode) fun reply => task.respond (reply.mapError PeerError.message)

def total (args : List ResultNode) : Binary64 :=
  (args.filterMap ResultNode.toFloat?).foldl Binary64.add .zero

def lastUnit (args : List ResultNode) : String :=
  (((args.filterMap fun arg => (arg.field? "unit").bind Json.toString?).filter (· ≠ "")).getLast?).getD ""

def attach (path : String) (layout : Layout) : ProtocolAccess ProtocolPeer := do
  let peer ← ProtocolPeer.attach path layout
  peer.markReady
  return peer

def Task.serve (task : Task) (manner : Manner) : Reaction Script :=
  let data := task.request.data
  match Layout.ofJson (data.get "layout") with
  | .error fault => task.respond (.error fault.message)
  | .ok layout =>
    .onMemory (attach (((data.get "path").toString?).getD "") layout) fun outcome =>
      match outcome with
      | .error e => task.respond (.error e.message)
      | .ok peer =>
        .modify (serveToo peer manner) (task.respond (.ok (.ofEntries [("polling", .bool true)])))

def readAnswer (outcome : Except String Json) (next : Option ResultNode → Reaction Script) :
    Reaction Script :=
  match outcome with
  | .error text => .modify (see (.refusal text)) (next none)
  | .ok answer =>
    match PeerVariable.placeOf? answer with
    | none => .modify (see (.answer answer)) (next (PeerVariable.inlineValue? answer))
    | some place =>
      .onMemory (PeerVariable.read place) fun outcome =>
        match outcome with
        | .error text => .modify (see (.refusal text)) (next none)
        | .ok (var, size) => .modify (see (.place var place size)) (next (some (.ofWire var.value)))

def rawLines (task : Task) (text : String) : List String :=
  Text.split (· == '\n') (text.replace "$ID" task.idText)

def follow (task : Task) : Rule → Option ResultNode → Reaction Script
  | .respond outcome, _ => task.respond outcome
  | .result result, _ => task.answer result
  | .sum, _ => task.answer (.dimension (total task.args) (lastUnit task.args))
  | .echo index, _ => task.answer (task.args.getD index .null)
  | .found, value => task.answer (value.getD .null)
  | .hang, _ => .rest
  | .leave, _ => .leave
  | .raw texts, _ => (texts.flatMap (rawLines task)).foldr Reaction.write .rest
  | .callback name data next, _ =>
    .ask name ((Json.parse? (data.replace "$CTX" task.contextText)).getD .null) fun outcome =>
      readAnswer outcome fun value => follow task next value
  | .serve manner, _ => task.serve manner

-- A command without rule is refused; what came with it is not looked at.
def handle (request : Request) : Reaction Script :=
  .modify (see (.command request)) <| .onState (nextRule request.command) fun rule =>
    match rule with
    | none => .respond request.id (.error ("unexpected " ++ request.command)) .rest
    | some rule =>
      if request.command = "callFunctionShm" then
        .onMemory (RegionCall.ofJson request.data) fun outcome =>
          match outcome with
          | .error e => .respond request.id (.error e.message) .rest
          | .ok call =>
            .modify (see (.arguments call.resultNodes))
              (follow ⟨request, call.resultNodes, some call⟩ rule none)
      else
        let args := (((request.data.get "args").toArray?).getD []).map ResultNode.ofJson
        follow ⟨request, args, none⟩ rule none

def answerRequest (peer : ProtocolPeer) (manner : Manner) (args : List WireValue) : ProtocolAccess Unit :=
  match manner, args with
  | .silent, _ => pure ()
  | .list, args => peer.respond (.expression args)
  | .count, args => peer.respond (.number (Binary64.ofNat args.length))
  | .tooLarge, _ => peer.respond (.keyword (String.ofList (List.replicate 1048576 'x')))
  | .first, arg :: _ => peer.respond arg
  | _, _ => peer.respondError "expected an argument"

def pollOne (entry : ProtocolPeer × Manner) : EStateM ProtocolError Memory (Option Sight) := do
  let (peer, manner) := entry
  match ← peer.pollRequest with
  | none => return none
  | some request =>
    let vars ← ProtocolRegion.outcome peer.preloaded
    answerRequest peer manner request.args
    return some (.request request (vars.toOption.getD []))

def pollAll : List (ProtocolPeer × Manner) → Script → Memory → Script × Memory
  | [], script, memory => (script, memory)
  | entry :: rest, script, memory =>
    match pollOne entry memory with
    | .ok (some sight) memory => pollAll rest (script.see sight) memory
    | .ok none memory => pollAll rest script memory
    | .error _ memory => pollAll rest script memory

def service : Service Script := ⟨handle, fun script memory => pollAll script.served script memory⟩

end Script
end PluginBridge
