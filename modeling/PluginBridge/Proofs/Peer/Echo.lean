import PluginBridge.Peer.Echo
import PluginBridge.Proofs.Peer.Service
import PluginBridge.Proofs.Stream.Lines
namespace PluginBridge

namespace Reaction
variable {σ ε α : Type} {id : Nat} {state after : σ} {memory middle later : Memory} {result : Json}

theorem respond_answers (id : Nat) (state : σ) (memory : Memory) (result : Json) :
    (respond id (.ok result) (.rest : Reaction σ)).Answers id state memory result state memory :=
  fun _ => rfl

theorem modify_answers {change : σ → σ} {next : Reaction σ}
    (answers : next.Answers id (change state) memory result after later) :
    (modify change next).Answers id state memory result after later :=
  answers

theorem onState_answers {action : σ → α × σ} {next : α → Reaction σ} {a : α} {changed : σ}
    (acted : action state = (a, changed)) (answers : (next a).Answers id changed memory result after later) :
    (onState action next).Answers id state memory result after later := by
  intro channel
  rw [← answers channel, onState, Conversation.play]
  simp only [acted]
  rfl

theorem onMemory_answers {action : EStateM ε Memory α} {next : Except ε α → Reaction σ} {a : α}
    (acted : action memory = .ok a middle)
    (answers : (next (.ok a)).Answers id state middle result after later) :
    (onMemory action next).Answers id state memory result after later := by
  intro channel
  rw [← answers channel, onMemory, Conversation.play]
  simp only [acted]
  rfl

end Reaction

namespace Echo
open Reaction (respond_answers onState_answers onMemory_answers modify_answers)
variable {id : Nat} {state : EchoState} {memory middle later : Memory} {data result : Json}

def respondTo (id : Nat) : Respond := fun outcome => .respond id outcome .rest

theorem echo_demand (args : List ResultNode) : demand "echo" args = .outcome (.ok (args.headD .null)) := rfl

theorem ping_answers (id : Nat) (state : EchoState) (memory : Memory) (data : Json) :
    (handle ⟨id, "ping", data⟩).Answers id state memory (.string "pong") state memory :=
  respond_answers id state memory _

theorem callFunction_answers {arg : Json} (name : text data "name" = "echo")
    (args : data.get "args" = .array [arg]) (id : Nat) (state : EchoState) (memory : Memory) :
    (handle ⟨id, "callFunction", data⟩).Answers id state memory (ResultNode.ofJson arg).toJson state
      memory := by
  have handled : handle ⟨id, "callFunction", data⟩ = callJson data (respondTo id) := by
    simp only [handle]
    rfl
  have called : callJson data (respondTo id) = .respond id (.ok (ResultNode.ofJson arg).toJson) .rest := by
    simp only [callJson, run, name, args, echo_demand]
    rfl
  rw [handled, called]
  exact respond_answers id state memory _

theorem callRegion_answers {call : RegionCall} {arg : FlatNode}
    (read : RegionCall.ofJson data memory = .ok call middle) (name : call.name = "echo")
    (unpreloaded : call.preloaded = false) (args : call.args = [arg])
    (replied : call.reply (ResultNode.ofFlat arg).toNode middle = .ok result later) (id : Nat)
    (state : EchoState) :
    (handle ⟨id, "callFunctionShm", data⟩).Answers id state memory result state later := by
  have handled : handle ⟨id, "callFunctionShm", data⟩ = callRegion data (respondTo id) := by
    simp only [handle]
    rfl
  have ran : (runInRegion call [] (respondTo id)).Answers id state middle result state later := by
    have finished : runInRegion call [] (respondTo id) =
        replyIn call (respondTo id) (.ok (ResultNode.ofFlat arg)) := by
      simp only [runInRegion, run, name, RegionCall.resultNodes, args, echo_demand]
      rfl
    have last : (respondTo id (.ok result)).Answers id state later result state later :=
      respond_answers id state later result
    rw [finished, replyIn]
    exact onMemory_answers replied last
  rw [handled]
  refine onMemory_answers read fun channel => ?_
  rw [Conversation.play]
  cases state.protocol with
  | none => exact ran channel
  | some protocol =>
    simp only [unpreloaded]
    exact ran channel

theorem registerFunction_answers {protocol : EchoProtocol} {name : String} {number : Nat}
    (named : (data.get "name").toString? = some name) (numbered : (data.get "id").toWord? = some number)
    (serving : state.protocol = some protocol) (id : Nat) (memory : Memory) :
    (handle ⟨id, "registerFunction", data⟩).Answers id state memory .null
      { state with
        protocol := some { protocol with names := (UInt32.ofNat number, name) :: protocol.names } }
      memory := by
  have handled : handle ⟨id, "registerFunction", data⟩ = .onState (registerFunction data) (respondTo id) := by
    simp only [handle]
    rfl
  have registered : registerFunction data state = (.ok .null, { state with
      protocol := some { protocol with names := (UInt32.ofNat number, name) :: protocol.names } }) := by
    simp only [registerFunction, named, numbered, serving]
  rw [handled]
  exact onState_answers registered (respond_answers id _ memory .null)

theorem initProtocol_answers {layout : Layout} {path : String} {peer : ProtocolPeer}
    (laid : Layout.ofJson (data.get "layout") = .ok layout)
    (placed : (data.get "path").toString? = some path)
    (attached : attach path layout memory = .ok peer later) (id : Nat) (state : EchoState) :
    (handle ⟨id, "initProtocol", data⟩).Answers id state memory
      (.ofEntries [("polling", .bool true)]) (serve peer (stop state)) later := by
  have handled : handle ⟨id, "initProtocol", data⟩ = initProtocol data (respondTo id) := by
    simp only [handle]
    rfl
  have last : (Reaction.modify (serve peer) (respondTo id (.ok (.ofEntries [("polling", .bool true)])))).Answers
      id (stop state) later (.ofEntries [("polling", .bool true)]) (serve peer (stop state)) later :=
    modify_answers (respond_answers id _ later _)
  rw [handled, initProtocol, laid, placed]
  exact modify_answers (onMemory_answers attached last)

theorem poll_answers {protocol : EchoProtocol} {number : UInt32} {value : WireValue}
    (serving : state.protocol = some protocol) (polling : protocol.polling = true)
    (taken : protocol.peer.pollRequest memory = .ok (some ⟨number, [value]⟩) middle)
    (named : List.lookup number protocol.names = some "echo")
    (supported : WireValue.supports (ResultNode.ofWire value).toNode = true)
    (responded : protocol.peer.respond (.ofNode (ResultNode.ofWire value).toNode) middle = .ok () later) :
    poll state memory = (state, later) := by
  have outcome : protocolOutcome protocol ⟨number, [value]⟩ state = (.ok (.ofWire value), state) := by
    simp only [protocolOutcome, named, echo_demand]
    rfl
  have sent : sendOutcome protocol.peer (.ok (.ofWire value)) middle = .ok () later := by
    simp only [sendOutcome, supported, if_true, responded]
  simp only [poll, serving, polling, taken, outcome, sent]
  rfl

end Echo

namespace Echo
variable {name : String} {answer data : Json} {memory middle : Memory} {found : Found} {asked : Nat}

def treeOf? (found : Found) : Option Node := found.map fun (value, _) => value.toNode

def Takes (answer : Json) (memory : Memory) (found : Found) : Prop :=
  ∀ (next : Except String Found → Reaction EchoState) (ended : Bool) (state : EchoState) (channel : Channel),
    ∃ later, Conversation.play ended (findInAnswer answer next) state channel memory =
      Conversation.play ended (next (.ok found)) state channel later

def Hears (asked : Nat) (line : String) (memory : Memory) (found : Found) : Prop :=
  ∀ (next : Except String Found → Reaction EchoState) (ended : Bool) (state : EchoState) (channel : Channel),
    channel.input = [.text line] →
      ∃ later, Conversation.resume ended ⟨.asking asked (goOn next), state, channel, memory⟩ =
        Conversation.play ended (next (.ok found)) state { channel with input := [] } later

theorem takes_place {place : PeerVariable.Place} {var : PreloadedVariable} {size : Nat}
    (placed : PeerVariable.placeOf? answer = some place)
    (read : PeerVariable.read place memory = .ok (var, size) middle) :
    Takes answer memory (some (.ofWire var.value, "callback")) := by
  intro next ended state channel
  refine ⟨middle, ?_⟩
  rw [findInAnswer, placed]
  simp only [Reaction.onMemory, Conversation.play, read]
  rfl

theorem takes_inline (inline : PeerVariable.placeOf? answer = none) (memory : Memory) :
    Takes answer memory ((PeerVariable.inlineValue? answer).map fun value => (value, "callback")) := by
  intro next ended state channel
  exact ⟨memory, by rw [findInAnswer, inline]⟩

theorem Takes.hears (takes : Takes answer memory found) (small : asked < wordLimit) (readable : answer.Readable)
    (shallow : answer.levels < Json.maxLevels) : Hears asked (Response.ok asked answer).line memory found := by
  intro next ended state channel waiting
  obtain ⟨response, parsed, rfl, outcome⟩ := Message.parse_result small readable shallow
  have trimmed : Text.trim (Response.ok response.id answer).line = (Response.ok response.id answer).line :=
    Json.trim_renderFields _
  have heard : Conversation.answerOf response.id ended channel = (some (.ok answer), { channel with input := [] }) := by
    simp [Conversation.answerOf, Channel.awaitAnswer, waiting, Channel.await, trimmed, parsed, Channel.outcomeOf?, outcome]
  obtain ⟨later, played⟩ := takes next ended state { channel with input := [] }
  refine ⟨later, ?_⟩
  rw [← played]
  simp only [Conversation.resume, heard, goOn]

end Echo
end PluginBridge
