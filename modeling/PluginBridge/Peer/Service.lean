import PluginBridge.Peer.Machine
import PluginBridge.Stream.Channel
namespace PluginBridge

-- What a peer does about one command: it writes lines, asks the host, looks at its own
-- state and at shared memory, changes both, and at last rests or leaves.
inductive Reaction (σ : Type) where
  | rest
  | leave
  | write (line : String) (next : Reaction σ)
  | ask (name : String) (data : Json) (answered : Except String Json → Reaction σ)
  | inspect (look : σ → Memory → Reaction σ)
  | update (state : σ) (memory : Memory) (next : Reaction σ)

namespace Reaction
variable {σ : Type}

def respond (id : Nat) (outcome : Except String Json) (next : Reaction σ) : Reaction σ :=
  .write (Response.ofOutcome id outcome).line next

def modify (change : σ → σ) (next : Reaction σ) : Reaction σ :=
  .inspect fun state memory => .update (change state) memory next

def onState {α : Type} (action : σ → α × σ) (next : α → Reaction σ) : Reaction σ :=
  .inspect fun state memory =>
    let (a, state) := action state
    .update state memory (next a)

def onMemory {ε α : Type} (action : EStateM ε Memory α) (next : Except ε α → Reaction σ) : Reaction σ :=
  .inspect fun state memory =>
    match action memory with
    | .ok a memory => .update state memory (next (.ok a))
    | .error e memory => .update state memory (next (.error e))

end Reaction

-- A peer that serves one command after the other. Beside that it looks at its protocol
-- region, also while it waits for an answer.
structure Service (σ : Type) where
  handle : Request → Reaction σ
  poll : σ → Memory → σ × Memory

inductive Phase (σ : Type) where
  | ready
  | asking (id : Nat) (answered : Except String Json → Reaction σ)
  | gone (failed : Bool)

structure Conversation (σ : Type) where
  channel : Channel
  state : σ
  phase : Phase σ
  ended : Bool

structure Stage (σ : Type) where
  phase : Phase σ
  state : σ
  channel : Channel
  memory : Memory

namespace Conversation
variable {σ : Type}

def start (state : σ) : Conversation σ := ⟨.ofInput [], state, .ready, false⟩

-- What the host said to question `id`, if that is in the lines that have come. When no
-- more lines can come the answer is that the host is gone.
def answerOf (id : Nat) (ended : Bool) (channel : Channel) : Option (Except String Json) × Channel :=
  match Channel.awaitAnswer id channel with
  | .ok (some outcome) channel => (some outcome, channel)
  | .ok none channel =>
    (if ended then some (.error StreamError.disconnected.message) else none, channel)
  | .error e channel => (some (.error e.message), channel)

def play (ended : Bool) : Reaction σ → σ → Channel → Memory → Stage σ
  | .rest, state, channel, memory => ⟨.ready, state, channel, memory⟩
  | .leave, state, channel, memory => ⟨.gone false, state, channel, memory⟩
  | .write line next, state, channel, memory => play ended next state (channel.writeLine line) memory
  | .ask name data answered, state, channel, memory =>
    match Channel.ask name data channel with
    | .error e channel => play ended (answered (.error e.message)) state channel memory
    | .ok id channel =>
      match answerOf id ended channel with
      | (some outcome, channel) => play ended (answered outcome) state channel memory
      | (none, channel) => ⟨.asking id answered, state, channel, memory⟩
  | .inspect look, state, channel, memory => play ended (look state memory) state channel memory
  | .update state memory next, _, channel, _ => play ended next state channel memory

def serve (service : Service σ) (ended : Bool) : Nat → Stage σ → Stage σ
  | 0, stage => stage
  | fuel + 1, stage =>
    match stage.phase with
    | .ready =>
      match Channel.nextRequest stage.channel with
      | .error _ channel => { stage with phase := .gone true, channel := channel }
      | .ok none channel =>
        { stage with phase := if ended then .gone false else .ready, channel := channel }
      | .ok (some request) channel =>
        serve service ended fuel
          (play ended (service.handle request) stage.state channel stage.memory)
    | _ => stage

def resume (ended : Bool) (stage : Stage σ) : Stage σ :=
  match stage.phase with
  | .asking id answered =>
    match answerOf id ended stage.channel with
    | (some outcome, channel) => play ended (answered outcome) stage.state channel stage.memory
    | (none, channel) => { stage with channel := channel }
  | _ => stage

def isGone (conversation : Conversation σ) : Bool :=
  match conversation.phase with
  | .gone _ => true
  | _ => false

def hasFailed (conversation : Conversation σ) : Bool :=
  match conversation.phase with
  | .gone failed => failed
  | _ => false

def advance (service : Service σ) (conversation : Conversation σ) (lines : List StreamLine)
    (ended : Bool) (memory : Memory) : PeerStep (Conversation σ) :=
  let channel := { conversation.channel with input := conversation.channel.input ++ lines, sent := [] }
  let stage := resume ended ⟨conversation.phase, conversation.state, channel, memory⟩
  let fuel := stage.channel.input.length + stage.channel.queued.length + 1
  let stage := serve service ended fuel stage
  let after : Conversation σ := ⟨{ stage.channel with sent := [] }, stage.state, stage.phase, ended⟩
  let written := stage.channel.sent.map PeerOutput.line
  ⟨after, if after.isGone && !conversation.isGone then written ++ [.hangUp] else written, stage.memory⟩

end Conversation

namespace Service
variable {σ : Type}

def linesOf : PeerInput → List StreamLine
  | .line text => [.text text]
  | .ended => []

def isEnd : PeerInput → Bool
  | .line _ => false
  | .ended => true

-- A service as the host meets it. Once it has left it looks at nothing any more.
def peer (service : Service σ) : Peer (Conversation σ) where
  hear conversation input memory :=
    conversation.advance service (linesOf input) (conversation.ended || isEnd input) memory
  poll conversation memory :=
    if conversation.isGone then (conversation, memory)
    else
      let (state, memory) := service.poll conversation.state memory
      ({ conversation with state := state }, memory)
  pace := 10000

end Service
end PluginBridge
