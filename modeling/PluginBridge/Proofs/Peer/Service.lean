import PluginBridge.Peer.Service
import PluginBridge.Proofs.Stream.Lines
namespace PluginBridge
variable {σ : Type}

namespace Reaction

-- The reaction ends with the one line that answers command `id`, and with that state and memory.
def Answers (reaction : Reaction σ) (id : Nat) (state : σ) (memory : Memory) (result : Json) (after : σ)
    (later : Memory) : Prop :=
  ∀ channel, Conversation.play false reaction state channel memory =
    ⟨.ready, after, channel.writeLine (Response.ok id result).line, later⟩

end Reaction

namespace Conversation
variable {service : Service σ} {conversation : Conversation σ} {request : Request} {memory later : Memory}
  {result : Json} {after : σ}

structure Idle (conversation : Conversation σ) : Prop where
  ready : conversation.phase = .ready
  going : conversation.ended = false
  read : conversation.channel.input = []
  done : conversation.channel.queued = []

theorem start_idle (state : σ) : (start state).Idle := ⟨rfl, rfl, rfl, rfl⟩

theorem Idle.stays (idle : conversation.Idle) : conversation.isGone = false := by
  rw [isGone, idle.ready]

theorem Idle.hears {line : String} (idle : conversation.Idle) (trimmed : Text.trim line = line)
    (parsed : Message.parse? line = some (.request request))
    (answers : (service.handle request).Answers request.id conversation.state memory result after later) :
    ∃ next, next.Idle ∧ next.state = after ∧
      conversation.advance service [.text line] false memory =
        ⟨next, [.line (Response.ok request.id result).line], later⟩ := by
  obtain ⟨channel, state, phase, ended⟩ := conversation
  obtain ⟨input, queued, lastCallback, sent⟩ := channel
  obtain ⟨rfl, rfl, rfl, rfl⟩ := idle
  refine ⟨⟨⟨[], [], lastCallback, []⟩, after, .ready, false⟩, ⟨rfl, rfl, rfl, rfl⟩, rfl, ?_⟩
  have played := answers ⟨[], [], lastCallback, []⟩
  simp [Conversation.advance, resume, serve, Channel.nextRequest, Channel.await, trimmed, parsed,
    Channel.requestOf?, played, Channel.writeLine, isGone]

theorem Idle.passes (service : Service σ) {line : String} (idle : conversation.Idle)
    (trimmed : Text.trim line = line) (unread : Message.parse? line = none) :
    ∃ next, next.Idle ∧ next.state = conversation.state ∧
      conversation.advance service [.text line] false memory = ⟨next, [], memory⟩ := by
  obtain ⟨channel, state, phase, ended⟩ := conversation
  obtain ⟨input, queued, lastCallback, sent⟩ := channel
  obtain ⟨rfl, rfl, rfl, rfl⟩ := idle
  refine ⟨⟨⟨[], [], lastCallback, []⟩, state, .ready, false⟩, ⟨rfl, rfl, rfl, rfl⟩, rfl, ?_⟩
  simp [Conversation.advance, resume, serve, Channel.nextRequest, Channel.await, trimmed, unread, isGone]

end Conversation
end PluginBridge
