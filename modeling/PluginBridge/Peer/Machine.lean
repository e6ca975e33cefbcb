import PluginBridge.Region.Memory
namespace PluginBridge

inductive PeerInput where
  | line (text : String)
  | ended
deriving DecidableEq, Inhabited, Repr

inductive PeerOutput where
  | line (text : String)
  | garbled
  | hangUp
deriving DecidableEq, Inhabited, Repr

def PeerOutput.line? : PeerOutput → Option String
  | .line text => some text
  | _ => none

structure PeerStep (σ : Type) where
  state : σ
  output : List PeerOutput
  memory : Memory

-- The other side, as far as the host can tell: how it reacts to what it hears, what it
-- does when it looks at its protocol region, and how many steps of it fit into the time
-- that the host waits.
structure Peer (σ : Type) where
  hear : σ → PeerInput → Memory → PeerStep σ
  poll : σ → Memory → σ × Memory
  pace : Nat

namespace Peer

def mute : Peer Unit where
  hear _ input memory :=
    match input with
    | .line _ => ⟨(), [], memory⟩
    | .ended => ⟨(), [.hangUp], memory⟩
  poll _ memory := ((), memory)
  pace := 1000

def echoing : Peer Unit where
  hear _ input memory :=
    match input with
    | .line text => ⟨(), [.line text], memory⟩
    | .ended => ⟨(), [.hangUp], memory⟩
  poll _ memory := ((), memory)
  pace := 1000

end Peer
end PluginBridge
