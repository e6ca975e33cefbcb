import PluginBridge.Peer.Machine
import PluginBridge.Proofs.Call.WireRebuilding
import PluginBridge.Proofs.Dispatch.CallRegion
import PluginBridge.Proofs.Dispatch.Course
import PluginBridge.Proofs.Dispatch.Guarding
import PluginBridge.Proofs.Protocol.Docket
import PluginBridge.Proofs.Protocol.Exchange
import PluginBridge.Stream.Message
namespace PluginBridge

-- A peer that agrees to whatever it is asked. It attaches to the first region that the host makes, and gives the same
-- reply to each request that it finds there.
structure Clerk where
  heard : Nat
  docket : Docket

namespace Clerk

def initial : Clerk := ⟨0, .empty⟩

def agreement : Json := .ofEntries [("polling", .bool true)]

def attend (docket : Docket) (memory : Memory) : Docket × Memory :=
  match docket.ends with
  | [] =>
    let attached := ProtocolPeer.attach (Store.keyText 0) .standard memory
    (docket.attach (answered attached), left attached)
  | _ => (docket, memory)

def serve (reply : Reply) (docket : Docket) (memory : Memory) : Docket × Memory :=
  match docket.ends with
  | [] => (docket, memory)
  | taker :: _ =>
    let polled := taker.pollRequest memory
    let taken := docket.poll taker (answered polled)
    match answered polled with
    | .ok (some _) =>
      let sent := reply.send taker (left polled)
      (taken.answer docket.taken.length reply (answered sent), left sent)
    | _ => (taken, left polled)

def peer (reply : Reply) : Peer Clerk where
  hear clerk input memory :=
    match input with
    | .line _ =>
      let (docket, memory) := attend clerk.docket memory
      ⟨⟨clerk.heard + 1, docket⟩, [.line (Response.ok (clerk.heard + 1) agreement).line], memory⟩
    | .ended => ⟨clerk, [.hangUp], memory⟩
  poll clerk memory :=
    let (docket, memory) := serve reply clerk.docket memory
    (⟨clerk.heard, docket⟩, memory)
  pace := 3

variable {guards : RegionId → Prop} {reply : Reply}

open Relation (ReflTransGen)
open Docket (Move)

theorem attend_moves (docket : Docket) (memory : Memory) :
    ReflTransGen (Move guards) (docket, memory) (attend docket memory) := by
  unfold attend
  split
  · exact .single (.attach (Store.keyText 0))
  · exact .refl

theorem serve_moves (reply : Reply) (docket : Docket) (memory : Memory) :
    ReflTransGen (Move guards) (docket, memory) (serve reply docket memory) := by
  unfold serve
  split
  · exact .refl
  · rename_i taker others ends
    have among : taker ∈ docket.ends := ends ▸ List.mem_cons_self
    have polled : Move guards (docket, memory) _ := .poll among
    simp only
    split
    · rename_i request found
      have last : (docket.poll taker (answered (taker.pollRequest memory))).taken[docket.taken.length]? =
          some ⟨taker, request, none⟩ := by
        rw [found]
        exact List.getElem?_concat_length
      exact .tail (.single polled) (.answer reply last)
    · exact .single polled

theorem moves (reply : Reply) (clerk : Clerk) (memory : Memory) :
    (∀ input, ReflTransGen (Move guards) (clerk.docket, memory)
      (((peer reply).hear clerk input memory).state.docket, ((peer reply).hear clerk input memory).memory)) ∧
    ReflTransGen (Move guards) (clerk.docket, memory)
      (((peer reply).poll clerk memory).1.docket, ((peer reply).poll clerk memory).2) := by
  refine ⟨fun input => ?_, serve_moves reply clerk.docket memory⟩
  cases input with
  | line text => exact attend_moves clerk.docket memory
  | ended => exact .refl

end Clerk

namespace Session
variable {answer : WireValue} {reply : Reply} {session later : Session (Clerk × List (PeerAct Clerk))}
  {link : ProtocolLink} {spec : FunctionSpec} {args : List CallArg}

-- Nothing is under way between the host and a clerk, and the clerk numbers its answers as the host its commands.
structure Attentive (session : Session (Clerk × List (PeerAct Clerk))) : Prop where
  clear : session.Clear
  heard : session.peer.1.heard = session.stream.lastId

structure Seated (link : ProtocolLink) (session : Session (Clerk × List (PeerAct Clerk))) : Prop where
  standard : link.host.block.layout = .standard
  there : ∃ taker others data, session.peer.1.docket.ends = taker :: others ∧ taker.block.layout = .standard ∧
    Layout.standard.totalSize ≤ data.size ∧ Shared session.store.memory link.host.block.region taker.block.region data

theorem Attentive.sendCall (attentive : session.Attentive) (small : session.stream.lastId + 1 < wordLimit)
    (reply : Reply) (command : String) (data : Json) :
    ∃ acts stream,
      let attended := Clerk.attend session.peer.1.docket session.store.memory
      let later := session.spoken (⟨session.peer.1.heard + 1, attended.1⟩, acts) attended.2 stream
      Session.sendCall (Clerk.peer reply).recorded command data session = .ok Clerk.agreement later ∧
        later.Attentive := by
  have readable : Clerk.agreement.Readable := Json.ofEntries_readable (by simp [Json.Readable])
  let attended := Clerk.attend session.peer.1.docket session.store.memory
  let next : Clerk := ⟨session.peer.1.heard + 1, attended.1⟩
  let acts := session.peer.2 ++ [⟨session.peer.1, session.store.memory, next, attended.2⟩]
  have hears : (Clerk.peer reply).recorded.hear session.peer
      (.line (Request.line ⟨session.stream.lastId + 1, command, data⟩)) session.store.memory =
        ⟨(next, acts), [.line (Response.ok (session.stream.lastId + 1) Clerk.agreement).line], attended.2⟩ := by
    rw [← attentive.heard]
    rfl
  obtain ⟨stream, sent, ids, -, clear⟩ := attentive.clear.sendCall small hears readable (by decide) (show _ = 0 + 3 from rfl)
  exact ⟨acts, stream, sent, clear, (congrArg (· + 1) attentive.heard).trans ids.symm⟩

theorem Seated.attend (seated : Seated link session) :
    Clerk.attend session.peer.1.docket session.store.memory = (session.peer.1.docket, session.store.memory) := by
  obtain ⟨taker, others, data, ends, -⟩ := seated.there
  simp only [Clerk.attend, ends]

end Session
end PluginBridge
