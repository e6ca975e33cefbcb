import PluginBridge.Dispatch.Call
import PluginBridge.Proofs.Outcome
import PluginBridge.Protocol.Peer
namespace PluginBridge

inductive Action where
  | enter (context : Option EvalContext)
  | preload (stack : EvalContext)
  | register (name : String)
  | unregister (name : String)
  | stage (request : ProtocolRequest)
  | raise
  | look
  | collect
  | drop
  | place (args : List CallArg)
  | release (key : String)
  | send (command : String) (data : Json)
  | count (change : CallCounts → CallCounts)
  | remember (cache : ResultCache)
  | leave (context : Session.CallContext)

namespace Session
variable {σ : Type}

def onLink (act : ProtocolLink → Session σ → Session σ) (session : Session σ) : Session σ :=
  match session.protocol with
  | none => session
  | some link => act link session

def stage (request : ProtocolRequest) (link : ProtocolLink) (session : Session σ) : Session σ :=
  match session.onMemory (link.host.stageCall request.functionId request.args) with
  | (.ok (host, _), session) => session.setHost host
  | (.error _, session) => session

theorem onLink_some {link : ProtocolLink} {session : Session σ} (linked : session.protocol = some link)
    (act : ProtocolLink → Session σ → Session σ) : session.onLink act = act link session := by
  rw [onLink, linked]

theorem setHost_same {link : ProtocolLink} {session : Session σ} (linked : session.protocol = some link) :
    session.setHost link.host = session := by
  rw [setHost, linked]
  exact congrArg (fun protocol => { session with protocol := protocol }) linked.symm

theorem setHost_linked {link : ProtocolLink} {session : Session σ} (linked : session.protocol = some link)
    (host : ProtocolHost) : (session.setHost host).protocol = some { link with host := host } := by
  rw [setHost, linked]
  rfl

end Session

namespace Action
open Session
variable {σ : Type}

def apply (peer : Peer σ) (action : Action) (session : Session σ) : Session σ :=
  match action with
  | .enter context => (session.enter context).2
  | .preload stack => (session.ensurePreloaded stack).2
  | .register name => session.onLink fun link => setHost (link.host.registerFunction name).2
  | .unregister name => session.onLink fun link => setHost (link.host.unregisterFunction name).2
  | .stage request => session.onLink (Session.stage request)
  | .raise => session.onLink fun link session => (session.onMemory link.host.signalRequest).2
  | .look => session.pollPeer peer
  | .collect => session.onLink fun link session => (session.onMemory link.host.takeResponse).2
  | .drop => session.shutdownProtocol
  | .place args => (session.writeCallRegion args).2
  | .release key => session.destroyRegion key
  | .send command data => left (sendCall peer command data session)
  | .count change => session.count change
  | .remember cache => { session with cache := cache }
  | .leave context => session.leave context

def run (peer : Peer σ) (actions : List Action) (session : Session σ) : Session σ :=
  actions.foldl (fun session action => action.apply peer session) session

theorem run_append (peer : Peer σ) (first second : List Action) (session : Session σ) :
    run peer (first ++ second) session = run peer second (run peer first session) :=
  List.foldl_append

def Throughout (peer : Peer σ) (holds : Action → Session σ → Prop) (actions : List Action) (session : Session σ) :
    Prop :=
  ∀ past action rest, actions = past ++ action :: rest → holds action (run peer past session)

theorem throughout_cons {peer : Peer σ} {holds : Action → Session σ → Prop} {action : Action} {rest : List Action}
    {session : Session σ} : Throughout peer holds (action :: rest) session ↔
      holds action session ∧ Throughout peer holds rest (action.apply peer session) := by
  constructor
  · intro all
    exact ⟨all [] action rest rfl, fun past other others same => all (action :: past) other others (congrArg _ same)⟩
  · rintro ⟨here, later⟩ past other others same
    cases past with
    | nil =>
      cases same
      exact here
    | cons first past =>
      cases same
      exact later past other others rfl

theorem throughout_append {peer : Peer σ} {holds : Action → Session σ → Prop} {first second : List Action}
    {session : Session σ} : Throughout peer holds (first ++ second) session ↔
      Throughout peer holds first session ∧ Throughout peer holds second (run peer first session) := by
  induction first generalizing session with
  | nil => exact ⟨fun all => ⟨fun past action rest same => by simp at same, all⟩, fun both => both.2⟩
  | cons action rest ih =>
    rw [List.cons_append, throughout_cons, throughout_cons, ih, and_assoc]
    rfl

def declines : Except DispatchError Json → Bool
  | .ok response => (response.get? "fallback").isSome
  | .error _ => false

-- What lets the peer execute the function: a raised request, the call as JSON, and the call through
-- a region, unless the peer declines it.
def delivers (peer : Peer σ) (session : Session σ) : Action → Bool
  | .raise => true
  | .send command data => command == "callFunction" ||
      command == "callFunctionShm" && !declines (answered (sendCall peer command data session))
  | _ => false

def reaches : Action → Bool
  | .raise => true
  | .send _ _ => true
  | _ => false

def deliveries (peer : Peer σ) : List Action → Session σ → Nat
  | [], _ => 0
  | action :: rest, session =>
    (if action.delivers peer session then 1 else 0) + deliveries peer rest (action.apply peer session)

end Action
end PluginBridge
