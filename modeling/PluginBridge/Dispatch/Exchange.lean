import PluginBridge.Dispatch.Variables
namespace PluginBridge.Session
variable {σ : Type}

def hear (peer : Peer σ) (input : PeerInput) (session : Session σ) : Session σ :=
  let step := peer.hear session.peer input session.store.memory
  { session with
    peer := step.state
    store := { session.store with memory := step.memory }
    inbox := session.inbox ++ step.output }

def take (output : PeerOutput) (session : Session σ) : Session σ :=
  match output with
  | .line text =>
    match session.stream.receive text with
    | (none, stream) => { session with stream := stream }
    | (some callback, stream) => { session with stream := stream }.serveCallback callback
  | .garbled => { session with stream := session.stream.close }
  | .hangUp => { session with stream := session.stream.close }

-- Host and peer take turns: what the host has begun to serve goes on, else lines that it wrote
-- go to the peer, and then the host reads what has come. It is over when nothing is left, or
-- after as many steps as the time allows. What is left then, also of a callback that is being
-- served, goes on with the next exchange, whether or not its call is still there.
def exchange (peer : Peer σ) : Nat → Session σ → Session σ
  | 0, session => session
  | steps + 1, session =>
    match session.serving with
    | some _ => exchange peer steps session.proceed
    | none =>
      match session.stream.sent[session.passedOn]? with
      | some line =>
        exchange peer steps ({ session with passedOn := session.passedOn + 1 }.hear peer (.line line))
      | none =>
        match session.inbox with
        | [] => session
        | output :: rest => exchange peer steps ({ session with inbox := rest }.take output)

def send (peer : Peer σ) (command : String) (data : Json) (timeout : Duration) :
    EStateM StreamError (Session σ) Json := fun session =>
  match session.stream.start command data with
  | (.error e, stream) => .error e { session with stream := stream }
  | (.ok id, stream) =>
    let session := exchange peer peer.pace { session with stream := stream }
    match session.stream.finish id command timeout with
    | (.ok result, stream) => .ok result { session with stream := stream }
    | (.error e, stream) => .error e { session with stream := stream }

def sendCall (peer : Peer σ) (command : String) (data : Json) : Dispatch σ Json := fun session =>
  EStateM.adaptExcept DispatchError.ofStream (send peer command data session.settings.callTimeout) session

end PluginBridge.Session
