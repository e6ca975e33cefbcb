import PluginBridge.Dispatch.Exchange
namespace PluginBridge.Session
variable {σ : Type}

def commonVariables (session : Session σ) (context : EvalContext) : List Variable :=
  session.settings.preloadNames.filterMap fun name => context.resolve? 0 name

def preloadFor (session : Session σ) (context : EvalContext) : List PreloadedVariable :=
  ((session.commonVariables context).filter fun definition =>
    WireValue.supports definition.value).map Variable.toPreloaded

-- Sees to it that the preload section holds the variables of a context, and says whether
-- it does. Contexts of the same frames count as the same.
def ensurePreloaded (context : EvalContext) (session : Session σ) : Bool × Session σ :=
  let fingerprint := Fingerprint.ofContext context
  if session.preloaded = some fingerprint then (true, session)
  else
    match session.protocol with
    | none => (false, session)
    | some link =>
      match session.onMemory (link.host.preload (session.preloadFor context)) with
      | (.ok _, session) => (true, { session with preloaded := some fingerprint })
      | (.error _, session) => (false, { session with preloaded := none })

def retire (link : ProtocolLink) (session : Session σ) : Session σ :=
  let (_, session) := session.onMemory link.host.requestShutdown
  { session.destroyRegion link.key with preloaded := none }

def shutdownProtocol (session : Session σ) : Session σ :=
  match session.protocol with
  | none => session
  | some link => { session with protocol := none }.retire link

def createLink (session : Session σ) : Except ProtocolError ProtocolLink × Session σ :=
  match session.onStore (Store.create Layout.standard.totalSize) with
  | (.error e, session) => (.error (.region e), session)
  | (.ok id, session) =>
    match session.onMemory (ProtocolRegion.ofRegion id .standard) with
    | (.error e, session) => (.error e, session)
    | (.ok block, session) =>
      (.ok ⟨session.keyOf id, .new block session.settings.protocolTimeout⟩, session)

def linkMessage (link : ProtocolLink) (session : Session σ) : Json :=
  let block := link.host.block
  .ofEntries [("path", .string (session.pathOf block.region)),
    ("size", .natural (((session.region? block.region).map Region.size).getD 0)),
    ("layout", block.layout.toJson)]

-- Makes a protocol region and offers it to the peer. When the peer does not poll it, it
-- goes again, and calls take the other ways.
def initProtocol (peer : Peer σ) : Dispatch σ Bool := fun session =>
  match session.createLink with
  | (.error e, session) => .error (.protocol e) session
  | (.ok link, session) =>
    match sendCall peer "initProtocol" (session.linkMessage link) session with
    | .error e session => .error e (session.destroyRegion link.key)
    | .ok response session =>
      if ((response.get? "polling").bind Json.toBool?).getD false then
        .ok true { session with protocol := some link }
      else .ok false (session.destroyRegion link.key)

end PluginBridge.Session
