import PluginBridge.Dispatch.Routes
namespace PluginBridge.Session
variable {σ : Type}

def callThroughRegion (peer : Peer σ) (spec : FunctionSpec) (args : List CallArg) (preloaded : Bool)
    (context : CallContext) : Dispatch σ (Option ResultNode) := fun session =>
  match session.writeCallRegion args with
  | (none, session) => .ok none session
  | (some region, session) =>
    match callRegion peer spec args.length region preloaded context session with
    | .ok result session => .ok result (session.destroyRegion region.key)
    | .error e session => .error e (session.destroyRegion region.key)

-- Through shared memory where that is possible. The call falls back to JSON only as long
-- as the peer has not taken it up.
def callBinary (peer : Peer σ) (spec : FunctionSpec) (args : List CallArg) (preloaded : Bool)
    (context : CallContext) : Dispatch σ ResultNode := do
  let direct ← if spec.needsContext then pure none else callProtocol peer spec args
  match direct with
  | some result => return result
  | none =>
    match ← callThroughRegion peer spec args preloaded context with
    | some result => return result
    | none =>
      modify countFallback
      callJson peer spec args context

def enter (context : Option EvalContext) (session : Session σ) : CallContext × Session σ :=
  let session := { session with inFlight := session.inFlight + 1 }
  match context with
  | none => (none, session)
  | some stack =>
    let id := session.lastContext + 1
    (some (id, stack), { session with lastContext := id, active := session.active ++ [(id, stack)] })

def dismiss (id : Nat) (session : Session σ) : Session σ :=
  { session with active := session.active.filter fun entry => entry.1 != id }

-- One call fewer is in flight. With the last one go the regions that are noted for variables.
def depart (session : Session σ) : Session σ :=
  let session := { session with inFlight := session.inFlight - 1 }
  if session.inFlight = 0 then { session with variableKeys := [] }.destroyRegions session.variableKeys
  else session

def leave (context : CallContext) (session : Session σ) : Session σ :=
  match context with
  | none => session.depart
  | some (id, _) => (session.dismiss id).depart

-- The preload section serves one context, so it is of use only to the only one.
def preloadContext (spec : FunctionSpec) (context : CallContext) (session : Session σ) : Bool × Session σ :=
  match context with
  | some (_, stack) =>
    if spec.needsContext && session.active.length == 1 then session.ensurePreloaded stack
    else (false, session)
  | none => (false, session)

def route (peer : Peer σ) (spec : FunctionSpec) (args : List CallArg) (context : CallContext) :
    Dispatch σ ResultNode := fun session =>
  let (preloaded, session) := session.preloadContext spec context
  match spec.mode.getD session.settings.mode with
  | .json => callJson peer spec args context session
  | .binary => callBinary peer spec args preloaded context session

def invoke (peer : Peer σ) (spec : FunctionSpec) (args : List CallArg) (context : Option EvalContext) :
    Dispatch σ ResultNode := fun session =>
  let (context, session) := session.enter context
  match route peer spec args context session with
  | .ok result session => .ok result (session.leave context)
  | .error e session => .error e (session.leave context)

def cacheKey? (session : Session σ) (spec : FunctionSpec) (scope : ScopeKey) (args : List CallArg) :
    Option CacheKey :=
  if session.settings.cacheResults && spec.cacheable && !spec.needsContext then
    some (.ofCall spec.name scope args)
  else none

def call (peer : Peer σ) (spec : FunctionSpec) (scope : ScopeKey) (args : List CallArg)
    (context : Option EvalContext) : Dispatch σ ResultNode := fun session =>
  match session.cacheKey? spec scope args with
  | none => invoke peer spec args context session
  | some key =>
    match session.cache.get key with
    | (some hit, cache) => .ok hit { session with cache := cache }
    | (none, cache) =>
      match invoke peer spec args context { session with cache := cache } with
      | .error e session => .error e session
      | .ok result session => .ok result { session with cache := session.cache.insert key result }

end PluginBridge.Session
