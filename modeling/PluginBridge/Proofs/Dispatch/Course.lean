import PluginBridge.Proofs.Dispatch.Actions
import PluginBridge.Proofs.Dispatch.Exchange
import PluginBridge.Proofs.Dispatch.Turns
import PluginBridge.Proofs.Protocol.FunctionIds
import PluginBridge.Proofs.Stream.Lines
namespace PluginBridge

inductive Standing where
  | unseen
  | lent (key : String)
  | staged (request : ProtocolRequest)
  | struck (request : ProtocolRequest)
  | raised (request : ProtocolRequest)
  | looked (request : ProtocolRequest)
  | answered (request : ProtocolRequest) (outcome : Except ProtocolError WireValue)
  | told (lent : Option String)

def DispatchError.OfProtocol : DispatchError → Prop
  | .protocol _ => True
  | _ => False

theorem DispatchError.ofStream_apart (failure : StreamError) : ¬ (ofStream failure).OfProtocol := by
  cases failure <;> exact id

def rendered : Except ProtocolError WireValue → Except DispatchError ResultNode
  | .ok value => .ok (.ofWire value)
  | .error (.peer text) => .error (.peer text)
  | .error e => .error (.protocol e)

namespace Session
open PluginBridge.Action
variable {σ : Type} {peer : Peer σ} {spec : FunctionSpec} {args : List CallArg} {context : CallContext}

inductive Step (peer : Peer σ) (spec : FunctionSpec) (args : List CallArg) (context : CallContext) :
    Standing → Session σ → Action → Standing → Prop where
  | count {session standing} (change) : (∀ counts, (change counts).protocol = counts.protocol) →
      Step peer spec args context standing session (.count change) standing
  | register {session} : Step peer spec args context .unseen session (.register spec.name) .unseen
  | introduce {session} (data) :
      Step peer spec args context .unseen session (.send "registerFunction" data) .unseen
  | unregister {session} : Step peer spec args context .unseen session (.unregister spec.name) .unseen
  | stage {session link host id wire} : session.protocol = some link →
      link.host.functionId? spec.name = some id → args.mapM CallArg.toWire? = some wire →
      (session.onMemory (link.host.stageCall id wire)).1 = .ok (host, .ok ()) →
      Step peer spec args context .unseen session (.stage ⟨id, wire⟩) (.staged ⟨id, wire⟩)
  | misstage {session} (request) : Step peer spec args context .unseen session (.stage request) .unseen
  | abandon {session} : Step peer spec args context .unseen session .drop .unseen
  | tally {session request} :
      Step peer spec args context (.staged request) session (.count .moreProtocol) (.staged request)
  | raise {session request link} : session.protocol = some link →
      (session.onMemory link.host.signalRequest).1 = .ok () →
      Step peer spec args context (.staged request) session .raise (.raised request)
  | strike {session request link e} : session.protocol = some link →
      (session.onMemory link.host.signalRequest).1 = .error e →
      Step peer spec args context (.staged request) session .raise (.struck request)
  | look {session request} : Step peer spec args context (.raised request) session .look (.looked request)
  | collect {session request link outcome} : session.protocol = some link →
      (session.onMemory link.host.takeResponse).1 = outcome →
      Step peer spec args context (.looked request) session .collect (.answered request outcome)
  | expire {session request waited} :
      Step peer spec args context (.answered request (.error (.timeout waited))) session .drop
        (.answered request (.error (.timeout waited)))
  | refuse {session} : (session.writeCallRegion args).1 = none →
      Step peer spec args context .unseen session (.place args) .unseen
  | place {session region} : (session.writeCallRegion args).1 = some region →
      Step peer spec args context .unseen session (.place args) (.lent region.key)
  | offer {session key data} :
      (data.get? "preloaded" = some (.bool true) → ∃ id stack, context = some (id, stack) ∧
        session.preloaded = some (Fingerprint.ofContext stack)) →
      Step peer spec args context (.lent key) session (.send "callFunctionShm" data)
        (if declines (answered (sendCall peer "callFunctionShm" data session)) then .lent key
          else .told (some key))
  | takeBack {session key} : Step peer spec args context (.lent key) session (.release key) .unseen
  | release {session key} :
      Step peer spec args context (.told (some key)) session (.release key) (.told none)
  | tell {session} (data) : Step peer spec args context .unseen session (.send "callFunction" data) (.told none)

inductive Course (peer : Peer σ) (spec : FunctionSpec) (args : List CallArg) (context : CallContext) :
    Standing → Session σ → List Action → Standing → Session σ → Prop where
  | nil {standing session} : Course peer spec args context standing session [] standing session
  | cons {standing session action next rest last later} :
      Step peer spec args context standing session action next →
      Course peer spec args context next (action.apply peer session) rest last later →
      Course peer spec args context standing session (action :: rest) last later

namespace Course
variable {standing middle last : Standing} {session between later : Session σ} {first second : List Action}

theorem next {action : Action} (step : Step peer spec args context standing session action middle)
    (applied : action.apply peer session = between)
    (rest : Course peer spec args context middle between second last later) :
    Course peer spec args context standing session (action :: second) last later :=
  .cons step (applied ▸ rest)

theorem append (one : Course peer spec args context standing session first middle between)
    (two : Course peer spec args context middle between second last later) :
    Course peer spec args context standing session (first ++ second) last later := by
  induction one with
  | nil => exact two
  | cons step _ ih => exact .cons step (ih two)

theorem runs (course : Course peer spec args context standing session first last later) :
    later = Action.run peer first session := by
  induction course with
  | nil => rfl
  | cons _ _ ih => exact ih

end Course

section routes
variable {session : Session σ} {link : ProtocolLink}

def callMessage (spec : FunctionSpec) (args : List CallArg) (context : CallContext) (session : Session σ) : Json :=
  .ofEntries ([("name", .string spec.name), ("args", .array (args.map CallArg.toJson)),
    ("needsContext", .bool spec.needsContext)] ++ session.contextEntries spec context)

theorem callJson_sent (peer : Peer σ) (spec : FunctionSpec) (args : List CallArg) (context : CallContext)
    (session : Session σ) : callJson peer spec args context session =
      (do return ResultNode.ofJson (← sendCall peer "callFunction" (session.callMessage spec args context)))
        (session.count .moreJson) := rfl

theorem sendCall_fails (peer : Peer σ) (command : String) (data : Json) :
    Fails (fun e => ∃ failure, e = DispatchError.ofStream failure) (sendCall peer command data) := by
  intro session e later ran
  unfold sendCall EStateM.adaptExcept at ran
  split at ran <;> cases ran
  exact ⟨_, rfl⟩

theorem callJson_fails (peer : Peer σ) (spec : FunctionSpec) (args : List CallArg) (context : CallContext) :
    Fails (fun e => ∃ failure, e = DispatchError.ofStream failure) (callJson peer spec args context) := by
  intro session e later ran
  rw [callJson_sent] at ran
  exact ((sendCall_fails peer "callFunction" _).bind fun _ => .pure _) _ _ _ ran

theorem callJson_apart (peer : Peer σ) (spec : FunctionSpec) (args : List CallArg) (context : CallContext) :
    Fails (fun e => ¬ e.OfProtocol) (callJson peer spec args context) :=
  (callJson_fails peer spec args context).widen fun _ ⟨failure, same⟩ => same ▸ DispatchError.ofStream_apart failure

theorem callJson_course (peer : Peer σ) (spec : FunctionSpec) (args : List CallArg) (context : CallContext)
    (session : Session σ) : ∃ actions, Course peer spec args context .unseen session actions (.told none)
      (left (callJson peer spec args context session)) := by
  have same : left (callJson peer spec args context session) =
      left (sendCall peer "callFunction" (session.callMessage spec args context) (session.count .moreJson)) := by
    rw [callJson_sent]
    cases sent : sendCall peer "callFunction" (session.callMessage spec args context) (session.count .moreJson) with
    | ok answer later => exact congrArg left (bind_done sent)
    | error e later => exact congrArg left (bind_failed sent)
  rw [same]
  exact ⟨_, .cons (.count .moreJson fun _ => rfl) (.cons (.tell (session.callMessage spec args context)) .nil)⟩

theorem protocolId_course (peer : Peer σ) (spec : FunctionSpec) (args : List CallArg) (context : CallContext)
    (linked : session.protocol = some link) :
    ∃ actions, Course peer spec args context .unseen session actions .unseen
        (protocolId peer link.host spec.name session).2 ∧
      ∀ id, (protocolId peer link.host spec.name session).1 = some id → ∃ knowing,
        (protocolId peer link.host spec.name session).2.protocol = some knowing ∧
          knowing.host.functionId? spec.name = some id := by
  cases found : link.host.functionId? spec.name with
  | some id =>
    have known : protocolId peer link.host spec.name session = (some id, session) := by
      simp only [protocolId, ProtocolHost.registerFunction, found, setHost_same linked]
      rfl
    rw [known]
    refine ⟨[], .nil, fun other same => ⟨link, linked, ?_⟩⟩
    cases same
    exact found
  | none =>
    obtain ⟨id, host, registered, block, known⟩ := ProtocolHost.registerFunction_new found
    let data := Json.ofEntries [("name", .string spec.name), ("id", .natural id.toNat)]
    have renewed := setHost_linked linked host
    have kept := (sendCall_aside peer "registerFunction" data (session.setHost host)).protocol.trans renewed
    have register : Action.apply peer (.register spec.name) session = session.setHost host := by
      rw [Action.apply, onLink_some linked, registered]
    -- The name is entered before the peer hears of it, so both outcomes begin with the same two actions.
    have begun : ∀ {rest last later}, Course peer spec args context .unseen
        (left (sendCall peer "registerFunction" data (session.setHost host))) rest last later →
        Course peer spec args context .unseen session
          (.register spec.name :: .send "registerFunction" data :: rest) last later :=
      fun course => .next .register register (.cons (.introduce data) course)
    cases sent : sendCall peer "registerFunction" data (session.setHost host) with
    | ok answer later =>
      rw [sent] at begun kept
      have ran : protocolId peer link.host spec.name session = (some id, later) := by
        simp only [protocolId, registered, if_true]
        rw [show Json.ofEntries [("name", .string spec.name), ("id", .natural id.toNat)] = data from rfl, sent]
      rw [ran]
      refine ⟨_, begun .nil, fun other same => ⟨_, kept, ?_⟩⟩
      cases same
      exact known
    | error e later =>
      rw [sent] at begun kept
      have ran : protocolId peer link.host spec.name session =
          (none, later.setHost (host.unregisterFunction spec.name).2) := by
        simp only [protocolId, registered, if_true]
        rw [show Json.ofEntries [("name", .string spec.name), ("id", .natural id.toNat)] = data from rfl, sent]
      have unregister : Action.apply peer (.unregister spec.name) later =
          later.setHost (host.unregisterFunction spec.name).2 := onLink_some kept _
      rw [ran, ← unregister]
      exact ⟨_, begun (.cons .unregister .nil), fun other same => by cases same⟩

theorem shutdownProtocol_none (session : Session σ) : session.shutdownProtocol.protocol = none := by
  unfold shutdownProtocol
  split
  · assumption
  · rename_i link _
    let begun : Session σ := { session with protocol := none }
    exact ((onMemory_stored link.host.requestShutdown begun).trans (onStore_stored (Store.destroy link.key) _)).protocol

def Concluded (answer : Except DispatchError ResultNode) (later : Session σ) : Standing → Prop
  | .told lent => lent = none ∧ ∀ e, answer = .error e → ¬ e.OfProtocol
  | .struck _ => ∃ e, answer = .error (.protocol e)
  | .answered _ outcome => answer = rendered outcome ∧
      ∀ waited, outcome = .error (.timeout waited) → later.protocol = none
  | _ => False

theorem finishProtocol_served {host : ProtocolHost} {state : σ} {signalled seen cleared : Memory} {value : WireValue}
    (rang : host.signalRequest session.store.memory = .ok () signalled)
    (looked : peer.poll session.peer signalled = (state, seen)) (took : host.takeResponse seen = .ok value cleared) :
    finishProtocol peer host session = .ok (.ofWire value) { session.count .moreProtocol with
      peer := state
      store := { session.store with memory := cleared } } := by
  simp only [finishProtocol, onMemory, count, rang, pollPeer, looked, took]
  rfl

theorem finishProtocol_timely {host : ProtocolHost} {state : σ} {signalled seen : Memory}
    (rang : host.signalRequest session.store.memory = .ok () signalled)
    (looked : peer.poll session.peer signalled = (state, seen))
    (timely : ∀ waited, answered (host.takeResponse seen) ≠ .error (.timeout waited)) :
    answered (finishProtocol peer host session) = rendered (answered (host.takeResponse seen)) ∧
      left (finishProtocol peer host session) = { session.count .moreProtocol with
        peer := state
        store := { session.store with memory := left (host.takeResponse seen) } } := by
  cases took : host.takeResponse seen with
  | ok value cleared =>
    rw [finishProtocol_served rang looked took]
    exact ⟨rfl, rfl⟩
  | error e cleared =>
    cases e with
    | timeout waited => exact absurd (congrArg answered took) (timely waited)
    | _ =>
      simp only [finishProtocol, onMemory, count, rang, pollPeer, looked, took]
      exact ⟨rfl, rfl⟩

theorem finishProtocol_taken {host : ProtocolHost} {raised final : Session σ}
    {outcome : Except ProtocolError WireValue}
    (rung : (session.count .moreProtocol).onMemory host.signalRequest = (.ok (), raised))
    (taken : (raised.pollPeer peer).onMemory host.takeResponse = (outcome, final)) (request : ProtocolRequest) :
    ∃ actions, Course peer spec args context (.answered request outcome) final actions (.answered request outcome)
        (left (finishProtocol peer host session)) ∧
      Concluded (answered (finishProtocol peer host session)) (left (finishProtocol peer host session))
        (.answered request outcome) := by
  have more : (fun counts : CallCounts => { counts with protocol := counts.protocol + 1 }) = .moreProtocol := rfl
  cases outcome with
  | ok value =>
    have ran : finishProtocol peer host session = .ok (.ofWire value) final := by
      simp only [finishProtocol, more, rung, taken]
    rw [ran]
    exact ⟨[], .nil, rfl, fun _ other => by cases other⟩
  | error e =>
    cases e with
    | timeout waited =>
      have ran : finishProtocol peer host session =
          .error (.protocol (.timeout waited)) final.shutdownProtocol := by
        simp only [finishProtocol, more, rung, taken]
      rw [ran]
      exact ⟨_, .cons .expire .nil, rfl, fun _ _ => shutdownProtocol_none final⟩
    | peer text =>
      have ran : finishProtocol peer host session = .error (.peer text) final := by
        simp only [finishProtocol, more, rung, taken]
      rw [ran]
      exact ⟨[], .nil, rfl, fun _ other => by cases other⟩
    | _ =>
      refine ⟨[], ?_, ?_⟩
      all_goals simp only [finishProtocol, more, rung, taken]
      · exact .nil
      · exact ⟨rfl, fun _ other => by cases other⟩

theorem finishProtocol_course (peer : Peer σ) (spec : FunctionSpec) (args : List CallArg) (context : CallContext)
    (linked : session.protocol = some link) (request : ProtocolRequest) :
    ∃ actions last, Course peer spec args context (.staged request) session actions last
        (left (finishProtocol peer link.host session)) ∧
      Concluded (answered (finishProtocol peer link.host session))
        (left (finishProtocol peer link.host session)) last := by
  have more : (fun counts : CallCounts => { counts with protocol := counts.protocol + 1 }) = .moreProtocol := rfl
  have still : (session.count .moreProtocol).protocol = some link := linked
  have rang : Action.apply peer .raise (session.count .moreProtocol) =
      ((session.count .moreProtocol).onMemory link.host.signalRequest).2 := by
    rw [Action.apply, onLink_some still]
  have signalled := (onMemory_stored link.host.signalRequest (session.count .moreProtocol)).protocol.trans still
  cases rung : (session.count .moreProtocol).onMemory link.host.signalRequest with
  | mk result raised =>
    rw [rung] at rang signalled
    have begun : ∀ {next rest last later},
        Step peer spec args context (.staged request) (session.count .moreProtocol) .raise next →
        Course peer spec args context next raised rest last later →
        Course peer spec args context (.staged request) session
          (.count .moreProtocol :: .raise :: rest) last later :=
      fun step course => .cons .tally (.next step rang course)
    cases result with
    | error e =>
      have ran : finishProtocol peer link.host session = .error (.protocol e) raised := by
        simp only [finishProtocol, more, rung]
      rw [ran]
      exact ⟨_, _, begun (.strike still (congrArg Prod.fst rung)) .nil, e, rfl⟩
    | ok _ =>
      have there : (raised.pollPeer peer).protocol = some link := signalled
      cases taken : (raised.pollPeer peer).onMemory link.host.takeResponse with
      | mk outcome final =>
        have took : Action.apply peer .collect (raised.pollPeer peer) = final := by
          rw [Action.apply, onLink_some there, taken]
        obtain ⟨actions, course, concluded⟩ := @finishProtocol_taken _ peer spec args context session
          link.host raised final outcome rung taken request
        exact ⟨_, _, begun (.raise still (congrArg Prod.fst rung))
          (.cons .look (.next (.collect there (congrArg Prod.fst taken)) took course)), concluded⟩

theorem answered_map {ε τ α β : Type} (f : α → β) (x : EStateM ε τ α) (s : τ) :
    answered (EStateM.map f x s) = (answered (x s)).map f ∧ left (EStateM.map f x s) = left (x s) := by
  unfold EStateM.map
  cases x s <;> exact ⟨rfl, rfl⟩

-- A call over the protocol was told, or it has to take another way and the peer has not seen it.
def Attempted (answer : Except DispatchError (Option ResultNode)) (later : Session σ) (last : Standing) : Prop :=
  last = .unseen ∧ answer = .ok none ∨ ∃ told, answer = told.map some ∧ Concluded told later last

theorem callProtocol_named {wire : List WireValue} {id : UInt32} {begun : Session σ} {knowing : ProtocolLink}
    (linked : session.protocol = some link) (wired : args.mapM CallArg.toWire? = some wire)
    (few : ¬ maxProtocolArgs < args.length)
    (named : protocolId peer link.host spec.name session = (some id, begun))
    (there : begun.protocol = some knowing) (known : knowing.host.functionId? spec.name = some id)
    (context : CallContext) :
    ∃ actions last, Course peer spec args context .unseen begun actions last
        (left (callProtocol peer spec args session)) ∧
      Attempted (answered (callProtocol peer spec args session)) (left (callProtocol peer spec args session)) last := by
  have more : (fun counts : CallCounts => { counts with fallbacks := counts.fallbacks + 1 }) = .moreFallbacks := rfl
  -- Until the request is raised the peer has seen nothing, so what fails before leaves the other ways open.
  cases stages : begun.onMemory (knowing.host.stageCall id wire) with
  | mk result written =>
    have kept := (onMemory_stored (knowing.host.stageCall id wire) begun).protocol.trans there
    rw [stages] at kept
    cases result with
    | error e =>
      have ran : callProtocol peer spec args session = .ok none written := by
        simp only [callProtocol, linked, wired, if_neg few, named, there, Option.map_some, Option.getD_some, stages]
      have stage : Action.apply peer (.stage ⟨id, wire⟩) begun = written := by
        simp only [Action.apply, onLink_some there, Session.stage, stages]
      rw [ran, ← stage]
      exact ⟨_, _, .cons (.misstage _) .nil, .inl ⟨rfl, rfl⟩⟩
    | ok pair =>
      obtain ⟨host, staged⟩ := pair
      have stage : Action.apply peer (.stage ⟨id, wire⟩) begun = written.setHost host := by
        simp only [Action.apply, onLink_some there, Session.stage, stages]
      cases staged with
      | ok _ =>
        have ran : callProtocol peer spec args session =
            EStateM.map some (finishProtocol peer host) (written.setHost host) := by
          simp only [callProtocol, linked, wired, if_neg few, named, there, Option.map_some, Option.getD_some, stages]
        obtain ⟨actions, last, course, concluded⟩ := finishProtocol_course peer spec args context
          (setHost_linked kept host) ⟨id, wire⟩
        obtain ⟨same, state⟩ := answered_map some (finishProtocol peer host) (written.setHost host)
        rw [ran, same, state]
        refine ⟨_, last, .next (.stage there known wired (congrArg Prod.fst stages)) stage course, ?_⟩
        exact .inr ⟨_, rfl, concluded⟩
      | error e =>
        have ran : callProtocol peer spec args session = .ok none (if isSizeFault e
            then (written.setHost host).count .moreFallbacks
            else ((written.setHost host).count .moreFallbacks).shutdownProtocol) := by
          simp only [callProtocol, linked, wired, if_neg few, named, there, Option.map_some, Option.getD_some, stages,
            countFallback, more]
        rw [ran]
        by_cases fault : isSizeFault e = true
        · rw [if_pos fault]
          exact ⟨_, _, .next (.misstage _) stage (.cons (.count .moreFallbacks fun _ => rfl) .nil), .inl ⟨rfl, rfl⟩⟩
        · rw [if_neg fault]
          exact ⟨_, _, .next (.misstage _) stage (.cons (.count .moreFallbacks fun _ => rfl) (.cons .abandon .nil)),
            .inl ⟨rfl, rfl⟩⟩

theorem callProtocol_course (peer : Peer σ) (spec : FunctionSpec) (args : List CallArg) (context : CallContext)
    (session : Session σ) :
    ∃ actions last, Course peer spec args context .unseen session actions last
        (left (callProtocol peer spec args session)) ∧
      Attempted (answered (callProtocol peer spec args session)) (left (callProtocol peer spec args session)) last := by
  -- Where no protocol serves the call the session is as it was.
  have declined : callProtocol peer spec args session = .ok none session → ∃ actions last,
      Course peer spec args context .unseen session actions last (left (callProtocol peer spec args session)) ∧
        Attempted (answered (callProtocol peer spec args session))
          (left (callProtocol peer spec args session)) last := by
    intro ran
    rw [ran]
    exact ⟨[], _, .nil, .inl ⟨rfl, rfl⟩⟩
  cases linked : session.protocol with
  | none => exact declined (by simp only [callProtocol, linked])
  | some link =>
    cases wired : args.mapM CallArg.toWire? with
    | none => exact declined (by simp only [callProtocol, linked, wired])
    | some wire =>
      by_cases many : maxProtocolArgs < args.length
      · exact declined (by simp only [callProtocol, linked, wired, if_pos many])
      · obtain ⟨naming, named, knows⟩ := protocolId_course peer spec args context linked
        cases registered : protocolId peer link.host spec.name session with
        | mk known begun =>
          rw [registered] at named knows
          cases known with
          | none =>
            have ran : callProtocol peer spec args session = .ok none begun := by
              simp only [callProtocol, linked, wired, if_neg many, registered]
            rw [ran]
            exact ⟨_, _, named, .inl ⟨rfl, rfl⟩⟩
          | some id =>
            obtain ⟨knowing, there, idKnown⟩ := knows id rfl
            obtain ⟨actions, last, course, attempted⟩ := callProtocol_named linked wired many registered there
              idKnown context
            exact ⟨_, last, named.append course, attempted⟩

theorem readResult_cases (region : CallRegion) (response : Json) (session : Session σ) :
    left (readResult region response session) = session ∧
      (declines (.ok response) = true ∧ answered (readResult region response session) = .ok none ∨
        declines (.ok response) = false ∧
          ∃ told, answered (readResult region response session) = Except.map some told) := by
  unfold readResult
  cases declined : (response.get? "fallback").isSome with
  | true => exact ⟨rfl, .inl ⟨declined, rfl⟩⟩
  | false =>
    simp only [Bool.false_eq_true, if_false]
    cases response.get? "json" with
    | some value => exact ⟨rfl, .inr ⟨declined, .ok _, rfl⟩⟩
    | none =>
      cases wordField response "resultOffset" with
      | error e => exact ⟨rfl, .inr ⟨declined, .error e, rfl⟩⟩
      | ok offset =>
        cases wordField response "resultSize" with
        | error e => exact ⟨rfl, .inr ⟨declined, .error e, rfl⟩⟩
        | ok size =>
          simp only
          rw [bind_done (show readResult.liftExcept (Except.ok offset) session = .ok offset session from rfl),
            bind_done (show readResult.liftExcept (Except.ok size) session = .ok size session from rfl),
            bind_done (get_done session)]
          cases session.onMemory (Memory.read region.id offset size) with
          | mk result after =>
            cases result with
            | error e => exact ⟨rfl, .inr ⟨declined, .error _, rfl⟩⟩
            | ok bytes =>
              simp only
              cases resultOfBytes bytes with
              | error e => exact ⟨rfl, .inr ⟨declined, .error e, rfl⟩⟩
              | ok result => exact ⟨rfl, .inr ⟨declined, .ok result, rfl⟩⟩

theorem regionEntries_apart (session : Session σ) (spec : FunctionSpec) (count : Nat) (region : CallRegion)
    (preloaded : Bool) (context : CallContext) :
    ((session.regionEntries spec count region preloaded context).map Prod.fst).Nodup := by
  have plain : ["name", "shmPath", "shmKey", "shmSize", "dataSize", "argCount", "needsContext",
    "preloaded"].Nodup := by decide
  cases context with
  | none => exact plain
  | some entry =>
    cases needs : spec.needsContext with
    | true => simp [regionEntries, needs]
    | false => simp [regionEntries, needs]

theorem regionEntries_preloaded (session : Session σ) (spec : FunctionSpec) (count : Nat) (region : CallRegion)
    (preloaded : Bool) (context : CallContext) :
    (Json.ofEntries (session.regionEntries spec count region preloaded context)).get? "preloaded" =
      some (.bool preloaded) := by
  rw [Json.get?_ofEntries (regionEntries_apart session spec count region preloaded context)]
  rfl

theorem callRegion_cases (peer : Peer σ) (spec : FunctionSpec) (count : Nat) (region : CallRegion)
    (preloaded : Bool) (context : CallContext) (session : Session σ) :
    ∃ data, data.get? "preloaded" = some (.bool preloaded) ∧
      left (callRegion peer spec count region preloaded context session) =
        left (sendCall peer "callFunctionShm" data (session.count .moreRegion)) ∧
      (declines (answered (sendCall peer "callFunctionShm" data (session.count .moreRegion))) = true ∧
          answered (callRegion peer spec count region preloaded context session) = .ok none ∨
        declines (answered (sendCall peer "callFunctionShm" data (session.count .moreRegion))) = false ∧
          ∃ told, answered (callRegion peer spec count region preloaded context session) =
            Except.map some told) := by
  let data := Json.ofEntries ((session.count .moreRegion).regionEntries spec count region preloaded context)
  have ran : callRegion peer spec count region preloaded context session =
      (sendCall peer "callFunctionShm" data >>= readResult region) (session.count .moreRegion) := rfl
  refine ⟨data, regionEntries_preloaded _ spec count region preloaded context, ?_⟩
  · rw [ran]
    cases sent : sendCall peer "callFunctionShm" data (session.count .moreRegion) with
    | ok response later =>
      rw [bind_done sent]
      exact readResult_cases region response later
    | error e later =>
      rw [bind_failed sent]
      exact ⟨rfl, .inr ⟨rfl, .error e, rfl⟩⟩

theorem readResult_apart (region : CallRegion) (response : Json) :
    Fails (fun e => ¬ e.OfProtocol) (readResult region response : Dispatch σ (Option ResultNode)) := by
  have lifted : ∀ {α : Type} {said : Except DispatchError α}, (∀ e, said = .error e → ¬ e.OfProtocol) →
      Fails (fun e => ¬ e.OfProtocol) (readResult.liftExcept said : Dispatch σ α) := by
    intro α said apart
    cases said with
    | ok a => exact .pure a
    | error e => exact .throw (apart e rfl)
  have field : ∀ key e, wordField response key = .error e → ¬ e.OfProtocol := by
    intro key e failed
    unfold wordField at failed
    split at failed <;> cases failed
    exact id
  have result : ∀ bytes e, resultOfBytes bytes = .error e → ¬ e.OfProtocol := by
    intro bytes e failed
    unfold resultOfBytes at failed
    split at failed <;> cases failed
    exact id
  unfold readResult
  split
  · exact .pure none
  · split
    · exact .pure _
    · refine (lifted (field _)).bind fun offset => (lifted (field _)).bind fun size => ?_
      refine Fails.bind (fun _ _ _ ran => by cases ran) fun session => ?_
      split
      · exact .throw id
      · exact (lifted (result _)).bind fun node => .pure _

theorem callRegion_apart (peer : Peer σ) (spec : FunctionSpec) (count : Nat) (region : CallRegion) (preloaded : Bool)
    (context : CallContext) : Fails (fun e => ¬ e.OfProtocol) (callRegion peer spec count region preloaded context) := by
  intro session e later ran
  have sent := (sendCall_fails peer "callFunctionShm" (Json.ofEntries
    ((session.count .moreRegion).regionEntries spec count region preloaded context))).widen
    fun _ ⟨failure, same⟩ => same ▸ DispatchError.ofStream_apart failure
  exact (sent.bind fun response => readResult_apart region response) (session.count .moreRegion) e later ran

theorem callThroughRegion_course (peer : Peer σ) (spec : FunctionSpec) (args : List CallArg) (preloaded : Bool)
    {context : CallContext} {session : Session σ}
    (current : preloaded = true → ∃ id stack, context = some (id, stack) ∧
      session.preloaded = some (Fingerprint.ofContext stack)) :
    ∃ actions last, Course peer spec args context .unseen session actions last
        (left (callThroughRegion peer spec args preloaded context session)) ∧
      Attempted (answered (callThroughRegion peer spec args preloaded context session))
        (left (callThroughRegion peer spec args preloaded context session)) last := by
  cases written : session.writeCallRegion args with
  | mk place placed =>
    have applied : Action.apply peer (.place args) session = placed := congrArg Prod.snd written
    cases place with
    | none =>
      have ran : callThroughRegion peer spec args preloaded context session = .ok none placed := by
        simp only [callThroughRegion, written]
      rw [ran]
      exact ⟨_, _, .next (.refuse (congrArg Prod.fst written)) applied .nil, .inl ⟨rfl, rfl⟩⟩
    | some region =>
      obtain ⟨data, flag, state, answers⟩ := callRegion_cases peer spec args.length region preloaded context placed
      have ran : left (callThroughRegion peer spec args preloaded context session) =
            (left (callRegion peer spec args.length region preloaded context placed)).destroyRegion region.key ∧
          answered (callThroughRegion peer spec args preloaded context session) =
            answered (callRegion peer spec args.length region preloaded context placed) := by
        simp only [callThroughRegion, written]
        cases callRegion peer spec args.length region preloaded context placed <;> exact ⟨rfl, rfl⟩
      have told : data.get? "preloaded" = some (.bool true) → ∃ id stack, context = some (id, stack) ∧
          (placed.count .moreRegion).preloaded = some (Fingerprint.ofContext stack) := by
        intro yes
        obtain ⟨id, stack, given, held⟩ := current (Json.bool.inj (Option.some.inj (flag.symm.trans yes)))
        have kept := (writeCallRegion_stored args session).preloaded
        rw [written] at kept
        exact ⟨id, stack, given, kept.trans held⟩
      -- A peer that declines has not been told of the call; with any other answer it has.
      have begun : ∀ {rest last later}, Course peer spec args context
          (if declines (answered (sendCall peer "callFunctionShm" data (placed.count .moreRegion)))
            then .lent region.key else .told (some region.key))
          (left (sendCall peer "callFunctionShm" data (placed.count .moreRegion))) rest last later →
          Course peer spec args context .unseen session
            (.place args :: .count .moreRegion :: .send "callFunctionShm" data :: rest) last later :=
        fun course => .next (.place (congrArg Prod.fst written)) applied
          (.cons (.count _ fun _ => rfl) (.cons (.offer told) course))
      rw [ran.1, ran.2, state]
      rcases answers with ⟨declined, answer⟩ | ⟨taken, told, answer⟩
      · rw [declined, if_pos rfl] at begun
        exact ⟨_, _, begun (.cons .takeBack .nil), .inl ⟨rfl, answer⟩⟩
      · rw [taken, if_neg Bool.false_ne_true] at begun
        refine ⟨_, _, begun (.cons .release .nil), .inr ⟨told, answer, rfl, fun e failed => ?_⟩⟩
        refine (callRegion_apart peer spec args.length region preloaded context).answered (s := placed) ?_
        rw [answer, failed]
        rfl

theorem attempt_course {attempt : Dispatch σ (Option ResultNode)} {rest : Dispatch σ ResultNode}
    (first : ∃ actions last, Course peer spec args context .unseen session actions last (left (attempt session)) ∧
      Attempted (answered (attempt session)) (left (attempt session)) last)
    (second : ∀ middle, ∃ actions last, Course peer spec args context .unseen middle actions last
      (left (rest middle)) ∧ Concluded (answered (rest middle)) (left (rest middle)) last) :
    let whole := (attempt >>= fun result => match result with
      | some result => pure result
      | none => rest) session
    ∃ actions last, Course peer spec args context .unseen session actions last (left whole) ∧
      Concluded (answered whole) (left whole) last := by
  intro whole
  obtain ⟨actions, last, course, ⟨rfl, answer⟩ | ⟨told, answer, concluded⟩⟩ := first
  · cases ran : attempt session with
    | error e middle =>
      rw [ran] at answer
      cases answer
    | ok result middle =>
      rw [ran] at answer course
      cases answer
      have same : whole = rest middle := bind_done ran
      obtain ⟨more, last, later, concluded⟩ := second middle
      rw [same]
      exact ⟨_, last, course.append later, concluded⟩
  · cases ran : attempt session with
    | error e middle =>
      have same : whole = .error e middle := bind_failed ran
      rw [ran] at answer course concluded
      rw [same]
      cases told with
      | ok result => cases answer
      | error fault =>
        cases answer
        exact ⟨_, last, course, concluded⟩
    | ok result middle =>
      rw [ran] at answer course concluded
      cases told with
      | error fault => cases answer
      | ok result =>
        cases answer
        have same : whole = .ok result middle := bind_done ran
        rw [same]
        exact ⟨_, last, course, concluded⟩

theorem callBinary_declined {spec : FunctionSpec} {args : List CallArg} {session later : Session σ}
    (declined : (if spec.needsContext then pure none else callProtocol peer spec args :
      Dispatch σ (Option ResultNode)) session = .ok none later) (preloaded : Bool) (context : CallContext) :
    callBinary peer spec args preloaded context session =
      (callThroughRegion peer spec args preloaded context >>= fun result => match result with
        | some result => pure result
        | none => do modify countFallback; callJson peer spec args context) later := by
  cases needs : spec.needsContext <;> simp only [callBinary, needs] at declined ⊢ <;> exact bind_done declined

theorem callBinary_course (peer : Peer σ) (spec : FunctionSpec) (args : List CallArg) (preloaded : Bool)
    {context : CallContext} {session : Session σ}
    (current : preloaded = true → spec.needsContext = true ∧ ∃ id stack, context = some (id, stack) ∧
      session.preloaded = some (Fingerprint.ofContext stack)) :
    ∃ actions last, Course peer spec args context .unseen session actions last
        (left (callBinary peer spec args preloaded context session)) ∧
      Concluded (answered (callBinary peer spec args preloaded context session))
        (left (callBinary peer spec args preloaded context session)) last := by
  have asJson : ∀ middle, ∃ actions last, Course peer spec args context .unseen middle actions last
      (left ((do modify countFallback; callJson peer spec args context : Dispatch σ ResultNode) middle)) ∧
      Concluded (answered ((do modify countFallback; callJson peer spec args context : Dispatch σ ResultNode) middle))
        (left ((do modify countFallback; callJson peer spec args context : Dispatch σ ResultNode) middle)) last := by
    intro middle
    obtain ⟨actions, course⟩ := callJson_course peer spec args context middle.countFallback
    refine ⟨_, _, .cons (.count .moreFallbacks fun _ => rfl) course, rfl, fun e failed => ?_⟩
    exact (callJson_apart peer spec args context).answered failed
  cases needs : spec.needsContext with
  | true =>
    rw [callBinary_declined (by rw [if_pos needs]; rfl)]
    exact attempt_course (callThroughRegion_course peer spec args preloaded fun yes => (current yes).2) asJson
  | false =>
    have ran : callBinary peer spec args preloaded context session =
        (callProtocol peer spec args >>= fun result => match result with
          | some result => pure result
          | none => callThroughRegion peer spec args preloaded context >>= fun result => match result with
            | some result => pure result
            | none => do modify countFallback; callJson peer spec args context) session := by
      simp only [callBinary, needs]
      rfl
    rw [ran]
    refine attempt_course (callProtocol_course peer spec args context session) fun middle => ?_
    refine attempt_course (callThroughRegion_course peer spec args preloaded fun yes => ?_) asJson
    rw [(current yes).1] at needs
    cases needs

theorem ensurePreloaded_current {stack : EvalContext} (current : (session.ensurePreloaded stack).1 = true) :
    (session.ensurePreloaded stack).2.preloaded = some (Fingerprint.ofContext stack) := by
  unfold ensurePreloaded at current ⊢
  simp only at current ⊢
  split at current
  · rename_i same
    rw [if_pos same]
    exact same
  · rename_i other
    rw [if_neg other]
    split at current
    · cases current
    · rename_i linked
      split at current
      · rfl
      · cases current

theorem preloadContext_cases (spec : FunctionSpec) (context : CallContext) (session : Session σ) :
    session.preloadContext spec context = (false, session) ∨ ∃ id stack, context = some (id, stack) ∧
      spec.needsContext = true ∧ session.preloadContext spec context = session.ensurePreloaded stack := by
  cases context with
  | none => exact .inl rfl
  | some entry =>
    obtain ⟨id, stack⟩ := entry
    cases needs : spec.needsContext with
    | false => exact .inl (by simp [preloadContext, needs])
    | true =>
      by_cases one : session.active.length = 1
      · exact .inr ⟨id, stack, rfl, rfl, by simp [preloadContext, needs, one]⟩
      · exact .inl (by simp [preloadContext, needs, one])

theorem route_course (peer : Peer σ) (spec : FunctionSpec) (args : List CallArg) (context : CallContext)
    (session : Session σ) :
    ∃ actions last, Course peer spec args context .unseen (session.preloadContext spec context).2 actions last
        (left (route peer spec args context session)) ∧
      Concluded (answered (route peer spec args context session)) (left (route peer spec args context session)) last := by
  have current : (session.preloadContext spec context).1 = true → spec.needsContext = true ∧
      ∃ id stack, context = some (id, stack) ∧
        (session.preloadContext spec context).2.preloaded = some (Fingerprint.ofContext stack) := by
    rcases preloadContext_cases spec context session with same | ⟨id, stack, given, needs, pushed⟩
    · rw [same]
      exact nofun
    · rw [pushed]
      exact fun yes => ⟨needs, id, stack, given, ensurePreloaded_current yes⟩
  cases looked : session.preloadContext spec context with
  | mk preloaded middle =>
    rw [looked] at current
    cases mode : spec.mode.getD middle.settings.mode with
    | json =>
      have ran : route peer spec args context session = callJson peer spec args context middle := by
        simp only [route, looked, mode]
      obtain ⟨actions, course⟩ := callJson_course peer spec args context middle
      rw [ran]
      exact ⟨actions, _, course, rfl, fun e failed => (callJson_apart peer spec args context).answered failed⟩
    | binary =>
      have ran : route peer spec args context session = callBinary peer spec args preloaded context middle := by
        simp only [route, looked, mode]
      rw [ran]
      exact callBinary_course peer spec args preloaded current

def prepared (spec : FunctionSpec) (context : Option EvalContext) (session : Session σ) : Session σ :=
  ((session.enter context).2.preloadContext spec (session.enter context).1).2

def remaining (context : CallContext) (session : Session σ) : List (Nat × EvalContext) :=
  match context with
  | none => session.active
  | some (id, _) => (session.dismiss id).active

theorem leave_cases (context : CallContext) (session : Session σ) :
    (session.inFlight ≤ 1 ∧ session.leave context =
      ({ session with
          active := session.remaining context, inFlight := session.inFlight - 1, variableKeys := [] }).destroyRegions
        session.variableKeys) ∨
    (1 < session.inFlight ∧ session.leave context =
      { session with active := session.remaining context, inFlight := session.inFlight - 1 }) := by
  have departs (session : Session σ) :
      session.inFlight ≤ 1 ∧ session.depart =
        ({ session with inFlight := session.inFlight - 1, variableKeys := [] }).destroyRegions session.variableKeys ∨
      1 < session.inFlight ∧ session.depart = { session with inFlight := session.inFlight - 1 } := by
    unfold depart
    by_cases last : session.inFlight - 1 = 0
    · exact .inl ⟨by omega, if_pos last⟩
    · exact .inr ⟨by omega, if_neg last⟩
  cases context with
  | none => exact departs session
  | some entry => exact departs (session.dismiss entry.1)

theorem leave_left (context : CallContext) (session : Session σ) : ∃ keys gone,
    (∀ key ∈ keys, key ∈ session.variableKeys) ∧ (∀ key ∈ gone, key ∈ session.variableKeys) ∧
    session.leave context =
      ({ session with
          active := session.remaining context, inFlight := session.inFlight - 1, variableKeys := keys }).destroyRegions
        gone := by
  rcases leave_cases context session with ⟨-, same⟩ | ⟨-, same⟩
  · exact ⟨[], session.variableKeys, nofun, fun _ among => among, same⟩
  · exact ⟨session.variableKeys, [], fun _ among => among, nofun, same⟩

theorem leave_stored (context : CallContext) (session : Session σ) : ∃ keys,
    (∀ key ∈ keys, key ∈ session.variableKeys) ∧ Stored { session with
      active := session.remaining context, inFlight := session.inFlight - 1, variableKeys := keys }
      (session.leave context) := by
  obtain ⟨keys, gone, kept, -, same⟩ := leave_left context session
  exact ⟨keys, kept, same ▸ destroyRegions_stored gone _⟩

theorem leave_kept (context : CallContext) (session : Session σ) :
    (session.leave context).counts = session.counts ∧ (session.leave context).cache = session.cache ∧
      (session.leave context).settings = session.settings ∧ (session.leave context).protocol = session.protocol := by
  obtain ⟨keys, -, stored⟩ := leave_stored context session
  exact ⟨stored.counts, stored.cache, stored.settings, stored.protocol⟩

theorem invoke_course (peer : Peer σ) (spec : FunctionSpec) (args : List CallArg) (context : Option EvalContext)
    (session : Session σ) :
    ∃ actions last middle, Course peer spec args (session.enter context).1 .unseen (session.prepared spec context)
        actions last middle ∧
      left (invoke peer spec args context session) = middle.leave (session.enter context).1 ∧
      Concluded (answered (invoke peer spec args context session)) middle last := by
  obtain ⟨actions, last, course, concluded⟩ := route_course peer spec args (session.enter context).1
    (session.enter context).2
  refine ⟨actions, last, _, course, ?_, ?_⟩
  · unfold invoke
    simp only
    cases route peer spec args (session.enter context).1 (session.enter context).2 <;> rfl
  · have same : answered (invoke peer spec args context session) =
        answered (route peer spec args (session.enter context).1 (session.enter context).2) := by
      unfold invoke
      simp only
      cases route peer spec args (session.enter context).1 (session.enter context).2 <;> rfl
    exact same ▸ concluded

theorem call_cases (peer : Peer σ) (spec : FunctionSpec) (scope : ScopeKey) (args : List CallArg)
    (context : Option EvalContext) (session : Session σ) :
    (∃ hit cache, call peer spec scope args context session = .ok hit { session with cache := cache }) ∨
    ∃ first last, answered (call peer spec scope args context session) =
        answered (invoke peer spec args context { session with cache := first }) ∧
      left (call peer spec scope args context session) =
        { left (invoke peer spec args context { session with cache := first }) with cache := last } := by
  cases kept : session.cacheKey? spec scope args with
  | none =>
    have ran : call peer spec scope args context session = invoke peer spec args context session := by
      simp only [call, kept]
    exact .inr ⟨session.cache, _, congrArg answered ran, congrArg left ran⟩
  | some key =>
    cases found : session.cache.get key with
    | mk hit cache =>
      cases hit with
      | some hit => exact .inl ⟨hit, cache, by simp only [call, kept, found]⟩
      | none =>
        right
        cases ran : invoke peer spec args context { session with cache := cache } with
        | error e later =>
          have whole : call peer spec scope args context session = .error e later := by
            simp only [call, kept, found, ran]
          exact ⟨cache, later.cache, by rw [whole, ran], by rw [whole, ran]; rfl⟩
        | ok result later =>
          have whole : call peer spec scope args context session =
              .ok result { later with cache := later.cache.insert key result } := by
            simp only [call, kept, found, ran]
          exact ⟨cache, later.cache.insert key result, by rw [whole, ran]; rfl, by rw [whole, ran]; rfl⟩

end routes
end Session
end PluginBridge
