import PluginBridge.Proofs.Call.WireRebuilding
import PluginBridge.Proofs.Dispatch.Course
import PluginBridge.Proofs.Dispatch.EchoRoutes
import PluginBridge.Proofs.Protocol.Exchange
namespace PluginBridge

-- Both ends of the protocol: one region, one layout, and an id that means the same function.
structure Serving (memory : Memory) (host : ProtocolHost) (protocol : EchoProtocol) : Prop where
  polling : protocol.polling = true
  layouts : host.block.layout = .standard ∧ protocol.peer.block.layout = .standard
  shared : ∃ data, Layout.standard.totalSize ≤ data.size ∧
    Shared memory host.block.region protocol.peer.block.region data
  known : ∀ id, host.functionId? "echo" = some id → List.lookup id protocol.names = some "echo"

theorem Serving.keeps {memory later : Memory} {host : ProtocolHost} {protocol : EchoProtocol}
    (serving : Serving memory host protocol) (keeps : memory.Keeps later) : Serving later host protocol := by
  obtain ⟨data, room, shared⟩ := serving.shared
  exact ⟨serving.polling, serving.layouts, ⟨data, room, keeps.shared shared⟩, serving.known⟩

theorem Serving.parts {memory : Memory} {host : ProtocolHost} {protocol : EchoProtocol}
    (serving : Serving memory host protocol) : ∃ data, Layout.standard.totalSize ≤ data.size ∧
      host.block.layout.Serves data.size ∧
      Shared memory host.block.region protocol.peer.block.region data := by
  obtain ⟨data, room, shared⟩ := serving.shared
  exact ⟨data, room, serving.layouts.1 ▸ ⟨Layout.standard_consistent, Layout.standard_separate,
    Layout.standard_addressable, room⟩, shared⟩

theorem Serving.learns {memory : Memory} {host later : ProtocolHost} {protocol : EchoProtocol} {id : UInt32}
    (serving : Serving memory host protocol) (block : later.block = host.block)
    (known : later.functionId? "echo" = some id) :
    Serving memory later { protocol with names := (id, "echo") :: protocol.names } := by
  obtain ⟨data, room, shared⟩ := serving.shared
  refine ⟨serving.polling, block ▸ serving.layouts, ⟨data, room, block ▸ shared⟩, fun other held => ?_⟩
  obtain rfl := Option.some.inj (known.symm.trans held)
  exact List.lookup_cons_self

namespace Session
variable {session later : Session (Conversation EchoState)} {link : ProtocolLink} {node : Node}
  {mode : Option CallMode} {bytes : ByteArray}

-- Nothing is under way, no region waits to be given back, and where a protocol is linked the peer
-- serves it.
structure Ready (session : Session (Conversation EchoState)) : Prop where
  idle : session.Idle
  keys : session.variableKeys = []
  linked : ∀ link, session.protocol = some link → ∃ protocol,
    session.peer.state.protocol = some protocol ∧ Serving session.store.memory link.host protocol

theorem start_ready (settings : Settings) :
    Ready (start settings (Conversation.start Echo.initial)) :=
  ⟨start_idle settings Echo.initial, rfl, fun _ linked => by cases linked⟩

theorem Ready.continues {commands : Nat} (ready : session.Ready) (on : session.Continues later commands) :
    later.Ready := by
  refine ⟨on.idle, on.keys.trans ready.keys, fun link linked => ?_⟩
  obtain ⟨protocol, attached, serving⟩ := ready.linked link (on.protocol.symm.trans linked)
  exact ⟨protocol, on.state ▸ attached, serving.keeps on.memory⟩

theorem Idle.setHost (idle : session.Idle) (host : ProtocolHost) : Idle (session.setHost host) :=
  idle.sameTalk rfl rfl rfl rfl rfl

def registerEntries (id : UInt32) : List (String × Json) := [("name", .string "echo"), ("id", .natural id.toNat)]

section register
variable {id : UInt32}

theorem registerEntries_apart (id : UInt32) : ((registerEntries id).map Prod.fst).Nodup :=
  (by decide : (["name", "id"] : List String).Nodup)

theorem registerEntries_name (id : UInt32) :
    ((Json.ofEntries (registerEntries id)).get "name").toString? = some "echo" := by
  rw [Json.get_ofEntries (registerEntries_apart id) rfl]
  rfl

theorem registerEntries_id (id : UInt32) :
    ((Json.ofEntries (registerEntries id)).get "id").toWord? = some id.toNat := by
  rw [Json.get_ofEntries (registerEntries_apart id) rfl, Json.toWord_natural]

theorem registerEntries_readable (id : UInt32) : (Json.ofEntries (registerEntries id)).Readable := by
  have small : id.toNat < wordLimit := Nat.lt_trans id.toNat_lt (by decide)
  refine Json.ofEntries_readable ?_
  simp [registerEntries, Json.Readable, Json.natural_readable small]

theorem registerEntries_levels (id : UInt32) : (Json.ofEntries (registerEntries id)).levels < Json.maxLevels := by
  refine Nat.lt_of_le_of_lt (@Json.ofEntries_levels _ 0 ?_) (by decide)
  simp [registerEntries, Json.levels, Json.natural]

end register

theorem Ready.count (ready : session.Ready) (change : CallCounts → CallCounts) : (session.count change).Ready :=
  ⟨ready.idle.count change, ready.keys, ready.linked⟩

theorem protocolId_echo (ready : session.Ready) (linked : session.protocol = some link)
    (small : session.stream.lastId + 1 < wordLimit) :
    ∃ id host later, protocolId Echo.service.peer link.host "echo" session = (some id, later) ∧
      later.protocol = some { link with host := host } ∧ host.functionId? "echo" = some id ∧
      later.Ready ∧ later.settings = session.settings ∧ later.counts = session.counts ∧
      later.stream.lastId ≤ session.stream.lastId + 1 := by
  obtain ⟨protocol, attached, serving⟩ := ready.linked link linked
  cases found : link.host.functionId? "echo" with
  | some id =>
    refine ⟨id, link.host, session, ?_, linked, found, ready, rfl, rfl, Nat.le_succ _⟩
    simp only [protocolId, ProtocolHost.registerFunction, found, setHost_same linked]
    rfl
  | none =>
    obtain ⟨id, host, registered, block, known⟩ := ProtocolHost.registerFunction_new found
    have idle : (session.setHost host).Idle := ready.idle.setHost host
    have renewed : (session.setHost host).protocol = some { link with host := host } := by
      rw [setHost, linked]
      rfl
    have answers := Echo.registerFunction_answers (registerEntries_name id) (registerEntries_id id) attached
      (session.stream.lastId + 1) session.store.memory
    rw [UInt32.ofNat_toNat] at answers
    obtain ⟨next, stream, sent, state, ids, -, still⟩ := sendCall_answered Echo.service "registerFunction" idle
      small (registerEntries_readable id) (registerEntries_levels id) answers trivial (by decide)
    refine ⟨id, host, (session.setHost host).talked next session.store.memory stream, ?_, renewed, known,
      ⟨still, ready.keys, ?_⟩, rfl, rfl, Nat.le_of_eq ids⟩
    · simp only [protocolId, registered, if_true]
      rw [show Json.ofEntries [("name", .string "echo"), ("id", .natural id.toNat)] =
        .ofEntries (registerEntries id) from rfl, sent]
    · intro later there
      obtain rfl := Option.some.inj (renewed.symm.trans there)
      exact ⟨_, congrArg EchoState.protocol state, serving.learns block known⟩

theorem finishProtocol_done {σ : Type} {service : Service σ} {session : Session (Conversation σ)}
    {host : ProtocolHost} {state : σ} {signalled answered taken : Memory} {value : WireValue}
    (idle : session.Idle) (rang : host.signalRequest session.store.memory = .ok () signalled)
    (polled : service.poll session.peer.state signalled = (state, answered))
    (took : host.takeResponse answered = .ok value taken) :
    finishProtocol service.peer host session = .ok (.ofWire value) { session.count .moreProtocol with
      peer := { session.peer with state := state }
      store := { session.store with memory := taken } } := by
  refine finishProtocol_served rang ?_ took
  simp only [Service.peer, idle.peer.stays, polled, Bool.false_eq_true, if_false]

theorem finishProtocol_echo {host : ProtocolHost} {protocol : EchoProtocol} {id : UInt32}
    {data : ByteArray} (idle : session.Idle) (attached : session.peer.state.protocol = some protocol)
    (polling : protocol.polling = true) (agree : protocol.peer.block.layout = host.block.layout)
    (named : List.lookup id protocol.names = some "echo") (serves : host.block.layout.Serves data.size)
    (shared : Shared session.store.memory host.block.region protocol.peer.block.region data)
    (few : 1 ≤ host.block.layout.fields.maxArgs) (fits : host.argCursor ≤ host.block.layout.argsSize)
    (staged : ProtocolHost.CallStaged host.block.layout data id [.ofNode node])
    (held : WireValue.supports node = true) (finite : node.EveryNumber fun x => x.isFinite = true)
    (encoded : (WireValue.ofNode node).encode = .ok bytes)
    (room : bytes.size ≤ host.block.layout.resultsSize) :
    ∃ memory after, finishProtocol Echo.service.peer host session = .ok (.ofWire (.ofNode node))
        { session.count .moreProtocol with store := { session.store with memory := memory } } ∧
      Shared memory host.block.region protocol.peer.block.region after ∧ after.size = data.size := by
  have flat : (WireValue.ofNode node).depth ≤ WireValue.maxDepth := WireValue.ofNode_depth held
  have back := ResultNode.ofWire_toNode held finite
  have one : [WireValue.ofNode node].length ≤ host.block.layout.fields.maxArgs := few
  have short : [WireValue.ofNode node].length < 0x100000000 :=
    Nat.lt_of_le_of_lt (Nat.le_of_eq List.length_singleton) (by decide)
  obtain ⟨m1, m2, m3, m4, after, rang, taken, responded, took, still, size⟩ := ProtocolHost.exchange_done agree
    serves shared one short (by simpa using flat) fits staged flat encoded room
  have supported : WireValue.supports (ResultNode.ofWire (.ofNode node)).toNode = true := by
    rw [back]
    exact Node.hasWireForm_bare held
  have same : WireValue.ofNode (ResultNode.ofWire (.ofNode node)).toNode = .ofNode node := by
    rw [back, WireValue.ofNode_bare]
  rw [← same] at responded
  have polled := Echo.poll_answers attached polling taken named supported responded
  exact ⟨m4, after, finishProtocol_done idle rang polled took, still, size⟩

section staging
variable {id : UInt32} {host staged : ProtocolHost} {begun : Session (Conversation EchoState)} {memory : Memory}

def staging (begun : Session (Conversation EchoState)) (link : ProtocolLink) (staged : ProtocolHost)
    (memory : Memory) : Session (Conversation EchoState) :=
  { begun with
    protocol := some { link with host := staged }
    store := { begun.store with memory := memory } }

theorem toWire_node (held : WireValue.supports node = true) :
    [CallArg.node node].mapM CallArg.toWire? = some [.ofNode node] := by
  simp [CallArg.toWire?, held]

theorem callProtocol_signals (linked : session.protocol = some link) (held : WireValue.supports node = true)
    (named : protocolId Echo.service.peer link.host "echo" session = (some id, begun))
    (renewed : begun.protocol = some { link with host := host })
    (ran : host.stageCall id [.ofNode node] begun.store.memory = .ok (staged, .ok ()) memory) :
    callProtocol Echo.service.peer (Echo.spec mode) [.node node] session =
      EStateM.map some (finishProtocol Echo.service.peer staged) (begun.staging link staged memory) := by
  have few : ¬ maxProtocolArgs < [CallArg.node node].length := Nat.not_lt.mpr (Nat.succ_le_of_lt (by decide))
  simp only [callProtocol, linked, toWire_node held, if_neg few, Echo.spec, named, renewed, onMemory,
    Option.map_some, Option.getD_some, ran]
  rfl

theorem callProtocol_declines (linked : session.protocol = some link) (held : WireValue.supports node = true)
    (named : protocolId Echo.service.peer link.host "echo" session = (some id, begun))
    (renewed : begun.protocol = some { link with host := host }) {e : ProtocolError}
    (fault : isSizeFault e = true)
    (ran : host.stageCall id [.ofNode node] begun.store.memory = .ok (staged, .error e) memory) :
    callProtocol Echo.service.peer (Echo.spec mode) [.node node] session =
      .ok none ((begun.staging link staged memory).count .moreFallbacks) := by
  have few : ¬ maxProtocolArgs < [CallArg.node node].length := Nat.not_lt.mpr (Nat.succ_le_of_lt (by decide))
  simp only [callProtocol, linked, toWire_node held, if_neg few, Echo.spec, named, renewed, onMemory,
    Option.map_some, Option.getD_some, ran, fault, if_true]
  rfl

theorem staging_ready {protocol : EchoProtocol} {data : ByteArray} (ready : begun.Ready)
    (attached : begun.peer.state.protocol = some protocol)
    (serving : Serving begun.store.memory host protocol) (block : staged.block = host.block)
    (functions : staged.functions = host.functions) (room : Layout.standard.totalSize ≤ data.size)
    (shared : Shared memory host.block.region protocol.peer.block.region data) :
    (begun.staging link staged memory).Ready := by
  refine ⟨ready.idle.sameTalk rfl rfl rfl rfl rfl, ready.keys, fun other here => ⟨protocol, attached, ?_⟩⟩
  cases here
  refine ⟨serving.polling, block ▸ serving.layouts, ⟨data, room, block ▸ shared⟩, fun other found => ?_⟩
  refine serving.known other ?_
  rw [ProtocolHost.functionId?, functions] at found
  exact found

end staging

theorem callProtocol_echo (mode : Option CallMode) (ready : session.Ready) (linked : session.protocol = some link)
    (small : session.stream.lastId + 1 < wordLimit) (held : WireValue.supports node = true)
    (finite : node.EveryNumber fun x => x.isFinite = true)
    (encoded : (WireValue.ofNode node).encode = .ok bytes) (fits : bytes.size ≤ Layout.standard.argsSize) :
    ∃ later, callProtocol Echo.service.peer (Echo.spec mode) [.node node] session =
        .ok (some (.ofWire (.ofNode node))) later ∧ later.Ready ∧
      later.stream.lastId ≤ session.stream.lastId + 1 ∧ later.counts = session.counts.moreProtocol := by
  obtain ⟨id, host, begun, named, renewed, known, begunReady, _, counts, ids⟩ :=
    protocolId_echo ready linked small
  obtain ⟨protocol, attached, serving⟩ := begunReady.linked _ renewed
  have serving : Serving begun.store.memory host protocol := serving
  obtain ⟨data, room, serves, shared⟩ := serving.parts
  have layout : host.block.layout = .standard := serving.layouts.1
  have few : 1 ≤ host.block.layout.fields.maxArgs := layout ▸ Nat.succ_le_of_lt (Nat.succ_pos _)
  have sections : bytes.size ≤ host.block.layout.argsSize ∧ bytes.size ≤ host.block.layout.resultsSize :=
    layout ▸ ⟨fits, fits⟩
  let next : ProtocolHost := { host with argCount := 1, argCursor := bytes.size }
  obtain ⟨m1, d1, stages, staged⟩ := @ProtocolHost.stageCall_done _ _ _ host serves shared id
    [.ofNode node] bytes few (ProtocolHost.encodeAll_one encoded) sections.1
  have ran : host.stageCall id [.ofNode node] begun.store.memory = .ok (next, .ok ()) m1 := stages.ran
  have staging := @staging_ready link host next begun m1 protocol d1 begunReady attached serving rfl rfl
    (stages.differs.size ▸ room) stages.shared
  obtain ⟨memory, after, finished, still, size⟩ := @finishProtocol_echo (begun.staging link next m1) node
    bytes next protocol id d1 staging.idle attached serving.polling
    (serving.layouts.2.trans serving.layouts.1.symm) (serving.known id known) (stages.serves serves)
    stages.shared few sections.1 staged held finite encoded sections.2
  refine ⟨(begun.count .moreProtocol).staging link next memory, ?_, ?_, ids, ?_⟩
  · rw [callProtocol_signals linked held named renewed ran, EStateM.map, finished]
    rfl
  · exact staging_ready (begunReady.count .moreProtocol) attached serving rfl rfl
      (size ▸ stages.differs.size ▸ room) still
  · exact congrArg CallCounts.moreProtocol counts

theorem callProtocol_long (mode : Option CallMode) (ready : session.Ready) (linked : session.protocol = some link)
    (small : session.stream.lastId + 1 < wordLimit) (held : WireValue.supports node = true)
    (long : ∀ bytes, (WireValue.ofNode node).encode = .ok bytes → Layout.standard.argsSize < bytes.size) :
    ∃ later, callProtocol Echo.service.peer (Echo.spec mode) [.node node] session = .ok none later ∧
      later.Ready ∧ later.stream.lastId ≤ session.stream.lastId + 1 ∧ later.settings = session.settings ∧
      later.counts = session.counts.moreFallbacks := by
  obtain ⟨id, host, begun, named, renewed, known, begunReady, settings, counts, ids⟩ :=
    protocolId_echo ready linked small
  obtain ⟨protocol, attached, serving⟩ := begunReady.linked _ renewed
  have serving : Serving begun.store.memory host protocol := serving
  obtain ⟨data, room, serves, shared⟩ := serving.parts
  have layout : host.block.layout = .standard := serving.layouts.1
  have few : 1 ≤ host.block.layout.fields.maxArgs := layout ▸ Nat.succ_le_of_lt (Nat.succ_pos _)
  obtain ⟨e, m1, d1, fault, stages⟩ := ProtocolHost.stageCall_refused serves shared id few (layout ▸ long)
  refine ⟨_, callProtocol_declines linked held named renewed fault stages.ran, ?_, ids, settings,
    congrArg CallCounts.moreFallbacks counts⟩
  have staging := @staging_ready link host { host with argCount := 1, argCursor := 0 } begun m1 protocol d1
    begunReady attached serving rfl rfl (stages.differs.size ▸ room) stages.shared
  exact staging.count .moreFallbacks

theorem callProtocol_elsewhere (mode : Option CallMode)
    (apart : session.protocol = none ∨ WireValue.supports node = false) :
    callProtocol Echo.service.peer (Echo.spec mode) [.node node] session = .ok none session := by
  rcases apart with none | unsupported
  · simp only [callProtocol, none]
  · have wire : [CallArg.node node].mapM CallArg.toWire? = none := by
      simp [CallArg.toWire?, unsupported]
    simp only [callProtocol, wire]
    cases session.protocol <;> rfl

end Session
end PluginBridge
