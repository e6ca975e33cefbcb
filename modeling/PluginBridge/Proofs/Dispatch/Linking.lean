import PluginBridge.Bridge
import PluginBridge.Proofs.Dispatch.EchoProtocol
import PluginBridge.Proofs.Protocol.Docket
namespace PluginBridge

namespace Layout

theorem standard_read : ofJson standard.toJson = .ok standard := by
  have read : ofJson? standard.toJson = some standard := by decide +kernel
  simp only [ofJson, Json.Shape.read, read]

theorem toJson_readable (layout : Layout) (fields : ∀ entry ∈ fieldEntries layout.fields, entry.2 < wordLimit)
    (sections : ∀ entry ∈ layout.sectionEntries, entry.2 < wordLimit) : layout.toJson.Readable := by
  have naturals : ∀ entries : List (String × Nat), (∀ entry ∈ entries, entry.2 < wordLimit) →
      ∀ entry ∈ naturals entries, entry.2.Readable := by
    intro entries small entry among
    obtain ⟨source, inside, rfl⟩ := List.mem_map.mp among
    exact Json.natural_readable (small source inside)
  refine Json.ofEntries_readable (List.forall_mem_append.mpr ⟨naturals _ sections, ?_⟩)
  simpa using Json.ofEntries_readable (naturals _ fields)

theorem standard_levels : standard.toJson.levels ≤ 2 := by
  decide +kernel

end Layout

section ends
variable {base memory : Memory} {path : String} {id other : RegionId} {data : ByteArray}

theorem Echo.attach_done (owned : Private base memory path id id data)
    (room : Layout.standard.totalSize ≤ data.size) :
    ∃ view later after, Echo.attach path .standard memory = .ok ⟨⟨view, .standard⟩⟩ later ∧
      Shared later id view after ∧ after.size = data.size := by
  obtain ⟨view, middle, taken, placed⟩ := ProtocolPeer.attach_done owned room
  have shared := placed.shared.symm
  obtain ⟨later, after, marked⟩ := @ProtocolPeer.markReady_done id middle data
    ⟨⟨view, .standard⟩⟩ ⟨Layout.standard_consistent, Layout.standard_separate, Layout.standard_addressable, room⟩
    shared
  refine ⟨view, later, after, ?_, marked.shared.symm, marked.differs.size⟩
  rw [attach, bind_done taken, bind_done marked.ran]
  rfl

end ends

namespace Session
variable {session : Session (Conversation EchoState)}

def linkEntries (path : String) (size : Nat) : List (String × Json) :=
  [("path", .string path), ("size", .natural size), ("layout", Layout.standard.toJson)]

theorem linkEntries_apart (path : String) (size : Nat) : ((linkEntries path size).map Prod.fst).Nodup :=
  (by decide : (["path", "size", "layout"] : List String).Nodup)

theorem linkEntries_layout (path : String) (size : Nat) :
    Layout.ofJson ((Json.ofEntries (linkEntries path size)).get "layout") = .ok .standard := by
  rw [Json.get_ofEntries (linkEntries_apart path size) rfl]
  exact Layout.standard_read

theorem linkEntries_path (path : String) (size : Nat) :
    ((Json.ofEntries (linkEntries path size)).get "path").toString? = some path := by
  rw [Json.get_ofEntries (linkEntries_apart path size) rfl]
  rfl

theorem linkEntries_readable (path : String) {size : Nat} (small : size < wordLimit) :
    (Json.ofEntries (linkEntries path size)).Readable := by
  have layout : Layout.standard.toJson.Readable := Layout.toJson_readable _ (by decide) (by decide)
  refine Json.ofEntries_readable ?_
  simp [linkEntries, Json.Readable, Json.natural_readable small, layout]

theorem linkEntries_levels (path : String) (size : Nat) :
    (Json.ofEntries (linkEntries path size)).levels < Json.maxLevels := by
  refine Nat.lt_of_le_of_lt (@Json.ofEntries_levels _ 2 ?_) (by decide)
  simp [linkEntries, Json.levels, Json.natural, Layout.standard_levels]

theorem linkMessage_entries {base : Memory} {path : String} {id : RegionId} {data : ByteArray}
    (owned : Private base session.store.memory path id id data) (timeout : Duration) :
    session.linkMessage ⟨path, .new ⟨id, .standard⟩ timeout⟩ = .ofEntries (linkEntries path data.size) := by
  obtain ⟨place, length, _⟩ := place_said session owned
  simp only [linkMessage, ProtocolHost.new, place, length]
  rfl

theorem initProtocol_ready (ready : session.Ready) (small : session.stream.lastId + 1 < wordLimit) :
    (∃ e store, Store.create Layout.standard.totalSize session.store = .error e store ∧
      ∃ fault later, initProtocol Echo.service.peer session = .error fault later ∧ later.Ready ∧
        later.settings = session.settings ∧ later.stream.lastId = session.stream.lastId) ∨
    ∃ later link, initProtocol Echo.service.peer session = .ok true later ∧ later.Ready ∧
      later.protocol = some link ∧ later.settings = session.settings ∧
      later.stream.lastId = session.stream.lastId + 1 := by
  rcases createLink_made session with
    ⟨e, store, refused, same, full, -⟩ | ⟨id, store, made, owned, -⟩
  · refine .inl ⟨e, store, full, .protocol (.region e), { session with store := store }, ?_,
      ready.continues (ready.idle.sameMemory same), rfl, rfl⟩
    simp only [initProtocol, refused]
  · let path := Store.keyText session.store.manager.nextKey
    let data := zeros Layout.standard.totalSize
    have size : data.size = Layout.standard.totalSize := size_zeros _
    have room : Layout.standard.totalSize ≤ data.size := Nat.le_of_eq size.symm
    obtain ⟨view, memory, after, attached, shared, still⟩ := Echo.attach_done owned room
    have answers := Echo.initProtocol_answers (linkEntries_layout path data.size)
      (linkEntries_path path data.size) attached (session.stream.lastId + 1) session.peer.state
    have polling : (Json.ofEntries [("polling", .bool true)]).Readable :=
      Json.ofEntries_readable (by simp [Json.Readable])
    obtain ⟨next, stream, sent, state, ids, -, idle⟩ := sendCall_answered Echo.service "initProtocol"
      (ready.idle.onStore store) small (linkEntries_readable path (size ▸ by decide))
      (linkEntries_levels path data.size) answers polling (by decide)
    let link : ProtocolLink := ⟨path, .new ⟨id, .standard⟩ session.settings.protocolTimeout⟩
    refine .inr ⟨{ Session.talked { session with store := store } next memory stream with protocol := some link },
      link, ?_, ?_, rfl, rfl, ids⟩
    · simp only [initProtocol, made]
      rw [@linkMessage_entries { session with store := store } _ path id data owned, sent]
      rfl
    · refine ⟨idle.sameTalk rfl rfl rfl rfl rfl, ready.keys, ?_⟩
      intro link linked
      cases linked
      refine ⟨⟨⟨⟨view, .standard⟩⟩, [], true⟩, congrArg EchoState.protocol state, rfl, ⟨rfl, rfl⟩,
        ⟨after, still ▸ room, shared⟩, ?_⟩
      rintro id ⟨⟩

theorem ping_done (idle : session.Idle) (small : session.stream.lastId + 1 < wordLimit) (timeout : Duration) :
    ∃ later, send Echo.service.peer "ping" .null timeout session = .ok (.string "pong") later ∧
      session.Continues later 1 ∧ later.store = session.store := by
  have answers := Echo.ping_answers (session.stream.lastId + 1) session.peer.state session.store.memory .null
  have asked : Json.null.Readable := by simp [Json.Readable]
  have pong : (Json.string "pong").Readable := by simp [Json.Readable]
  obtain ⟨next, stream, sent, state, ids, -, still⟩ := send_answered Echo.service "ping" idle small asked
    (by decide) answers pong (by decide) timeout
  exact ⟨_, sent, ⟨still, state, .refl _, rfl, rfl, rfl, ids⟩, rfl⟩

end Session

theorem Bridge.start_ready (settings : Settings) :
    ∃ bridge, Bridge.start settings Echo.service.peer (some (Conversation.start Echo.initial)) = .ok bridge ∧
      bridge.session.Ready ∧ bridge.session.settings = settings ∧ bridge.session.stream.lastId ≤ 2 ∧
      (settings.mode = .binary → (∀ limit, settings.capacity = some limit → Layout.standard.totalSize ≤ limit) →
        bridge.session.protocol.isSome) := by
  have idle : Session.Idle { Session.start settings (Conversation.start Echo.initial) with
      servesVariables := false } :=
    (Session.start_idle settings Echo.initial).sameTalk rfl rfl rfl rfl rfl
  obtain ⟨pinged, sent, on, store⟩ := Session.ping_done idle (show 0 + 1 < wordLimit by decide)
    settings.startupTimeout
  have ready : Session.Ready { pinged with servesVariables := true } :=
    ⟨on.idle.sameTalk rfl rfl rfl rfl rfl, on.keys, fun link linked => by cases on.protocol.symm.trans linked⟩
  have ids : pinged.stream.lastId = 1 := on.ids
  simp only [Bridge.start, sent]
  cases mode : settings.mode with
  | json => exact ⟨_, rfl, ready, on.settings, Nat.le_of_eq ids |>.trans (by decide), fun binary => by cases binary⟩
  | binary =>
    rcases Session.initProtocol_ready ready (show pinged.stream.lastId + 1 < wordLimit by rw [ids]; decide) with
      ⟨e, later, full, fault, last, ran, still, same, count⟩ | ⟨last, link, ran, still, linked, same, count⟩
    · rw [ran]
      refine ⟨_, rfl, still, same.trans on.settings, Nat.le_of_eq (count.trans ids) |>.trans (by decide),
        fun _ room => ?_⟩
      obtain ⟨id, made, done⟩ := Store.create_first (by decide) (by decide) room
      cases (store ▸ full).symm.trans done
    · rw [ran]
      exact ⟨_, rfl, still, same.trans on.settings, Nat.le_of_eq (count.trans (congrArg (· + 1) ids)),
        fun _ _ => by rw [linked]; rfl⟩

end PluginBridge
