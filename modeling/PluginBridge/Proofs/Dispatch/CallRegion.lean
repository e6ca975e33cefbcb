import PluginBridge.Dispatch.Call
import PluginBridge.Proofs.Call.RegionRoute
import PluginBridge.Proofs.Protocol.Cells
import PluginBridge.Proofs.Stream.Lines
namespace PluginBridge.Session
variable {σ : Type} {session : Session σ} {base memory : Memory} {store : Store} {path : String}
  {id view : RegionId} {node : Node} {content bytes : ByteArray} {size : Nat}

structure Filled (base : Memory) (store : Store) (path : String) (id : RegionId)
    (content bytes : ByteArray) : Prop where
  owned : Private base store.memory path id id content
  held : Holds content 0 bytes
  something : content.size ≠ 0
  small : content.size < maxFileSize
  tracked : ∀ memory, Store.lookup? ⟨memory, store.manager⟩ path = some id

structure Numbered (before after : RegionManager) (id : RegionId) : Prop where
  tracked : after.tracked =
    (before.tracked.filter fun entry => entry.1 != Store.keyText before.nextKey) ++
      [(Store.keyText before.nextKey, id)]
  next : after.nextKey = before.nextKey + 1

theorem createFilled_made (session : Session σ) (within : bytes.size ≤ size) :
    (∃ e store, session.createFilled size bytes = (.error e, { session with store := store }) ∧
      store.memory = session.store.memory ∧ Store.create size session.store = .error e store ∧
      store.manager.tracked = session.store.manager.tracked ∧
      store.manager.nextKey = session.store.manager.nextKey) ∨
    ∃ id store content, session.createFilled size bytes = (.ok id, { session with store := store }) ∧
      Filled session.store.memory store (Store.keyText session.store.manager.nextKey) id content bytes ∧
      Numbered session.store.manager store.manager id := by
  cases answer : Store.create size session.store with
  | error e store =>
    obtain ⟨_, _, same⟩ := RegionLedger.create_refused answer
    refine .inl ⟨e, store, ?_, by rw [same], rfl, by rw [same], by rw [same]⟩
    simp only [createFilled, onStore, answer]
  | ok id store =>
    obtain ⟨_, _, made, tracked⟩ := RegionLedger.createUnchecked_done (RegionLedger.create_made answer)
    have room := Memory.create_room made
    have fits : 0 + bytes.size ≤ (zeros size).size := by
      rw [size_zeros]
      omega
    obtain ⟨later, written, owned⟩ := (Private.create made).write (.inl rfl) fits
    have sized : (patched (zeros size) 0 bytes).size = size := (size_patched fits).trans (size_zeros size)
    have filled : onMemory (do Memory.write id 0 bytes; Memory.sync id) { session with store := store } =
        (.ok (), { session with store := { store with memory := later } }) := by
      simp only [onMemory, bind_done written, owned.shared.sync]
    refine .inr ⟨id, { store with memory := later }, _, ?_, ⟨owned, patched_holds fits, ?_, ?_, ?_⟩, ?_⟩
    · simp only [createFilled, onStore, answer]
      rw [filled]
    · rw [sized]
      exact room.1
    · rw [sized]
      exact room.2.1
    · intro memory
      rw [tracked]
      exact RegionLedger.track_lookup memory _ _ id
    · rw [tracked]
      exact ⟨rfl, rfl⟩

theorem createFilled_cases (session : Session σ) (within : bytes.size ≤ size) :
    (∃ e store, session.createFilled size bytes = (.error e, { session with store := store }) ∧
      store.memory = session.store.memory ∧ Store.create size session.store = .error e store) ∨
    ∃ path id store content, session.createFilled size bytes = (.ok id, { session with store := store }) ∧
      Filled session.store.memory store path id content bytes := by
  rcases createFilled_made session within with ⟨e, store, refused, same, full, -⟩ | ⟨id, store, content, made, filled, -⟩
  · exact .inl ⟨e, store, refused, same, full⟩
  · exact .inr ⟨_, id, store, content, made, filled⟩

theorem place_said (session : Session σ) (owned : Private base session.store.memory path id view content) :
    session.pathOf id = path ∧ ((session.region? id).map Region.size).getD 0 = content.size ∧
      session.keyOf id = path := by
  obtain ⟨region, file, found, keyed, sized, stored, named⟩ := owned.path_found
  refine ⟨?_, ?_, ?_⟩
  · simp only [pathOf, region?, found, Option.bind_some, stored, Option.map_some, Option.getD_some, named]
  · simp only [region?, found, Option.map_some, Option.getD_some, sized]
  · simp only [keyOf, region?, found, Option.map_some, Option.getD_some, keyed]

theorem placeSupported_made (definition : Variable) (session : Session σ) :
    (∃ store, session.placeSupported definition = (none, { session with store := store }) ∧
      store.memory = session.store.memory ∧ store.manager.tracked = session.store.manager.tracked ∧
      store.manager.nextKey = session.store.manager.nextKey) ∨
    ∃ id store content bytes, let path := Store.keyText session.store.manager.nextKey
      session.placeSupported definition = (some (path, variablePlace path bytes.size), { session with store := store }) ∧
      WireValue.supports definition.value = true ∧ definition.toPreloaded.encode = .ok bytes ∧
      Filled session.store.memory store path id content bytes ∧ Numbered session.store.manager store.manager id := by
  cases supported : WireValue.supports definition.value with
  | false => exact .inl ⟨session.store, by simp [placeSupported, supported], rfl, rfl, rfl⟩
  | true =>
    simp only [placeSupported, supported, if_true, placeVariable]
    cases definition.toPreloaded.encode with
    | error e => exact .inl ⟨session.store, rfl, rfl, rfl, rfl⟩
    | ok bytes =>
      rcases createFilled_made session (Nat.le_refl bytes.size) with
        ⟨e, store, refused, memory, -, tracked, next⟩ | ⟨id, store, content, made, filled, numbered⟩
      · exact .inl ⟨store, by simp only [refused], memory, tracked, next⟩
      · obtain ⟨path, -, key⟩ := place_said { session with store := store } filled.owned
        exact .inr ⟨id, store, content, bytes, by simp only [made, path, key], trivial, rfl, filled, numbered⟩

theorem writeCallRegion_cases {tree : FlatTree} (session : Session σ) (flattened : node.flatten = .ok tree) :
    (∃ store, session.writeCallRegion [.node node] = (none, { session with store := store }) ∧
      store.memory = session.store.memory) ∨
    ∃ path id store content bytes,
      session.writeCallRegion [.node node] = (some ⟨id, path, bytes.size⟩, { session with store := store }) ∧
      Filled session.store.memory store path id content bytes ∧
      (Node.plain (.arguments [node])).flatten.bind FlatTree.toBytes = .ok bytes := by
  rw [writeCallRegion, CallArg.flattenAll_node flattened]
  cases written : (Node.plain (.arguments [node])).flatten.bind FlatTree.toBytes with
  | error e => exact .inl ⟨session.store, rfl, rfl⟩
  | ok bytes =>
    rcases createFilled_cases session (Nat.le_trans (Nat.le_mul_of_pos_right bytes.size Nat.two_pos)
      (Nat.le_max_left _ minCallRegion)) with
      ⟨e, store, refused, same, _⟩ | ⟨path, id, store, content, made, filled⟩
    · refine .inl ⟨store, ?_, same⟩
      simp only [refused]
    · refine .inr ⟨path, id, store, content, bytes, ?_, filled, rfl⟩
      have said := place_said { session with store := store } filled.owned
      simp only [made, said.2.2]

theorem createLink_made (session : Session σ) :
    (∃ e store, session.createLink = (.error (.region e), { session with store := store }) ∧
      store.memory = session.store.memory ∧ Store.create Layout.standard.totalSize session.store = .error e store ∧
      store.manager.tracked = session.store.manager.tracked ∧
      store.manager.nextKey = session.store.manager.nextKey) ∨
    ∃ id store, session.createLink = (.ok ⟨Store.keyText session.store.manager.nextKey,
        .new ⟨id, .standard⟩ session.settings.protocolTimeout⟩, { session with store := store }) ∧
      Private session.store.memory store.memory (Store.keyText session.store.manager.nextKey) id id
        (zeros Layout.standard.totalSize) ∧ Numbered session.store.manager store.manager id := by
  cases answer : Store.create Layout.standard.totalSize session.store with
  | error e store =>
    obtain ⟨_, _, same⟩ := RegionLedger.create_refused answer
    refine .inl ⟨e, store, ?_, by rw [same], rfl, by rw [same], by rw [same]⟩
    simp only [createLink, onStore, answer]
  | ok id store =>
    obtain ⟨_, _, made, tracked⟩ := RegionLedger.createUnchecked_done (RegionLedger.create_made answer)
    have owned := Private.create made
    have room : Layout.standard.totalSize ≤ (zeros Layout.standard.totalSize).size :=
      Nat.le_of_eq (size_zeros _).symm
    have laid := owned.shared.ofRegion Layout.standard_consistent room
    obtain ⟨_, _, key⟩ := place_said { session with store := store } owned
    refine .inr ⟨id, store, ?_, owned, ?_⟩
    · simp only [createLink, onStore, answer, onMemory, laid, key]
    · rw [tracked]
      exact ⟨rfl, rfl⟩

theorem writeCallRegion_made {args : List CallArg}
    (written : (CallArg.flattenAll args).bind FlatTree.toBytes = .ok bytes)
    (room : Store.create (max (bytes.size * 2) minCallRegion) session.store = .ok id store) :
    (session.writeCallRegion args).1.isSome := by
  rw [writeCallRegion, written]
  rcases createFilled_cases session (Nat.le_trans (Nat.le_mul_of_pos_right bytes.size Nat.two_pos)
    (Nat.le_max_left _ minCallRegion)) with ⟨e, later, _, _, full⟩ | ⟨_, filled, _, _, made, _⟩
  · cases full.symm.trans room
  · simp only [made]
    rfl

theorem destroyRegion_keeps (session : Session σ) (owned : Private base session.store.memory path id view content)
    (tracked : ∀ memory, Store.lookup? ⟨memory, session.store.manager⟩ path = some id) :
    ∃ store, session.destroyRegion path = { session with store := store } ∧ base.Keeps store.memory := by
  have found : session.store.lookup? path = some id := tracked session.store.memory
  refine ⟨⟨session.store.memory.unmap id, { session.store.manager with
    tracked := session.store.manager.tracked.filter fun entry => entry.1 != path }⟩, ?_, owned.unmap⟩
  simp only [destroyRegion, onStore, RegionLedger.destroy_found found]

section reading
variable {region : CallRegion}

theorem wordField_natural {response : Json} {key : String} {n : Nat}
    (found : response.get? key = some (.natural n)) : wordField response key = .ok n := by
  simp only [wordField, found, Option.bind_some, Json.toWord_natural]

theorem resultOfBytes_node (builtin : node.Builtin) (survive : node.EveryNumber Binary64.SurvivesText)
    (written : node.flatten.bind FlatTree.toBytes = .ok bytes) :
    resultOfBytes bytes = .ok (.ofNode node) := by
  obtain ⟨decoded, small⟩ := Node.decoded builtin survive written
  simp only [resultOfBytes, decoded, ResultNode.ofFlat_rebuilt .builtin builtin small 0 none]

theorem readResult_inline (region : CallRegion) (value : Json) (session : Session σ) :
    readResult region (.ofEntries [("json", value)]) session = .ok (some (.ofJson value)) session := rfl

theorem readResult_placed {response : Json} {offset size : Nat} (direct : response.get? "fallback" = none)
    (placed : response.get? "json" = none) (start : wordField response "resultOffset" = .ok offset)
    (extent : wordField response "resultSize" = .ok size) (session : Session σ) :
    readResult region response session = (match session.onMemory (Memory.read region.id offset size) with
      | (.error e, _) => throw (.invalidResponse (.region e))
      | (.ok bytes, _) => do return some (← readResult.liftExcept (resultOfBytes bytes))
        : Dispatch σ (Option ResultNode)) session := by
  simp only [readResult, direct, placed, start, extent]
  rfl

theorem readResult_held {offset : Nat} (shared : Shared session.store.memory region.id view content)
    (held : Holds content offset bytes) (builtin : node.Builtin)
    (survive : node.EveryNumber Binary64.SurvivesText)
    (written : node.flatten.bind FlatTree.toBytes = .ok bytes) :
    readResult region (.ofEntries [("resultOffset", .natural offset), ("resultSize", .natural bytes.size)])
      session = .ok (some (.ofNode node)) session := by
  have read := shared.read held.within
  rw [held.exact] at read
  have apart : ([("resultOffset", .natural offset), ("resultSize", .natural bytes.size)].map
      (Prod.fst : String × Json → String)).Nodup :=
    (by decide : (["resultOffset", "resultSize"] : List String).Nodup)
  have get := Json.get?_ofEntries apart
  have place := @wordField_natural _ "resultOffset" offset (get _)
  have length := @wordField_natural _ "resultSize" bytes.size (get _)
  have taken : session.onMemory (Memory.read region.id offset bytes.size) = (.ok bytes, session) := by
    simp only [onMemory, read]
  rw [readResult_placed (get "fallback") (get "json") place length]
  simp only [taken, resultOfBytes_node builtin survive written]
  rfl

end reading
end PluginBridge.Session
