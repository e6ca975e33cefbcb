import PluginBridge.Dispatch.Call
import PluginBridge.Proofs.Call.Readable
import PluginBridge.Proofs.Dispatch.CallRegion
import PluginBridge.Proofs.Dispatch.Exchange
import PluginBridge.Proofs.Peer.Echo
namespace PluginBridge

def Echo.spec (mode : Option CallMode) : FunctionSpec := ⟨"echo", mode, false, false⟩

-- The peer itself lists it without a mode.
example : Echo.spec none ∈ Echo.functionEntries.filterMap FunctionSpec.ofJson? := by decide +kernel

namespace Session

def echoEntries (arg : Json) : List (String × Json) :=
  [("name", .string "echo"), ("args", .array [arg]), ("needsContext", .bool false)]

section entries
variable {arg : Json}

theorem echoEntries_apart : ((echoEntries arg).map Prod.fst).Nodup :=
  (by decide : (["name", "args", "needsContext"] : List String).Nodup)

theorem echoEntries_name (arg : Json) : Echo.text (.ofEntries (echoEntries arg)) "name" = "echo" := by
  have name : (Json.ofEntries (echoEntries arg)).get "name" = .string "echo" :=
    Json.get_ofEntries echoEntries_apart rfl
  rw [Echo.text, name]
  rfl

theorem echoEntries_args (arg : Json) : (Json.ofEntries (echoEntries arg)).get "args" = .array [arg] :=
  Json.get_ofEntries echoEntries_apart rfl

theorem echoEntries_readable (readable : arg.Readable) : (Json.ofEntries (echoEntries arg)).Readable := by
  refine Json.ofEntries_readable ?_
  simp [echoEntries, Json.Readable, Json.ItemsReadable, readable]

theorem echoEntries_levels (arg : Json) : (Json.ofEntries (echoEntries arg)).levels ≤ arg.levels + 2 := by
  refine Json.ofEntries_levels ?_
  simp [echoEntries, Json.levels, Json.itemsLevels]

end entries

variable {session : Session (Conversation EchoState)} {node : Node}

theorem callJson_echo (mode : Option CallMode) (idle : session.Idle)
    (small : session.stream.lastId + 1 < wordLimit) (builtin : node.Builtin)
    (survive : node.EveryNumber Binary64.SurvivesText)
    (shallow : (ResultNode.ofNode node).toJson.levels + 3 ≤ Json.maxLevels) (context : CallContext) :
    ∃ later, callJson Echo.service.peer (Echo.spec mode) [.node node] context session =
        .ok (ResultNode.ofNode node).inOrder later ∧
      session.Continues later 1 ∧ later.counts = session.counts.moreJson := by
  have readable := ResultNode.ofNode_readable builtin survive
  have regular := ResultNode.ofNode_regular builtin
  have back := ResultNode.ofJson_toJson regular
  have answers := Echo.callFunction_answers (echoEntries_name (ResultNode.ofNode node).toJson)
    (echoEntries_args _) (session.stream.lastId + 1) session.peer.state session.store.memory
  rw [back, ResultNode.inOrder_toJson regular] at answers
  have levels := echoEntries_levels (ResultNode.ofNode node).toJson
  obtain ⟨next, stream, sent, same, ids, -, idle⟩ := sendCall_answered Echo.service "callFunction"
    (idle.count .moreJson) small (echoEntries_readable readable) (by omega) answers readable (by omega)
  refine ⟨_, ?_, ⟨idle, same, .refl _, rfl, rfl, rfl, ids⟩, rfl⟩
  have ran : callJson Echo.service.peer (Echo.spec mode) [.node node] context session =
      (do return ResultNode.ofJson (← sendCall Echo.service.peer "callFunction"
        (.ofEntries (echoEntries (ResultNode.ofNode node).toJson)))) (session.count .moreJson) := by
    cases context <;> rfl
  rw [ran, bind_done sent, back]
  rfl

end Session

namespace Session
variable {session : Session (Conversation EchoState)} {node : Node} {mode : Option CallMode}
  {path : String} {size dataSize : Nat}

def echoRegionEntries (path : String) (size dataSize : Nat) : List (String × Json) :=
  [("name", .string "echo"), ("shmPath", .string path), ("shmKey", .string path), ("shmSize", .natural size),
    ("dataSize", .natural dataSize), ("argCount", .natural 1), ("needsContext", .bool false),
    ("preloaded", .bool false)]

theorem echoRegionEntries_request (path : String) (size dataSize : Nat) :
    RegionCallRequest.ofJson (.ofEntries (echoRegionEntries path size dataSize)) =
      .ok ⟨"echo", path, dataSize, false, false, none⟩ := by
  have apart : ((echoRegionEntries path size dataSize).map Prod.fst).Nodup :=
    (by decide : (["name", "shmPath", "shmKey", "shmSize", "dataSize", "argCount", "needsContext",
      "preloaded"] : List String).Nodup)
  have get := fun key => @Members.get?_collected _ key (echoRegionEntries path size dataSize) apart
  have read : RegionCallRequest.ofJson? (.ofEntries (echoRegionEntries path size dataSize)) =
      some ⟨"echo", path, dataSize, false, false, none⟩ := by
    simp only [RegionCallRequest.ofJson?, Json.record?, Json.ofEntries, Json.required, Json.withDefault,
      Json.optional, Option.bind_eq_bind, Option.bind_some, get]
    simp [echoRegionEntries, Members.get?, Json.toWord_natural, Json.toString?, Json.toBool?]
  simp only [RegionCallRequest.ofJson, Json.Shape.read, read]

theorem echoRegionEntries_readable (room : size < wordLimit) (short : dataSize < wordLimit) :
    (Json.ofEntries (echoRegionEntries path size dataSize)).Readable := by
  refine Json.ofEntries_readable ?_
  simp [echoRegionEntries, Json.Readable, Json.natural_readable room, Json.natural_readable short,
    Json.natural_readable (show 1 < wordLimit by decide)]

theorem echoRegionEntries_levels (path : String) (size dataSize : Nat) :
    (Json.ofEntries (echoRegionEntries path size dataSize)).levels ≤ 1 := by
  refine Json.ofEntries_levels ?_
  simp [echoRegionEntries, Json.levels, Json.natural]

theorem regionEntries_echo {base : Memory} {id view : RegionId} {content : ByteArray}
    (owned : Private base session.store.memory path id view content) (context : CallContext) :
    session.regionEntries (Echo.spec mode) 1 ⟨id, path, dataSize⟩ false context =
      echoRegionEntries path content.size dataSize := by
  obtain ⟨place, room, _⟩ := place_said session owned
  unfold regionEntries
  rw [place, room]
  cases context <;> rfl

section call
variable {base memory : Memory} {id : RegionId} {content bytes answer : ByteArray}

theorem reply_read (call : RegionCall) {region : CallRegion}
    (owned : Private base memory path region.id call.region content) (room : content.size < wordLimit)
    (builtin : node.Builtin) (survive : node.EveryNumber Binary64.SurvivesText)
    (finite : node.EveryNumber fun x => x.isFinite = true)
    (shallow : (ResultNode.ofNode node).toJson.levels + 3 ≤ Json.maxLevels)
    (returned : node.bare.flatten.bind FlatTree.toBytes = .ok answer) :
    ∃ response later after result, call.reply node.bare memory = .ok response later ∧
      Private base later path region.id call.region after ∧ response.Readable ∧
      response.levels < Json.maxLevels ∧ result.toNode = node.bare ∧
      ∀ session : Session (Conversation EchoState), session.store.memory = later →
        readResult region response session = .ok (some result) session := by
  rcases RegionCall.reply_node call owned returned with ⟨within, later, after, replied, kept, held⟩ | replied
  · refine ⟨_, later, after, .ofNode node.bare, replied, kept, ?_, ?_, ?_, ?_⟩
    · have place : call.resultOffset < wordLimit := by omega
      have length : answer.size < wordLimit := by omega
      refine Json.ofEntries_readable ?_
      simp [Json.natural_readable place, Json.natural_readable length]
    · exact Nat.lt_of_le_of_lt (@Json.ofEntries_levels _ 0 (by simp [Json.natural, Json.levels])) (by decide)
    · rw [ResultNode.toNode_ofNode builtin.bare finite.bare, Node.bare_bare]
    · rintro session rfl
      exact readResult_held kept.shared held builtin.bare survive.bare returned
  · refine ⟨_, memory, content, (ResultNode.ofNode node.bare).inOrder, replied, owned, ?_, ?_, ?_, ?_⟩
    · refine Json.ofEntries_readable ?_
      simp [ResultNode.ofNode_readable builtin.bare survive.bare]
    · have lower := ResultNode.ofNode_bare_levels builtin
      have levels := @Json.ofEntries_levels [("json", (ResultNode.ofNode node.bare).toJson)]
        (ResultNode.ofNode node.bare).toJson.levels (by simp)
      omega
    · rw [ResultNode.toNode_inOrder builtin.bare finite.bare, Node.bare_bare]
    · rintro session rfl
      rw [readResult_inline, ResultNode.ofJson_toJson (ResultNode.ofNode_regular builtin.bare)]

theorem callRegion_echo (mode : Option CallMode) (idle : session.Idle)
    (small : session.stream.lastId + 1 < wordLimit)
    (builtin : node.Builtin) (survive : node.EveryNumber Binary64.SurvivesText)
    (finite : node.EveryNumber fun x => x.isFinite = true)
    (shallow : (ResultNode.ofNode node).toJson.levels + 3 ≤ Json.maxLevels)
    (filled : Filled base session.store path id content bytes)
    (written : (Node.plain (.arguments [node])).flatten.bind FlatTree.toBytes = .ok bytes)
    (returned : node.bare.flatten.bind FlatTree.toBytes = .ok answer) (context : CallContext) :
    ∃ result next memory stream view after,
      callRegion Echo.service.peer (Echo.spec mode) 1 ⟨id, path, bytes.size⟩ false context session =
        .ok (some result) ((session.count .moreRegion).talked next memory stream) ∧
      result.toNode = node.bare ∧ Private base memory path id view after ∧
      next.state = session.peer.state ∧ stream.lastId = session.stream.lastId + 1 ∧
        ((session.count .moreRegion).talked next memory stream).Idle := by
  have room : content.size < wordLimit := Nat.lt_trans filled.small (by decide)
  have short : bytes.size < wordLimit := by
    have inside := filled.held.within
    omega
  have asked := echoRegionEntries_request path content.size bytes.size
  obtain ⟨view, middle, arg, given, read, owned⟩ := RegionCall.ofJson_node asked filled.owned
    filled.something builtin survive written filled.held rfl
  obtain ⟨response, later, after, result, replied, kept, readable, levels, same, reads⟩ :=
    @reply_read node path base middle content answer ⟨"echo", [arg], false, false, none, view, bytes.size⟩
      ⟨id, path, bytes.size⟩ owned room builtin survive finite shallow returned
  rw [← ResultNode.toNode_ofNode builtin finite, ← given] at replied
  have answers := Echo.callRegion_answers read rfl rfl rfl replied (session.stream.lastId + 1)
    session.peer.state
  have few := Nat.lt_of_le_of_lt (echoRegionEntries_levels path content.size bytes.size)
    (show 1 < Json.maxLevels by decide)
  obtain ⟨next, stream, sent, state, ids, -, still⟩ := sendCall_answered Echo.service "callFunctionShm"
    (idle.count .moreRegion) small (echoRegionEntries_readable room short) few answers readable levels
  refine ⟨result, next, later, stream, view, after, ?_, same, kept, state, ids, still⟩
  have named := @regionEntries_echo (session.count .moreRegion) mode path bytes.size base id id content
    filled.owned context
  have ran : callRegion Echo.service.peer (Echo.spec mode) 1 ⟨id, path, bytes.size⟩ false context session =
      (sendCall Echo.service.peer "callFunctionShm"
          (.ofEntries (echoRegionEntries path content.size bytes.size)) >>=
        readResult ⟨id, path, bytes.size⟩) (session.count .moreRegion) := by
    rw [← named]
    rfl
  rw [ran, bind_done sent, reads _ rfl]

theorem callThroughRegion_echo (idle : session.Idle) (small : session.stream.lastId + 1 < wordLimit)
    (builtin : node.Builtin) (survive : node.EveryNumber Binary64.SurvivesText)
    (finite : node.EveryNumber fun x => x.isFinite = true)
    (shallow : (ResultNode.ofNode node).toJson.levels + 3 ≤ Json.maxLevels) {tree : FlatTree}
    (flattened : node.flatten = .ok tree)
    (returns : ∀ bytes, (Node.plain (.arguments [node])).flatten.bind FlatTree.toBytes = .ok bytes →
      ∃ answer, node.bare.flatten.bind FlatTree.toBytes = .ok answer) (context : CallContext) :
    (∃ later, callThroughRegion Echo.service.peer (Echo.spec mode) [.node node] false context session =
        .ok none later ∧ (session.writeCallRegion [.node node]).1.isNone ∧
      session.Continues later 0 ∧ later.counts = session.counts) ∨
    ∃ result later, callThroughRegion Echo.service.peer (Echo.spec mode) [.node node] false context session =
        .ok (some result) later ∧ result.toNode = node.bare ∧
      session.Continues later 1 ∧ later.counts = session.counts.moreRegion := by
  rcases writeCallRegion_cases session flattened with
    ⟨store, refused, same⟩ | ⟨path, id, store, content, bytes, made, filled, written⟩
  · refine .inl ⟨{ session with store := store }, ?_, by rw [refused]; rfl, idle.sameMemory same, rfl⟩
    simp only [callThroughRegion, refused]
  · obtain ⟨answer, returned⟩ := returns bytes written
    obtain ⟨result, next, memory, stream, view, after, called, same, owned, state, ids, still⟩ :=
      callRegion_echo mode (idle.onStore store) small builtin survive finite shallow filled written returned
        context
    obtain ⟨last, destroyed, keeps⟩ := destroyRegion_keeps
      ((Session.count .moreRegion { session with store := store }).talked next memory stream) owned
      filled.tracked
    refine .inr ⟨result, _, ?_, same, ⟨still.onStore last, state, keeps, rfl, rfl, rfl, ids⟩, rfl⟩
    simp only [callThroughRegion, made, List.length_singleton, called, destroyed]

end call
end Session
end PluginBridge
