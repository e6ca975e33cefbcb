import PluginBridge.Proofs.Call.Batch
import PluginBridge.Proofs.Dispatch.Channels
namespace PluginBridge

namespace ResultNode
variable {node : Node}

theorem slotToJson_within {group : ChildGroup} {limit : Nat}
    (each : ∀ child ∈ group.nodes, (ofNode child).toJson.levels ≤ limit) :
    (slotToJson (slotOfGroup group)).levels ≤ limit + 1 := by
  cases group with
  | one child => exact Nat.le_succ_of_le (each child List.mem_cons_self)
  | many nodes =>
    refine Nat.succ_le_succ (Json.itemsLevels_le.mpr fun item among => ?_)
    rw [allToJson_ofNodes] at among
    obtain ⟨child, held, rfl⟩ := List.mem_map.mp among
    exact each child held

theorem ofNode_levels (builtin : node.Builtin) : (ofNode node).toJson.levels ≤ 2 * node.outline.height := by
  induction node using Node.byChildren with
  | step node ih =>
    obtain ⟨kind, known⟩ := builtin.kind
    have below : ∀ child ∈ node.children, (ofNode child).toJson.levels ≤ 2 * (node.outline.height - 1) := by
      intro child among
      have lower := ih child among (builtin.below among)
      have inside : child.outline ∈ node.outline.children := Node.outline_children node ▸ List.mem_map_of_mem among
      have higher := Outline.heightAll_le.mp (Nat.le_refl _) child.outline inside
      rw [Outline.height_children]
      omega
    have tall : 0 < node.outline.height := Outline.height_children node.outline ▸ Nat.succ_pos _
    generalize node.outline.height = height at *
    obtain ⟨info, body⟩ := node
    have known : body.kind? = some kind := known
    have enough := @Json.ofEntries_levels ((typeKey, .string body.typeName) :: (ofNode (.mk info body)).fields ++
      slotsToJson (slotsOfBody body)) (2 * (height - 1) + 1) ?_
    · exact Nat.le_trans enough (by omega)
    · refine List.forall_mem_append.mpr ⟨List.forall_mem_cons.mpr ⟨Nat.zero_le _, fun entry own => ?_⟩, ?_⟩
      · rcases ofNode_field own with rfl | ⟨field, inside, -, rfl⟩
        · exact Nat.zero_le _
        · have plain := List.forall_mem_append.mpr ⟨NodeBody.properties_levels known, Node.infoProperties_levels info⟩
          exact Nat.le_trans (field.2.toJson_levels.trans (plain field inside)) (Nat.le_add_left _ _)
      · rw [slotsToJson_eq_map, slotsOfBody_groups]
        intro entry child
        simp only [Members.mapValues, List.map_map] at child
        obtain ⟨⟨key, group⟩, inside, rfl⟩ := List.mem_map.mp child
        exact slotToJson_within fun child held => below child (List.mem_flatMap.mpr ⟨_, inside, held⟩)

end ResultNode

namespace Node

theorem stacked_builtin (depth : Nat) : (stacked depth).Builtin ∧ (stacked depth).EveryNumber Binary64.SurvivesText := by
  induction depth with
  | zero => exact ⟨Within.leaf rfl rfl, Within.leaf rfl fun _ among => nomatch among⟩
  | succ depth ih =>
    have only : ∀ child ∈ (stacked (depth + 1)).children, child = stacked depth := fun _ => List.mem_singleton.mp
    exact ⟨Within.every rfl fun child among => only child among ▸ ih.1,
      Within.every (fun _ among => nomatch among) fun child among => only child among ▸ ih.2⟩

theorem stacked_levels (depth : Nat) : (ResultNode.ofNode (stacked depth)).toJson.levels = 2 * depth + 1 := by
  induction depth with
  | zero => rfl
  | succ depth ih =>
    have apart : (["_type", "value"] : List String).Nodup := by decide
    have written : (ResultNode.ofNode (stacked (depth + 1))).toJson = .ofEntries [("_type", .string "Expression"),
      ("value", .array [(ResultNode.ofNode (stacked depth)).toJson])] := rfl
    rw [written, Json.ofEntries_depth (by exact apart)]
    simp only [Json.membersLevels, Json.levels, Json.itemsLevels, ih]
    omega

end Node

namespace Variable

theorem toJson_levels (definition : Variable) :
    definition.toJson.levels = (ResultNode.ofNode definition.value).toJson.levels + 1 := by
  have apart : (([("name", .string definition.name), ("important", .bool definition.important),
      ("value", (ResultNode.ofNode definition.value).toJson)] : List (String × Json)).map Prod.fst).Nodup :=
    (by decide : (["name", "important", "value"] : List String).Nodup)
  rw [Variable.toJson, Json.ofEntries_depth apart]
  simp [Json.membersLevels, Json.levels]

end Variable

namespace Session
variable {σ : Type}

def visible (session : Session σ) (stack : EvalContext) : Members Variable :=
  .ofList ((session.commonVariables stack).map fun definition => (definition.name, definition))

def brought (session : Session σ) (spec : FunctionSpec) (context : CallContext) : List Variable :=
  match context with
  | some (_, stack) => if spec.needsContext then (session.visible stack).map Prod.snd else []
  | none => []

-- What a peer can read of a call: the line stands three levels around an argument and five around the value of
-- a variable.
def Shallow (session : Session σ) (spec : FunctionSpec) (args : List CallArg) (context : CallContext) : Prop :=
  (∀ arg ∈ args, arg.toJson.levels + 3 ≤ Json.maxLevels) ∧
    ∀ definition ∈ session.brought spec context, (ResultNode.ofNode definition.value).toJson.levels + 5 ≤ Json.maxLevels

theorem contextJson_levels (session : Session σ) (stack : EvalContext) {limit : Nat} :
    (session.contextJson stack).levels ≤ limit + 3 ↔
      ∀ definition ∈ (session.visible stack).map Prod.snd, (ResultNode.ofNode definition.value).toJson.levels ≤ limit := by
  have inner : Members.ofList ((session.commonVariables stack).map fun definition =>
      (definition.name, definition.toJson)) = Members.mapValues Variable.toJson (session.visible stack) := by
    rw [visible, ← Members.ofList_map, Members.mapValues, List.map_map]
    rfl
  have alone : ∀ value : Json, (([("variables", value)] : List (String × Json)).map Prod.fst).Nodup :=
    fun _ => List.nodup_singleton _
  rw [contextJson, Json.ofEntries_depth (alone _), Json.ofEntries, inner, List.forall_mem_map]
  simp only [Json.membersLevels, Json.levels, Nat.max_zero]
  rw [show limit + 3 = limit + 1 + 1 + 1 from rfl, Nat.succ_le_succ_iff, Nat.succ_le_succ_iff, Json.membersLevels_le,
    Members.mapValues, List.forall_mem_map]
  refine forall₂_congr fun entry _ => ?_
  rw [Variable.toJson_levels, Nat.succ_le_succ_iff]

theorem contextEntries_cases (session : Session σ) (spec : FunctionSpec) (context : CallContext) :
    (session.contextEntries spec context = [] ∧ session.brought spec context = []) ∨
    ∃ id stack, session.contextEntries spec context =
        [("contextId", .natural id), ("context", session.contextJson stack)] ∧
      session.brought spec context = (session.visible stack).map Prod.snd := by
  cases context with
  | none => exact .inl ⟨rfl, rfl⟩
  | some entry =>
    by_cases needs : spec.needsContext = true
    · exact .inr ⟨entry.1, entry.2, if_pos needs, if_pos needs⟩
    · exact .inl ⟨if_neg needs, if_neg needs⟩

theorem callMessage_levels (session : Session σ) (spec : FunctionSpec) (args : List CallArg) (context : CallContext) :
    (session.callMessage spec args context).levels < Json.maxLevels ↔ session.Shallow spec args context := by
  have items : Json.itemsLevels (args.map CallArg.toJson) ≤ 124 ↔
      ∀ arg ∈ args, arg.toJson.levels + 3 ≤ Json.maxLevels := by
    rw [Json.itemsLevels_le, List.forall_mem_map]
    exact forall₂_congr fun arg _ => Nat.add_le_add_iff_right.symm
  rw [callMessage, Shallow, ← items]
  rcases session.contextEntries_cases spec context with ⟨alone, none⟩ | ⟨id, stack, told, common⟩
  · have apart : (["name", "args", "needsContext"] : List String).Nodup := by decide
    rw [alone, none, List.append_nil, Json.ofEntries_depth (by exact apart), and_iff_left (List.forall_mem_nil _)]
    simp only [Json.membersLevels, Json.levels, Json.maxLevels]
    omega
  · have apart : (["name", "args", "needsContext", "contextId", "context"] : List String).Nodup := by decide
    have inner : (session.contextJson stack).levels ≤ 122 + 3 ↔ ∀ definition ∈ (session.visible stack).map Prod.snd,
        (ResultNode.ofNode definition.value).toJson.levels + 5 ≤ Json.maxLevels := by
      rw [contextJson_levels]
      exact forall₂_congr fun definition _ => Nat.add_le_add_iff_right.symm
    rw [told, common, ← inner, Json.ofEntries_depth (by exact apart)]
    simp only [List.cons_append, List.nil_append, Json.membersLevels, Json.levels, Json.natural, Json.maxLevels]
    omega

theorem shallow_of_low {session : Session σ} {spec : FunctionSpec} {args : List CallArg} {context : CallContext}
    (trees : ∀ arg ∈ args, ∃ tree, arg = .node tree ∧ tree.Builtin ∧ tree.outline.height ≤ 62)
    (brought : ∀ definition ∈ session.brought spec context,
      definition.value.Builtin ∧ definition.value.outline.height ≤ 61) : session.Shallow spec args context := by
  constructor
  · intro arg among
    obtain ⟨tree, rfl, builtin, low⟩ := trees arg among
    have levels := ResultNode.ofNode_levels builtin
    rw [CallArg.toJson, Json.maxLevels]
    omega
  · intro definition among
    obtain ⟨builtin, low⟩ := brought definition among
    have levels := ResultNode.ofNode_levels builtin
    rw [Json.maxLevels]
    omega

theorem callMessage_read {session : Session σ} {spec : FunctionSpec} {args : List CallArg} {context : CallContext}
    {number : Nat} (small : number < wordLimit) (numbered : ∀ entry ∈ context, entry.1 < wordLimit)
    (given : ∀ value, CallArg.json value ∈ args → value.Legible) :
    let request : Request := ⟨number, "callFunction", session.callMessage spec args context⟩
    (session.Shallow spec args context →
      Message.parse? request.line = some (.request { request with data := request.data.reread })) ∧
    (¬ session.Shallow spec args context → Message.parse? request.line = none) := by
  intro request
  have legible : request.data.Legible := callMessage_legible numbered given spec session
  have levels := session.callMessage_levels spec args context
  exact ⟨fun fits => Message.parse_command small legible (levels.mpr fits),
    fun deep => Message.parse_deep small legible (Nat.not_lt.mp (mt levels.mp deep))⟩

-- The peer reads a call over the stream, under its id and with all its data, exactly if nothing in it nests too
-- deep. When nothing else is under way such a call comes to the peer's answer; any other runs out of time, for the
-- peer passes over its line.
theorem callJson_carried (service : Service σ) (session : Session (Conversation σ)) (spec : FunctionSpec)
    (args : List CallArg) (context : CallContext) (small : session.stream.lastId + 1 < wordLimit)
    (numbered : ∀ entry ∈ context, entry.1 < wordLimit)
    (given : ∀ value, CallArg.json value ∈ args → value.Legible) :
    let request : Request := ⟨session.stream.lastId + 1, "callFunction", session.callMessage spec args context⟩
    let heard : Request := { request with data := request.data.reread }
    (session.Shallow spec args context →
      Message.parse? request.line = some (.request heard) ∧ (request.data.Readable → heard = request)) ∧
    (¬ session.Shallow spec args context → Message.parse? request.line = none) ∧
    (session.Idle →
      (session.Shallow spec args context → ∀ result after memory,
        (service.handle heard).Answers heard.id session.peer.state session.store.memory result after memory →
        result.Readable → result.levels < Json.maxLevels →
          ∃ later, callJson service.peer spec args context session = .ok (.ofJson result) later ∧
            later.stream.sent = session.stream.sent.push request.line ∧ later.peer.state = after ∧ later.Idle) ∧
      (¬ session.Shallow spec args context →
        ∃ later, callJson service.peer spec args context session =
            .error (.stream (.timeout "callFunction" session.settings.callTimeout)) later ∧
          later.stream.sent = session.stream.sent.push request.line ∧
          later.peer.state = session.peer.state ∧ later.store.memory = session.store.memory ∧ later.Idle)) := by
  intro request heard
  obtain ⟨parsed, unread⟩ := @callMessage_read _ session spec args context _ small numbered given
  have sends := callJson_sent service.peer spec args context session
  refine ⟨fun fits => ⟨parsed fits, fun readable => congrArg (Request.mk _ _) readable.legible.2⟩, unread,
    fun idle => ⟨fun fits result after memory answers readable shallow => ?_, fun deep => ?_⟩⟩
  · obtain ⟨next, stream, sent, state, -, lines, still⟩ := sendCall_heard service "callFunction"
      (idle.count .moreJson) small rfl (parsed fits) answers readable shallow
    exact ⟨_, sends.trans (bind_done sent), lines, state, still⟩
  · obtain ⟨next, stream, sent, state, -, lines, still⟩ := sendCall_unread service "callFunction"
      (idle.count .moreJson) (unread deep)
    exact ⟨_, sends.trans (bind_failed sent), lines, state, rfl, still⟩

-- The highest stack of expressions whose call is read comes back from a peer that gives back its argument.
theorem callJson_carried_highest :
    let session : Session (Conversation EchoState) := start .standard (.start Echo.initial)
    let args : List CallArg := [.node (.stacked 61)]
    session.Idle ∧ session.Shallow (Echo.spec none) args none ∧
      ∃ later, callJson Echo.service.peer (Echo.spec none) args none session =
        .ok (.ofJson (ResultNode.ofNode (.stacked 61)).toJson) later := by
  intro session args
  have idle : session.Idle := start_idle _ _
  obtain ⟨builtin, survive⟩ := Node.stacked_builtin 61
  have fits : session.Shallow (Echo.spec none) args none := by
    refine shallow_of_low (List.forall_mem_singleton.mpr ⟨_, rfl, builtin, ?_⟩) (List.forall_mem_nil _)
    exact Nat.le_of_eq (Node.stacked_outline 61).2.1
  have readable := ResultNode.ofNode_readable builtin survive
  have regular := ResultNode.ofNode_regular builtin
  have levels := Node.stacked_levels 61
  have small : session.stream.lastId + 1 < wordLimit := by decide
  have given : ∀ value, CallArg.json value ∈ args → value.Legible := fun _ among => nomatch List.mem_singleton.mp among
  obtain ⟨heard, -, ways⟩ := callJson_carried Echo.service session (Echo.spec none) args none small
    (fun _ among => nomatch among) given
  have answered := (ways idle).1 fits
  have answers := Echo.callFunction_answers (echoEntries_name (ResultNode.ofNode (.stacked 61)).toJson)
    (echoEntries_args _) 1 session.peer.state session.store.memory
  rw [ResultNode.ofJson_toJson regular, ResultNode.inOrder_toJson regular] at answers
  have written : session.callMessage (Echo.spec none) args none =
      .ofEntries (echoEntries (ResultNode.ofNode (.stacked 61)).toJson) := rfl
  rw [(heard fits).2 (written ▸ echoEntries_readable readable), written] at answered
  obtain ⟨later, called, -⟩ := answered _ _ _ answers readable (by rw [levels]; decide)
  exact ⟨idle, fits, later, called⟩

-- One expression more can be flattened still, but the peer does not read the call.
theorem callJson_overdeep :
    let session : Session (Conversation EchoState) := start .standard (.start Echo.initial)
    let args : List CallArg := [.node (.stacked 62)]
    let request : Request := ⟨1, "callFunction", session.callMessage (Echo.spec none) args none⟩
    (∃ tree, (Node.stacked 62).flatten = .ok tree) ∧ Message.parse? request.line = none ∧
      ∃ later, callJson Echo.service.peer (Echo.spec none) args none session =
          .error (.stream (.timeout "callFunction" session.settings.callTimeout)) later ∧
        later.stream.sent = #[request.line] := by
  intro session args request
  have given : ∀ value, CallArg.json value ∈ args → value.Legible := fun _ among => nomatch List.mem_singleton.mp among
  have alone : ∀ entry ∈ (none : CallContext), entry.1 < wordLimit := fun _ among => nomatch among
  have deep : ¬ session.Shallow (Echo.spec none) args none := by
    intro fits
    have shallow := fits.1 _ List.mem_cons_self
    rw [CallArg.toJson, Node.stacked_levels 62] at shallow
    exact absurd shallow (by decide)
  have unread : Message.parse? request.line = none := (callMessage_read (by decide) alone given).2 deep
  have began : (session.count .moreJson).Idle := (start_idle _ _).count .moreJson
  obtain ⟨next, stream, sent, -, -, lines, -⟩ := sendCall_unread Echo.service "callFunction" began unread
  exact ⟨Node.stacked_flattened (by decide), unread, _,
    (callJson_sent Echo.service.peer (Echo.spec none) args none session).trans (bind_failed sent), lines⟩

end Session
end PluginBridge
