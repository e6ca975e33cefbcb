import PluginBridge.Proofs.Call.Rebuilding
import PluginBridge.Proofs.Wire.Codec
namespace PluginBridge

theorem allHaveWireForm_of_mem {nodes : List Node} {depth : Nat}
    (each : ∀ child ∈ nodes, child.hasWireForm depth = true) : allHaveWireForm depth nodes = true := by
  induction nodes with
  | nil => rfl
  | cons node rest ih =>
    rw [allHaveWireForm, Bool.and_eq_true]
    exact ⟨each node List.mem_cons_self, ih fun child among => each child (List.mem_cons_of_mem _ among)⟩

namespace WireValue
variable {node : Node} {depth : Nat}

theorem ofNodes_eq_map (nodes : List Node) : ofNodes nodes = nodes.map ofNode := by
  induction nodes with
  | nil => rfl
  | cons node rest ih => rw [ofNodes, ih, List.map_cons]

theorem ofNodes_bareAll {nodes : List Node} (each : ∀ child ∈ nodes, ofNode child.bare = ofNode child) :
    ofNodes (bareAll nodes) = ofNodes nodes := by
  rw [ofNodes_eq_map, ofNodes_eq_map, bareAll_eq_map, List.map_map]
  exact List.map_congr_left each

theorem ofNode_bare (node : Node) : ofNode node.bare = ofNode node := by
  induction node using Node.byChildren with
  | step node ih =>
    obtain ⟨info, body⟩ := node
    cases body with
    | expression items | value items | arguments items =>
      refine congrArg expression (ofNodes_bareAll fun child among => ih child ?_)
      simpa [Node.children, Node.body, NodeBody.children, NodeBody.childFields, ChildGroup.nodes] using among
    | _ => rfl

theorem ofNode_depth (held : node.hasWireForm depth = true) : (ofNode node).depth + depth ≤ maxDepth := by
  induction node using Node.byChildren generalizing depth with
  | step node ih =>
    have below := fun child among => ih child among (Node.hasWireForm_below held child among)
    obtain ⟨info, body⟩ := node
    rw [Node.hasWireForm, Bool.and_eq_true, Bool.and_eq_true, decide_eq_true_eq] at held
    obtain ⟨⟨within, -⟩, form⟩ := held
    cases body with
    | expression items =>
      have all : depthAll (ofNodes items) ≤ maxDepth - depth := by
        rw [ofNodes_eq_map]
        refine depthAll_le fun item among => ?_
        obtain ⟨child, inside, rfl⟩ := List.mem_map.mp among
        have deep := below child (by
          simpa [Node.children, Node.body, NodeBody.children, NodeBody.childFields, ChildGroup.nodes] using inside)
        omega
      change depthAll (ofNodes items) + depth ≤ maxDepth
      omega
    | null | dimension | keyword | color | quoted => simpa [ofNode, ofBody, WireValue.depth] using within
    | _ => cases form

theorem toNodes_ofNodes {nodes : List Node} (each : ∀ child ∈ nodes, (ofNode child).toNode = child.bare) :
    toNodes (ofNodes nodes) = bareAll nodes := by
  induction nodes with
  | nil => rfl
  | cons child rest ih =>
    obtain ⟨here, others⟩ := List.forall_mem_cons.mp each
    rw [ofNodes, toNodes, bareAll, here, ih others]

end WireValue

theorem NodeInfo.bare_plain {info : NodeInfo}
    (outside : info.flags.intersects (NodeFlags.parens.union .parensInOperation) = false) : info.bare = .plain := by
  rw [bare, NodeFlags.inter_parens, NodeFlags.outside_parens outside]
  rfl

def NodeBody.wired : NodeBody → Bool
  | .null => true
  | .dimension .. => true
  | .keyword _ => true
  | .color _ _ spelling => spelling.isNone
  | .quoted quote _ _ => quote.toNat < 128
  | .expression _ => true
  | _ => false

namespace Node
variable {node : Node} {depth : Nat}

def Wired (node : Node) : Prop :=
  node.body.wired = true ∧ node.info.flags.intersects (NodeFlags.parens.union .parensInOperation) = false

theorem hasWireForm_iff : node.hasWireForm depth = true ↔
    (∀ inner, Within inner node → inner.Wired) ∧ (WireValue.ofNode node).depth + depth ≤ WireValue.maxDepth := by
  induction node using byChildren generalizing depth with
  | step node ih =>
    constructor
    · intro held
      have below := fun child among => ((ih child among).mp (hasWireForm_below held child among)).1
      refine ⟨Within.every ?_ below, WireValue.ofNode_depth held⟩
      obtain ⟨info, body⟩ := node
      rw [hasWireForm, Bool.and_eq_true, Bool.and_eq_true, Bool.not_eq_true'] at held
      obtain ⟨⟨-, outside⟩, form⟩ := held
      refine ⟨?_, outside⟩
      cases body with
      | expression => rfl
      | _ => exact form
    · rintro ⟨wired, shallow⟩
      have below := fun child among => (@ih child among (depth + 1)).mpr ∘
        And.intro fun inner within => wired inner (.deeper within among)
      obtain ⟨form, outside⟩ := wired node (.here node)
      obtain ⟨info, body⟩ := node
      have within : depth ≤ WireValue.maxDepth := Nat.le_trans (Nat.le_add_left _ _) shallow
      rw [hasWireForm, decide_eq_true within, show info.flags.intersects _ = false from outside]
      cases body with
      | expression items =>
        change WireValue.depthAll (WireValue.ofNodes items) + depth ≤ WireValue.maxDepth at shallow
        refine allHaveWireForm_of_mem fun child among => below child ?_ ?_
        · simpa [children, Node.body, NodeBody.children, NodeBody.childFields, ChildGroup.nodes] using among
        · have item := WireValue.ofNodes_eq_map items ▸ List.mem_map_of_mem (f := WireValue.ofNode) among
          have lower := WireValue.depth_item item
          omega
      | _ => exact form

theorem toNode_ofNode (wired : ∀ inner, Within inner node → inner.Wired) :
    (WireValue.ofNode node).toNode = node.bare := by
  induction node using byChildren with
  | step node ih =>
    have below := fun child among => ih child among fun inner within => wired inner (.deeper within among)
    obtain ⟨form, outside⟩ := wired node (.here node)
    obtain ⟨info, body⟩ := node
    rw [bare, show info.bare = .plain from NodeInfo.bare_plain outside]
    cases body with
    | null | dimension | keyword => rfl
    | color rgb alpha spelling =>
      cases Option.isNone_iff_eq_none.mp (show spelling.isNone = true from form)
      have opacity : (if alpha.equals .one = true then none else some alpha).getD .one = alpha := by
        split
        · rename_i one
          exact (Binary64.equals_one one).symm
        · rfl
      exact congrArg (fun x => Node.plain (.color rgb x none)) opacity
    | quoted quote text escaped =>
      have ascii : quote.toNat < 128 := of_decide_eq_true form
      exact congrArg (fun c => Node.plain (.quoted c text escaped)) (quoteChar_quoteByte ascii)
    | expression items =>
      refine congrArg (fun nodes => Node.plain (.expression nodes))
        (WireValue.toNodes_ofNodes fun child among => below child ?_)
      simpa [children, Node.body, NodeBody.children, NodeBody.childFields, ChildGroup.nodes] using among
    | _ => cases form

theorem bare_plain (wired : ∀ inner, Within inner node → inner.Wired) :
    ∀ inner, Within inner node.bare → inner.info = .plain := by
  intro inner within
  obtain ⟨⟨info, body⟩, inside, rfl⟩ := within_bare within
  exact NodeInfo.bare_plain (wired _ inside).2

theorem Wired.bare {info : NodeInfo} {body : NodeBody} (wired : Wired (.mk info body)) :
    Wired (.mk info.bare body.bare) := by
  obtain ⟨form, outside⟩ := wired
  refine ⟨?_, ?_⟩
  · cases body <;> exact form
  · have plain : info.bare = .plain := NodeInfo.bare_plain outside
    have none : NodeFlags.none.intersects (NodeFlags.parens.union .parensInOperation) = false := by decide
    rw [plain]
    exact none

theorem hasWireForm_bare (held : node.hasWireForm depth = true) : node.bare.hasWireForm depth = true := by
  obtain ⟨wired, shallow⟩ := hasWireForm_iff.mp held
  refine hasWireForm_iff.mpr ⟨fun inner within => ?_, by rwa [WireValue.ofNode_bare]⟩
  obtain ⟨⟨info, body⟩, inside, rfl⟩ := within_bare within
  exact (wired _ inside).bare

theorem bare_unplaced (node : Node) : ∀ inner, Within inner node.bare → inner.info.Unplaced := by
  intro inner within
  obtain ⟨⟨info, body⟩, _, rfl⟩ := within_bare within
  exact ⟨rfl, rfl⟩

theorem hasWireForm_builtin (held : node.hasWireForm depth = true) : node.Builtin :=
  fun inner within => (hasWireForm_kinds held inner within).1

end Node

theorem ResultNode.ofWire_toNode {node : Node} {depth : Nat} (held : node.hasWireForm depth = true)
    (finite : node.EveryNumber fun x => x.isFinite = true) : (ofWire (.ofNode node)).toNode = node.bare := by
  rw [← WireValue.ofNode_bare, ofWire_ofNode (Node.hasWireForm_bare held) node.bare_unplaced,
    toNode_ofNode (Node.hasWireForm_builtin held).bare finite.bare, Node.bare_bare]

theorem CallArg.toWire_depth {arg : CallArg} {value : WireValue} (wired : arg.toWire? = some value) :
    value.depth ≤ WireValue.maxDepth := by
  unfold toWire? at wired
  split at wired
  case h_6 =>
    split at wired
    · rename_i held
      cases wired
      exact WireValue.ofNode_depth held
    · cases wired
  all_goals cases wired
  all_goals exact Nat.zero_le _

theorem CallArg.wires_depth {args : List CallArg} {values : List WireValue}
    (wired : args.mapM CallArg.toWire? = some values) : ∀ value ∈ values, value.depth ≤ WireValue.maxDepth := by
  induction args generalizing values with
  | nil =>
    cases wired
    exact nofun
  | cons arg rest ih =>
    rw [List.mapM_cons] at wired
    obtain ⟨value, first, wired⟩ := Option.bind_eq_some_iff.mp wired
    obtain ⟨others, later, wired⟩ := Option.bind_eq_some_iff.mp wired
    cases wired
    exact List.forall_mem_cons.mpr ⟨toWire_depth first, ih later⟩

open WireValue (ofNode ofBytes supports)

-- A node that goes over the wire is read from its bytes as the value that was written, and that value is the
-- node without its file, its index and its flags, none of which says of parentheses. What is not written is
-- a text or a list whose length takes more than 32 bits.
theorem supported_lossless {node : Node} (held : supports node = true) :
    ((∃ encoded, (ofNode node).encode = .ok encoded ∧ ofBytes encoded = .ok (ofNode node)) ↔ (ofNode node).Fits) ∧
      (ofNode node).toNode = node.bare ∧ (∀ inner, Node.Within inner node.bare → inner.info = .plain) ∧
      ∀ inner, Node.Within inner node → inner.info.flags.contains .parens = false ∧
        inner.info.flags.contains .parensInOperation = false := by
  obtain ⟨wired, shallow⟩ := Node.hasWireForm_iff.mp held
  refine ⟨⟨?_, fun fits => ?_⟩, Node.toNode_ofNode wired, Node.bare_plain wired, fun inner within => ?_⟩
  · rintro ⟨encoded, written, -⟩
    exact WireValue.encode_fits written
  · obtain ⟨encoded, written⟩ := WireValue.encode_done fits
    exact ⟨encoded, written, (WireValue.ofBytes_iff written).mpr shallow⟩
  · have outside := (wired inner within).2
    exact ⟨NodeFlags.outside_parens outside, NodeFlags.outside_contains (by decide) (by decide) outside⟩

-- As many expressions around one another as are read, each with a place and a flag of its own; one more
-- does not go over the wire.
theorem supported_lossless_deepest :
    let around := fun inner => Node.mk ⟨.visible, some "a.less", some 3⟩ (.expression [.plain (.keyword "a"), inner])
    let node := around^[64] (.plain (.dimension .quietNaN "px"))
    supports node = true ∧ supports (around node) = false ∧
      (∃ encoded, (ofNode node).encode = .ok encoded ∧ ofBytes encoded = .ok (ofNode node)) ∧
      (ofNode node).toNode = node.bare := by
  intro around node
  have fits : (ofNode node).Fits := by
    refine Function.Iterate.rec (fun inner => (ofNode inner).Fits) ?_ ?_ 64
    · exact show 2 < 0x100000000 by decide
    · intro inner fits
      exact ⟨show 2 < 0x100000000 by decide, show 1 < 0x100000000 by decide, fits, trivial⟩
  have held : supports node = true := by decide +kernel
  obtain ⟨carried, same, -⟩ := supported_lossless held
  exact ⟨held, by decide +kernel, carried.mpr fits, same⟩

-- A keyword of 2^32 bytes is taken for one that goes over the wire, and is not written.
theorem supported_overlong :
    let node := Node.plain (.keyword (String.ofList (List.replicate 0x100000000 'a')))
    supports node = true ∧ (ofNode node).encode = .error .tooLarge := by
  have every : ∀ text, supports (.plain (.keyword text)) = true := fun _ => rfl
  have refused : ∀ {text : String}, 0x100000000 ≤ text.utf8ByteSize →
      (ofNode (.plain (.keyword text))).encode = .error .tooLarge := by
    intro text long
    change (WireValue.keyword text).encode = _
    rw [WireValue.encode, text_overlong long]
    rfl
  exact ⟨every _, refused (Nat.le_of_eq (repeated_size rfl _).symm)⟩

namespace ResultNode
variable {name : String} {kind : NodeKind} {fields others : Members Json} {slots more : List (String × ChildSlot)}
  {below beneath : NodeSlots} {node : Node} {body : NodeBody} {depth : Nat}

theorem bodyOf_agrees (known : NodeKind.ofName? name = some kind)
    (shown : ∀ key ∉ ["parens", selectorCountKey, "filename", "index"],
      Members.get? key fields = Members.get? key others)
    (held : ∀ key, nodesIn key below = nodesIn key beneath) :
    bodyOf (.mk name fields slots) below = bodyOf (.mk name others more) beneath := by
  have one : (ResultNode.mk name fields slots).kind? = some kind := known
  have two : (ResultNode.mk name others more).kind? = some kind := known
  unfold bodyOf
  rw [one, two]
  cases kind <;>
    simp [stringField, boolField, floatField?, rgb, scalarText, toFloat?, value?, field?, firstIn, ResultNode.fields,
      shown, held, selectorCountKey]

theorem toNode_agrees (known : NodeKind.ofName? name = some kind)
    (shown : ∀ key ∉ ["parens", selectorCountKey, "filename", "index"],
      Members.get? key fields = Members.get? key others)
    (marked : boolField "parens" (.mk name fields slots) = boolField "parens" (.mk name others more))
    (held : ∀ key, nodesIn key (slotsToNodes slots) = nodesIn key (slotsToNodes more)) :
    (ResultNode.mk name fields slots).toNode = (ResultNode.mk name others more).toNode := by
  rw [toNode, toNode, bodyOf_agrees known shown held, marked]

theorem slotsOfBody_get? {key : String} {slot : ChildSlot} (found : Members.get? key (slotsOfBody body) = some slot) :
    ∃ group, (key, group) ∈ body.childFields ∧ slot = slotOfGroup group := by
  rw [slotsOfBody_groups] at found
  obtain ⟨⟨_, group⟩, inside, same⟩ := List.mem_map.mp (Members.get?_mem found)
  cases same
  exact ⟨group, inside, rfl⟩

theorem inOrder_agrees (builtin : node.Builtin) : (ofNode node).inOrder.toNode = (ofNode node).toNode := by
  induction node using Node.byChildren with
  | step node ih =>
    obtain ⟨kind, known⟩ := builtin.kind
    have below := fun child among => ih child among (builtin.below among)
    obtain ⟨info, body⟩ := node
    have known : body.kind? = some kind := known
    have apart : ((Members.mapValues slotInOrder (slotsOfBody body)).map Prod.fst).Nodup := by
      rw [Members.mapValues_keys]
      exact (List.nodup_cons.mp (names_apart known).1).2
    refine toNode_agrees (NodeBody.ofName_typeName known) (fun _ _ => rfl) rfl fun key => ?_
    rw [nodesIn_slots, nodesIn_slots, slotsInOrder_eq_map, Members.get?_collected apart, Members.get?_mapValues]
    cases found : Members.get? key (slotsOfBody body) with
    | none => rfl
    | some slot =>
      obtain ⟨group, inside, rfl⟩ := slotsOfBody_get? found
      simp only [Option.map_some, Option.getD_some, slotInOrder_nodes, slotOfGroup_nodes, List.map_map]
      exact List.map_congr_left fun child among => below child (List.mem_flatMap.mpr ⟨_, inside, among⟩)

theorem bare_agrees (builtin : node.Builtin) : (ofNode node.bare).toNode = (ofNode node).toNode := by
  induction node using Node.byChildren with
  | step node ih =>
    obtain ⟨kind, known⟩ := builtin.kind
    have below := fun child among => ih child among (builtin.below among)
    obtain ⟨info, body⟩ := node
    have known : body.kind? = some kind := known
    have forgot : body.bare.kind? = some kind := (NodeBody.bare_kind body).trans known
    have named : body.bare.typeName = body.typeName := by cases body <;> rfl
    have flags : info.bare.flags.contains .parens = info.flags.contains .parens :=
      NodeFlags.inter_contains (by decide)
    rw [Node.bare, ofNode, named]
    refine toNode_agrees (NodeBody.ofName_typeName known) (fun key own => ?_) ?_ fun key => ?_
    · have shown := ofNode_shows info.bare forgot own
      rw [NodeBody.bare_properties] at shown
      exact shown.trans (ofNode_shows info known own).symm
    · exact (ofNode_parens info.bare forgot).trans (flags.trans (ofNode_parens info known).symm)
    · rw [nodesIn_slots, nodesIn_slots, slotsOfBody_groups, slotsOfBody_groups, NodeBody.bare_childFields,
        Members.get?_mapValues, Members.get?_mapValues, Members.get?_mapValues]
      cases found : Members.get? key body.childFields with
      | none => rfl
      | some group =>
        have inside := Members.get?_mem found
        have same : group.bare.nodes = group.nodes.map Node.bare := by cases group <;> rfl
        simp only [Option.map_some, Option.getD_some, slotOfGroup_nodes, same, List.map_map]
        exact List.map_congr_left fun child among => below child (List.mem_flatMap.mpr ⟨_, inside, among⟩)

theorem ofWire_agrees (held : node.hasWireForm depth = true) :
    (ofWire (.ofNode node)).toNode = (ofNode node).toNode := by
  rw [← WireValue.ofNode_bare, ofWire_ofNode (Node.hasWireForm_bare held) node.bare_unplaced,
    bare_agrees (Node.hasWireForm_builtin held)]

theorem ofJson_agrees (builtin : node.Builtin) : (ofJson (ofNode node).toJson).toNode = (ofNode node).toNode := by
  rw [ofJson_toJson (ofNode_regular builtin), inOrder_agrees builtin]

end ResultNode
end PluginBridge
