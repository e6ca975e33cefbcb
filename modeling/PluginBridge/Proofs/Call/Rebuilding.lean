import PluginBridge.Call.Rebuild
import PluginBridge.Proofs.Call.WireRoute
namespace PluginBridge

namespace NodeFlags

theorem inter_parens (flags : NodeFlags) :
    flags.inter .parens = if flags.contains .parens then .parens else .none := by
  have single : ∀ bits : UInt16, bits &&& 1 = 0 ∨ bits &&& 1 = 1 := by
    intro bits
    have one : bits.toNat &&& 1 = 0 ∨ bits.toNat &&& 1 = 1 := by
      rw [Nat.and_one_is_mod]
      omega
    refine one.imp (fun zero => ?_) fun odd => ?_
    · exact UInt16.toNat_inj.mp zero
    · exact UInt16.toNat_inj.mp odd
  rcases single flags.bits with zero | odd
  · have same : flags.inter .parens = .none := congrArg NodeFlags.mk zero
    rw [contains, same]
    rfl
  · have same : flags.inter .parens = .parens := congrArg NodeFlags.mk odd
    rw [contains, same]
    rfl

end NodeFlags

def NodeInfo.bare (info : NodeInfo) : NodeInfo := ⟨info.flags.inter .parens, none, none⟩

mutual

def Node.bare : Node → Node
  | .mk info body => .mk info.bare body.bare

def NodeBody.bare : NodeBody → NodeBody
  | .ruleset selectors rules => .ruleset (bareAll selectors) (bareAll rules)
  | .selector elements => .selector (bareAll elements)
  | .declaration name content important => .declaration name content.bare important
  | .paren content => .paren content.bare
  | .url content => .url content.bare
  | .value items => .value (bareAll items)
  | .expression items => .expression (bareAll items)
  | .arguments items => .arguments (bareAll items)
  | .call name args => .call name (bareAll args)
  | .operation operator operands => .operation operator (bareAll operands)
  | .extension name properties children => .extension name properties (bareAll children)
  | body => body

def bareAll : List Node → List Node
  | [] => []
  | node :: rest => node.bare :: bareAll rest

end

theorem bareAll_eq_map (nodes : List Node) : bareAll nodes = nodes.map Node.bare := by
  induction nodes with
  | nil => rfl
  | cons node rest ih => rw [bareAll, ih, List.map_cons]

def ChildGroup.bare : ChildGroup → ChildGroup
  | .one node => .one node.bare
  | .many nodes => .many (nodes.map Node.bare)

namespace NodeBody

theorem bare_kind (body : NodeBody) : body.bare.kind? = body.kind? := by
  cases body <;> rfl

theorem bare_childFields (body : NodeBody) :
    body.bare.childFields = Members.mapValues ChildGroup.bare body.childFields := by
  cases body <;> simp [bare, childFields, ChildGroup.bare, Members.mapValues, bareAll_eq_map]

theorem bare_children (body : NodeBody) : body.bare.children = body.children.map Node.bare := by
  cases body <;> simp [bare, children, childFields, ChildGroup.nodes, bareAll_eq_map]

theorem bare_properties (body : NodeBody) : body.bare.properties = body.properties := by
  cases body <;> simp [bare, properties, bareAll_eq_map]

def numbers : NodeBody → List Binary64
  | .dimension size _ => [size]
  | .color rgb alpha _ => rgb.toList ++ [alpha]
  | _ => []

theorem bare_numbers (body : NodeBody) : body.bare.numbers = body.numbers := by
  cases body <;> rfl

end NodeBody

theorem NodeInfo.bare_bare (info : NodeInfo) : info.bare.bare = info.bare := by
  rw [bare, bare, NodeFlags.inter_parens info.flags]
  split <;> rfl

mutual

theorem Node.bare_bare : ∀ node : Node, node.bare.bare = node.bare
  | .mk info body => congrArg₂ Node.mk info.bare_bare (NodeBody.bare_bare body)

theorem NodeBody.bare_bare : ∀ body : NodeBody, body.bare.bare = body.bare
  | .ruleset selectors rules => congrArg₂ NodeBody.ruleset (bareAll_bareAll selectors) (bareAll_bareAll rules)
  | .selector elements => congrArg NodeBody.selector (bareAll_bareAll elements)
  | .declaration name content important =>
    congrArg (NodeBody.declaration name · important) (Node.bare_bare content)
  | .paren content => congrArg NodeBody.paren (Node.bare_bare content)
  | .url content => congrArg NodeBody.url (Node.bare_bare content)
  | .value items => congrArg NodeBody.value (bareAll_bareAll items)
  | .expression items => congrArg NodeBody.expression (bareAll_bareAll items)
  | .arguments items => congrArg NodeBody.arguments (bareAll_bareAll items)
  | .call name args => congrArg (NodeBody.call name) (bareAll_bareAll args)
  | .operation operator operands => congrArg (NodeBody.operation operator) (bareAll_bareAll operands)
  | .extension name properties children =>
    congrArg (NodeBody.extension name properties) (bareAll_bareAll children)
  | .null | .element _ _ | .dimension _ _ | .color _ _ _ | .quoted _ _ _ | .keyword _ | .anonymous _
  | .variable _ | .comment _ _ => rfl

theorem bareAll_bareAll : ∀ nodes : List Node, bareAll (bareAll nodes) = bareAll nodes
  | [] => rfl
  | node :: rest => congrArg₂ List.cons (Node.bare_bare node) (bareAll_bareAll rest)

end

namespace Node
variable {node inner : Node} {holds : Binary64 → Prop}

theorem bare_node_children (node : Node) : node.bare.children = node.children.map bare := by
  cases node
  exact NodeBody.bare_children _

theorem within_bare (within : Within inner node.bare) :
    ∃ original, Within original node ∧ inner = original.bare := by
  induction node using byChildren with
  | step node ih =>
    cases within with
    | here => exact ⟨node, .here node, rfl⟩
    | deeper inside among =>
      rw [bare_node_children] at among
      obtain ⟨child, present, rfl⟩ := List.mem_map.mp among
      obtain ⟨original, within, same⟩ := ih child present inside
      exact ⟨original, .deeper within present, same⟩

theorem Builtin.bare (builtin : Builtin node) : Builtin node.bare := by
  intro inner within
  obtain ⟨⟨info, body⟩, original, rfl⟩ := within_bare within
  have known := builtin _ original
  rwa [kind?, Node.bare, Node.body, NodeBody.bare_kind]

def EveryNumber (holds : Binary64 → Prop) (node : Node) : Prop :=
  ∀ inner, Within inner node → ∀ x ∈ inner.body.numbers, holds x

theorem Within.leaf {kept : Node → Prop} (childless : node.children = []) (here : kept node) :
    ∀ inner, Within inner node → kept inner :=
  Within.every here fun _ among => absurd (childless ▸ among) List.not_mem_nil

theorem EveryNumber.below (every : EveryNumber holds node) (among : inner ∈ node.children) :
    EveryNumber holds inner :=
  fun deeper within => every deeper (.deeper within among)

theorem EveryNumber.bare (every : EveryNumber holds node) : EveryNumber holds node.bare := by
  intro inner within
  obtain ⟨⟨info, body⟩, original, rfl⟩ := within_bare within
  have known := every _ original
  rwa [Node.bare, Node.body, NodeBody.bare_numbers]

end Node

namespace ResultNode
variable {info : NodeInfo} {body : NodeBody} {kind : NodeKind} {node : Node} {key : String}
  {property : Property}

theorem markParens_get? (flags : NodeFlags) (fields : Members Json) (apart : key ≠ "parens") :
    Members.get? key (markParens flags fields) = Members.get? key fields := by
  unfold markParens
  split
  · rw [Members.get?_insert, if_neg (Ne.symm apart)]
  · rfl

theorem fields_get? {entries : List (String × Property)} (apart : (entries.map Prod.fst).Nodup) :
    Members.get? key (fieldsOfProperties entries) = (Members.get? key entries).map Property.toJson := by
  have keys : ((Members.mapValues Property.toJson entries).map Prod.fst).Nodup := by rwa [Members.mapValues_keys]
  exact (Members.get?_collected keys).trans (Members.get?_mapValues _ _ _)

theorem own_field (info : NodeInfo) (builtin : body.kind? = some kind)
    (own : key ∉ [selectorCountKey, "filename", "index"]) :
    Members.get? key (Members.erase selectorCountKey
        (fieldsOfProperties (body.properties ++ Node.infoProperties info))) =
      (Members.get? key body.properties).map Property.toJson := by
  simp only [List.mem_cons, List.not_mem_nil, or_false, not_or] at own
  obtain ⟨count, file, index⟩ := own
  have apart : ((body.properties ++ Node.infoProperties info).map Prod.fst).Nodup :=
    Node.properties_apart (show (Node.mk info body).kind? = some kind from builtin)
  have placed : ∀ entry ∈ Node.infoProperties info, entry.1 ≠ key := by
    intro entry among same
    have name := (Node.infoProperties_keys info).subset (List.mem_map_of_mem among)
    simp only [List.mem_cons, List.not_mem_nil, or_false] at name
    rcases name with name | name
    · exact file (same ▸ name)
    · exact index (same ▸ name)
  rw [Members.get?_erase (Ne.symm count), fields_get? apart, Members.get?_append_absent placed]

theorem ofNode_shows (info : NodeInfo) (builtin : body.kind? = some kind)
    (own : key ∉ ["parens", selectorCountKey, "filename", "index"]) :
    Members.get? key (ofNode (.mk info body)).fields =
      (Members.get? key body.properties).map Property.toJson := by
  obtain ⟨parens, others⟩ := not_or.mp (mt List.mem_cons.mpr own)
  rw [ofNode, fields, markParens_get? _ _ parens, own_field info builtin others]

theorem ofNode_parens (info : NodeInfo) (builtin : body.kind? = some kind) :
    boolField "parens" (ofNode (.mk info body)) = info.flags.contains .parens := by
  have unused : Members.get? "parens" body.properties = none := by
    cases body with
    | extension => cases builtin
    | color rgb alpha spelling => cases spelling <;> rfl
    | _ => rfl
  rw [boolField, field?, ofNode, fields, markParens]
  split
  · rename_i marked
    rw [Members.get?_insert, if_pos rfl, marked]
    rfl
  · rename_i unmarked
    rw [own_field info builtin (by decide), unused, Bool.eq_false_iff.mpr unmarked]
    rfl

theorem ofFloat_finite {x : Binary64} (finite : x.isFinite = true) :
    Json.ofFloat x = .number (.float x) :=
  if_pos finite

theorem bodyOf_fields (builtin : body.kind? = some kind) (finite : ∀ x ∈ body.numbers, x.isFinite = true)
    {fields : Members Json} {slots : List (String × ChildSlot)} {below : NodeSlots}
    (shown : ∀ key ∉ ["parens", selectorCountKey, "filename", "index"],
      Members.get? key fields = (Members.get? key body.properties).map Property.toJson)
    (held : ∀ field ∈ body.childFields, nodesIn field.1 below = field.2.nodes.map Node.bare) :
    bodyOf (.mk body.typeName fields slots) below = body.bare := by
  have known : (ResultNode.mk body.typeName fields slots).kind? = some kind :=
    NodeBody.ofName_typeName builtin
  unfold bodyOf
  rw [known]
  -- Each kind looks at fields of its own names only, and those are shown as they were.
  cases body with
  | extension => cases builtin
  | color rgb alpha spelling =>
    cases builtin
    obtain ⟨red, green, blue⟩ := rgb
    have literal : ∀ x ∈ [red, green, blue, alpha], Json.ofFloat x = .number (.float x) :=
      fun x among => ofFloat_finite (finite x among)
    simp only [List.forall_mem_cons, List.not_mem_nil, false_implies, implies_true, and_true] at literal
    have components : (NodeBody.color ⟨red, green, blue⟩ alpha spelling).properties =
        [("rgb", .list [.number red, .number green, .number blue]), ("alpha", .number alpha)] ++
          spelling.toList.map fun text => ("original", .string text) := rfl
    cases spelling <;>
      simp [ResultNode.rgb, floatField?, field?, ResultNode.fields, shown, components, Members.get?,
        selectorCountKey, Property.toJson, Property.allToJson, literal, Json.toArray?, Json.toFloat?,
        Json.toString?, JsonNumber.toFloat, NodeBody.bare]
  | dimension size unit =>
    cases builtin
    have number := shown "value" (by decide)
    have suffix := shown "unit" (by decide)
    have literal := ofFloat_finite (finite size List.mem_cons_self)
    simp [toFloat?, value?, stringField, field?, ResultNode.fields, number, suffix,
      NodeBody.properties, Members.get?, Property.toJson, literal, Json.toFloat?, Json.toString?, 
      JsonNumber.toFloat, NodeBody.bare]
  | ruleset | selector | declaration | value | expression | arguments | call | operation | paren
  | url =>
    cases builtin
    simp [NodeBody.childFields, ChildGroup.nodes] at held
    simp [held, firstIn, stringField, boolField, field?, ResultNode.fields, shown, NodeBody.properties, Members.get?,
      selectorCountKey, Property.toJson, Json.toString?, Json.toBool?, NodeBody.bare, bareAll_eq_map]
  | _ =>
    cases builtin
    simp [stringField, boolField, scalarText, scalarTextOf, value?, field?, ResultNode.fields,
      shown, NodeBody.properties, Members.get?, selectorCountKey, Property.toJson, Json.toString?,
      Json.toBool?, NodeBody.bare]

theorem slotsToNodes_eq_map (slots : List (String × ChildSlot)) :
    slotsToNodes slots = Members.mapValues slotToNodes slots := by
  induction slots with
  | nil => rfl
  | cons entry rest ih =>
    obtain ⟨key, slot⟩ := entry
    rw [slotsToNodes, ih]
    rfl

theorem slotToNodes_nodes (slot : ChildSlot) : slotToNodes slot = slot.nodes.map toNode := by
  have all : ∀ nodes, allToNodes nodes = nodes.map toNode := by
    intro nodes
    induction nodes with
    | nil => rfl
    | cons node rest ih => rw [allToNodes, ih, List.map_cons]
  cases slot with
  | one node => rfl
  | many nodes => exact all nodes

theorem slotInOrder_nodes (slot : ChildSlot) : (slotInOrder slot).nodes = slot.nodes.map inOrder := by
  have all : ∀ nodes, allInOrder nodes = nodes.map inOrder := by
    intro nodes
    induction nodes with
    | nil => rfl
    | cons node rest ih => rw [allInOrder, ih, List.map_cons]
  cases slot with
  | one node => rfl
  | many nodes => exact all nodes

theorem nodesIn_slots (key : String) (slots : List (String × ChildSlot)) :
    nodesIn key (slotsToNodes slots) =
      ((Members.get? key slots).map fun slot => slot.nodes.map toNode).getD [] := by
  have first : ∀ below : NodeSlots, nodesIn key below = (Members.get? key below).getD [] := by
    intro below
    induction below with
    | nil => rfl
    | cons entry rest ih =>
      obtain ⟨name, nodes⟩ := entry
      by_cases same : name = key
      · simp [nodesIn, Members.get?, same]
      · simpa [nodesIn, Members.get?, same] using ih
  rw [first, slotsToNodes_eq_map, Members.get?_mapValues, funext slotToNodes_nodes]

def slotOfGroup : ChildGroup → ChildSlot
  | .one node => .one (ofNode node)
  | .many nodes => .many (ofNodes nodes)

theorem slotsOfBody_groups (body : NodeBody) :
    slotsOfBody body = Members.mapValues slotOfGroup body.childFields := by
  cases body <;> rfl

theorem slotOfGroup_nodes (group : ChildGroup) : (slotOfGroup group).nodes = group.nodes.map ofNode := by
  cases group with
  | one node => rfl
  | many nodes => exact ofNodes_eq_map nodes

theorem slotsOfBody_field (builtin : body.kind? = some kind) : ∀ field ∈ body.childFields,
    Members.get? field.1 (slotsOfBody body) = some (slotOfGroup field.2) := by
  have apart := (List.nodup_cons.mp (names_apart builtin).1).2
  rw [slotsOfBody_groups] at apart ⊢
  exact fun field among => Members.get?_of_mem apart (List.mem_map_of_mem among)

theorem toNode_level (builtin : body.kind? = some kind) (finite : ∀ x ∈ body.numbers, x.isFinite = true)
    {slots : List (String × ChildSlot)}
    (held : ∀ field ∈ body.childFields,
      nodesIn field.1 (slotsToNodes slots) = field.2.nodes.map Node.bare) :
    (ResultNode.mk body.typeName (ofNode (.mk info body)).fields slots).toNode =
      (Node.mk info body).bare := by
  have content : bodyOf (.mk body.typeName (ofNode (.mk info body)).fields slots) (slotsToNodes slots) =
      body.bare := bodyOf_fields builtin finite (fun key own => ofNode_shows info builtin own) held
  have parens : boolField "parens" (.mk body.typeName (ofNode (.mk info body)).fields slots) =
      info.flags.contains .parens := ofNode_parens info builtin
  have mark : NodeFlags.none.union .parens = .parens := by decide
  rw [toNode, content, parens, Node.bare, NodeInfo.bare, NodeFlags.inter_parens]
  split
  · exact congrArg (fun flags => Node.mk ⟨flags, none, none⟩ body.bare) mark
  · rfl

theorem toNode_ofNode (builtin : node.Builtin) (finite : node.EveryNumber fun x => x.isFinite = true) :
    (ofNode node).toNode = node.bare := by
  induction node using Node.byChildren with
  | step node ih =>
    obtain ⟨kind, known⟩ := builtin.kind
    have below := fun child among => ih child among (builtin.below among) (finite.below among)
    have here := finite node (.here node)
    obtain ⟨info, body⟩ := node
    have held : ∀ field ∈ body.childFields,
        nodesIn field.1 (slotsToNodes (slotsOfBody body)) = field.2.nodes.map Node.bare := by
      intro field among
      rw [nodesIn_slots, @slotsOfBody_field body kind known field among, Option.map_some, Option.getD_some,
        slotOfGroup_nodes, List.map_map]
      exact List.map_congr_left fun child inside =>
        below child (List.mem_flatMap.mpr ⟨field, among, inside⟩)
    exact toNode_level known here held

theorem toNode_inOrder (builtin : node.Builtin) (finite : node.EveryNumber fun x => x.isFinite = true) :
    (ofNode node).inOrder.toNode = node.bare := by
  induction node using Node.byChildren with
  | step node ih =>
    obtain ⟨kind, known⟩ := builtin.kind
    have below := fun child among => ih child among (builtin.below among) (finite.below among)
    have here := finite node (.here node)
    obtain ⟨info, body⟩ := node
    have held : ∀ field ∈ body.childFields,
        nodesIn field.1 (slotsToNodes (Members.ofList (slotsInOrder (slotsOfBody body)))) =
          field.2.nodes.map Node.bare := by
      intro field among
      have apart : ((Members.mapValues slotInOrder (slotsOfBody body)).map Prod.fst).Nodup := by
        rw [Members.mapValues_keys]
        exact (List.nodup_cons.mp (names_apart known).1).2
      rw [nodesIn_slots, slotsInOrder_eq_map, Members.get?_collected apart, Members.get?_mapValues,
        @slotsOfBody_field body kind known field among, Option.map_some, Option.map_some, Option.getD_some,
        slotInOrder_nodes, slotOfGroup_nodes, List.map_map, List.map_map]
      exact List.map_congr_left fun child inside =>
        below child (List.mem_flatMap.mpr ⟨field, among, inside⟩)
    exact toNode_level known here held

end ResultNode
end PluginBridge
