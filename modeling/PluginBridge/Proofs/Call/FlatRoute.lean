import PluginBridge.Call.Result
import PluginBridge.Proofs.Flat.Builtin
import PluginBridge.Proofs.Numeric.Naturals
namespace PluginBridge

namespace Property

mutual

theorem restored_toJson : ∀ property : Property, property.restored.toJson = property.toJson
  | .number x => by
    rw [restored]
    split
    · rfl
    · rename_i infinite
      rw [toJson, toJson, Json.ofFloat, if_neg infinite]
  | .list items => congrArg Json.array (allRestored_toJson items)
  | .null => rfl
  | .bool _ => rfl
  | .string _ => rfl

theorem allRestored_toJson : ∀ items : List Property, allToJson (allRestored items) = allToJson items
  | [] => rfl
  | item :: rest => congrArg₂ List.cons (restored_toJson item) (allRestored_toJson rest)

end

end Property

namespace ResultNode
open Members (mapValues)
variable {info : NodeInfo} {body : NodeBody} {kind : NodeKind} {slot : NodeSlot}

theorem ofNodes_eq_map (nodes : List Node) : ofNodes nodes = nodes.map ofNode := by
  induction nodes with
  | nil => rfl
  | cons node rest ih => rw [ofNodes, ih, List.map_cons]

theorem fieldsOfProperties_restored (entries : List (String × Property)) :
    fieldsOfProperties (mapValues Property.restored (Members.ofList entries)) =
      fieldsOfProperties entries := by
  have shown : mapValues Property.toJson (mapValues Property.restored (Members.ofList entries)) =
      mapValues Property.toJson (Members.ofList entries) := by
    simp [mapValues, Property.restored_toJson]
  calc fieldsOfProperties (mapValues Property.restored (Members.ofList entries))
      = Members.ofList (mapValues Property.toJson (Members.ofList entries)) :=
        congrArg Members.ofList shown
    _ = mapValues Property.toJson (Members.ofList entries) := by
      rw [Members.ofList_map, (Members.ofList_ascending entries).ofList]
    _ = fieldsOfProperties entries := (Members.ofList_map _ _).symm

theorem erase_markParens {fields : Members Json} (sorted : Members.Ascending fields) (flags : NodeFlags) :
    Members.erase selectorCountKey (markParens flags fields) =
      markParens flags (Members.erase selectorCountKey fields) := by
  unfold markParens
  split
  · exact Members.erase_insert sorted (by decide) _
  · rfl

theorem erase_selectorCount (builtin : body.kind? = some kind) (other : kind ≠ .ruleset) :
    Members.erase selectorCountKey (fieldsOfProperties (body.properties ++ Node.infoProperties info)) =
      fieldsOfProperties (body.properties ++ Node.infoProperties info) := by
  have unused : selectorCountKey ∉ body.properties.map Prod.fst ++ ["filename", "index"] := by
    cases body with
    | extension => cases builtin
    | ruleset => exact absurd (Option.some.inj builtin).symm other
    | color rgb alpha spelling => cases spelling <;> exact of_decide_eq_true rfl
    | _ => exact of_decide_eq_true rfl
  refine Members.erase_absent fun entry among => ?_
  obtain ⟨field, present, rfl⟩ := List.mem_map.mp (Members.ofList_mem among)
  intro same
  have key : field.1 ∈ body.properties.map Prod.fst ++ (Node.infoProperties info).map Prod.fst := by
    rw [← List.map_append]
    exact List.mem_map_of_mem present
  have kept := ((Node.infoProperties_keys info).append_left _).subset key
  exact unused (same ▸ kept)

theorem fields_agree (info : NodeInfo) (builtin : body.kind? = some kind) {fields : Members Json}
    (shown : fieldsOfProperties (body.properties ++ Node.infoProperties info) = fields) :
    (if some kind = some .ruleset then
        Members.erase selectorCountKey (markParens (Node.recordFlags info) fields)
      else markParens (Node.recordFlags info) fields) =
      markParens info.flags (Members.erase selectorCountKey fields) := by
  have marked : markParens (Node.recordFlags info) fields = markParens info.flags fields := by
    rw [markParens, Node.recordFlags_parens, markParens]
  rw [marked]
  split
  · exact erase_markParens (shown ▸ Members.ofList_ascending _) _
  · rename_i other
    rw [← shown, erase_selectorCount builtin fun same => other (congrArg some same)]

def slotVia (convert : Node → ResultNode) : ChildGroup → ChildSlot
  | .one node => .one (convert node)
  | .many nodes => .many (nodes.map convert)

theorem slotsOfBody_via (body : NodeBody) : slotsOfBody body = mapValues (slotVia ofNode) body.childFields := by
  cases body <;> simp [slotsOfBody, mapValues, slotVia, NodeBody.childFields, ofNodes_eq_map]

theorem slotsByKind_children (convert : Node → ResultNode) (builtin : body.kind? = some kind)
    (known : slot.kind? = some kind)
    (counted : ∀ selectors rules, body = .ruleset selectors rules → selectors.length ≤ 0x100000000 ∧
      Members.get? selectorCountKey slot.properties = some (.number (.ofNat selectors.length))) :
    slotsByKind slot (body.children.map convert) = mapValues (slotVia convert) body.childFields := by
  cases body with
  | extension => cases builtin
  | ruleset selectors rules =>
    cases builtin
    obtain ⟨few, written⟩ := counted selectors rules rfl
    have count : (((Members.get? selectorCountKey slot.properties).bind Property.toFloat?).elim 0
        fun x => (x.clampToRange 0 0xFFFFFFFFFFFFFFFF).toNat) = (selectors.map convert).length := by
      have back := @Binary64.ofNat_clamp selectors.length 0xFFFFFFFFFFFFFFFF (by omega) (by omega)
      rw [written, List.length_map]
      exact (congrArg Int.toNat back).trans (Int.toNat_natCast _)
    simp only [slotsByKind, known, count]
    simp [mapValues, slotVia, NodeBody.children, NodeBody.childFields, ChildGroup.nodes]
  | _ =>
    cases builtin
    simp [slotsByKind, known, mapValues, slotVia, NodeBody.children, NodeBody.childFields, ChildGroup.nodes]

theorem ofFlats_rebuilt {registry : TypeRegistry} {nodes : List Node} {convert : Node → ResultNode}
    (each : ∀ child ∈ nodes, ∀ place parent,
      ofFlat (child.outline.rebuilt registry place parent) = convert child)
    (place : Nat) (parent : UInt32) :
    ofFlats (Outline.rebuiltAll registry place parent (nodes.map Node.outline)) = nodes.map convert := by
  induction nodes generalizing place with
  | nil => rfl
  | cons node rest ih =>
    rw [List.map_cons, Outline.rebuiltAll, ofFlats, List.map_cons, each node List.mem_cons_self,
      ih fun child among => each child (List.mem_cons_of_mem _ among)]

theorem selectors_counted {node : Node} (builtin : node.kind? = some kind)
    (small : node.outline.size ≤ 0x100000000) {selectors rules : List Node}
    (ruleset : node.body = .ruleset selectors rules) :
    selectors.length ≤ 0x100000000 ∧
      Members.get? selectorCountKey (mapValues Property.restored (Members.ofList node.properties)) =
        some (.number (.ofNat selectors.length)) := by
  have below : selectors.length + rules.length ≤ Outline.sizeAll node.outline.children := by
    have few := Outline.sizeAll_length node.outline.children
    rw [Node.outline_children, List.length_map] at few
    rw [Node.outline_children]
    simpa [Node.children, ruleset, NodeBody.children, NodeBody.childFields, ChildGroup.nodes] using few
  have weight := node.outline.size_children
  have within : selectors.length ≤ 0x100000000 := by omega
  have among : (selectorCountKey, Property.number (.ofNat selectors.length)) ∈ node.properties := by
    rw [Node.properties, ruleset]
    exact List.mem_cons_self
  have finite : (Binary64.ofNat selectors.length).isFinite = true := Binary64.ofNat_finite (by omega)
  refine ⟨within, ?_⟩
  rw [Members.get?_mapValues, Members.get?_ofList (Node.properties_apart builtin) among, Option.map_some,
    Property.restored, if_pos finite]

theorem ofFlat_builtin {registry : TypeRegistry} {convert : Node → ResultNode} {place : Nat} {parent : Option UInt32}
    (known : body.kind? = some kind) (small : (Node.mk info body).outline.size ≤ 0x100000000)
    (below : ∀ child ∈ body.children, ∀ place parent,
      ofFlat (child.outline.rebuilt registry place parent) = convert child) :
    ofFlat ((Node.mk info body).outline.rebuilt registry place parent) =
      .mk body.typeName (ofNode (.mk info body)).fields (mapValues (slotVia convert) body.childFields) := by
  have children := @ofFlats_rebuilt registry (Node.mk info body).children convert below (place + 1) (UInt32.ofNat place)
  have counted := fun selectors rules => @selectors_counted kind (.mk info body) known small selectors rules
  have named : NodeKind.ofName? body.typeName = some kind := NodeBody.ofName_typeName known
  have slots := @slotsByKind_children body kind ((Node.mk info body).outline.slot registry place) convert known
    named counted
  have shown := fieldsOfProperties_restored (body.properties ++ Node.infoProperties info)
  rw [Outline.rebuilt_parts, Node.outline_children, ofFlat, children, ofNode]
  refine congrArg₂ (ResultNode.mk _) ?_ slots
  simp only [Outline.slot, Node.outline, Outline.properties, Outline.typeName, Outline.flags, named,
    shown]
  exact fields_agree info known rfl

theorem ofFlat_rebuilt (registry : TypeRegistry) {node : Node} (builtin : node.Builtin)
    (small : node.outline.size ≤ 0x100000000) (place : Nat) (parent : Option UInt32) :
    ofFlat (node.outline.rebuilt registry place parent) = ofNode node := by
  induction node using Node.byChildren generalizing place parent with
  | step node ih =>
    obtain ⟨kind, known⟩ := builtin.kind
    have below := fun child among => ih child among (builtin.below among)
      (Nat.le_trans (Nat.le_of_lt (Node.child_size among)) small)
    obtain ⟨info, body⟩ := node
    have known : body.kind? = some kind := known
    rw [ofFlat_builtin known small below, ← slotsOfBody_via]
    rfl

end ResultNode

-- What arrives over the tables is what the direct way delivers. Only a tree that takes every one
-- of the 2 ^ 32 positions does not arrive, and says so.
theorem flat_route {node : Node} {tree : FlatTree}
    (builtin : ∀ inner, Node.Within inner node → inner.kind?.isSome)
    (survive : ∀ inner, Node.Within inner node → ∀ entry ∈ inner.properties, entry.2.NumbersSurvive)
    (flattened : node.flatten = .ok tree) :
    tree.unflatten.map ResultNode.ofFlat =
      if tree.nodes.size = 0x100000000 then .error .emptyTree else .ok (ResultNode.ofNode node) := by
  have back := Node.unflatten_flatten builtin survive flattened
  obtain ⟨nodes, _⟩ := flattenWith_counted (Node.Builtin.apart builtin) flattened
  obtain ⟨out, rfl, count, _, _⟩ := flattenWith_laid flattened
  have small : node.outline.size ≤ 0x100000000 := count ▸ nodes
  rw [back]
  split
  · rfl
  · exact congrArg Except.ok (ResultNode.ofFlat_rebuilt .builtin builtin small 0 none)

-- A ruleset in parentheses that knows its place in a file, with one selector and a rule whose
-- number has no literal.
theorem flat_route_ruleset :
    ∃ node tree, node = Node.mk ⟨.parens, some "a.less", some 7⟩
        (.ruleset [.plain (.selector [])] [.plain (.dimension (.infinity true) "px")]) ∧
      node.flatten = .ok tree ∧
      tree.unflatten.map ResultNode.ofFlat = .ok (ResultNode.ofNode node) ∧
      (ResultNode.ofNode node).fields.map Prod.fst = ["filename", "index", "parens"] ∧
      (ResultNode.ofNode node).slots.map Prod.fst = ["selectors", "rules"] := by
  have one : Binary64.SurvivesText (.ofNat 1) := by
    have bits : Binary64.ofNat 1 = ⟨0x3FF0000000000000⟩ := by decide +kernel
    have text : Json.render (.number (.float ⟨0x3FF0000000000000⟩)) = "1.0" := by decide +kernel
    rw [bits, Binary64.SurvivesText, text]
    with_unfolding_all rfl
  have seven : Binary64.SurvivesText (.ofNat 7) := by
    have bits : Binary64.ofNat 7 = ⟨0x401C000000000000⟩ := by decide +kernel
    have text : Json.render (.number (.float ⟨0x401C000000000000⟩)) = "7.0" := by decide +kernel
    rw [bits, Binary64.SurvivesText, text]
    with_unfolding_all rfl
  have every : ∀ inner, Node.Within inner (.mk ⟨.parens, some "a.less", some 7⟩
      (.ruleset [.plain (.selector [])] [.plain (.dimension (.infinity true) "px")])) →
      inner.kind?.isSome ∧ ∀ entry ∈ inner.properties, entry.2.NumbersSurvive := by
    refine Node.Within.every ⟨rfl, ?_⟩ fun child among => ?_
    · intro entry among
      rcases List.mem_cons.mp among with rfl | among
      · exact fun _ => one
      · rcases List.mem_cons.mp among with rfl | among
        · trivial
        · cases List.mem_singleton.mp among
          exact fun _ => seven
    · rcases List.mem_cons.mp among with rfl | among
      · refine Node.Within.every ⟨rfl, ?_⟩ fun child among => absurd among List.not_mem_nil
        exact fun entry among => absurd among List.not_mem_nil
      · cases List.mem_singleton.mp among
        refine Node.Within.every ⟨rfl, ?_⟩ fun child among => absurd among List.not_mem_nil
        intro entry among
        rcases List.mem_cons.mp among with rfl | among
        · exact fun finite => absurd finite (by decide)
        · cases List.mem_singleton.mp among
          trivial
  have same := flat_route (fun inner within => (every inner within).1)
    (fun inner within => (every inner within).2) rfl
  exact ⟨_, _, rfl, rfl, same, rfl, rfl⟩

end PluginBridge
