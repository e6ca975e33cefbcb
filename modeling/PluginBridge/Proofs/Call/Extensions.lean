import PluginBridge.Proofs.Call.Rebuilding
import PluginBridge.Proofs.Flat.Acceptance
import PluginBridge.Proofs.Flat.Preorder
namespace PluginBridge

-- What can be told of a node of a kind of the host's own: its kind is none of the built-in ones, its
-- properties are a map, and none of them has the name of something else that a node shows.
structure Hosted (name : String) (properties : Properties) : Prop where
  foreign : NodeKind.ofName? name = none
  sorted : Members.Ascending properties
  free : ∀ entry ∈ properties, entry.1 ∉ ["children", "filename", "index"]

namespace Hosted
variable {info : NodeInfo} {name : String} {properties : Properties}

theorem keys (hosted : Hosted name properties) : (properties.map Prod.fst ++ ["filename", "index"]).Nodup := by
  refine List.nodup_append.mpr ⟨hosted.sorted.keys_nodup, by decide, ?_⟩
  rintro key among other listed rfl
  obtain ⟨entry, inside, rfl⟩ := List.mem_map.mp among
  exact hosted.free entry inside (List.mem_cons_of_mem _ listed)

theorem apart (hosted : Hosted name properties) (info : NodeInfo) :
    ((properties ++ Node.infoProperties info).map Prod.fst).Nodup := by
  rw [List.map_append]
  exact hosted.keys.sublist ((Node.infoProperties_keys info).append_left _)

end Hosted

namespace ResultNode
open Members (mapValues)
variable {info : NodeInfo} {body : NodeBody} {kind : NodeKind} {registry : TypeRegistry} {convert : Node → ResultNode}
  {name key : String} {properties : Properties} {children : List Node} {fields : Members Json}
  {slots : List (String × ChildSlot)}

theorem slotVia_toJson_iff {first second : Node → ResultNode} (group : ChildGroup) :
    slotToJson (slotVia first group) = slotToJson (slotVia second group) ↔
      ∀ child ∈ group.nodes, (first child).toJson = (second child).toJson := by
  cases group with
  | one node => simp [slotVia, slotToJson, ChildGroup.nodes]
  | many nodes => simp [slotVia, slotToJson, ChildGroup.nodes, allToJson_eq_map]

theorem toJson_get? (sorted : fields.Ascending) (apart : (slots.map Prod.fst).Nodup) (other : key ≠ typeKey) :
    (ResultNode.mk name fields slots).toJson.get? key =
      ((Members.get? key slots).map slotToJson).or (Members.get? key fields) := by
  have tag : Members.get? key (Members.ofList [(typeKey, Json.string name)]) = none := if_neg other.symm
  have keys : ((mapValues slotToJson slots).map Prod.fst).Nodup := by rwa [Members.mapValues_keys]
  rw [toJson, Json.ofEntries, Json.get?, slotsToJson_eq_map, Members.get?_ofList_append, ← List.singleton_append,
    Members.get?_ofList_append, sorted.ofList, tag, Option.or_none, Members.get?_collected keys,
    Members.get?_mapValues]

theorem markParens_ascending (flags : NodeFlags) (sorted : fields.Ascending) : (markParens flags fields).Ascending := by
  rw [markParens]
  split
  · exact sorted.insert _ _
  · exact sorted

theorem toJson_children (sorted : fields.Ascending) (slot : ChildSlot) (other : key ≠ typeKey) :
    (ResultNode.mk name fields [("children", slot)]).toJson.get? key =
      if "children" = key then some (slotToJson slot) else Members.get? key fields := by
  have single : ([("children", slot)].map Prod.fst).Nodup := List.nodup_singleton _
  rw [toJson_get? sorted single other, Members.get?]
  split <;> rfl

theorem fields_none_iff (hosted : Hosted name properties) (info : NodeInfo) (other : key ∉ ["filename", "index"]) :
    Members.get? key (fieldsOfProperties (properties ++ Node.infoProperties info)) = none ↔
      ∀ entry ∈ properties, entry.1 ≠ key := by
  rw [fields_get? (hosted.apart info), Option.map_eq_none_iff, Members.get?_none_iff, List.forall_mem_append]
  refine and_iff_left fun entry among same => other ?_
  exact (Node.infoProperties_keys info).subset (same ▸ List.mem_map_of_mem among)

theorem ofFlat_anywhere (registry : TypeRegistry) (node : Node) (place : Nat) (parent : Option UInt32) :
    ofFlat (node.outline.rebuilt registry place parent) = ofFlat (node.outline.rebuilt registry 0 none) := by
  induction node using Node.byChildren generalizing place parent with
  | step node ih =>
    have below := fun place => @ofFlats_rebuilt registry node.children _ ih (place + 1) (UInt32.ofNat place)
    rw [Outline.rebuilt_parts, Outline.rebuilt_parts, ofFlat, ofFlat, Node.outline_children, below, below]
    rfl

theorem childFields_apart (body : NodeBody) : (body.childFields.map Prod.fst).Nodup := by
  cases body <;> exact of_decide_eq_true rfl

theorem builtin_agrees (known : body.kind? = some kind) (small : (Node.mk info body).outline.size ≤ 0x100000000) :
    (ofFlat ((Node.mk info body).outline.rebuilt registry 0 none)).toJson = (ofNode (.mk info body)).toJson ↔
      ∀ child ∈ body.children, (ofFlat (child.outline.rebuilt registry 0 none)).toJson = (ofNode child).toJson := by
  have flat := @ofFlat_builtin info body kind registry _ 0 none known small
    fun child _ => ofFlat_anywhere registry child
  obtain ⟨fields, shown⟩ : ∃ fields, (ofNode (.mk info body)).fields = fields := ⟨_, rfl⟩
  have direct : ofNode (.mk info body) = .mk body.typeName fields (mapValues (slotVia ofNode) body.childFields) := by
    rw [← shown, ← slotsOfBody_via]
    rfl
  have composed : ∀ slot : ChildGroup → ChildSlot,
      mapValues slotToJson (mapValues slot body.childFields) = mapValues (slotToJson ∘ slot) body.childFields :=
    fun slot => List.map_map
  rw [flat, shown, direct, toJson, toJson,
    slotsToJson_eq_map, slotsToJson_eq_map, composed, composed, Json.ofEntries, Json.ofEntries, Json.object.injEq,
    Members.ofList_end_iff (childFields_apart body)]
  constructor
  · intro same child among
    obtain ⟨field, inside, held⟩ := List.mem_flatMap.mp among
    exact (slotVia_toJson_iff field.2).mp (same field inside) child held
  · intro same field inside
    exact (slotVia_toJson_iff field.2).mpr fun child held => same child (List.mem_flatMap.mpr ⟨field, inside, held⟩)

theorem ofFlat_extension (foreign : NodeKind.ofName? name = none) :
    ofFlat ((Node.mk info (.extension name properties children)).outline.rebuilt registry 0 none) =
      .mk name (markParens info.flags (fieldsOfProperties (properties ++ Node.infoProperties info)))
        (if children = [] then [] else
          [("children", slotVia (fun child => ofFlat (child.outline.rebuilt registry 0 none)) (.many children))]) := by
  have below := @ofFlats_rebuilt registry children _ (fun child _ => ofFlat_anywhere registry child) (0 + 1)
    (UInt32.ofNat 0)
  have nodes : (Node.mk info (.extension name properties children)).outline.children = children.map Node.outline := by
    rw [Node.outline_children]
    exact congrArg (List.map Node.outline) (List.append_nil children)
  have other : NodeKind.ofName? (Node.mk info (.extension name properties children)).outline.typeName = none := foreign
  have shown := fieldsOfProperties_restored (properties ++ Node.infoProperties info)
  have marked : ∀ fields, markParens (Node.recordFlags info) fields = markParens info.flags fields := by
    intro fields
    rw [markParens, Node.recordFlags_parens, markParens]
  rw [Outline.rebuilt_parts, nodes, ofFlat]
  simp only [Outline.slot, other, slotsByKind, below]
  refine congrArg₂ (ResultNode.mk name) ?_ ?_
  · exact (if_neg (Option.some_ne_none _).symm).trans ((marked _).trans (congrArg _ shown))
  · cases children <;> rfl

theorem extension_agrees (hosted : Hosted name properties) :
    (ofFlat ((Node.mk info (.extension name properties children)).outline.rebuilt registry 0 none)).toJson =
        (ofNode (.mk info (.extension name properties children))).toJson ↔
      (children ≠ [] ∧ ∀ entry ∈ properties, entry.1 ≠ selectorCountKey) ∧
        ∀ child ∈ children, (ofFlat (child.outline.rebuilt registry 0 none)).toJson = (ofNode child).toJson := by
  have absent := fun key => @fields_none_iff name key properties hosted info
  have direct : ofNode (.mk info (.extension name properties children)) =
      .mk name (markParens info.flags (Members.erase selectorCountKey
          (fieldsOfProperties (properties ++ Node.infoProperties info))))
        [("children", slotVia ofNode (.many children))] := by
    rw [slotVia, ← ofNodes_eq_map]
    rfl
  rw [ofFlat_extension hosted.foreign, direct]
  obtain ⟨all, shown⟩ : ∃ all, fieldsOfProperties (properties ++ Node.infoProperties info) = all := ⟨_, rfl⟩
  rw [shown] at absent ⊢
  have sorted : all.Ascending := shown ▸ Members.ofList_ascending _
  have tabled := markParens_ascending info.flags sorted
  have bare := markParens_ascending info.flags (sorted.sublist (Members.erase_sublist selectorCountKey _))
  have children_typeKey : "children" ≠ typeKey := by decide
  have count_typeKey : selectorCountKey ≠ typeKey := by decide
  constructor
  · intro same
    have shows := fun key => congrArg (Json.get? key) same
    -- Without children the tables leave out the list that the direct way writes.
    have some : children ≠ [] := by
      intro none
      have unlisted := (absent "children" (by decide)).mpr fun entry among same =>
        hosted.free entry among (same ▸ List.mem_cons_self)
      have nothing : (([] : List (String × ChildSlot)).map Prod.fst).Nodup := List.nodup_nil
      have listed := shows "children"
      rw [if_pos none, toJson_get? tabled nothing children_typeKey, toJson_children bare _ children_typeKey, if_pos rfl,
        markParens_get? _ _ (by decide), unlisted] at listed
      cases listed
    rw [if_neg some] at shows
    have listed := shows "children"
    have counted := shows selectorCountKey
    have uncounted : Members.get? selectorCountKey (Members.erase selectorCountKey all) = none :=
      Members.get?_none_iff.mpr fun entry among => (Members.erase_mem sorted among).2
    rw [toJson_children tabled _ children_typeKey, toJson_children bare _ children_typeKey, if_pos rfl, if_pos rfl] at listed
    rw [toJson_children tabled _ count_typeKey, toJson_children bare _ count_typeKey, if_neg (by decide),
      if_neg (by decide), markParens_get? _ _ (by decide), markParens_get? _ _ (by decide), uncounted] at counted
    exact ⟨⟨some, (absent _ (by decide)).mp counted⟩, (slotVia_toJson_iff (.many children)).mp (Option.some.inj listed)⟩
  · rintro ⟨⟨some, free⟩, each⟩
    have uncounted := Members.erase_absent (Members.get?_none_iff.mp ((absent _ (by decide)).mpr free))
    rw [if_neg some, uncounted, toJson, toJson, slotsToJson, slotsToJson, slotsToJson, slotsToJson,
      (slotVia_toJson_iff (.many children)).mpr each]

end ResultNode

namespace Node
open ResultNode (ofNode ofFlat selectorCountKey)
variable {registry : TypeRegistry} {node : Node} {tree : FlatTree}

def EveryExtension (holds : String → Properties → List Node → Prop) (node : Node) : Prop :=
  ∀ inner, Within inner node → ∀ name properties children,
    inner.body = .extension name properties children → holds name properties children

theorem everyExtension_iff {holds : String → Properties → List Node → Prop} : node.EveryExtension holds ↔
    (∀ name properties children, node.body = .extension name properties children → holds name properties children) ∧
      ∀ child ∈ node.children, child.EveryExtension holds :=
  ⟨fun every => ⟨every node (.here node), fun _ among inner within => every inner (.deeper within among)⟩,
    fun ⟨here, below⟩ => Within.every here below⟩

theorem properties_nodup (hosted : node.EveryExtension fun name properties _ => Hosted name properties) :
    ∀ inner, Within inner node → (inner.properties.map Prod.fst).Nodup := by
  intro inner within
  cases known : inner.kind? with
  | some kind => exact properties_apart known
  | none =>
    have here := hosted inner within
    obtain ⟨info, body⟩ := inner
    cases body with
    | extension name properties children => exact (here name properties children rfl).apart info
    | _ => cases known

theorem rebuilt_agrees (hosted : node.EveryExtension fun name properties _ => Hosted name properties)
    (small : node.outline.size ≤ 0x100000000) :
    (ofFlat (node.outline.rebuilt registry 0 none)).toJson = (ofNode node).toJson ↔
      node.EveryExtension fun _ properties children =>
        children ≠ [] ∧ ∀ entry ∈ properties, entry.1 ≠ selectorCountKey := by
  induction node using byChildren with
  | step node ih =>
    obtain ⟨foreign, others⟩ := everyExtension_iff.mp hosted
    have below := forall₂_congr fun child among => ih child among (others child among)
      (Nat.le_trans (Nat.le_of_lt (child_size among)) small)
    rw [everyExtension_iff, ← below]
    obtain ⟨info, body⟩ := node
    cases known : body.kind? with
    | some kind =>
      have builtin : ∀ name properties children, body ≠ .extension name properties children := by
        rintro name properties children rfl
        cases known
      rw [ResultNode.builtin_agrees known small]
      exact (and_iff_right fun _ _ _ same => absurd same (builtin _ _ _)).symm
    | none =>
      cases body with
      | extension name properties children =>
        have single : (∀ name' properties' children', NodeBody.extension name properties children =
            .extension name' properties' children' → children' ≠ [] ∧ ∀ entry ∈ properties', entry.1 ≠ selectorCountKey) ↔
              children ≠ [] ∧ ∀ entry ∈ properties, entry.1 ≠ selectorCountKey :=
          ⟨fun each => each _ _ _ rfl, fun here _ _ _ same => by cases same; exact here⟩
        have children_eq : (Node.mk info (.extension name properties children)).children = children := List.append_nil _
        rw [ResultNode.extension_agrees (foreign name properties children rfl), children_eq]
        exact and_congr_left' single.symm
      | _ => cases known

end Node

-- A tree with kinds of the host's own comes back over the tables as on the direct way exactly if each node of such a
-- kind has a child and no field with the name of the count of selectors, and the tree does not take every position.
theorem extension_route {registry : TypeRegistry} {node : Node} {tree : FlatTree}
    (reached : TypeRegistry.Reached registry) (flattened : node.flattenWith registry = .ok tree)
    (hosted : node.EveryExtension fun name properties _ => Hosted name properties)
    (shallow : ∀ inner, Node.Within inner node → ∀ entry ∈ inner.properties, entry.2.levels < Json.maxLevels)
    (survive : ∀ inner, Node.Within inner node → ∀ entry ∈ inner.properties, entry.2.NumbersSurvive) :
    (tree.unflattenWith registry).map (fun flat => (ResultNode.ofFlat flat).toJson) =
        .ok (ResultNode.ofNode node).toJson ↔
      tree.nodes.size < 0x100000000 ∧ node.EveryExtension fun _ properties children =>
        children ≠ [] ∧ ∀ entry ∈ properties, entry.1 ≠ ResultNode.selectorCountKey := by
  have few := flattenWith_nodes flattened
  have small : node.outline.size ≤ 0x100000000 := by
    rwa [← flattenWith_size flattened]
  rw [Node.unflattenWith_flattened reached.bounded (Node.outline_apart (Node.properties_nodup hosted)) shallow survive
    flattened, ← Node.rebuilt_agrees hosted small]
  split
  · rename_i full
    refine iff_of_false nofun fun agrees => ?_
    omega
  · rename_i room
    have less : tree.nodes.size < 0x100000000 := Nat.lt_of_le_of_ne few room
    rw [Except.map, Except.ok.injEq, and_iff_right less]

-- A grid with one item inside of an expression, in a registry that knows grids.
theorem extension_route_grid :
    let registry := (TypeRegistry.builtin.register "Grid").2
    let node := Node.plain (.expression [.mk ⟨.parens, some "a.less", none⟩
      (.extension "Grid" [("gap", .string "1fr"), ("open", .bool true)] [.plain (.keyword "a")])])
    ∃ tree, node.flattenWith registry = .ok tree ∧
      (tree.unflattenWith registry).map (fun flat => (ResultNode.ofFlat flat).toJson) =
        .ok (ResultNode.ofNode node).toJson := by
  intro registry node
  have known := TypeRegistry.register_idOf (TypeRegistry.register_builtin "Grid" (by decide))
  obtain ⟨tree, flattened⟩ : ∃ tree, node.flattenWith registry = .ok tree := by
    refine Outline.flattenWith_named ⟨by decide, by decide +kernel, by decide +kernel⟩ ?_
    refine List.forall_mem_cons.mpr ⟨⟨by decide, Option.some_ne_none _⟩, List.forall_mem_cons.mpr ⟨⟨by decide, ?_⟩,
      List.forall_mem_singleton.mpr ⟨by decide, Option.some_ne_none _⟩⟩⟩
    exact fun none => Option.some_ne_none _ (known.symm.trans none)
  have every : ∀ inner, Node.Within inner node →
      (∀ entry ∈ inner.properties, entry.2.levels < Json.maxLevels ∧ entry.2.NumbersSurvive) ∧
      ∀ name properties children, inner.body = .extension name properties children →
        Hosted name properties ∧ children ≠ [] ∧ ∀ entry ∈ properties, entry.1 ≠ ResultNode.selectorCountKey := by
    refine Node.Within.every ⟨List.forall_mem_nil _, fun _ _ _ same => by cases same⟩ fun child among => ?_
    cases List.mem_singleton.mp among
    refine Node.Within.every ⟨?_, ?_⟩ fun child among => ?_
    · simp [Node.properties, Node.body, Node.info, NodeBody.properties, Node.infoProperties, Property.levels,
        Property.NumbersSurvive, Json.maxLevels]
    · rintro name properties children ⟨⟩
      exact ⟨⟨rfl, List.pairwise_pair.mpr (by decide), by decide⟩, List.cons_ne_nil _ _, by decide⟩
    · cases List.mem_singleton.mp among
      refine Node.Within.every ⟨?_, fun _ _ _ same => by cases same⟩ fun child among => absurd among List.not_mem_nil
      exact List.forall_mem_singleton.mpr ⟨by decide, trivial⟩
  have extensions := fun inner within name properties children => (every inner within).2 name properties children
  refine ⟨tree, flattened, (extension_route (.registered .builtin "Grid") flattened
    (fun inner within name properties children same => (extensions inner within name properties children same).1)
    (fun inner within entry among => ((every inner within).1 entry among).1)
    (fun inner within entry among => ((every inner within).1 entry among).2)).mpr ⟨?_, ?_⟩⟩
  · rw [flattenWith_size flattened]
    decide
  · exact fun inner within name properties children same => (extensions inner within name properties children same).2

-- A grid without items, one of whose fields has the name of the count of selectors: over the tables the list is
-- missing and the field is there, on the direct way it is the other way round.
theorem extension_route_differs : ∃ tree,
    (Node.plain (.extension "Grid" [("selectorCount", .string "2")] [])).flattenWith
        (TypeRegistry.builtin.register "Grid").2 = .ok tree ∧
      (tree.unflattenWith (TypeRegistry.builtin.register "Grid").2).map (fun flat => (ResultNode.ofFlat flat).toJson) =
        .ok (.object [("_type", .string "Grid"), ("selectorCount", .string "2")]) ∧
      (ResultNode.ofNode (.plain (.extension "Grid" [("selectorCount", .string "2")] []))).toJson =
        .object [("_type", .string "Grid"), ("children", .array [])] := by
  have known := TypeRegistry.register_idOf (TypeRegistry.register_builtin "Grid" (by decide))
  have reached : TypeRegistry.Reached (TypeRegistry.builtin.register "Grid").2 := .registered .builtin "Grid"
  obtain ⟨tree, flattened⟩ := flattenWith_leaf
    (Node.outline (.plain (.extension "Grid" [("selectorCount", .string "2")] []))) known rfl (by decide +kernel)
  have every : ∀ inner, Node.Within inner (.plain (.extension "Grid" [("selectorCount", .string "2")] [])) →
      (inner.properties.map Prod.fst).Nodup ∧
        ∀ entry ∈ inner.properties, entry.2.levels < Json.maxLevels ∧ entry.2.NumbersSurvive := by
    refine Node.Within.every ⟨List.nodup_singleton _, ?_⟩ fun child among => absurd among List.not_mem_nil
    exact List.forall_mem_singleton.mpr ⟨by decide, trivial⟩
  have back := Node.unflattenWith_flattened reached.bounded (Node.outline_apart fun inner within => (every inner within).1)
    (fun inner within entry among => ((every inner within).2 entry among).1)
    (fun inner within entry among => ((every inner within).2 entry among).2) flattened
  have size : tree.nodes.size ≠ 0x100000000 := by
    rw [flattenWith_size flattened]
    decide
  refine ⟨tree, flattened, ?_, rfl⟩
  rw [back, if_neg size]
  rfl

end PluginBridge
