import PluginBridge.Proofs.Call.Rebuilding
import PluginBridge.Proofs.Json.WholeNumbers
namespace PluginBridge

namespace Property

mutual

theorem toJson_readable : ∀ {property : Property}, property.NumbersSurvive → property.toJson.Readable
  | .null, _ => trivial
  | .bool _, _ => trivial
  | .number x, survives => by
    rw [toJson, Json.ofFloat]
    split
    · rename_i finite
      exact ⟨finite, survives finite⟩
    · trivial
  | .string _, _ => trivial
  | .list _, survives => allToJson_readable survives

theorem allToJson_readable : ∀ {items : List Property}, AllNumbersSurvive items →
    Json.ItemsReadable (allToJson items)
  | [], _ => trivial
  | _ :: _, ⟨first, others⟩ => ⟨toJson_readable first, allToJson_readable others⟩

end

mutual

theorem toJson_legible : ∀ property : Property, property.toJson.Legible
  | .null => trivial
  | .bool _ => trivial
  | .number x => by
    rw [toJson, Json.ofFloat]
    split
    · rename_i finite
      exact finite
    · trivial
  | .string _ => trivial
  | .list items => allToJson_legible items

theorem allToJson_legible : ∀ items : List Property, Json.ItemsLegible (allToJson items)
  | [] => trivial
  | first :: others => ⟨toJson_legible first, allToJson_legible others⟩

end

mutual

theorem toJson_levels : ∀ property : Property, property.toJson.levels ≤ property.levels
  | .null => Nat.le_refl _
  | .bool _ => Nat.le_refl _
  | .number x => by
    rw [toJson, Json.ofFloat]
    split <;> exact Nat.le_refl _
  | .string _ => Nat.zero_le _
  | .list items => Nat.succ_le_succ (allToJson_levels items)

theorem allToJson_levels : ∀ items : List Property, Json.itemsLevels (allToJson items) ≤ allLevels items
  | [] => Nat.le_refl _
  | first :: others => max_le_max (toJson_levels first) (allToJson_levels others)

end

end Property

namespace Node
variable {node : Node} {info : NodeInfo} {body : NodeBody} {kind : NodeKind}

theorem content_survives (builtin : body.kind? = some kind)
    (survive : ∀ x ∈ body.numbers, x.SurvivesText) :
    ∀ entry ∈ body.properties, entry.1 ≠ ResultNode.selectorCountKey → entry.2.NumbersSurvive := by
  cases body with
  | extension => cases builtin
  | ruleset selectors rules => simp [NodeBody.properties, ResultNode.selectorCountKey]
  | dimension size unit =>
    have number : size.SurvivesText := survive size List.mem_cons_self
    simp [NodeBody.properties, Property.NumbersSurvive, number]
  | color rgb alpha spelling =>
    have components : ∀ x ∈ rgb.toList ++ [alpha], x.SurvivesText := survive
    obtain ⟨red, green, blue⟩ := rgb
    simp only [Rgb.toList, List.forall_mem_append, List.forall_mem_cons] at components
    cases spelling <;>
      simp [NodeBody.properties, Rgb.toList, Property.NumbersSurvive, Property.AllNumbersSurvive, components]
  | _ => simp [NodeBody.properties, Property.NumbersSurvive]

-- Beside the numbers of its content a node shows an index and a count, which are whole.
theorem fields_survive (builtin : body.kind? = some kind) (survive : ∀ x ∈ body.numbers, x.SurvivesText) :
    ∀ entry ∈ body.properties ++ infoProperties info, entry.1 ≠ ResultNode.selectorCountKey →
      entry.2.NumbersSurvive := by
  have placed : ∀ entry ∈ infoProperties info, entry.2.NumbersSurvive := by
    obtain ⟨flags, file, index⟩ := info
    intro entry among
    simp only [infoProperties, List.mem_append, List.mem_map, Option.mem_toList] at among
    rcases among with ⟨name, _, rfl⟩ | ⟨place, _, rfl⟩
    · trivial
    · have bound := place.toNat_lt
      exact fun _ => Binary64.ofNat_survives (by omega)
  exact List.forall_mem_append.mpr ⟨content_survives builtin survive, fun entry among _ => placed entry among⟩

theorem selectorCount_ruleset (builtin : body.kind? = some kind) :
    ∀ entry ∈ body.properties ++ infoProperties info, entry.1 = ResultNode.selectorCountKey →
      ∃ selectors rules, body = .ruleset selectors rules ∧
        entry.2 = .number (.ofNat selectors.length) := by
  have placed : ∀ entry ∈ infoProperties info, entry.1 ≠ ResultNode.selectorCountKey := by
    intro entry among same
    have name := (infoProperties_keys info).subset (List.mem_map_of_mem among)
    rw [same] at name
    exact absurd name (by decide)
  refine List.forall_mem_append.mpr ⟨?_, fun entry among same => absurd same (placed entry among)⟩
  cases body with
  | extension => cases builtin
  | ruleset selectors rules => simp [NodeBody.properties]
  | color rgb alpha spelling => cases spelling <;> simp [NodeBody.properties, ResultNode.selectorCountKey]
  | _ => simp [NodeBody.properties, ResultNode.selectorCountKey]

theorem properties_survive (builtin : node.Builtin) (survive : node.EveryNumber Binary64.SurvivesText)
    (small : node.outline.size ≤ 0x100000000) :
    ∀ inner, Within inner node → ∀ entry ∈ inner.properties, entry.2.NumbersSurvive := by
  induction node using byChildren with
  | step node ih =>
    obtain ⟨kind, known⟩ := builtin.kind
    refine Within.every ?_ fun child among => ih child among (builtin.below among) (survive.below among)
      (Nat.le_trans (Nat.le_of_lt (child_size among)) small)
    have here := survive node (.here node)
    intro entry among
    by_cases count : entry.1 = ResultNode.selectorCountKey
    · have counted := fun selectors rules => @ResultNode.selectors_counted _ _ known small selectors rules
      obtain ⟨info, body⟩ := node
      obtain ⟨selectors, rules, ruleset, number⟩ := selectorCount_ruleset known entry among count
      have few := (counted selectors rules ruleset).1
      rw [number]
      exact fun _ => Binary64.ofNat_survives (by omega)
    · obtain ⟨info, body⟩ := node
      exact fields_survive known here entry among count

end Node

namespace ResultNode
variable {name : String} {fields : Members Json} {slots : List (String × ChildSlot)}
  {body : NodeBody} {node : Node}

theorem allToJson_ofNodes (nodes : List Node) :
    allToJson (ofNodes nodes) = nodes.map fun child => (ofNode child).toJson := by
  rw [allToJson_eq_map, ofNodes_eq_map, List.map_map]
  rfl

section keeping
variable {kept : Json → Prop}

theorem slots_keep (list : ∀ items, (∀ item ∈ items, kept item) → kept (.array items))
    (each : ∀ child ∈ body.children, kept (ofNode child).toJson) :
    ∀ slot ∈ slotsOfBody body, kept (slotToJson slot.2) := by
  rw [slotsOfBody_groups]
  intro slot among
  obtain ⟨⟨key, group⟩, inside, rfl⟩ := List.mem_map.mp among
  have held : ∀ child ∈ group.nodes, child ∈ body.children := fun child present =>
    List.mem_flatMap.mpr ⟨_, inside, present⟩
  cases group with
  | one child => exact each child (held child List.mem_cons_self)
  | many nodes =>
    refine list _ fun item among => ?_
    rw [allToJson_ofNodes] at among
    obtain ⟨child, present, rfl⟩ := List.mem_map.mp among
    exact each child (held child present)

theorem ofNode_keeps (text : ∀ s, kept (.string s)) (flag : kept (.bool true))
    (list : ∀ items, (∀ item ∈ items, kept item) → kept (.array items))
    (record : ∀ entries, (∀ entry ∈ entries, kept entry.2) → kept (.ofEntries entries))
    (fields : ∀ info body, Node.Within (.mk info body) node → ∀ field ∈ body.properties ++ Node.infoProperties info,
      field.1 ≠ selectorCountKey → kept field.2.toJson) : kept (ofNode node).toJson := by
  induction node using Node.byChildren with
  | step node ih =>
    have below := fun child among => ih child among fun info body within => fields info body (.deeper within among)
    obtain ⟨info, body⟩ := node
    refine record _ fun entry among => ?_
    rcases List.mem_append.mp among with own | child
    · rcases List.mem_cons.mp own with rfl | own
      · exact text _
      · rcases ofNode_field own with rfl | ⟨field, inside, other, rfl⟩
        · exact flag
        · exact fields info body (.here _) field inside other
    · rw [slotsToJson_eq_map] at child
      obtain ⟨slot, inside, rfl⟩ := List.mem_map.mp child
      exact slots_keep list below slot inside

end keeping

theorem ofNode_readable (builtin : node.Builtin) (survive : node.EveryNumber Binary64.SurvivesText) :
    (ofNode node).toJson.Readable := by
  refine ofNode_keeps (fun _ => trivial) trivial (fun _ => Json.itemsReadable)
    (fun entries each => ⟨Members.ofList_ascending _,
      Json.membersReadable fun entry among => each entry (Members.ofList_mem among)⟩) ?_
  intro info body within field inside other
  obtain ⟨kind, known⟩ := Option.isSome_iff_exists.mp (builtin _ within)
  exact Property.toJson_readable (Node.fields_survive known (survive _ within) field inside other)

theorem ofNode_legible (node : Node) : (ofNode node).toJson.Legible :=
  ofNode_keeps (fun _ => trivial) trivial (fun _ => Json.itemsLegible)
    (fun _ each => ⟨Members.ofList_ascending _,
      Json.membersLegible fun entry among => each entry (Members.ofList_mem among)⟩)
    fun _ _ _ _ _ _ => Property.toJson_legible _

theorem own_names (builtin : body.kind? = some kind) : ∀ field ∈ body.properties,
    field.1 ≠ selectorCountKey → field.1 ∉ ["parens", selectorCountKey, "filename", "index"] := by
  cases body with
  | extension => cases builtin
  | color rgb alpha spelling => cases spelling <;> simp [NodeBody.properties, selectorCountKey]
  | _ => simp [NodeBody.properties, selectorCountKey]

theorem slotToJson_levels {group : ChildGroup}
    (each : ∀ child ∈ group.nodes, (ofNode child.bare).toJson.levels ≤ (ofNode child).toJson.levels) :
    (slotToJson (slotOfGroup group.bare)).levels ≤ (slotToJson (slotOfGroup group)).levels := by
  cases group with
  | one child => exact each child List.mem_cons_self
  | many nodes =>
    refine Nat.succ_le_succ ?_
    induction nodes with
    | nil => exact Nat.le_refl _
    | cons node rest ih =>
      exact max_le_max (each node List.mem_cons_self) (ih fun child among => each child (List.mem_cons_of_mem _ among))

theorem ofNode_bare_levels (builtin : node.Builtin) :
    (ofNode node.bare).toJson.levels ≤ (ofNode node).toJson.levels := by
  induction node using Node.byChildren with
  | step node ih =>
    obtain ⟨kind, known⟩ := builtin.kind
    have apart := (ofNode_regular builtin)
    have below := fun child among => ih child among (builtin.below among)
    obtain ⟨info, body⟩ := node
    have known : body.kind? = some kind := known
    have listed := Members.ofList_perm apart.1.entries_apart
    have shown := fun entry among => Json.levels_member (listed.mem_iff.mpr among : entry ∈ _)
    refine Nat.succ_le_succ (Json.membersLevels_le.mpr fun entry among => ?_)
    rcases List.mem_append.mp (Members.ofList_mem among) with own | child
    · rcases List.mem_cons.mp own with rfl | own
      · exact Nat.zero_le _
      · rcases ofNode_field own with rfl | ⟨field, inside, other, rfl⟩
        · exact Nat.zero_le _
        · rw [NodeBody.bare_properties, show Node.infoProperties info.bare = [] from rfl,
            List.append_nil] at inside
          have present := ofNode_shows info known (own_names known field inside other)
          rw [Members.get?_of_mem (List.nodup_append.mp (NodeBody.properties_keys known)).1 inside,
            Option.map_some] at present
          exact shown _ (List.mem_append_left _ (List.mem_cons_of_mem _ (Members.get?_mem present)))
    · rw [slotsToJson_eq_map, slotsOfBody_groups, NodeBody.bare_childFields] at child
      simp only [Members.mapValues, List.map_map] at child
      obtain ⟨⟨key, group⟩, inside, rfl⟩ := List.mem_map.mp child
      have lower := @slotToJson_levels group fun child held =>
        below child (List.mem_flatMap.mpr ⟨_, inside, held⟩)
      refine Nat.le_trans lower (shown (key, slotToJson (slotOfGroup group)) (List.mem_append_right _ ?_))
      rw [slotsToJson_eq_map, slotsOfBody_groups]
      exact List.mem_map_of_mem (List.mem_map_of_mem inside)

mutual

theorem inOrder_toJson : ∀ {node : ResultNode}, node.Regular → node.inOrder.toJson = node.toJson
  | .mk name fields slots, ⟨distinct, regular⟩ => by
    have written : Members.mapValues slotToJson (slotsInOrder slots) = slotsToJson slots := by
      rw [slotsInOrder_eq_map, slotsToJson_eq_map, Members.mapValues, Members.mapValues, Members.mapValues,
        List.map_map]
      exact List.map_congr_left fun entry among =>
        congrArg (entry.1, ·) (slotInOrder_toJson regular entry among)
    have apart : ((slotsInOrder slots).map Prod.fst).Nodup := by
      rw [slotsInOrder_eq_map, Members.mapValues_keys]
      exact (List.nodup_append.mp (List.nodup_cons.mp distinct.apart).2).2.1
    have perm : (slotsToJson slots).Perm (slotsToJson (Members.ofList (slotsInOrder slots))) := by
      rw [← written, slotsToJson_eq_map]
      exact ((Members.ofList_perm apart).map _).symm
    rw [inOrder, toJson, toJson, Json.ofEntries, Json.ofEntries]
    exact congrArg Json.object (Members.ofList_eq_of_perm distinct.entries_apart
      (perm.append_left _)).symm

theorem slotInOrder_toJson : ∀ {slots : List (String × ChildSlot)}, SlotsRegular slots →
    ∀ entry ∈ slots, slotToJson (slotInOrder entry.2) = slotToJson entry.2
  | (_, slot) :: rest, ⟨regular, others⟩, entry, among => by
    rcases List.mem_cons.mp among with rfl | among
    · cases slot with
      | one node => exact inOrder_toJson regular
      | many nodes => exact congrArg Json.array (allInOrder_toJson regular)
    · exact slotInOrder_toJson others entry among

theorem allInOrder_toJson : ∀ {nodes : List ResultNode}, AllRegular nodes →
    allToJson (allInOrder nodes) = allToJson nodes
  | [], _ => rfl
  | _ :: _, ⟨regular, others⟩ => congrArg₂ List.cons (inOrder_toJson regular) (allInOrder_toJson others)

end

end ResultNode
end PluginBridge
