import Mathlib.Tactic.Common
import PluginBridge.Proofs.Flat.Blob
import PluginBridge.Proofs.Flat.Capacity
import PluginBridge.Proofs.Flat.RoundTrip
import PluginBridge.Tree.Node
namespace PluginBridge

namespace NodeFlags
variable {flags mask other wanted : NodeFlags}

theorem inter_contains (within : mask.inter wanted = wanted) :
    (flags.inter mask).contains wanted = flags.contains wanted := by
  have same : (flags.inter mask).inter wanted = flags.inter wanted := by
    rw [inter, inter, UInt16.and_assoc]
    exact congrArg (inter flags) within
  rw [contains, contains, same]

theorem union_contains (apart : other.inter wanted = none) :
    (flags.union other).contains wanted = flags.contains wanted := by
  have same : (flags.union other).inter wanted = flags.inter wanted := by
    have nothing : other.bits &&& wanted.bits = 0 := congrArg NodeFlags.bits apart
    have spread : (flags.bits ||| other.bits) &&& wanted.bits =
        flags.bits &&& wanted.bits ||| other.bits &&& wanted.bits :=
      UInt16.toBitVec_inj.mp BitVec.and_or_distrib_right
    rw [union, inter, inter, spread, nothing, UInt16.or_zero]
  rw [contains, contains, same]

end NodeFlags

namespace Node

-- What a record shows beside the node's own flags says nothing of its parentheses.
theorem recordFlags_parens (info : NodeInfo) :
    (recordFlags info).contains .parens = info.flags.contains .parens := by
  have own : (info.flags.inter .own).contains .parens = info.flags.contains .parens :=
    NodeFlags.inter_contains (by decide)
  unfold recordFlags
  simp only
  split <;> split
  · rw [NodeFlags.union_contains (by decide), NodeFlags.union_contains (by decide), own]
  · rw [NodeFlags.union_contains (by decide), own]
  · rw [NodeFlags.union_contains (by decide), own]
  · exact own

theorem infoProperties_keys (info : NodeInfo) :
    ((infoProperties info).map Prod.fst).Sublist ["filename", "index"] := by
  obtain ⟨flags, file, index⟩ := info
  cases file <;> cases index <;> exact of_decide_eq_true rfl

theorem infoProperties_levels (info : NodeInfo) :
    ∀ entry ∈ infoProperties info, entry.2.levels ≤ 1 := by
  obtain ⟨flags, file, index⟩ := info
  cases file <;> cases index <;> simp [infoProperties, Property.levels]

end Node

namespace NodeBody
variable {body : NodeBody} {kind : NodeKind}

theorem ofName_typeName (builtin : body.kind? = some kind) :
    NodeKind.ofName? body.typeName = some kind := by
  have found : ∀ kind : NodeKind, NodeKind.ofName? kind.name = some kind := by
    intro kind
    cases kind <;> rfl
  have named : body.typeName = kind.name := by
    cases body <;> cases builtin <;> rfl
  rw [named, found]

theorem properties_keys (builtin : body.kind? = some kind) :
    (body.properties.map Prod.fst ++ ["filename", "index"]).Nodup := by
  cases body with
  | extension => cases builtin
  | color rgb alpha spelling => cases spelling <;> exact of_decide_eq_true rfl
  | _ => exact of_decide_eq_true rfl

theorem properties_levels (builtin : body.kind? = some kind) :
    ∀ entry ∈ body.properties, entry.2.levels ≤ 1 := by
  cases body with
  | extension => cases builtin
  | color rgb alpha spelling =>
    cases spelling <;> simp [properties, Rgb.toList, Property.levels, Property.allLevels]
  | _ => simp [properties, Property.levels]

end NodeBody

namespace Node
variable {node : Node} {kind : NodeKind}

theorem properties_apart (builtin : node.kind? = some kind) : (node.properties.map Prod.fst).Nodup := by
  rw [properties, List.map_append]
  exact (NodeBody.properties_keys builtin).sublist ((infoProperties_keys node.info).append_left _)

theorem properties_shallow (builtin : node.kind? = some kind) :
    ∀ entry ∈ node.properties, entry.2.levels ≤ 1 := by
  intro entry among
  rcases List.mem_append.mp among with own | shown
  · exact NodeBody.properties_levels builtin entry own
  · exact infoProperties_levels node.info entry shown

end Node

theorem Outline.FieldsApart.all {nodes : List Outline} (each : ∀ node ∈ nodes, FieldsApart node) :
    AllFieldsApart nodes := by
  induction nodes with
  | nil => trivial
  | cons node rest ih =>
    exact ⟨each node List.mem_cons_self, ih fun other among => each other (List.mem_cons_of_mem _ among)⟩

namespace Node
variable {node : Node} {tree : FlatTree}

def Builtin (node : Node) : Prop := ∀ inner, Within inner node → inner.kind?.isSome

theorem Builtin.kind (builtin : Builtin node) : ∃ kind, node.kind? = some kind :=
  Option.isSome_iff_exists.mp (builtin node (.here node))

theorem Builtin.below {inner : Node} (builtin : Builtin node) (among : inner ∈ node.children) :
    Builtin inner :=
  fun deeper within => builtin deeper (.deeper within among)

theorem Builtin.shallow (builtin : Builtin node) :
    ∀ inner, Within inner node → ∀ entry ∈ inner.properties, entry.2.levels < Json.maxLevels := by
  intro inner within entry among
  obtain ⟨kind, known⟩ := Option.isSome_iff_exists.mp (builtin inner within)
  exact Nat.lt_of_le_of_lt (properties_shallow known entry among) (by decide)

theorem outline_apart (each : ∀ inner, Within inner node → (inner.properties.map Prod.fst).Nodup) :
    node.outline.FieldsApart := by
  induction node using byChildren with
  | step node ih =>
    have here : (node.outline.properties.map Prod.fst).Nodup := by
      rw [outline_properties]
      exact each node (.here node)
    have below : Outline.AllFieldsApart node.outline.children := by
      rw [outline_children]
      refine Outline.FieldsApart.all fun outline among => ?_
      obtain ⟨child, inside, rfl⟩ := List.mem_map.mp among
      exact ih child inside fun inner within => each inner (.deeper within inside)
    cases outlined : node.outline with
    | mk typeName flags properties children =>
      rw [outlined] at here below
      exact ⟨here, below⟩

theorem Builtin.apart (builtin : Builtin node) : node.outline.FieldsApart :=
  outline_apart fun inner within =>
    have ⟨_, known⟩ := Option.isSome_iff_exists.mp (builtin inner within)
    properties_apart known

theorem unflattenWith_flattened {registry : TypeRegistry} (bounded : TypeRegistry.Bounded registry)
    (apart : node.outline.FieldsApart)
    (shallow : ∀ inner, Within inner node → ∀ entry ∈ inner.properties, entry.2.levels < Json.maxLevels)
    (survive : ∀ inner, Within inner node → ∀ entry ∈ inner.properties, entry.2.NumbersSurvive)
    (flattened : node.flattenWith registry = .ok tree) :
    tree.unflattenWith registry = if tree.nodes.size = 0x100000000 then .error .emptyTree
      else .ok (node.outline.rebuilt registry 0 none) := by
  obtain ⟨nodes, texts⟩ := flattenWith_counted apart flattened
  split
  · rename_i full
    have none : tree.nodeCount = 0 := by
      rw [FlatTree.nodeCount, full]
      rfl
    rw [FlatTree.unflattenWith, if_pos none]
    rfl
  · rename_i room
    obtain ⟨out, rfl, count, deep, laid⟩ := flattenWith_laid flattened
    have small : out.nodes.size < 0x100000000 := Nat.lt_of_le_of_ne nodes room
    have complete : Flattening.Complete registry out (Flattening.typesOf registry out) :=
      ⟨bounded, Flattening.typesOf_cases registry out, texts, small, laid.sound small count _⟩
    exact unflattenWith_laid complete laid (node.restorable shallow survive) count deep

theorem unflatten_flatten (builtin : Builtin node)
    (survive : ∀ inner, Within inner node → ∀ entry ∈ inner.properties, entry.2.NumbersSurvive)
    (flattened : node.flatten = .ok tree) :
    tree.unflatten = if tree.nodes.size = 0x100000000 then .error .emptyTree
      else .ok (node.outline.rebuilt .builtin 0 none) :=
  unflattenWith_flattened TypeRegistry.Reached.builtin.bounded builtin.apart builtin.shallow survive flattened

end Node

end PluginBridge
