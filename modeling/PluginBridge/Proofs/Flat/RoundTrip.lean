import PluginBridge.Proofs.Flat.Assembly
import PluginBridge.Proofs.Flat.Codec
import PluginBridge.Proofs.Flat.Walk
namespace PluginBridge

namespace Outline

theorem sizeAll_mem {node : Outline} {nodes : List Outline} (among : node ∈ nodes) :
    node.size ≤ sizeAll nodes := by
  induction nodes with
  | nil => cases among
  | cons first rest ih =>
    rw [sizeAll]
    rcases List.mem_cons.mp among with rfl | later
    · exact Nat.le_add_right _ _
    · exact Nat.le_trans (ih later) (Nat.le_add_left _ _)

theorem rebuilt_parts (registry : TypeRegistry) (place : Nat) (parent : Option UInt32) (node : Outline) :
    node.rebuilt registry place parent =
      .mk (node.slot registry place) parent
        (rebuiltAll registry (place + 1) (UInt32.ofNat place) node.children) := by
  cases node
  rfl

mutual

theorem rebuilt_weight (registry : TypeRegistry) (place : Nat) (parent : Option UInt32) :
    ∀ node : Outline, (node.rebuilt registry place parent).weight = node.size
  | .mk _ _ _ children => congrArg (· + 1) (rebuiltAll_weight registry _ _ children)

theorem rebuiltAll_weight (registry : TypeRegistry) (place : Nat) (parent : UInt32) :
    ∀ nodes : List Outline, FlatNode.weightAll (rebuiltAll registry place parent nodes) = sizeAll nodes
  | [] => rfl
  | node :: rest =>
    congrArg₂ (· + ·) (rebuilt_weight registry place _ node) (rebuiltAll_weight registry _ _ rest)

end

theorem Restorable.all {nodes : List Outline} (each : ∀ node ∈ nodes, Restorable node) :
    AllRestorable nodes := by
  induction nodes with
  | nil => trivial
  | cons node rest ih =>
    exact ⟨each node List.mem_cons_self, ih fun other among => each other (List.mem_cons_of_mem _ among)⟩

theorem every_parts {holds : Outline → Prop} (node : Outline) :
    node.Every holds ↔ holds node ∧ EveryOf holds node.children := by
  cases node
  rfl

theorem everyOf_iff {holds : Outline → Prop} (nodes : List Outline) :
    EveryOf holds nodes ↔ ∀ node ∈ nodes, node.Every holds := by
  induction nodes with
  | nil => exact ⟨fun _ => List.forall_mem_nil _, fun _ => trivial⟩
  | cons node rest ih => rw [EveryOf, ih, List.forall_mem_cons]

end Outline

namespace Node

theorem outline_children (node : Node) : node.outline.children = node.children.map outline := by
  obtain ⟨info, body⟩ := node
  cases body <;> simp [outline, Outline.children, NodeBody.childOutlines, children, Node.body,
    NodeBody.children, NodeBody.childFields, ChildGroup.nodes, outlines_eq_map]

theorem outline_properties (node : Node) : node.outline.properties = node.properties := by
  cases node
  rfl

theorem child_size {child node : Node} (among : child ∈ node.children) :
    child.outline.size < node.outline.size := by
  have inside : child.outline ∈ node.outline.children := by
    rw [outline_children]
    exact List.mem_map_of_mem among
  have weight := node.outline.size_children
  have part := Outline.sizeAll_mem inside
  omega

inductive Within : Node → Node → Prop where
  | here (node : Node) : Within node node
  | deeper {inner child node : Node} (inside : Within inner child) (among : child ∈ node.children) :
      Within inner node

theorem Within.every {holds : Node → Prop} {node : Node} (here : holds node)
    (below : ∀ child ∈ node.children, ∀ inner, Within inner child → holds inner) :
    ∀ inner, Within inner node → holds inner := by
  intro inner within
  cases within with
  | here => exact here
  | deeper inside among => exact below _ among inner inside

theorem byChildren {holds : Node → Prop}
    (step : ∀ node : Node, (∀ child ∈ node.children, holds child) → holds node) (node : Node) :
    holds node := by
  induction size : node.outline.size using Nat.strongRecOn generalizing node with
  | ind size ih =>
    subst size
    exact step node fun child among => ih _ (child_size among) child rfl

theorem outline_every {holds : Outline → Prop} (node : Node) :
    node.outline.Every holds ↔ ∀ inner, Within inner node → holds inner.outline := by
  induction node using byChildren with
  | step node ih =>
    rw [Outline.every_parts, outline_children, Outline.everyOf_iff, List.forall_mem_map]
    constructor
    · rintro ⟨here, below⟩
      exact Within.every here fun child among => (ih child among).mp (below child among)
    · intro each
      refine ⟨each node (.here node), fun child among => (ih child among).mpr fun inner within => ?_⟩
      exact each inner (.deeper within among)

theorem restorable (node : Node)
    (shallow : ∀ inner, Within inner node → ∀ entry ∈ inner.properties, entry.2.levels < Json.maxLevels)
    (survive : ∀ inner, Within inner node → ∀ entry ∈ inner.properties, entry.2.NumbersSurvive) :
    node.outline.Restorable := by
  induction node using byChildren with
  | step node ih =>
    have fields : ∀ entry ∈ node.outline.properties,
        entry.2.NumbersSurvive ∧ entry.2.levels < Json.maxLevels := by
      intro entry among
      rw [outline_properties] at among
      exact ⟨survive node (.here node) entry among, shallow node (.here node) entry among⟩
    have below : Outline.AllRestorable node.outline.children := by
      rw [outline_children]
      refine Outline.Restorable.all fun outline among => ?_
      obtain ⟨child, inside, rfl⟩ := List.mem_map.mp among
      exact ih child inside (fun inner within => shallow inner (.deeper within inside))
        fun inner within => survive inner (.deeper within inside)
    cases outlined : node.outline with
    | mk typeName flags properties children =>
      rw [outlined] at fields below
      exact ⟨fields, below⟩

end Node

-- What a node that was read back says, compared with the node that it was made from. It stands
-- at `place`, below the node at `parent` if there is one.
structure Matches (place : Nat) (parent : Option UInt32) (node : Node) (flat : FlatNode) : Prop where
  name : flat.slot.typeName = node.typeName
  flags : flat.slot.flags = Node.recordFlags node.info
  index : flat.slot.index.toNat = place
  parent : flat.parent? = parent
  properties : flat.slot.properties =
    Members.mapValues Property.restored (Members.ofList node.properties)

mutual

def Restores (place : Nat) (parent : Option UInt32) (node : Node) : FlatNode → Prop
  | .mk slot above children =>
    Matches place parent node (.mk slot above children) ∧
      RestoresAll (place + 1) (UInt32.ofNat place) node.children children

def RestoresAll (place : Nat) (parent : UInt32) : List Node → List FlatNode → Prop
  | [], [] => True
  | node :: nodes, flat :: flats =>
    Restores place (some parent) node flat ∧ RestoresAll (place + flat.weight) parent nodes flats
  | _, _ => False

end

mutual

theorem Restores.walk {place : Nat} {parent : Option UInt32} {node : Node} :
    ∀ {flat : FlatNode}, Restores place parent node flat →
      flat.walk.map (fun inner => inner.slot.index.toNat) = List.range' place flat.weight
  | .mk slot above children, ⟨here, below⟩ => by
    rw [FlatNode.walk, FlatNode.visit, List.append_nil, List.map_cons, FlatNode.weight,
      RestoresAll.visit below, here.index, List.range'_succ]

theorem RestoresAll.visit {place : Nat} {parent : UInt32} :
    ∀ {nodes : List Node} {flats : List FlatNode}, RestoresAll place parent nodes flats →
      (FlatNode.visit flats).map (fun inner => inner.slot.index.toNat) =
        List.range' place (FlatNode.weightAll flats)
  | [], [], _ => by
    rw [FlatNode.visit]
    rfl
  | _ :: _, flat :: flats, ⟨first, rest⟩ => by
    have here := Restores.walk first
    rw [FlatNode.walk] at here
    rw [FlatNode.weightAll, ← List.singleton_append, FlatNode.visit_append, List.map_append, here,
      RestoresAll.visit rest, List.range'_append_1]

end

theorem rebuilt_restores (registry : TypeRegistry) (node : Node) {place : Nat} {parent : Option UInt32}
    (room : place + node.outline.size ≤ 0x100000000) :
    Restores place parent node (node.outline.rebuilt registry place parent) := by
  induction node using Node.byChildren generalizing place parent with
  | step node ih =>
    have weight := node.outline.size_children
    have below : ∀ (nodes : List Node) (place : Nat) (parent : UInt32),
        (∀ child ∈ nodes, child ∈ node.children) →
          place + Outline.sizeAll (nodes.map Node.outline) ≤ 0x100000000 →
            RestoresAll place parent nodes
              (Outline.rebuiltAll registry place parent (nodes.map Node.outline)) := by
      intro nodes
      induction nodes with
      | nil => exact fun _ _ _ _ => trivial
      | cons child rest inner =>
        intro place parent among room
        rw [List.map_cons, Outline.sizeAll] at room
        refine ⟨ih child (among child List.mem_cons_self) (by omega), ?_⟩
        rw [Outline.rebuilt_weight]
        exact inner _ _ (fun other later => among other (List.mem_cons_of_mem _ later)) (by omega)
    rw [Outline.rebuilt_parts, Node.outline_children]
    refine ⟨?_, below node.children _ _ (fun _ among => among) ?_⟩
    · cases node
      exact ⟨rfl, rfl, toNat_word (by omega), rfl, rfl⟩
    · rw [← Node.outline_children]
      omega

theorem FlatTree.Encoding.texts_small {tree : FlatTree} (encoding : Encoding tree) :
    tree.strings.size < 0x100000000 := by
  obtain ⟨_, counted, _⟩ := except_parts encoding.strings_written
  exact (word32_fits counted).1

theorem tree_round_trip {registry : TypeRegistry} (reached : TypeRegistry.Reached registry) {node : Node}
    {tree : FlatTree} {output : ByteArray} (flattened : node.flattenWith registry = .ok tree)
    (written : tree.toBytes = .ok output)
    (shallow : ∀ inner, Node.Within inner node → ∀ entry ∈ inner.properties,
      entry.2.levels < Json.maxLevels)
    (survive : ∀ inner, Node.Within inner node → ∀ entry ∈ inner.properties, entry.2.NumbersSurvive) :
    ∃ decoded rebuilt, FlatTree.ofBytes output = .ok decoded ∧
      decoded.unflattenWith registry = .ok rebuilt ∧ Restores 0 none node rebuilt ∧
        rebuilt.walk.map (fun flat => flat.slot.index.toNat) = List.range rebuilt.weight := by
  obtain ⟨encoding, rfl⟩ := FlatTree.toBytes_encoding written
  have small := encoding.small
  have texts := encoding.texts_small
  obtain ⟨out, rfl, count, deep, laid⟩ := flattenWith_laid flattened
  have sound := laid.sound small count (Flattening.typesOf registry out)
  have own : Flattening.typesOf registry out = none ∨
      Flattening.typesOf registry out = some registry.typeTable := by
    unfold Flattening.typesOf
    split
    · exact .inr rfl
    · exact .inl rfl
  have complete : Flattening.Complete registry out (Flattening.typesOf registry out) :=
    ⟨reached.bounded, own, Nat.le_of_lt texts, small, sound⟩
  have decoded := encoding.ofBytes_append sound .empty
  rw [ByteArray.append_empty] at decoded
  have bound : out.nodes.size < 0x100000000 := small
  have restored : Restores 0 none node (node.outline.rebuilt registry 0 none) :=
    rebuilt_restores registry node (by omega)
  refine ⟨_, _, decoded, unflattenWith_laid complete laid (node.restorable shallow survive) count deep,
    restored, ?_⟩
  rw [restored.walk, List.range_eq_range']

-- Two sizes that share their unit, one of them infinite, in a registry that knows one more kind.
theorem tree_round_trip_sizes :
    ∃ node tree output decoded rebuilt,
      node = Node.plain (.operation "px" [.plain (.dimension ⟨0x4341C37937E08000⟩ "px"),
        .plain (.dimension (.infinity true) "px")]) ∧
      Node.flattenWith (TypeRegistry.builtin.register "Grid").2 node = .ok tree ∧
      tree.toBytes = .ok output ∧ FlatTree.ofBytes output = .ok decoded ∧
      decoded.unflattenWith (TypeRegistry.builtin.register "Grid").2 = .ok rebuilt ∧
      Restores 0 none node rebuilt ∧
      rebuilt.walk.map (fun flat => flat.slot.index.toNat) = List.range rebuilt.weight := by
  have survives : Binary64.SurvivesText ⟨0x4341C37937E08000⟩ := by
    have text : Json.render (.number (.float ⟨0x4341C37937E08000⟩)) = "1e+16" := by decide +kernel
    rw [Binary64.SurvivesText, text]
    rfl
  have size : ∀ x : Binary64, (x.isFinite = true → x.SurvivesText) → ∀ inner,
      Node.Within inner (.plain (.dimension x "px")) → ∀ entry ∈ inner.properties,
        entry.2.levels < Json.maxLevels ∧ entry.2.NumbersSurvive := by
    intro x back
    refine Node.Within.every (fun entry among => ?_) (fun child among => absurd among List.not_mem_nil)
    rcases List.mem_cons.mp among with rfl | among
    · exact ⟨show 0 < 127 by decide, back⟩
    · rcases List.mem_cons.mp among with rfl | among
      · exact ⟨by decide, trivial⟩
      · cases among
  have fields : ∀ inner, Node.Within inner (Node.plain (.operation "px"
      [.plain (.dimension ⟨0x4341C37937E08000⟩ "px"), .plain (.dimension (.infinity true) "px")])) →
      ∀ entry ∈ inner.properties, entry.2.levels < Json.maxLevels ∧ entry.2.NumbersSurvive := by
    refine Node.Within.every (fun entry among => ?_) (fun child among => ?_)
    · cases List.mem_singleton.mp among
      exact ⟨by decide, trivial⟩
    · rcases List.mem_cons.mp among with rfl | among
      · exact size _ fun _ => survives
      · cases List.mem_singleton.mp among
        exact size _ fun finite => absurd finite (by decide)
  obtain ⟨decoded, rebuilt, results⟩ := tree_round_trip (.registered .builtin "Grid") rfl rfl
    (fun inner within entry among => (fields inner within entry among).1)
    (fun inner within entry among => (fields inner within entry among).2)
  exact ⟨_, _, _, decoded, rebuilt, rfl, rfl, rfl, results⟩

end PluginBridge
