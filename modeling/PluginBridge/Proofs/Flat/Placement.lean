import PluginBridge.Proofs.Flat.Codec
import PluginBridge.Proofs.Flat.Positions
import PluginBridge.Proofs.Flat.Siblings
import PluginBridge.Proofs.Flat.Walk
namespace PluginBridge

def FlatNode.indices (nodes : List FlatNode) : List UInt32 :=
  (visit nodes).map fun node => node.slot.index

namespace FlatTree
variable {parts middle later : Parts} {slots : List NodeSlot} {lists : List (List UInt32)}
  {left right indices : List UInt32} {index : UInt32}

-- The slots at these positions were there before and are used up afterwards, each of them once.
-- All other slots are as they were.
structure Taken (parts later : Parts) (indices : List UInt32) : Prop where
  apart : indices.Nodup
  present : ∀ index ∈ indices, parts.slots[index.toNat]?.join ≠ none
  gone : ∀ index ∈ indices, later.slots[index.toNat]?.join = none
  others : ∀ index, index ∉ indices → later.slots[index.toNat]? = parts.slots[index.toNat]?
  children : later.children = parts.children

theorem Taken.nothing (parts : Parts) : Taken parts parts [] :=
  ⟨.nil, nofun, nofun, fun _ _ => rfl, rfl⟩

-- What the first step used up is gone when the second one starts, so the two share no position.
theorem Taken.append (first : Taken parts middle left) (second : Taken middle later right) :
    Taken parts later (left ++ right) := by
  have split : ∀ index ∈ left, index ∉ right := by
    intro index early late
    exact second.present index late (first.gone index early)
  constructor
  · refine List.nodup_append.mpr ⟨first.apart, second.apart, ?_⟩
    rintro index early other late rfl
    exact split index early late
  · intro index among
    by_cases early : index ∈ left
    · exact first.present index early
    · have late : index ∈ right := (List.mem_append.mp among).resolve_left early
      rw [← first.others index early]
      exact second.present index late
  · intro index among
    by_cases late : index ∈ right
    · exact second.gone index late
    · have early : index ∈ left := (List.mem_append.mp among).resolve_right late
      rw [second.others index late]
      exact first.gone index early
  · intro index outside
    rw [List.mem_append, not_or] at outside
    rw [second.others index outside.2, first.others index outside.1]
  · rw [second.children, first.children]

theorem takeSlot_parts {slot : NodeSlot} {children : List UInt32}
    (ran : takeSlot index parts = .ok (slot, children) later) :
    parts.slots[index.toNat]?.join = some slot ∧ children = parts.children.getD index.toNat [] ∧
      Taken parts later [index] := by
  unfold takeSlot at ran
  split at ran
  · rename_i found present
    cases ran
    have inside : index.toNat < parts.slots.size := by
      by_contra outside
      rw [Array.getElem?_eq_none (Nat.not_lt.mp outside)] at present
      cases present
    refine ⟨present, rfl, ?_⟩
    constructor
    · exact List.nodup_singleton index
    · intro other among
      cases List.mem_singleton.mp among
      rw [present]
      exact Option.some_ne_none _
    · intro other among
      cases List.mem_singleton.mp among
      simp [inside]
    · intro other outside
      rw [List.mem_singleton] at outside
      exact Array.getElem?_setIfInBounds_ne fun same => outside (UInt32.toNat_inj.mp same.symm)
    · rfl
  · cases ran

-- What is left of the slots that were read; each of them knows its position. The lists of
-- children are as they were read.
structure Left (slots : List NodeSlot) (lists : List (List UInt32)) (parts : Parts) : Prop where
  slots : ∀ (index : UInt32) (slot : NodeSlot), parts.slots[index.toNat]?.join = some slot →
    slots[index.toNat]? = some slot ∧ slot.index = index
  children : parts.children = lists.toArray

theorem Left.after (left_ : Left slots lists parts) (taken : Taken parts later indices) :
    Left slots lists later := by
  refine ⟨fun index slot stands => ?_, taken.children.trans left_.children⟩
  by_cases used : index ∈ indices
  · rw [taken.gone index used] at stands
    cases stands
  · rw [taken.others index used] at stands
    exact left_.slots index slot stands

structure Wired (slots : List NodeSlot) (lists : List (List UInt32)) (node : FlatNode) : Prop where
  slot : slots[node.slot.index.toNat]? = some node.slot
  children : lists[node.slot.index.toNat]?.getD [] = node.children.map fun child => child.slot.index
  apart : (node.children.map fun child => child.slot.index).Nodup
  parents : ∀ child ∈ node.children, child.parent? = some node.slot.index

structure Built (slots : List NodeSlot) (lists : List (List UInt32)) (parts later : Parts) (levels : Nat)
    (parent : Option UInt32) (indices : List UInt32) (nodes : List FlatNode) : Prop where
  places : (nodes.map fun node => node.slot.index) = indices
  parents : ∀ node ∈ nodes, node.parent? = parent
  shallow : ∀ node ∈ nodes, node.depth < levels
  taken : Taken parts later (FlatNode.indices nodes)
  wired : ∀ node ∈ FlatNode.visit nodes, Wired slots lists node

theorem Built.cons {levels : Nat} {parent : Option UInt32} {node : FlatNode} {nodes : List FlatNode}
    (first : Built slots lists parts middle levels parent [index] [node])
    (rest : Built slots lists middle later levels parent indices nodes) :
    Built slots lists parts later levels parent (index :: indices) (node :: nodes) := by
  have visited : FlatNode.visit (node :: nodes) = FlatNode.visit [node] ++ FlatNode.visit nodes := by
    rw [← FlatNode.visit_append, List.singleton_append]
  constructor
  · have here := first.places
    rw [List.map_singleton, List.cons.injEq] at here
    rw [List.map_cons, here.1, rest.places]
  · rw [List.forall_mem_cons]
    exact ⟨first.parents node (List.mem_singleton_self _), rest.parents⟩
  · rw [List.forall_mem_cons]
    exact ⟨first.shallow node (List.mem_singleton_self _), rest.shallow⟩
  · rw [FlatNode.indices, visited, List.map_append]
    exact first.taken.append rest.taken
  · intro inner among
    rw [visited] at among
    rcases List.mem_append.mp among with early | late
    · exact first.wired inner early
    · exact rest.wired inner late

theorem placeAll_built {place : UInt32 → Assembly FlatNode} {levels : Nat} {parent : Option UInt32}
    (each : ∀ {index parts later node}, Left slots lists parts → place index parts = .ok node later →
      Built slots lists parts later levels parent [index] [node]) {nodes : List FlatNode}
    (left_ : Left slots lists parts) (ran : placeAll place indices parts = .ok nodes later) :
    Built slots lists parts later levels parent indices nodes := by
  induction indices generalizing parts nodes with
  | nil =>
    cases ran
    exact ⟨rfl, nofun, nofun, by simpa [FlatNode.indices, FlatNode.visit] using .nothing _,
      by simp [FlatNode.visit]⟩
  | cons index rest ih =>
    obtain ⟨node, middle, first, ran⟩ := bind_parts ran
    obtain ⟨others, _, further, ran⟩ := bind_parts ran
    cases ran
    have one := each left_ first
    exact one.cons (ih (left_.after one.taken) further)

theorem place_built {levels : Nat} {parent : Option UInt32} {node : FlatNode}
    (left_ : Left slots lists parts) (ran : place levels parent index parts = .ok node later) :
    Built slots lists parts later levels parent [index] [node] := by
  induction levels generalizing parent index parts later node with
  | zero => cases ran
  | succ levels ih =>
    obtain ⟨⟨slot, children⟩, middle, first, ran⟩ := bind_parts ran
    obtain ⟨nodes, _, below, ran⟩ := bind_parts ran
    cases ran
    obtain ⟨present, listed, taken⟩ := takeSlot_parts first
    obtain ⟨stands, placed⟩ := left_.slots index slot present
    -- The slot is used up before the children are placed, so none of them can take it again.
    have inner := placeAll_built ih (left_.after taken) below
    have visited : FlatNode.visit [.mk slot parent nodes] = .mk slot parent nodes :: FlatNode.visit nodes :=
      FlatNode.visit_children _
    have apart : (nodes.map fun child => child.slot.index).Nodup :=
      inner.taken.apart.sublist ((FlatNode.visit_roots nodes).map _)
    constructor
    · rw [List.map_singleton, FlatNode.slot, placed]
    · intro node among
      cases List.mem_singleton.mp among
      rfl
    · intro node among
      cases List.mem_singleton.mp among
      exact Nat.lt_succ_of_le (FlatNode.depthAll_le inner.shallow)
    · rw [FlatNode.indices, visited, List.map_cons, FlatNode.slot, placed]
      exact taken.append inner.taken
    · rw [visited, List.forall_mem_cons]
      refine ⟨?_, inner.wired⟩
      constructor
      · rw [FlatNode.slot, placed]
        exact stands
      · rw [FlatNode.slot, FlatNode.children, placed, inner.places, listed, left_.children,
          Array.getD_eq_getD_getElem?, List.getElem?_toArray]
      · exact apart
      · rw [FlatNode.slot, placed]
        exact inner.parents

end FlatTree

namespace FlatTree
variable {tree : FlatTree} {registry : TypeRegistry} {slots : List NodeSlot}
  {lists : List (List UInt32)} {record : NodeRecord} {node root : FlatNode}

-- What a node says, compared with the record at its position. Its children are the whole chain
-- that the record's link leads to.
structure Mirrors (tree : FlatTree) (registry : TypeRegistry) (record : NodeRecord) (node : FlatNode) :
    Prop where
  stands : tree.node? node.slot.index = some record
  typeId : node.slot.typeId = record.typeId
  typeName : tree.typeNameOf registry record.typeId = .ok node.slot.typeName
  flags : node.slot.flags = record.flags
  properties : tree.properties node.slot.index = .ok node.slot.properties
  children : SiblingChain tree record.child (node.children.map fun child => child.slot.index)
  parents : ∀ child ∈ node.children, child.parent? = some node.slot.index

theorem slotOf_parts {index : Nat} {slot : NodeSlot} (read : tree.slotOf registry index record = .ok slot) :
    slot.index = UInt32.ofNat index ∧ slot.typeId = record.typeId ∧ slot.flags = record.flags ∧
      tree.typeNameOf registry record.typeId = .ok slot.typeName ∧
        tree.properties (UInt32.ofNat index) = .ok slot.properties := by
  obtain ⟨name, named, read⟩ := except_parts read
  obtain ⟨properties, decoded, read⟩ := except_parts read
  cases read
  exact ⟨rfl, rfl, rfl, named, decoded⟩

theorem unflattenWith_parts (rebuilt : tree.unflattenWith registry = .ok root) :
    ∃ slots lists later, Flattening.Collected registry tree slots lists ∧
      place (maxTreeDepth + 1) none tree.root ⟨(slots.map some).toArray, lists.toArray⟩ =
        .ok root later := by
  unfold unflattenWith at rebuilt
  by_cases empty : tree.nodeCount = 0
  · rw [if_pos empty] at rebuilt
    cases rebuilt
  by_cases outside : tree.nodeCount ≤ tree.root
  · rw [if_neg empty, if_pos outside] at rebuilt
    cases rebuilt
  rw [if_neg empty, if_neg outside] at rebuilt
  obtain ⟨slots, slotted, rebuilt⟩ := except_parts rebuilt
  obtain ⟨lists, listed, rebuilt⟩ := except_parts rebuilt
  split at rebuilt
  · rename_i node later placed
    cases rebuilt
    exact ⟨slots, lists, later, ⟨slotted, listed⟩, placed⟩
  · cases rebuilt

theorem Left.start (collected : Flattening.Collected registry tree slots lists) :
    Left slots lists ⟨(slots.map some).toArray, lists.toArray⟩ := by
  refine ⟨fun index slot stands => ?_, rfl⟩
  rw [List.getElem?_toArray, List.getElem?_map] at stands
  rcases eachFrom_parts collected.slots index.toNat with ⟨_, none⟩ | ⟨record, found, _, here, read⟩
  · rw [none] at stands
    cases stands
  · rw [here] at stands
    cases stands
    obtain ⟨placed, _⟩ := slotOf_parts read
    refine ⟨here, ?_⟩
    rw [placed, Nat.zero_add, UInt32.ofNat_toNat]

theorem Wired.mirrors (counted : tree.nodeCount.toNat = tree.nodes.size)
    (collected : Flattening.Collected registry tree slots lists) (wired : Wired slots lists node) :
    ∃ record, Mirrors tree registry record node := by
  rcases eachFrom_parts collected.slots node.slot.index.toNat with ⟨_, none⟩ | ⟨record, slot, stands, here, read⟩
  · rw [wired.slot] at none
    cases none
  · rcases eachFrom_parts collected.lists node.slot.index.toNat with ⟨none, _⟩ | ⟨_, list, _, there, checked⟩
    · rw [stands] at none
      cases none
    · rw [wired.slot] at here
      cases here
      rw [Nat.zero_add, UInt32.ofNat_toNat] at checked
      rw [Array.getElem?_toList] at stands
      have found : tree.node? node.slot.index = some record := stands
      obtain ⟨_, typeId, flags, typeName, properties⟩ := slotOf_parts read
      rw [Nat.zero_add, UInt32.ofNat_toNat] at properties
      have same := wired.children
      rw [there, Option.getD_some] at same
      have whole := checkedChildren_whole counted found checked (same ▸ wired.apart)
      exact ⟨record, found, typeId, typeName, flags, properties, same ▸ whole, wired.parents⟩

-- A tree that is rebuilt from bytes of any kind is a tree: no position occurs twice in it, every
-- node stands where its parent says and has all the children that its record leads to.
theorem unflattenWith_tree {data : ByteArray} (decoded : ofBytes data = .ok tree)
    (rebuilt : tree.unflattenWith registry = .ok root) :
    root.slot.index = tree.root ∧ root.parent? = none ∧ root.depth ≤ maxTreeDepth ∧
      (root.walk.map fun node => node.slot.index).Nodup ∧
        ∀ node ∈ root.walk, ∃ record, Mirrors tree registry record node := by
  obtain ⟨⟨stop, read⟩, _⟩ := ofBytes_parts decoded
  have backed := readSections_backed read
  obtain ⟨slots, lists, later, collected, placed⟩ := unflattenWith_parts rebuilt
  have built := place_built (.start collected) placed
  have here := built.places
  rw [List.map_singleton, List.cons.injEq] at here
  have root_ : root ∈ [root] := List.mem_singleton_self root
  refine ⟨here.1, built.parents root root_, Nat.le_of_lt_succ (built.shallow root root_),
    built.taken.apart, ?_⟩
  intro node among
  exact (built.wired node among).mirrors backed.counted collected

-- The root is the second of four nodes and has the last two as its children. The first node,
-- which is not part of the tree, leads to them as well, and the last one names it as its parent.
theorem unflattenWith_tree_shared :
    let words := [magic, version, 4, 1, 28, 124, 0, 5, 2, 0, 0, 0, 0, 5, 2, 0, 3, 0, 0,
      0, 0, 3, 1, 0, 0, 0xF0010000, 0, 0, 0, 0, 0, 0, 0]
    ∃ tree root, ofBytes (Bytes.concat (words.map Bytes.u32)) = .ok tree ∧
      tree.unflattenWith .builtin = .ok root ∧
      (root.children.map fun child => child.slot.index) = [2, 3] ∧
      root.slot.index = tree.root ∧ root.parent? = none ∧ root.depth ≤ maxTreeDepth ∧
        (root.walk.map fun node => node.slot.index).Nodup ∧
          ∀ node ∈ root.walk, ∃ record, Mirrors tree .builtin record node := by
  intro words
  let tree : FlatTree := ⟨1, #[⟨5, .none, 2, 0, 0, 0, 0⟩, ⟨5, .none, 2, 0, 3, 0, 0⟩,
    ⟨0, .none, 0, 3, 1, 0, 0⟩, ⟨0, ⟨0xF001⟩, 0, 0, 0, 0, 0⟩], .empty, none, .empty⟩
  have read : ofBytes (Bytes.concat (words.map Bytes.u32)) = .ok tree := by decide +kernel
  have below : (tree.unflattenWith .builtin).map (fun root =>
      root.children.map fun child => child.slot.index) = .ok [2, 3] := by decide +kernel
  cases rebuilt : tree.unflattenWith .builtin with
  | error e =>
    rw [rebuilt] at below
    cases below
  | ok root =>
    rw [rebuilt] at below
    exact ⟨tree, root, read, rebuilt, Except.ok.inj below, unflattenWith_tree read rebuilt⟩

end FlatTree
end PluginBridge
