import PluginBridge.Proofs.Flat.Positions
namespace PluginBridge

namespace Outline

mutual

def assembled (slots : List NodeSlot) (place : Nat) (parent : Option UInt32) : Outline → FlatNode
  | .mk _ _ _ children =>
    .mk (slots[place]?.getD default) parent (assembledAll slots (place + 1) (UInt32.ofNat place) children)

def assembledAll (slots : List NodeSlot) (place : Nat) (parent : UInt32) : List Outline → List FlatNode
  | [] => []
  | node :: rest =>
    node.assembled slots place (some parent) :: assembledAll slots (place + node.size) parent rest

end

end Outline

namespace Flattening
variable {registry other : TypeRegistry} {out : Flattening} {types : Option (Array String)}
  {slots : List NodeSlot} {lists : List (List UInt32)} {parts middle later : FlatTree.Parts}

-- The slots of a range are all still there, and the lists of children are as they were read.
structure Waiting (slots : List NodeSlot) (lists : List (List UInt32)) (parts : FlatTree.Parts)
    (place count : Nat) : Prop where
  slots : ∀ k, place ≤ k → k < place + count → parts.slots[k]? = slots[k]?.map some
  children : parts.children = lists.toArray

structure Used (place count : Nat) (parts later : FlatTree.Parts) : Prop where
  children : later.children = parts.children
  others : ∀ k, k < place ∨ place + count ≤ k → later.slots[k]? = parts.slots[k]?

theorem Used.trans {place first second : Nat} (one : Used place first parts middle)
    (two : Used (place + first) second middle later) : Used place (first + second) parts later := by
  refine ⟨two.children.trans one.children, fun k outside => ?_⟩
  rw [two.others k (by omega), one.others k (by omega)]

theorem Waiting.after {place count more : Nat} (waiting : Waiting slots lists parts place (count + more))
    (used : Used place count parts later) : Waiting slots lists later (place + count) more := by
  refine ⟨fun k low high => ?_, used.children.trans waiting.children⟩
  rw [used.others k (.inr low)]
  exact waiting.slots k (by omega) (by omega)

theorem Waiting.first {place count more : Nat}
    (waiting : Waiting slots lists parts place (count + more)) : Waiting slots lists parts place count :=
  ⟨fun k low high => waiting.slots k low (by omega), waiting.children⟩

theorem takeSlot_done {place count : Nat} {slot : NodeSlot} {children : List UInt32}
    (here : place < 0x100000000) (waiting : Waiting slots lists parts place (1 + count))
    (slotted : slots[place]? = some slot) (listed : lists[place]? = some children) :
    ∃ later, FlatTree.takeSlot (UInt32.ofNat place) parts = .ok (slot, children) later ∧
      Used place 1 parts later := by
  have present : parts.slots[place]?.join = some slot := by
    rw [waiting.slots place (Nat.le_refl _) (by omega), slotted]
    rfl
  have inside : parts.children.getD place [] = children := by
    rw [waiting.children, Array.getD_eq_getD_getElem?, List.getElem?_toArray, listed, Option.getD_some]
  refine ⟨{ parts with slots := parts.slots.setIfInBounds place none }, ?_, rfl, fun k outside => ?_⟩
  · simp only [FlatTree.takeSlot, toNat_word here, present, inside]
  · exact Array.getElem?_setIfInBounds_ne (by omega)

mutual

theorem place_assembled (small : out.nodes.size < 0x100000000) (sound : FlatTree.Sound (out.tree types))
    (collected : Collected other (out.tree types) slots lists) {levels place next : Nat}
    {parent : Option UInt32} {parts : FlatTree.Parts} :
    ∀ {node : Outline}, Laid registry out place next parent node →
      place + node.size ≤ out.nodes.size → node.height ≤ levels →
      Waiting slots lists parts place node.size →
      ∃ later, FlatTree.place levels parent (UInt32.ofNat place) parts =
        .ok (node.assembled slots place parent) later ∧ Used place node.size parts later
  | .mk typeName flags properties children, laid, room, deep, waiting => by
    obtain ⟨⟨slot, slotted⟩, listed⟩ := laid.held small sound collected room
    rw [Outline.size, Nat.add_comm] at waiting
    rw [Outline.size] at room ⊢
    rw [Outline.height] at deep
    obtain ⟨levels, rfl⟩ : ∃ less, levels = less + 1 := ⟨levels - 1, by omega⟩
    obtain ⟨middle, taken, usedHere⟩ := takeSlot_done (by omega) waiting slotted listed
    obtain ⟨later, placed, usedBelow⟩ := placeAll_assembled small sound collected laid.2
      (by omega) (Nat.le_of_succ_le_succ deep) (waiting.after usedHere)
    refine ⟨later, ?_, ?_⟩
    · rw [FlatTree.place, bind_done taken, Outline.assembled, slotted]
      exact bind_done placed
    · rw [Nat.add_comm]
      exact usedHere.trans usedBelow

theorem placeAll_assembled (small : out.nodes.size < 0x100000000) (sound : FlatTree.Sound (out.tree types))
    (collected : Collected other (out.tree types) slots lists) {levels place : Nat}
    {parent : UInt32} {parts : FlatTree.Parts} :
    ∀ {nodes : List Outline}, LaidAll registry out place parent nodes →
      place + Outline.sizeAll nodes ≤ out.nodes.size → Outline.heightAll nodes ≤ levels →
      Waiting slots lists parts place (Outline.sizeAll nodes) →
      ∃ later, FlatTree.placeAll (FlatTree.place levels (some parent)) (Outline.positions place nodes)
        parts = .ok (Outline.assembledAll slots place parent nodes) later ∧
          Used place (Outline.sizeAll nodes) parts later
  | [], _, _, _, _ => ⟨parts, rfl, rfl, fun _ _ => rfl⟩
  | node :: rest, ⟨first, others⟩, room, deep, waiting => by
    rw [Outline.sizeAll] at room waiting ⊢
    rw [Outline.heightAll] at deep
    obtain ⟨middle, placed, usedHere⟩ := place_assembled small sound collected first (by omega)
      (Nat.le_trans (Nat.le_max_left _ _) deep) waiting.first
    obtain ⟨later, placedRest, usedRest⟩ := placeAll_assembled small sound collected others (by omega)
      (Nat.le_trans (Nat.le_max_right _ _) deep) (waiting.after usedHere)
    refine ⟨later, ?_, usedHere.trans usedRest⟩
    rw [Outline.positions, FlatTree.placeAll, bind_done placed, bind_done placedRest, Outline.assembledAll]
    rfl

end

mutual

theorem assembled_rebuilt (complete : Complete registry out types)
    (collected : Collected registry (out.tree types) slots lists) {place next : Nat} {parent : Option UInt32} :
    ∀ {node : Outline}, Laid registry out place next parent node → Outline.Restorable node →
      place + node.size ≤ out.nodes.size → node.assembled slots place parent = node.rebuilt registry place parent
  | .mk typeName flags properties children, laid, restorable, room => by
    have slotted := laid.slotted complete collected restorable room
    rw [Outline.size] at room
    rw [Outline.assembled, Outline.rebuilt, slotted, Option.getD_some,
      assembledAll_rebuilt complete collected laid.2 restorable.2 (by omega)]

theorem assembledAll_rebuilt (complete : Complete registry out types)
    (collected : Collected registry (out.tree types) slots lists) {place : Nat} {parent : UInt32} :
    ∀ {nodes : List Outline}, LaidAll registry out place parent nodes → Outline.AllRestorable nodes →
      place + Outline.sizeAll nodes ≤ out.nodes.size →
        Outline.assembledAll slots place parent nodes = Outline.rebuiltAll registry place parent nodes
  | [], _, _, _ => rfl
  | node :: rest, ⟨first, others⟩, ⟨one, fine⟩, room => by
    rw [Outline.sizeAll] at room
    rw [Outline.assembledAll, Outline.rebuiltAll, assembled_rebuilt complete collected first one (by omega),
      assembledAll_rebuilt complete collected others fine (by omega)]

end

end Flattening

section whole
variable {registry other : TypeRegistry} {out : Flattening} {types : Option (Array String)} {node : Outline}

theorem unflattenWith_collected {slots : List NodeSlot} {lists : List (List UInt32)}
    (small : out.nodes.size < 0x100000000) (sound : FlatTree.Sound (out.tree types))
    (collected : Flattening.Collected other (out.tree types) slots lists)
    (laid : Flattening.Laid registry out 0 0 none node) (count : out.nodes.size = node.size)
    (deep : node.height ≤ maxTreeDepth + 1) :
    (out.tree types).unflattenWith other = .ok (node.assembled slots 0 none) := by
  have weight := node.size_children
  have waiting : Flattening.Waiting slots lists ⟨(slots.map some).toArray, lists.toArray⟩ 0 node.size := by
    refine ⟨fun k _ _ => ?_, rfl⟩
    rw [List.getElem?_toArray, List.getElem?_map]
  obtain ⟨later, placed, _⟩ := Flattening.place_assembled small sound collected laid (by omega) deep waiting
  have number : (out.tree types).nodeCount.toNat = out.nodes.size := toNat_word small
  have some : (out.tree types).nodeCount ≠ 0 := by
    intro none
    rw [none] at number
    change 0 = out.nodes.size at number
    omega
  have root : ¬ (out.tree types).nodeCount ≤ (out.tree types).root := by
    rw [UInt32.le_iff_toNat_le, number]
    change ¬ out.nodes.size ≤ 0
    omega
  have first : (out.tree types).root = UInt32.ofNat 0 := rfl
  unfold FlatTree.unflattenWith
  rw [if_neg some, if_neg root]
  simp only
  rw [except_done collected.slots, except_done collected.lists, first, placed]
  rfl

theorem unflattenWith_laid (complete : Flattening.Complete registry out types)
    (laid : Flattening.Laid registry out 0 0 none node) (restorable : Outline.Restorable node)
    (count : out.nodes.size = node.size) (deep : node.height ≤ maxTreeDepth + 1) :
    (out.tree types).unflattenWith registry = .ok (node.rebuilt registry 0 none) := by
  obtain ⟨slots, lists, collected⟩ := laid.collected complete restorable count
  rw [unflattenWith_collected complete.small complete.sound collected laid count deep,
    Flattening.assembled_rebuilt complete collected laid restorable (by omega)]

end whole

end PluginBridge
