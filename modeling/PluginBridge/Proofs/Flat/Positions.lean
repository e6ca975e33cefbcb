import PluginBridge.Proofs.Flat.Registry
import PluginBridge.Proofs.Flat.Soundness
namespace PluginBridge

namespace FlatTree
variable {α : Type} {f : Nat → NodeRecord → Except CodecError α} {records : List NodeRecord}

theorem eachFrom_done {index : Nat}
    (each : ∀ k record, records[k]? = some record → ∃ value, f (index + k) record = .ok value) :
    ∃ values, eachFrom f index records = .ok values := by
  induction records generalizing index with
  | nil => exact ⟨[], rfl⟩
  | cons record rest ih =>
    obtain ⟨value, first⟩ := each 0 record rfl
    obtain ⟨values, later⟩ := @ih (index + 1) fun k record stands => by
      rw [Nat.add_assoc, Nat.add_comm 1 k]
      exact each (k + 1) record stands
    rw [Nat.add_zero] at first
    refine ⟨value :: values, ?_⟩
    rw [eachFrom, except_done first, except_done later]
    rfl

theorem eachFrom_value {index k : Nat} {values : List α} {record : NodeRecord} {value : α}
    (ran : eachFrom f index records = .ok values) (stands : records[k]? = some record)
    (made : f (index + k) record = .ok value) : values[k]? = some value := by
  induction records generalizing index k values with
  | nil => cases stands
  | cons first rest ih =>
    obtain ⟨here, one, ran⟩ := except_parts ran
    obtain ⟨others, later, ran⟩ := except_parts ran
    cases ran
    cases k with
    | zero =>
      cases stands
      rw [Nat.add_zero, one] at made
      cases made
      rfl
    | succ k =>
      rw [List.getElem?_cons_succ] at stands ⊢
      refine ih later stands ?_
      rwa [Nat.add_assoc, Nat.add_comm 1 k]

theorem eachFrom_parts {index : Nat} {values : List α} (ran : eachFrom f index records = .ok values)
    (k : Nat) : records[k]? = none ∧ values[k]? = none ∨ ∃ record value, records[k]? = some record ∧
      values[k]? = some value ∧ f (index + k) record = .ok value := by
  induction records generalizing index k values with
  | nil =>
    cases ran
    exact .inl ⟨rfl, rfl⟩
  | cons first rest ih =>
    obtain ⟨here, one, ran⟩ := except_parts ran
    obtain ⟨others, later, ran⟩ := except_parts ran
    cases ran
    cases k with
    | zero => exact .inr ⟨first, here, rfl, rfl, one⟩
    | succ k =>
      have step := ih later k
      rwa [Nat.add_assoc, Nat.add_comm 1 k] at step

end FlatTree

namespace Outline

def slot (registry : TypeRegistry) (place : Nat) (node : Outline) : NodeSlot where
  index := UInt32.ofNat place
  typeId := (registry.idOf? node.typeName).getD 0
  typeName := node.typeName
  kind? := NodeKind.ofName? node.typeName
  flags := node.flags
  properties := Members.mapValues Property.restored (Members.ofList node.properties)

-- The positions of nodes that follow one another in pre-order, each after the last
-- descendant of the one before.
def positions (place : Nat) : List Outline → List UInt32
  | [] => []
  | node :: rest => UInt32.ofNat place :: positions (place + node.size) rest

mutual

def rebuilt (registry : TypeRegistry) (place : Nat) (parent : Option UInt32) : Outline → FlatNode
  | .mk typeName flags properties children =>
    .mk (slot registry place (.mk typeName flags properties children)) parent
      (rebuiltAll registry (place + 1) (UInt32.ofNat place) children)

def rebuiltAll (registry : TypeRegistry) (place : Nat) (parent : UInt32) : List Outline → List FlatNode
  | [] => []
  | node :: rest =>
    node.rebuilt registry place (some parent) :: rebuiltAll registry (place + node.size) parent rest

end

mutual

-- The fields of every node nest no deeper than a reader follows, and their numbers come
-- back from their text.
def Restorable : Outline → Prop
  | .mk _ _ properties children =>
    (∀ entry ∈ properties, entry.2.NumbersSurvive ∧ entry.2.levels < Json.maxLevels) ∧
      AllRestorable children

def AllRestorable : List Outline → Prop
  | [] => True
  | node :: rest => Restorable node ∧ AllRestorable rest

end

mutual

def Every (holds : Outline → Prop) : Outline → Prop
  | .mk typeName flags properties children =>
    holds (.mk typeName flags properties children) ∧ EveryOf holds children

def EveryOf (holds : Outline → Prop) : List Outline → Prop
  | [] => True
  | node :: rest => Every holds node ∧ EveryOf holds rest

end

mutual

theorem Restorable.every : ∀ {node : Outline}, Restorable node → node.Every Restorable
  | .mk _ _ _ _, restorable => ⟨restorable, AllRestorable.every restorable.2⟩

theorem AllRestorable.every : ∀ {nodes : List Outline}, AllRestorable nodes → EveryOf Restorable nodes
  | [], _ => trivial
  | _ :: _, ⟨first, rest⟩ => ⟨Restorable.every first, AllRestorable.every rest⟩

end

theorem Restorable.fields {node : Outline} (restorable : Restorable node) :
    ∀ entry ∈ node.properties, entry.2.NumbersSurvive ∧ entry.2.levels < Json.maxLevels := by
  cases node
  exact restorable.1

end Outline

namespace Outline

theorem sizeAll_length (nodes : List Outline) : nodes.length ≤ sizeAll nodes := by
  induction nodes with
  | nil => exact Nat.le_refl _
  | cons node rest ih =>
    have weight := node.size_children
    rw [List.length_cons, sizeAll]
    omega

theorem positions_within {place : Nat} {nodes : List Outline} (small : place + sizeAll nodes ≤ 0x100000000) :
    ∀ index ∈ positions place nodes, place ≤ index.toNat ∧ index.toNat < place + sizeAll nodes := by
  induction nodes generalizing place with
  | nil =>
    intro index among
    cases among
  | cons node rest ih =>
    have weight := node.size_children
    rw [sizeAll] at small ⊢
    intro index among
    rcases List.mem_cons.mp among with rfl | later
    · rw [toNat_word (by omega)]
      omega
    · have bounds := ih (by omega) index later
      omega

end Outline

theorem linkOf_word {n : Nat} (positive : 0 < n) (small : n < 0x100000000) :
    linkOf (UInt32.ofNat n) = some (UInt32.ofNat n) := by
  have apart : UInt32.ofNat n ≠ 0 := by
    intro zero
    have number := congrArg UInt32.toNat zero
    rw [toNat_word small] at number
    simp at number
    omega
  rw [linkOf, if_neg apart]

namespace Flattening
variable {registry : TypeRegistry} {out : Flattening} {types : Option (Array String)}
  {place next : Nat} {parent : Option UInt32} {node : Outline} {record : NodeRecord} {table : StringTable}

theorem Recorded.found (here : place < 0x100000000)
    (recorded : Recorded registry out place next parent node record table) :
    (out.tree types).node? (UInt32.ofNat place) = some record := by
  rw [FlatTree.node?, toNat_word here]
  exact recorded.stands

theorem Recorded.slice (types : Option (Array String))
    (recorded : Recorded registry out place next parent node record table) :
    (out.tree types).blobSlice record = .ok (Blob.encode table node.properties).1 := by
  have within := recorded.blob.within
  rw [← recorded.length] at within
  have exact := recorded.blob.exact
  rw [← recorded.length] at exact
  rw [FlatTree.blobSlice, if_pos (by exact within)]
  exact congrArg _ exact

theorem Recorded.slotOf (bounded : TypeRegistry.Bounded registry)
    (own : types = none ∨ types = some registry.typeTable) (small : out.strings.size ≤ 0x100000000)
    (here : place < 0x100000000) (recorded : Recorded registry out place next parent node record table)
    (restorable : Outline.Restorable node) :
    (out.tree types).slotOf registry place record = .ok (node.slot registry place) := by
  have named : (out.tree types).typeNameOf registry record.typeId = .ok node.typeName :=
    typeNameOf_idOf bounded recorded.typed own
  have slice := recorded.slice types
  have found : (out.tree types).node? (UInt32.ofNat place) = some record := recorded.found here
  have fields : (out.tree types).properties (UInt32.ofNat place) =
      .ok (Members.mapValues Property.restored (Members.ofList node.properties)) := by
    simp only [FlatTree.properties, found]
    rw [except_done slice]
    exact Blob.decode_encode small recorded.texts (fun entry among => (restorable.fields entry among).1)
      fun entry among => (restorable.fields entry among).2
  rw [FlatTree.slotOf, except_done named, except_done fields, recorded.flagged, Outline.slot,
    recorded.typed]
  rfl

theorem Laid.recorded (laid : Laid registry out place next parent node) :
    (∃ record table, Recorded registry out place next parent node record table) ∧
      LaidAll registry out (place + 1) (UInt32.ofNat place) node.children := by
  cases node
  exact laid

theorem LaidAll.chain (small : out.nodes.size ≤ 0x100000000) {place bound : Nat} {parent : UInt32}
    {nodes : List Outline} (laid : LaidAll registry out place parent nodes) (some_ : nodes ≠ [])
    (room : place + Outline.sizeAll nodes ≤ out.nodes.size) (positive : 0 < place)
    (enough : nodes.length ≤ bound) :
    (out.tree types).chain bound (some (UInt32.ofNat place)) = Outline.positions place nodes := by
  induction nodes generalizing place bound with
  | nil => exact absurd rfl some_
  | cons node rest ih =>
    obtain ⟨first, later⟩ := laid
    obtain ⟨⟨record, table, recorded⟩, _⟩ := first.recorded
    have weight := node.size_children
    rw [Outline.sizeAll] at room
    obtain ⟨bound, rfl⟩ : ∃ less, bound = less + 1 := ⟨bound - 1, by simp at enough; omega⟩
    have found : (out.tree types).node? (UInt32.ofNat place) = some record := recorded.found (by omega)
    rw [FlatTree.chain, Outline.positions, found, Option.bind_some, NodeRecord.nextSibling?, recorded.next]
    congr 1
    cases rest with
    | nil => cases bound <;> rfl
    | cons second rest =>
      have present := second.size_children
      have more := room
      rw [Outline.sizeAll] at more
      rw [List.isEmpty_cons, if_neg (by decide), linkOf_word (by omega) (by omega)]
      exact ih later (List.cons_ne_nil _ _) (by omega) (by omega) (Nat.le_of_succ_le_succ enough)

theorem Laid.children (small : out.nodes.size ≤ 0x100000000)
    (laid : Laid registry out place next parent node) (room : place + node.size ≤ out.nodes.size) :
    (out.tree types).children (UInt32.ofNat place) = Outline.positions (place + 1) node.children := by
  obtain ⟨⟨record, table, recorded⟩, below⟩ := laid.recorded
  have weight := node.size_children
  have found : (out.tree types).node? (UInt32.ofNat place) = some record := recorded.found (by omega)
  rw [FlatTree.children, found, Option.bind_some, NodeRecord.firstChild?, recorded.child]
  cases inside : node.children with
  | nil =>
    rw [List.isEmpty_nil, if_pos rfl]
    cases (out.tree types).nodes.size <;> rfl
  | cons child rest =>
    rw [inside] at below weight
    have few := Outline.sizeAll_length (child :: rest)
    have present := child.size_children
    have sizes := weight
    rw [Outline.sizeAll] at sizes
    have link : UInt32.ofNat place + 1 = UInt32.ofNat (place + 1) := (UInt32.ofNat_add _ _).symm
    rw [List.isEmpty_cons, if_neg (by decide), link, linkOf_word (by omega) (by omega)]
    refine below.chain small (List.cons_ne_nil _ _) (by omega) (by omega) ?_
    change (child :: rest).length ≤ out.nodes.size
    omega

theorem Laid.checkedChildren (small : out.nodes.size < 0x100000000)
    (laid : Laid registry out place next parent node) (room : place + node.size ≤ out.nodes.size)
    (sound : FlatTree.Sound (out.tree types)) :
    (out.tree types).checkedChildren (UInt32.ofNat place) =
      .ok (Outline.positions (place + 1) node.children) := by
  have weight := node.size_children
  have count : (out.tree types).nodeCount.toNat = out.nodes.size := toNat_word small
  have bounds : ∀ index ∈ Outline.positions (place + 1) node.children,
      place + 1 ≤ index.toNat ∧ index.toNat < place + 1 + Outline.sizeAll node.children :=
    Outline.positions_within (by omega)
  have none : (Outline.positions (place + 1) node.children).find?
      (fun child => (out.tree types).nodeCount ≤ child || child == (out.tree types).root) = none := by
    rw [List.find?_eq_none]
    intro child inside
    obtain ⟨low, high⟩ := bounds child inside
    have apart : child ≠ (out.tree types).root := by
      rintro rfl
      simp [Flattening.tree] at low
    have under : ¬ (out.tree types).nodeCount ≤ child := by
      rw [UInt32.le_iff_toNat_le, count]
      omega
    rw [decide_eq_false under, Bool.false_or, beq_false_of_ne apart]
    exact Bool.false_ne_true
  simp only [FlatTree.checkedChildren, laid.children (Nat.le_of_lt small) room, none]
  cases named : (out.tree types).parent? (UInt32.ofNat place) with
  | none => rfl
  | some index =>
    simp only [if_neg (UInt32.not_le.mpr (sound.parent_within named))]
    rfl

mutual

theorem Laid.covers {holds : Outline → Prop} {place next : Nat} {parent : Option UInt32} :
    ∀ {node : Outline}, Laid registry out place next parent node → node.Every holds →
      ∀ k, place ≤ k → k < place + node.size → ∃ next parent inner, Laid registry out k next parent inner ∧
        k + inner.size ≤ place + node.size ∧ holds inner
  | .mk typeName flags properties children, laid, every, k, low, high => by
    by_cases here : k = place
    · subst here
      exact ⟨next, parent, _, laid, Nat.le_refl _, every.1⟩
    · rw [Outline.size] at high ⊢
      obtain ⟨next, parent, inner, found, within, fine⟩ :=
        laid.2.covers every.2 k (by omega) (by omega)
      exact ⟨next, parent, inner, found, by omega, fine⟩

theorem LaidAll.covers {holds : Outline → Prop} {place : Nat} {parent : UInt32} :
    ∀ {nodes : List Outline}, LaidAll registry out place parent nodes → Outline.EveryOf holds nodes →
      ∀ k, place ≤ k → k < place + Outline.sizeAll nodes → ∃ next parent inner,
        Laid registry out k next parent inner ∧ k + inner.size ≤ place + Outline.sizeAll nodes ∧ holds inner
  | [], _, _, k, low, high => by
    rw [Outline.sizeAll] at high
    omega
  | node :: rest, ⟨first, later⟩, ⟨one, others⟩, k, low, high => by
    rw [Outline.sizeAll] at high ⊢
    by_cases early : k < place + node.size
    · obtain ⟨next, parent, inner, found, within, fine⟩ := first.covers one k low early
      exact ⟨next, parent, inner, found, by omega, fine⟩
    · obtain ⟨next, parent, inner, found, within, fine⟩ :=
        later.covers others k (by omega) (by omega)
      exact ⟨next, parent, inner, found, by omega, fine⟩

end

mutual

theorem Laid.every {holds : Outline → Prop} (each : ∀ place next parent inner,
    Laid registry out place next parent inner → place + inner.size ≤ out.nodes.size → holds inner)
    {place next : Nat} {parent : Option UInt32} :
    ∀ {node : Outline}, Laid registry out place next parent node → place + node.size ≤ out.nodes.size →
      node.Every holds
  | .mk _ _ _ _, laid, room => by
    refine ⟨each _ _ _ _ laid room, laid.2.every each ?_⟩
    rw [Outline.size] at room
    omega

theorem LaidAll.every {holds : Outline → Prop} (each : ∀ place next parent inner,
    Laid registry out place next parent inner → place + inner.size ≤ out.nodes.size → holds inner)
    {place : Nat} {parent : UInt32} :
    ∀ {nodes : List Outline}, LaidAll registry out place parent nodes →
      place + Outline.sizeAll nodes ≤ out.nodes.size → Outline.EveryOf holds nodes
  | [], _, _ => trivial
  | node :: rest, ⟨first, later⟩, room => by
    rw [Outline.sizeAll] at room
    exact ⟨first.every each (by omega), later.every each (by omega)⟩

end

structure Collected (registry : TypeRegistry) (tree : FlatTree) (slots : List NodeSlot)
    (lists : List (List UInt32)) : Prop where
  slots : FlatTree.eachFrom (tree.slotOf registry) 0 tree.nodes.toList = .ok slots
  lists : FlatTree.eachFrom (fun index _ => tree.checkedChildren (UInt32.ofNat index)) 0
    tree.nodes.toList = .ok lists

structure Complete (registry : TypeRegistry) (out : Flattening) (types : Option (Array String)) : Prop where
  bounded : TypeRegistry.Bounded registry
  own : types = none ∨ types = some registry.typeTable
  texts : out.strings.size ≤ 0x100000000
  small : out.nodes.size < 0x100000000
  sound : FlatTree.Sound (out.tree types)

theorem Laid.slotOf (complete : Complete registry out types)
    (laid : Laid registry out place next parent node) (restorable : Outline.Restorable node)
    (room : place + node.size ≤ out.nodes.size) {record : NodeRecord}
    (stands : out.nodes[place]? = some record) :
    (out.tree types).slotOf registry place record = .ok (node.slot registry place) := by
  obtain ⟨⟨found, table, recorded⟩, _⟩ := laid.recorded
  have small := complete.small
  have weight := node.size_children
  obtain rfl : found = record := Option.some.inj (recorded.stands.symm.trans stands)
  exact recorded.slotOf complete.bounded complete.own complete.texts (by omega) restorable

theorem Laid.recordAt {holds : Outline → Prop} (laid : Laid registry out 0 0 none node) (every : node.Every holds)
    (count : out.nodes.size = node.size) {k : Nat} {record : NodeRecord}
    (stands : (out.tree types).nodes.toList[k]? = some record) :
    out.nodes[k]? = some record ∧ ∃ next parent inner, Laid registry out k next parent inner ∧
      k + inner.size ≤ out.nodes.size ∧ holds inner := by
  have stored : out.nodes[k]? = some record := by rwa [Array.getElem?_toList] at stands
  have within := (Array.getElem?_eq_some_iff.mp stored).1
  obtain ⟨next, parent, inner, found, room, fine⟩ := laid.covers every k (by omega) (by omega)
  exact ⟨stored, next, parent, inner, found, by omega, fine⟩

theorem Laid.listed (small : out.nodes.size < 0x100000000) (sound : FlatTree.Sound (out.tree types))
    (laid : Laid registry out 0 0 none node) (count : out.nodes.size = node.size) :
    ∃ lists, FlatTree.eachFrom (fun index _ => (out.tree types).checkedChildren (UInt32.ofNat index)) 0
      (out.tree types).nodes.toList = .ok lists := by
  have every : node.Every fun _ => True := laid.every (fun _ _ _ _ _ _ => trivial) (by omega)
  refine FlatTree.eachFrom_done fun k record stands => ?_
  obtain ⟨_, _, _, inner, found, room, _⟩ := laid.recordAt every count stands
  rw [Nat.zero_add]
  exact ⟨_, found.checkedChildren small room sound⟩

theorem Laid.collected (complete : Complete registry out types) (laid : Laid registry out 0 0 none node)
    (restorable : Outline.Restorable node) (count : out.nodes.size = node.size) :
    ∃ slots lists, Collected registry (out.tree types) slots lists := by
  obtain ⟨slots, slotsRan⟩ := @FlatTree.eachFrom_done _ ((out.tree types).slotOf registry)
    (out.tree types).nodes.toList 0 fun k record stands => by
      obtain ⟨stored, _, _, inner, found, room, fine⟩ := laid.recordAt restorable.every count stands
      rw [Nat.zero_add]
      exact ⟨_, found.slotOf complete fine room stored⟩
  obtain ⟨lists, listsRan⟩ := laid.listed complete.small complete.sound count
  exact ⟨slots, lists, slotsRan, listsRan⟩

section assembly
variable {slots : List NodeSlot} {lists : List (List UInt32)} {other : TypeRegistry}

theorem Laid.held (small : out.nodes.size < 0x100000000) (sound : FlatTree.Sound (out.tree types))
    (collected : Collected other (out.tree types) slots lists) (laid : Laid registry out place next parent node)
    (room : place + node.size ≤ out.nodes.size) :
    (∃ slot, slots[place]? = some slot) ∧ lists[place]? = some (Outline.positions (place + 1) node.children) := by
  obtain ⟨⟨record, table, recorded⟩, _⟩ := laid.recorded
  have stands : (out.tree types).nodes.toList[place]? = some record := by
    rw [Array.getElem?_toList]
    exact recorded.stands
  refine ⟨?_, FlatTree.eachFrom_value collected.lists stands ?_⟩
  · rcases FlatTree.eachFrom_parts collected.slots place with ⟨none, _⟩ | ⟨_, slot, _, there, _⟩
    · cases none.symm.trans stands
    · exact ⟨slot, there⟩
  · simp only [Nat.zero_add]
    exact laid.checkedChildren small room sound

theorem Laid.slotted (complete : Complete registry out types)
    (collected : Collected registry (out.tree types) slots lists)
    (laid : Laid registry out place next parent node) (restorable : Outline.Restorable node)
    (room : place + node.size ≤ out.nodes.size) : slots[place]? = some (node.slot registry place) := by
  obtain ⟨⟨record, table, recorded⟩, _⟩ := laid.recorded
  have stands : (out.tree types).nodes.toList[place]? = some record := by
    rw [Array.getElem?_toList]
    exact recorded.stands
  refine FlatTree.eachFrom_value collected.slots stands ?_
  rw [Nat.zero_add]
  exact laid.slotOf complete restorable room recorded.stands

end assembly

end Flattening
end PluginBridge
