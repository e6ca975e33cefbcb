import PluginBridge.Flat.Blob
import PluginBridge.Flat.Registry
import PluginBridge.Tree.Kind
namespace PluginBridge

structure NodeSlot where
  index : UInt32
  typeId : UInt16
  typeName : String
  kind? : Option NodeKind
  flags : NodeFlags
  properties : Properties
deriving Inhabited, Repr

inductive FlatNode where
  | mk (slot : NodeSlot) (parent : Option UInt32) (children : List FlatNode)
deriving Inhabited

namespace FlatNode

def slot : FlatNode → NodeSlot
  | .mk slot _ _ => slot

def parent? : FlatNode → Option UInt32
  | .mk _ parent _ => parent

def children : FlatNode → List FlatNode
  | .mk _ _ children => children

def property? (node : FlatNode) (key : String) : Option Property :=
  Members.get? key node.slot.properties

def file? (node : FlatNode) : Option String :=
  if node.slot.flags.contains .fileInfo then
    (node.property? "filename").bind Property.toString?
  else none

def sourceIndex? (node : FlatNode) : Option Nat :=
  if node.slot.flags.contains .explicitIndex then
    ((node.property? "index").bind Property.toFloat?).map fun x =>
      (x.clampToRange 0 0xFFFFFFFF).toNat
  else none

mutual

def weight : FlatNode → Nat
  | .mk _ _ children => weightAll children + 1

def weightAll : List FlatNode → Nat
  | [] => 0
  | node :: rest => node.weight + weightAll rest

end

theorem weightAll_append (nodes more : List FlatNode) :
    weightAll (nodes ++ more) = weightAll nodes + weightAll more := by
  induction nodes with
  | nil => simp [weightAll]
  | cons node rest ih => simp [weightAll, ih, Nat.add_assoc]

-- Visits the nodes that are waiting: each one, then its children before what waited behind it.
def visit : List FlatNode → List FlatNode
  | [] => []
  | .mk slot parent children :: rest => .mk slot parent children :: visit (children ++ rest)
termination_by waiting => weightAll waiting
decreasing_by simp [weightAll, weight, weightAll_append]

def walk (node : FlatNode) : List FlatNode := visit [node]

end FlatNode

namespace FlatTree

-- A name in the tree's own table comes before the registry's.
def typeNameOf (tree : FlatTree) (registry : TypeRegistry) (id : UInt16) : Except CodecError String :=
  match (tree.types.bind fun names => names[id.toNat]?).filter (· ≠ "") with
  | some name => .ok name
  | none =>
    match registry.nameOf? id with
    | some name => .ok name
    | none => .error (.unknownTypeId id)

def slotOf (tree : FlatTree) (registry : TypeRegistry) (index : Nat) (record : NodeRecord) :
    Except CodecError NodeSlot := do
  let typeName ← tree.typeNameOf registry record.typeId
  let properties ← tree.properties (UInt32.ofNat index)
  return {
    index := UInt32.ofNat index
    typeId := record.typeId
    typeName := typeName
    kind? := NodeKind.ofName? typeName
    flags := record.flags
    properties := properties }

def eachFrom {α : Type} (f : Nat → NodeRecord → Except CodecError α) :
    Nat → List NodeRecord → Except CodecError (List α)
  | _, [] => .ok []
  | index, record :: rest => do
    let value ← f index record
    let values ← eachFrom f (index + 1) rest
    return value :: values

def checkedChildren (tree : FlatTree) (index : UInt32) : Except CodecError (List UInt32) := do
  match tree.parent? index with
  | some parent =>
    if tree.nodeCount ≤ parent then throw (.invalidLink index .parent parent)
  | none => pure ()
  let children := tree.children index
  match children.find? fun child => tree.nodeCount ≤ child || child == tree.root with
  | some child => throw (.invalidLink index .child child)
  | none => return children

-- The parts a tree is put together from. A slot that is used is gone, so that no node
-- can be placed twice.
structure Parts where
  slots : Array (Option NodeSlot)
  children : Array (List UInt32)

abbrev Assembly := EStateM CodecError Parts

def takeSlot (index : UInt32) : Assembly (NodeSlot × List UInt32) := fun parts =>
  match parts.slots[index.toNat]?.join with
  | some slot =>
    let children := parts.children.getD index.toNat []
    .ok (slot, children) { parts with slots := parts.slots.setIfInBounds index.toNat none }
  | none => .error (.invalidLink index .child index) parts

def placeAll (place : UInt32 → Assembly FlatNode) : List UInt32 → Assembly (List FlatNode)
  | [] => pure []
  | index :: rest => do
    let node ← place index
    let nodes ← placeAll place rest
    return node :: nodes

def place : Nat → Option UInt32 → UInt32 → Assembly FlatNode
  | 0, _, _ => throw (.tooDeep maxTreeDepth)
  | levels + 1, parent, index => do
    let (slot, children) ← takeSlot index
    let children ← placeAll (place levels (some index)) children
    return .mk slot parent children

def unflattenWith (tree : FlatTree) (registry : TypeRegistry) : Except CodecError FlatNode := do
  if tree.nodeCount = 0 then throw .emptyTree
  if tree.nodeCount ≤ tree.root then throw (.invalidRoot tree.root tree.nodeCount)
  let slots ← eachFrom (tree.slotOf registry) 0 tree.nodes.toList
  let children ← eachFrom (fun index _ => tree.checkedChildren (UInt32.ofNat index)) 0 tree.nodes.toList
  match place (maxTreeDepth + 1) none tree.root ⟨(slots.map some).toArray, children.toArray⟩ with
  | .ok node _ => return node
  | .error e _ => throw e

def unflatten (tree : FlatTree) : Except CodecError FlatNode := tree.unflattenWith .builtin

end FlatTree
end PluginBridge
