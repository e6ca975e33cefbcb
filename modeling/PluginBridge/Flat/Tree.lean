import PluginBridge.Flat.Strings
import PluginBridge.Codec
import PluginBridge.Tree.Flags
namespace PluginBridge

def maxTreeDepth : Nat := 1024

-- One node of a flat tree. The links are positions of other nodes; 0 stands for no
-- child and no next sibling. The scalar fields are a range of the tree's blob.
structure NodeRecord where
  typeId : UInt16
  flags : NodeFlags
  child : UInt32
  next : UInt32
  parent : UInt32
  blobOffset : UInt32
  blobLength : UInt32
deriving DecidableEq, Inhabited, Repr

-- A tree as tables: node records, the texts they share, the names of their types where
-- these are not built in, and the encoded scalar fields of all nodes.
structure FlatTree where
  root : UInt32
  nodes : Array NodeRecord
  strings : StringTable
  types : Option (Array String)
  blob : ByteArray
deriving Inhabited

instance : DecidableEq FlatTree := fun a b =>
  decidable_of_iff
    (a.root = b.root ∧ a.nodes = b.nodes ∧ a.strings = b.strings ∧ a.types = b.types ∧
      a.blob.data = b.blob.data)
    (by
      cases a
      cases b
      simp only [FlatTree.mk.injEq, ByteArray.ext_iff])

def linkOf (raw : UInt32) : Option UInt32 := if raw = 0 then none else some raw

namespace NodeRecord

def firstChild? (record : NodeRecord) : Option UInt32 := linkOf record.child

def nextSibling? (record : NodeRecord) : Option UInt32 := linkOf record.next

end NodeRecord

namespace FlatTree

def empty : FlatTree := ⟨0, #[], .empty, none, .empty⟩

def nodeCount (tree : FlatTree) : UInt32 := UInt32.ofNat tree.nodes.size

def node? (tree : FlatTree) (index : UInt32) : Option NodeRecord := tree.nodes[index.toNat]?

def setRoot (tree : FlatTree) (root : UInt32) : Except CodecError FlatTree :=
  if root.toNat < tree.nodes.size then .ok { tree with root := root }
  else .error (.invalidRoot root tree.nodeCount)

def addString (tree : FlatTree) (text : String) : UInt32 × FlatTree :=
  let (index, strings) := tree.strings.intern text
  (index, { tree with strings := strings })

def parent? (tree : FlatTree) (index : UInt32) : Option UInt32 :=
  if index = tree.root then none
  else
    match tree.node? index with
    | some record => if record.parent = index then none else some record.parent
    | none => none

def chain (tree : FlatTree) : Nat → Option UInt32 → List UInt32
  | 0, _ => []
  | _ + 1, none => []
  | bound + 1, some index =>
    index :: chain tree bound ((tree.node? index).bind NodeRecord.nextSibling?)

-- A chain that runs in a circle is cut after as many links as there are nodes.
def children (tree : FlatTree) (index : UInt32) : List UInt32 :=
  tree.chain tree.nodes.size ((tree.node? index).bind NodeRecord.firstChild?)

def blobSlice (tree : FlatTree) (record : NodeRecord) : Except CodecError ByteArray :=
  let offset := record.blobOffset.toNat
  let length := record.blobLength.toNat
  if offset + length ≤ tree.blob.size then .ok (tree.blob.extract offset (offset + length))
  else .error (.offsetOutOfRange offset length tree.blob.size)

def validateRecord (tree : FlatTree) (index : UInt32) (record : NodeRecord) :
    Except CodecError Unit := do
  let checkLink (field : LinkField) (target : UInt32) : Except CodecError Unit :=
    if target < tree.nodeCount then .ok () else .error (.invalidLink index field target)
  checkLink .child record.child
  checkLink .next record.next
  checkLink .parent record.parent
  discard (tree.blobSlice record)

def validateFrom (tree : FlatTree) : Nat → List NodeRecord → Except CodecError Unit
  | _, [] => .ok ()
  | index, record :: rest => do
    tree.validateRecord (UInt32.ofNat index) record
    validateFrom tree (index + 1) rest

def validate (tree : FlatTree) : Except CodecError Unit := do
  if 0 < tree.nodeCount ∧ tree.nodeCount ≤ tree.root then
    .error (.invalidRoot tree.root tree.nodeCount)
  tree.validateFrom 0 tree.nodes.toList

end FlatTree
end PluginBridge
