import PluginBridge.Flat.Bytes
import PluginBridge.Flat.Unflatten
import PluginBridge.Listing.Tree
import PluginBridge.Text.Lossy
namespace PluginBridge

def maxListedNodes : Nat := 64

def typeTableListing (types : Array String) : Json :=
  let used := types.toList.zipIdx.filter fun entry => entry.1 ≠ ""
  .ofEntries [("len", listing types.size),
    ("used", .array (used.map fun entry => .array [listing entry.2, listing entry.1]))]

instance : Listed NodeRecord :=
  ⟨fun record => .array (listing record.typeId :: listing record.flags.bits ::
    [record.child, record.next, record.parent, record.blobOffset, record.blobLength].map listing)⟩

def FlatTree.listing (tree : FlatTree) (bytes : Json) : Json :=
  .ofEntries [("version", Listed.listing FlatTree.version), ("count", Listed.listing tree.nodeCount),
    ("empty", Listed.listing tree.nodes.isEmpty), ("root", Listed.listing tree.root),
    ("nodes", if maxListedNodes < tree.nodes.size then .null else Listed.listing tree.nodes.toList),
    ("strings", Listed.listing tree.strings.entries.toList),
    ("types", (tree.types.map typeTableListing).getD .null),
    ("blob", .string (lossyText tree.blob)), ("bytes", bytes)]

instance : Listed FlatNode :=
  ⟨fun node =>
    let slot := node.slot
    .ofEntries [("id", listing slot.typeId), ("name", listing slot.typeName),
      ("kind", listing (slot.kind?.map NodeKind.name)), ("flags", listing slot.flags.bits),
      ("visible", listing slot.flags.visibility), ("props", slot.properties.listing),
      ("index", listing slot.index), ("parent", listing node.parent?),
      ("children", listing (node.children.map fun child => child.slot.index)),
      ("file", listing node.file?), ("source", listing node.sourceIndex?)]⟩

def FlatNode.walkListing (root : FlatNode) : Json :=
  .ofEntries [("len", listing root.walk.length), ("walk", listing (root.walk.take maxListedNodes))]

end PluginBridge
