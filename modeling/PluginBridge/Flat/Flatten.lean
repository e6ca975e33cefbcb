import PluginBridge.Bytes.Cursor
import PluginBridge.Flat.Blob
import PluginBridge.Flat.Registry
import PluginBridge.Tree.Outline
namespace PluginBridge

structure Flattening where
  nodes : Array NodeRecord
  strings : StringTable
  blob : ByteArray
  usesExtensions : Bool

namespace Flattening

def start : Flattening := ⟨#[], .empty, .empty, false⟩

def room (out : Flattening) (encoded : ByteArray) : Except CodecError (UInt32 × UInt32 × UInt32) := do
  return (← Bytes.word32? out.nodes.size, ← Bytes.word32? out.blob.size, ← Bytes.word32? encoded.size)

-- Appends one record, which leads nowhere yet. The root has no parent and names itself.
def append (out : Flattening) (typeId : UInt16) (flags : NodeFlags)
    (properties : List (String × Property)) (parent : Option UInt32) :
    Except CodecError (UInt32 × Flattening) := do
  let (encoded, strings) := Blob.encode out.strings properties
  let (index, blobOffset, blobLength) ← out.room encoded
  return (index, {
    nodes := out.nodes.push {
      typeId := typeId
      flags := flags
      child := 0
      next := 0
      parent := parent.getD index
      blobOffset := blobOffset
      blobLength := blobLength }
    strings := strings
    blob := out.blob ++ encoded
    usesExtensions := out.usesExtensions || TypeRegistry.isExtension typeId })

def patch (out : Flattening) (place : Nat) (change : NodeRecord → NodeRecord) : Flattening :=
  { out with nodes := out.nodes.modify place change }

-- Leads to a node that has been written: to the first child from its parent, to any other
-- from the sibling before it.
def link (out : Flattening) (parent : UInt32) (previous : Option UInt32) (index : UInt32) : Flattening :=
  match previous with
  | none => out.patch parent.toNat fun record => { record with child := index }
  | some sibling => out.patch sibling.toNat fun record => { record with next := index }

mutual

def push (registry : TypeRegistry) (out : Flattening) (depth : Nat) (parent : Option UInt32) :
    Outline → Except CodecError (UInt32 × Flattening)
  | .mk typeName flags properties children =>
    if maxTreeDepth < depth then .error (.tooDeep maxTreeDepth)
    else
      match registry.idOf? typeName with
      | none => .error (.unknownNodeType typeName)
      | some typeId => do
        let (index, out) ← out.append typeId flags properties parent
        let out ← pushAll registry out (depth + 1) index none children
        return (index, out)

def pushAll (registry : TypeRegistry) (out : Flattening) (depth : Nat) (parent : UInt32)
    (previous : Option UInt32) : List Outline → Except CodecError Flattening
  | [] => .ok out
  | node :: rest => do
    let (index, out) ← push registry out depth (some parent) node
    pushAll registry (out.link parent previous index) depth parent (some index) rest

end

end Flattening

-- Type names are resolved through `registry`. The table of types is kept only if a kind
-- that is not built in occurs.
def Outline.flattenWith (registry : TypeRegistry) (tree : Outline) : Except CodecError FlatTree := do
  let (root, out) ← Flattening.push registry .start 0 none tree
  FlatTree.setRoot {
    root := 0
    nodes := out.nodes
    strings := out.strings
    types := if out.usesExtensions then some registry.typeTable else none
    blob := out.blob } root

def Node.flattenWith (registry : TypeRegistry) (node : Node) : Except CodecError FlatTree :=
  node.outline.flattenWith registry

def Node.flatten (node : Node) : Except CodecError FlatTree := node.flattenWith .builtin

end PluginBridge
