import PluginBridge.Bytes.Cursor
import PluginBridge.Flat.Tree
namespace PluginBridge

-- The bytes of a flat tree: seven words of header, the node records, the string table,
-- the type table if there is one, and the blob behind its length. All numbers are
-- little-endian words of 32 bits, except the 16-bit type id and flags.
namespace FlatTree

def magic : UInt32 := 0x4C455353

def version : UInt32 := 1

def headerSize : Nat := 28

def recordSize : Nat := 24

def recordBytes (record : NodeRecord) : ByteArray :=
  Bytes.concat [Bytes.u16 record.typeId, Bytes.u16 record.flags.bits, Bytes.u32 record.child,
    Bytes.u32 record.next, Bytes.u32 record.parent, Bytes.u32 record.blobOffset,
    Bytes.u32 record.blobLength]

def tableBytes (entries : Array String) : Except CodecError ByteArray := do
  let count ← Bytes.word32? entries.size
  let texts ← entries.toList.mapM Bytes.text
  return Bytes.concat (Bytes.u32 count :: texts)

def typesBytes : Option (Array String) → Except CodecError ByteArray
  | some names => tableBytes names
  | none => .ok .empty

def toBytes (tree : FlatTree) : Except CodecError ByteArray := do
  let strings ← tableBytes tree.strings.entries
  let types ← typesBytes tree.types
  let stringsAt := headerSize + tree.nodes.size * recordSize
  let typesAt := if tree.types.isSome then stringsAt + strings.size else 0
  let nodesAt ← Bytes.word32? headerSize
  let stringsAt ← Bytes.word32? stringsAt
  let typesAt ← Bytes.word32? typesAt
  let blobSize ← Bytes.word32? tree.blob.size
  let header := [magic, version, tree.nodeCount, tree.root, nodesAt, stringsAt, typesAt]
  return Bytes.concat (header.map Bytes.u32 ++ tree.nodes.toList.map recordBytes ++
    [strings, types, Bytes.u32 blobSize, tree.blob])

def seek (data : ByteArray) (offset length : Nat) : Reader CodecError Unit := fun start =>
  if offset + length ≤ data.size then .ok () offset
  else .error (.offsetOutOfRange offset length data.size) start

def readRecord (data : ByteArray) : Reader CodecError NodeRecord := do
  let typeId ← Cursor.u16 data
  let flags ← Cursor.u16 data
  let child ← Cursor.u32 data
  let next ← Cursor.u32 data
  let parent ← Cursor.u32 data
  let blobOffset ← Cursor.u32 data
  let blobLength ← Cursor.u32 data
  return ⟨typeId, ⟨flags⟩, child, next, parent, blobOffset, blobLength⟩

-- Each entry takes at least the four bytes of its length.
def readTable (data : ByteArray) (place : String) : Reader CodecError (List String) := do
  let count ← Cursor.u32 data
  let offset ← get
  seek data offset (saturatingMul count.toNat 4)
  Cursor.many (Cursor.text data place) count.toNat []

structure Header where
  nodeCount : UInt32
  root : UInt32
  nodesAt : UInt32
  stringsAt : UInt32
  typesAt : UInt32
deriving DecidableEq, Repr

def readMagic (data : ByteArray) : Reader CodecError Unit := do
  let found ← Cursor.u32 data
  if found = magic then pure () else throw (.invalidMagic found)

def readVersion (data : ByteArray) : Reader CodecError Unit := do
  let found ← Cursor.u32 data
  if found = version then pure () else throw (.unsupportedVersion found)

def readHeader (data : ByteArray) : Reader CodecError Header := do
  readMagic data
  readVersion data
  let nodeCount ← Cursor.u32 data
  let root ← Cursor.u32 data
  let nodesAt ← Cursor.u32 data
  let stringsAt ← Cursor.u32 data
  let typesAt ← Cursor.u32 data
  return ⟨nodeCount, root, nodesAt, stringsAt, typesAt⟩

def readNodes (data : ByteArray) (header : Header) : Reader CodecError (List NodeRecord) := do
  seek data header.nodesAt.toNat (header.nodeCount.toNat * recordSize)
  Cursor.many (readRecord data) header.nodeCount.toNat []

def readStrings (data : ByteArray) (header : Header) : Reader CodecError (List String) := do
  seek data header.stringsAt.toNat 4
  readTable data "string table"

def readTypes (data : ByteArray) (header : Header) : Reader CodecError (Option (Array String)) :=
  if header.typesAt = 0 then pure none
  else do
    seek data header.typesAt.toNat 4
    let names ← readTable data "type table"
    return some names.toArray

-- The sections are found by the offsets in the header, the blob behind whichever table
-- was read last.
def readSections (data : ByteArray) : Reader CodecError FlatTree := do
  let header ← readHeader data
  let nodes ← readNodes data header
  let strings ← readStrings data header
  let types ← readTypes data header
  let blobSize ← Cursor.u32 data
  let blob ← Cursor.bytes data blobSize.toNat
  return ⟨header.root, nodes.toArray, .ofList strings, types, blob⟩

def ofBytes (data : ByteArray) : Except CodecError FlatTree := do
  if data.size < headerSize then throw (.bufferTooSmall headerSize data.size)
  let tree ← Cursor.run (readSections data) 0
  tree.validate
  return tree

end FlatTree
end PluginBridge
