import PluginBridge.Bytes.Word
import PluginBridge.Flat.Tree
import PluginBridge.Json.Parser
import PluginBridge.Tree.Property
namespace PluginBridge

-- The scalar fields of one node inside the blob: an object whose texts are references
-- into the string table.
namespace Blob

def stringKey : String := "$str"

mutual

def encodeProperty (table : StringTable) : Property → Json × StringTable
  | .string text =>
    let (index, table) := table.intern text
    (.object [(stringKey, .natural index.toNat)], table)
  | .list items =>
    let (items, table) := encodeItems table items
    (.array items, table)
  | .null => (.null, table)
  | .bool b => (.bool b, table)
  | .number x => (.ofFloat x, table)

def encodeItems (table : StringTable) : List Property → List Json × StringTable
  | [] => ([], table)
  | item :: rest =>
    let (item, table) := encodeProperty table item
    let (rest, table) := encodeItems table rest
    (item :: rest, table)

end

def encodeEntries (table : StringTable) : List (String × Property) →
    List (String × Json) × StringTable
  | [] => ([], table)
  | (key, value) :: rest =>
    let (value, table) := encodeProperty table value
    let (rest, table) := encodeEntries table rest
    ((key, value) :: rest, table)

-- Texts enter the table in the order of the entries, also those of an entry that a
-- later one of the same name replaces.
def encode (table : StringTable) (entries : List (String × Property)) : ByteArray × StringTable :=
  if entries.isEmpty then (.empty, table)
  else
    let (entries, table) := encodeEntries table entries
    ((Json.ofEntries entries).render.toUTF8, table)

mutual

def decodeProperty (table : StringTable) : Json → Except CodecError Property
  | .object members =>
    match (Members.get? stringKey members).bind Json.toWord? with
    | some index =>
      if 0x100000000 ≤ index then .error (.stringIndexOutOfRange 0xFFFFFFFF)
      else
        match table.get? (UInt32.ofNat index) with
        | some text => .ok (.string text)
        | none => .error (.stringIndexOutOfRange (UInt32.ofNat index))
    | none => .ok (.ofJson (.object members))
  | .array items => do return .list (← decodeItems table items)
  | json => .ok (.ofJson json)

def decodeItems (table : StringTable) : List Json → Except CodecError (List Property)
  | [] => .ok []
  | item :: rest => do
    let item ← decodeProperty table item
    let rest ← decodeItems table rest
    return item :: rest

end

def decodeEntries (table : StringTable) : List (String × Json) → Except CodecError Properties
  | [] => .ok []
  | (key, value) :: rest => do
    let value ← decodeProperty table value
    let rest ← decodeEntries table rest
    return (key, value) :: rest

-- The column of the first bracket that opens more levels than a reader follows. Brackets
-- inside of texts do not count.
def overflow? (inText : Bool) (level column : Nat) : List UInt8 → Option Nat
  | [] => none
  | 0x5C :: _ :: rest => overflow? inText level (column + 2) rest
  | 0x22 :: rest => overflow? (!inText) level (column + 1) rest
  | byte :: rest =>
    if inText then overflow? inText level (column + 1) rest
    else if byte = 0x5B ∨ byte = 0x7B then
      if level = Json.maxLevels then some column else overflow? inText (level + 1) (column + 1) rest
    else if byte = 0x5D ∨ byte = 0x7D then overflow? inText (level - 1) (column + 1) rest
    else overflow? inText level (column + 1) rest

def decode (table : StringTable) (bytes : ByteArray) : Except CodecError Properties :=
  if bytes.size = 0 then .ok []
  else
    match (String.fromUTF8? bytes).bind Json.parse? with
    | none => .error (.properties (overflow? false 0 1 (Bytes.toList bytes)))
    | some (.object members) => decodeEntries table members
    | some _ => .ok []

end Blob

def FlatTree.properties (tree : FlatTree) (index : UInt32) : Except CodecError Properties := do
  match tree.node? index with
  | some record => Blob.decode tree.strings (← tree.blobSlice record)
  | none => .error (.invalidLink index .self index)

end PluginBridge
