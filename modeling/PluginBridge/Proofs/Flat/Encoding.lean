import PluginBridge.Flat.Bytes
import PluginBridge.Proofs.Bytes.Extension
import PluginBridge.Proofs.Bytes.Readers
namespace PluginBridge

theorem StringTable.ofList_entries (table : StringTable) : ofList table.entries.toList = table :=
  eq_of_entries (by simp [ofList])

namespace FlatTree
variable {tree : FlatTree} {data encoded output : ByteArray} {offset : Nat}

theorem recordBytes_size (record : NodeRecord) : (recordBytes record).size = recordSize := by
  simp [recordBytes, recordSize]

theorem readRecord_reads (record : NodeRecord) :
    Cursor.Reads data (readRecord data) record (recordBytes record) := by
  simp only [recordBytes, Bytes.concat_cons, Bytes.concat_nil]
  exact .bind (.u16 _) (.bind (.u16 _) (.bind (.u32 _) (.bind (.u32 _) (.bind (.u32 _)
    (.bind (.u32 _) (.bind (.u32 _) (.pure record)))))))

theorem records_size (records : List NodeRecord) :
    (Bytes.concat (records.map recordBytes)).size = records.length * recordSize := by
  induction records with
  | nil => simp
  | cons record rest ih =>
    rw [List.map_cons, Bytes.concat_cons, ByteArray.size_append, ih, recordBytes_size,
      List.length_cons, Nat.succ_mul, Nat.add_comm]

theorem seek_done {start length : Nat} (within : start + length ≤ data.size) (from_ : Nat) :
    seek data start length from_ = .ok () start :=
  if_pos within

theorem records_reads (records : List NodeRecord) :
    Cursor.Reads data (Cursor.many (readRecord data) records.length []) records
      (Bytes.concat (records.map recordBytes)) := by
  refine .many (List.forall₂_map_right_iff.mpr (List.forall₂_same.mpr ?_)) []
  exact fun record _ => readRecord_reads record

theorem texts_size {texts : List String} {parts : List ByteArray}
    (stored : List.Forall₂ (fun text part => Bytes.text text = .ok part) texts parts) :
    texts.length * 4 ≤ (Bytes.concat parts).size := by
  induction stored with
  | nil => simp
  | cons first _ ih =>
    obtain ⟨length, _, rfl⟩ := text_stored first
    rw [Bytes.concat_cons, ByteArray.size_append, ByteArray.size_append, Bytes.size_u32,
      List.length_cons]
    omega

theorem table_size {entries : Array String} (written : tableBytes entries = .ok encoded) :
    4 ≤ encoded.size := by
  obtain ⟨count, _, written⟩ := except_parts written
  obtain ⟨parts, _, written⟩ := except_parts written
  cases written
  rw [Bytes.concat_cons, ByteArray.size_append, Bytes.size_u32]
  omega

theorem readTable_reads {entries : Array String} {place : String} (written : tableBytes entries = .ok encoded) :
    Cursor.Reads data (readTable data place) entries.toList encoded := by
  obtain ⟨count, counted, written⟩ := except_parts written
  obtain ⟨parts, stored, written⟩ := except_parts written
  cases written
  have texts := mapM_parts stored
  have number : count.toNat = entries.toList.length := by
    rw [word32_number counted, Array.length_toList]
  have read : Cursor.Reads data (Cursor.many (Cursor.text data place) count.toNat []) entries.toList
      (Bytes.concat parts) := by
    rw [number]
    exact .many (texts.imp fun _ _ => Cursor.Reads.text) []
  rw [Bytes.concat_cons]
  refine (Cursor.Reads.u32 count).bind fun offset held => ?_
  have room : offset + saturatingMul count.toNat 4 ≤ data.size := by
    have enough := texts_size texts
    have within := held.within
    rw [saturatingMul, number]
    omega
  rw [bind_done (get_done _), bind_done (seek_done room _), read held]

structure Encoding (tree : FlatTree) where
  strings : ByteArray
  types : ByteArray
  nodesAt : UInt32
  stringsAt : UInt32
  typesAt : UInt32
  blobSize : UInt32
  strings_written : tableBytes tree.strings.entries = .ok strings
  types_written : typesBytes tree.types = .ok types
  nodes_place : nodesAt.toNat = headerSize
  strings_place : stringsAt.toNat = headerSize + tree.nodes.size * recordSize
  types_place : typesAt.toNat = if tree.types.isSome then stringsAt.toNat + strings.size else 0
  blob_counted : blobSize.toNat = tree.blob.size

namespace Encoding

def header (encoding : Encoding tree) : Header :=
  ⟨tree.nodeCount, tree.root, encoding.nodesAt, encoding.stringsAt, encoding.typesAt⟩

def headerBytes (encoding : Encoding tree) : ByteArray :=
  Bytes.concat ([magic, version, tree.nodeCount, tree.root, encoding.nodesAt, encoding.stringsAt,
    encoding.typesAt].map Bytes.u32)

def nodeBytes (_ : Encoding tree) : ByteArray := Bytes.concat (tree.nodes.toList.map recordBytes)

def blobBytes (encoding : Encoding tree) : ByteArray := Bytes.u32 encoding.blobSize ++ tree.blob

def bytes (encoding : Encoding tree) : ByteArray :=
  encoding.headerBytes ++ (encoding.nodeBytes ++ (encoding.strings ++ (encoding.types ++
    encoding.blobBytes)))

theorem headerBytes_size (encoding : Encoding tree) : encoding.headerBytes.size = headerSize := by
  simp [headerBytes, headerSize]

theorem nodeBytes_size (encoding : Encoding tree) :
    encoding.nodeBytes.size = tree.nodes.size * recordSize := by
  rw [nodeBytes, records_size, Array.length_toList]

end Encoding

theorem toBytes_encoding (written : tree.toBytes = .ok output) :
    ∃ encoding : Encoding tree, encoding.bytes = output := by
  obtain ⟨strings, stringsWritten, written⟩ := except_parts written
  obtain ⟨types, typesWritten, written⟩ := except_parts written
  obtain ⟨nodesAt, nodesPlaced, written⟩ := except_parts written
  obtain ⟨stringsAt, stringsPlaced, written⟩ := except_parts written
  obtain ⟨typesAt, typesPlaced, written⟩ := except_parts written
  obtain ⟨blobSize, blobCounted, written⟩ := except_parts written
  cases written
  refine ⟨{
    strings := strings, types := types, nodesAt := nodesAt, stringsAt := stringsAt
    typesAt := typesAt, blobSize := blobSize
    strings_written := stringsWritten
    types_written := typesWritten
    nodes_place := word32_number nodesPlaced
    strings_place := word32_number stringsPlaced
    types_place := by
      rw [word32_number typesPlaced, word32_number stringsPlaced]
    blob_counted := word32_number blobCounted }, ?_⟩
  simp [Encoding.bytes, Encoding.headerBytes, Encoding.nodeBytes, Encoding.blobBytes,
    ByteArray.append_assoc]

namespace Encoding
variable (encoding : Encoding tree)

include encoding in
theorem nodeCount_exact : tree.nodeCount.toNat = tree.nodes.size := by
  have placed := encoding.strings_place
  have small := encoding.stringsAt.toNat_lt
  simp only [headerSize, recordSize] at placed
  have fits : tree.nodes.size < 0x100000000 := by omega
  exact toNat_word fits

theorem readHeader_reads : Cursor.Reads data (readHeader data) encoding.header encoding.headerBytes := by
  have marked : Cursor.Reads data (readMagic data) () (Bytes.u32 magic ++ .empty) := .bind (.u32 magic) (.pure ())
  have versioned : Cursor.Reads data (readVersion data) () (Bytes.u32 version ++ .empty) :=
    .bind (.u32 version) (.pure ())
  rw [ByteArray.append_empty] at marked versioned
  simp only [headerBytes, List.map_cons, List.map_nil, Bytes.concat_cons, Bytes.concat_nil]
  exact marked.bind (versioned.bind (.bind (.u32 _) (.bind (.u32 _) (.bind (.u32 _) (.bind (.u32 _)
    (.bind (.u32 _) (.pure encoding.header)))))))

theorem readNodes_held (held : Holds data headerSize encoding.nodeBytes) (start : Nat) :
    readNodes data encoding.header start = .ok tree.nodes.toList encoding.stringsAt.toNat := by
  have within := held.within
  rw [encoding.nodeBytes_size] at within
  have count : encoding.header.nodeCount.toNat = tree.nodes.toList.length := by
    rw [Array.length_toList]
    exact encoding.nodeCount_exact
  have place : encoding.header.nodesAt.toNat = headerSize := encoding.nodes_place
  rw [readNodes, place, count, bind_done (seek_done (by rwa [Array.length_toList]) _),
    records_reads _ held, records_size, Array.length_toList, encoding.strings_place]

theorem readStrings_held (held : Holds data encoding.stringsAt.toNat encoding.strings) (start : Nat) :
    readStrings data encoding.header start =
      .ok tree.strings.entries.toList (encoding.stringsAt.toNat + encoding.strings.size) := by
  have within := held.within
  have least := table_size encoding.strings_written
  have place : encoding.header.stringsAt = encoding.stringsAt := rfl
  rw [readStrings, place, bind_done (seek_done (by omega) _),
    readTable_reads encoding.strings_written held]

theorem readTypes_held
    (held : Holds data (encoding.stringsAt.toNat + encoding.strings.size) encoding.types) :
    readTypes data encoding.header (encoding.stringsAt.toNat + encoding.strings.size) =
      .ok tree.types (encoding.stringsAt.toNat + encoding.strings.size + encoding.types.size) := by
  have written := encoding.types_written
  have place := encoding.types_place
  have same : encoding.header.typesAt = encoding.typesAt := rfl
  cases known : tree.types with
  | none =>
    rw [known] at written place
    have absent : encoding.typesAt = 0 := UInt32.toNat_inj.mp (by simpa using place)
    have nothing : encoding.types = .empty := (Except.ok.inj written).symm
    rw [readTypes, same, if_pos absent, nothing]
    rfl
  | some names =>
    rw [known] at written place
    have stands : encoding.typesAt.toNat = encoding.stringsAt.toNat + encoding.strings.size := by
      simpa using place
    have least := table_size encoding.strings_written
    have behind : encoding.typesAt ≠ 0 := by
      intro zero
      rw [zero] at stands
      simp at stands
      omega
    have within := held.within
    have enough := table_size written
    rw [readTypes, same, if_neg behind, stands, bind_done (seek_done (by omega) _),
      bind_done (readTable_reads written held)]
    rfl

theorem readSections_held (held : Holds data 0 encoding.bytes) :
    readSections data 0 = .ok tree encoding.bytes.size := by
  simp only [bytes, blobBytes, Holds.append, encoding.headerBytes_size, encoding.nodeBytes_size,
    Bytes.size_u32, Nat.zero_add, ← encoding.strings_place] at held
  obtain ⟨header, nodes, strings, types, counted, blob⟩ := held
  have number : encoding.blobSize.toNat = tree.blob.size := encoding.blob_counted
  have total : encoding.bytes.size = encoding.stringsAt.toNat + encoding.strings.size +
      encoding.types.size + 4 + tree.blob.size := by
    simp only [bytes, blobBytes, ByteArray.size_append, encoding.headerBytes_size,
      encoding.nodeBytes_size, Bytes.size_u32, encoding.strings_place]
    omega
  have started := encoding.readHeader_reads header
  rw [encoding.headerBytes_size, Nat.zero_add] at started
  rw [readSections, bind_done started,
    bind_done (encoding.readNodes_held nodes _), bind_done (encoding.readStrings_held strings _),
    bind_done (encoding.readTypes_held types), bind_done (Cursor.Reads.u32 _ counted), Bytes.size_u32, number,
    bind_done (Cursor.Reads.bytes _ blob), StringTable.ofList_entries, total]
  rfl

end Encoding

end FlatTree
end PluginBridge
