import PluginBridge.Proofs.Flat.Soundness
namespace PluginBridge
namespace FlatTree
variable {tree : FlatTree} {output : ByteArray}

-- The trees that a caller can hold: flattened or read from bytes, then with texts added and
-- other roots chosen in any order.
inductive Obtained : FlatTree → Prop where
  | flattened {registry : TypeRegistry} {node : Outline} {tree : FlatTree}
      (done : node.flattenWith registry = .ok tree) : Obtained tree
  | decoded {data : ByteArray} {tree : FlatTree} (done : ofBytes data = .ok tree) : Obtained tree
  | added {tree : FlatTree} (before : Obtained tree) (text : String) : Obtained (tree.addString text).2
  | rooted {tree later : FlatTree} {root : UInt32} (before : Obtained tree)
      (done : tree.setRoot root = .ok later) : Obtained later

theorem Sound.added (sound : Sound tree) (text : String) : Sound (tree.addString text).2 :=
  ⟨sound.root, fun record among =>
    have linked := sound.links record among
    ⟨linked.child, linked.next, linked.parent, linked.range⟩⟩

theorem Sound.rooted {later : FlatTree} {root : UInt32} (small : tree.nodes.size < 0x100000000)
    (sound : Sound tree) (done : tree.setRoot root = .ok later) : Sound later := by
  unfold setRoot at done
  split at done
  · rename_i within
    cases done
    refine ⟨fun _ => ?_, fun record among => ?_⟩
    · rw [UInt32.lt_iff_toNat_lt, nodeCount, toNat_word small]
      exact within
    · have linked := sound.links record among
      exact ⟨linked.child, linked.next, linked.parent, linked.range⟩
  · cases done

theorem setRoot_nodes {later : FlatTree} {root : UInt32} (done : tree.setRoot root = .ok later) :
    later.nodes = tree.nodes := by
  unfold setRoot at done
  split at done
  · cases done
    rfl
  · cases done

theorem Obtained.sound (obtained : Obtained tree) (small : tree.nodes.size < 0x100000000) :
    Sound tree := by
  induction obtained with
  | flattened done => exact flattenWith_sound done small
  | decoded done => exact validate_iff.mp (ofBytes_parts done).2
  | added _ text ih => exact (ih small).added text
  | rooted _ done ih =>
    rw [setRoot_nodes done] at small
    exact (ih small).rooted small done

theorem Encoding.small (encoding : Encoding tree) : tree.nodes.size < 0x100000000 := by
  have placed := encoding.strings_place
  have bound := encoding.stringsAt.toNat_lt
  simp only [headerSize, recordSize] at placed
  omega

theorem Encoding.size_least (encoding : Encoding tree) : headerSize ≤ encoding.bytes.size := by
  rw [bytes, ByteArray.size_append, encoding.headerBytes_size]
  omega

theorem Encoding.ofBytes_append (encoding : Encoding tree) (sound : Sound tree) (more : ByteArray) :
    ofBytes (encoding.bytes ++ more) = .ok tree := by
  have long := encoding.size_least
  have read := encoding.readSections_held ((Holds.whole encoding.bytes).extend more)
  refine ofBytes_done ?_ read (validate_iff.mpr sound)
  rw [ByteArray.size_append]
  omega

theorem Encoding.ofBytes_cut (encoding : Encoding tree) {length : Nat}
    (short : length < encoding.bytes.size) (found : FlatTree) :
    ofBytes (encoding.bytes.extract 0 length) ≠ .ok found := by
  intro decoded
  obtain ⟨⟨stop, read⟩, _⟩ := ofBytes_parts decoded
  have cut : (encoding.bytes.extract 0 length).size = length := by
    rw [ByteArray.size_extract]
    omega
  have early : stop ≤ length := cut ▸ readSections_ends _ 0 found stop read
  have joined : encoding.bytes.extract 0 length ++
      encoding.bytes.extract length encoding.bytes.size = encoding.bytes := by
    rw [ByteArray.extract_append_extract]
    simp [Nat.le_of_lt short]
  have again := readSections_stable _ (encoding.bytes.extract length encoding.bytes.size) 0 found
    stop read
  rw [joined, encoding.readSections_held (Holds.whole encoding.bytes)] at again
  cases again
  omega

theorem bytes_codec (obtained : Obtained tree) (written : tree.toBytes = .ok output) :
    (∀ more, ofBytes (output ++ more) = .ok tree) ∧
      ∀ length < output.size, ∃ e, ofBytes (output.extract 0 length) = .error e := by
  obtain ⟨encoding, rfl⟩ := toBytes_encoding written
  have sound := obtained.sound encoding.small
  refine ⟨encoding.ofBytes_append sound, ?_⟩
  intro length short
  cases result : ofBytes (encoding.bytes.extract 0 length) with
  | ok found => exact absurd result (encoding.ofBytes_cut short found)
  | error e => exact ⟨e, rfl⟩

-- A tree of two nodes with a text added, its second node made the root, and flags that have
-- no meaning.
theorem bytes_codec_extended :
    ∃ (tree : FlatTree) (output : ByteArray), Obtained tree ∧ tree.toBytes = .ok output ∧
      tree.root = 1 ∧ output.size = 90 ∧ (∀ more, ofBytes (output ++ more) = .ok tree) ∧
        ∀ length < output.size, ∃ e, ofBytes (output.extract 0 length) = .error e := by
  let node : Outline := .mk "Paren" ⟨0xF001⟩ [] [.mk "Null" .none [] []]
  have flattened := @Obtained.flattened .builtin node _ rfl
  have rooted := @Obtained.rooted _ _ 1 (flattened.added "px") rfl
  exact ⟨_, _, rooted, rfl, rfl, rfl, bytes_codec rooted rfl⟩

end FlatTree

namespace FlatTree
variable {tree : FlatTree} {data : ByteArray} {header : Header} {start stop : Nat}

theorem seek_parts {place length : Nat} {u : Unit} (read : seek data place length start = .ok u stop) :
    place + length ≤ data.size := by
  unfold seek at read
  split at read
  · assumption
  · cases read

theorem readNodes_parts {records : List NodeRecord}
    (read : readNodes data header start = .ok records stop) :
    records.length = header.nodeCount.toNat ∧ records.length * recordSize ≤ data.size := by
  obtain ⟨_, _, sought, read⟩ := bind_parts read
  have within := seek_parts sought
  have count := Cursor.many_length read
  rw [List.length_nil, Nat.zero_add] at count
  refine ⟨count, ?_⟩
  rw [count]
  omega

theorem readTable_parts {place : String} {texts : List String}
    (read : readTable data place start = .ok texts stop) : texts.length * 4 ≤ data.size := by
  obtain ⟨count, _, _, read⟩ := bind_parts read
  obtain ⟨_, _, _, read⟩ := bind_parts read
  obtain ⟨_, _, sought, read⟩ := bind_parts read
  have within := seek_parts sought
  have small := count.toNat_lt
  have length := Cursor.many_length read
  simp only [saturatingMul, wordLimit] at within
  rw [List.length_nil] at length
  omega

theorem readTypes_parts {types : Option (Array String)}
    (read : readTypes data header start = .ok types stop) :
    ∀ names ∈ types, names.size * 4 ≤ data.size := by
  unfold readTypes at read
  split at read
  · cases read
    intro names none
    cases none
  · obtain ⟨_, _, _, read⟩ := bind_parts read
    obtain ⟨texts, _, listed, read⟩ := bind_parts read
    cases read
    intro names same
    cases same
    exact readTable_parts listed

-- No table is longer than the bytes that it was read from can account for, whatever counts
-- they claim, and the nodes can be counted in a word.
structure Backed (data : ByteArray) (tree : FlatTree) : Prop where
  counted : tree.nodeCount.toNat = tree.nodes.size
  nodes : tree.nodes.size * recordSize ≤ data.size
  strings : tree.strings.size * 4 ≤ data.size
  types : ∀ names ∈ tree.types, names.size * 4 ≤ data.size
  blob : tree.blob.size ≤ data.size

theorem readSections_backed (read : readSections data start = .ok tree stop) : Backed data tree := by
  obtain ⟨header, _, _, read⟩ := bind_parts read
  obtain ⟨records, _, nodes, read⟩ := bind_parts read
  obtain ⟨texts, _, strings, read⟩ := bind_parts read
  obtain ⟨types, _, named, read⟩ := bind_parts read
  obtain ⟨length, _, _, read⟩ := bind_parts read
  obtain ⟨blob, _, last, read⟩ := bind_parts read
  cases read
  obtain ⟨count, room⟩ := readNodes_parts nodes
  obtain ⟨_, _, _, listed⟩ := bind_parts strings
  obtain ⟨within, size⟩ := Cursor.bytes_parts last
  constructor
  · have small := header.nodeCount.toNat_lt
    exact toNat_word (by rw [List.size_toArray]; omega)
  · rwa [List.size_toArray]
  · exact readTable_parts listed
  · exact readTypes_parts named
  · change blob.size ≤ data.size
    omega

-- Any bytes at all are refused or give tables whose links and ranges stay inside of them. The
-- tables may come from sections that overlap; written again they stand apart, and reading
-- those bytes gives the same tables.
theorem ofBytes_any (data : ByteArray) :
    (∃ e, ofBytes data = .error e) ∨
      ∃ tree, ofBytes data = .ok tree ∧ tree.validate = .ok () ∧ Sound tree ∧ Backed data tree ∧
        ∀ output, tree.toBytes = .ok output → ofBytes output = .ok tree := by
  cases decoded : ofBytes data with
  | error e => exact .inl ⟨e, rfl⟩
  | ok tree =>
    obtain ⟨⟨stop, read⟩, valid⟩ := ofBytes_parts decoded
    have sound := validate_iff.mp valid
    refine .inr ⟨tree, rfl, valid, sound, readSections_backed read, ?_⟩
    intro output written
    obtain ⟨encoding, rfl⟩ := toBytes_encoding written
    have again := encoding.ofBytes_append sound .empty
    rwa [ByteArray.append_empty] at again

-- One node of 24 bytes, in which both tables and the blob's length lie as well, the type table
-- before the string table. Written again every section has bytes of its own.
theorem ofBytes_any_overlapping :
    let data := Bytes.concat ([magic, version, 1, 0, 28, 36, 28, 0, 0, 0, 0, 0, 0].map Bytes.u32)
    let tree : FlatTree := ⟨0, #[⟨0, .none, 0, 0, 0, 0, 0⟩], .empty, some #[], .empty⟩
    data.size = 52 ∧ ofBytes data = .ok tree ∧ tree.validate = .ok () ∧ Sound tree ∧
      Backed data tree ∧ ∃ output, tree.toBytes = .ok output ∧ output.size = 64 ∧
        ofBytes output = .ok tree := by
  intro data tree
  have read : ofBytes data = .ok tree := by decide +kernel
  rcases ofBytes_any data with ⟨e, failed⟩ | ⟨found, decoded, valid, sound, backed, again⟩
  · rw [read] at failed
    cases failed
  · rw [read] at decoded
    cases decoded
    exact ⟨rfl, read, valid, sound, backed, _, rfl, rfl, again _ rfl⟩

end FlatTree
end PluginBridge
