import PluginBridge.Proofs.Flat.Encoding
import PluginBridge.Proofs.Flat.Patching
namespace PluginBridge

namespace FlatTree
variable {tree : FlatTree} {data : ByteArray}

theorem seek_stable (start length : Nat) : Stable fun data => seek data start length := by
  intro data more offset a stop read
  simp only [seek] at read ⊢
  split at read
  · cases read
    rw [if_pos (by rw [ByteArray.size_append]; omega)]
  · cases read

theorem readRecord_stable : Stable readRecord :=
  .bind .u16 fun _ => .bind .u16 fun _ => .bind .u32 fun _ => .bind .u32 fun _ =>
    .bind .u32 fun _ => .bind .u32 fun _ => .bind .u32 fun _ => .pure _

theorem readTable_stable (place : String) : Stable fun data => readTable data place :=
  .bind .u32 fun _ => .bind .get fun _ => .bind (seek_stable _ _) fun _ => .many (.text place) _ _

theorem readHeader_stable : Stable readHeader :=
  .bind (.bind .u32 fun _ => .branch (.pure _) (.throw _)) fun _ =>
    .bind (.bind .u32 fun _ => .branch (.pure _) (.throw _)) fun _ =>
      .bind .u32 fun _ => .bind .u32 fun _ => .bind .u32 fun _ => .bind .u32 fun _ =>
        .bind .u32 fun _ => .pure _

theorem readTypes_stable (header : Header) : Stable fun data => readTypes data header :=
  .branch (.pure _) (.bind (seek_stable _ _) fun _ => .bind (readTable_stable _) fun _ => .pure _)

theorem readSections_stable : Stable readSections :=
  .bind readHeader_stable fun header =>
    .bind (.bind (seek_stable _ _) fun _ => .many readRecord_stable _ _) fun _ =>
      .bind (.bind (seek_stable _ _) fun _ => readTable_stable _) fun _ =>
        .bind (readTypes_stable header) fun _ =>
          .bind .u32 fun _ => .bind (.bytes _) fun _ => .pure _

theorem readSections_ends (data : ByteArray) : Ends data (readSections data) :=
  .after fun _ => .after fun _ => .after fun _ => .after fun _ => .after fun _ => (Ends.bytes _).map _

theorem ofBytes_parts (decoded : ofBytes data = .ok tree) :
    (∃ stop, readSections data 0 = .ok tree stop) ∧ tree.validate = .ok () := by
  unfold ofBytes at decoded
  split at decoded
  · cases decoded
  · obtain ⟨found, ran, decoded⟩ := except_parts decoded
    obtain ⟨_, valid, decoded⟩ := except_parts decoded
    cases decoded
    refine ⟨?_, valid⟩
    unfold Cursor.run at ran
    split at ran
    · rename_i value stop read
      cases ran
      exact ⟨stop, read⟩
    · cases ran

theorem ofBytes_done {stop : Nat} (long : headerSize ≤ data.size)
    (read : readSections data 0 = .ok tree stop) (valid : tree.validate = .ok ()) :
    ofBytes data = .ok tree := by
  unfold ofBytes
  rw [if_neg (by omega)]
  simp only [Cursor.run, read]
  rw [except_done rfl, except_done valid]
  rfl

structure Linked (tree : FlatTree) (record : NodeRecord) : Prop where
  child : record.child < tree.nodeCount
  next : record.next < tree.nodeCount
  parent : record.parent < tree.nodeCount
  range : record.blobOffset.toNat + record.blobLength.toNat ≤ tree.blob.size

structure Sound (tree : FlatTree) : Prop where
  root : 0 < tree.nodeCount → tree.root < tree.nodeCount
  links : ∀ record ∈ tree.nodes.toList, Linked tree record

theorem Sound.parent_within (sound : Sound tree) {index parent : UInt32}
    (named : tree.parent? index = some parent) : parent < tree.nodeCount := by
  unfold parent? at named
  split_ifs at named
  cases found : tree.node? index with
  | none => simp [found] at named
  | some record =>
    simp only [found] at named
    split_ifs at named
    cases named
    exact (sound.links record (Array.mem_toList_iff.mpr (Array.mem_of_getElem? found))).parent

theorem blobSlice_within {record : NodeRecord} (linked : Linked tree record) :
    tree.blobSlice record = .ok (tree.blob.extract record.blobOffset.toNat
      (record.blobOffset.toNat + record.blobLength.toNat)) :=
  if_pos linked.range

theorem blobSlice_range {record : NodeRecord} {bytes : ByteArray}
    (found : tree.blobSlice record = .ok bytes) :
    record.blobOffset.toNat + record.blobLength.toNat ≤ tree.blob.size := by
  simp only [blobSlice] at found
  split at found
  · assumption
  · cases found

theorem validateRecord_iff (index : UInt32) (record : NodeRecord) :
    tree.validateRecord index record = .ok () ↔ Linked tree record := by
  constructor
  · intro valid
    have guarded : ∀ {chosen : Prop} [Decidable chosen] {e : CodecError} {u : Unit},
        (if chosen then (.ok () : Except CodecError Unit) else .error e) = .ok u → chosen := by
      intro chosen _ e u done
      split at done
      · assumption
      · cases done
    obtain ⟨_, child, valid⟩ := except_parts valid
    obtain ⟨_, next, valid⟩ := except_parts valid
    obtain ⟨_, parent, valid⟩ := except_parts valid
    refine ⟨guarded child, guarded next, guarded parent, ?_⟩
    cases found : tree.blobSlice record with
    | ok bytes => exact blobSlice_range found
    | error e =>
      rw [found] at valid
      cases valid
  · intro linked
    simp only [validateRecord, if_pos linked.child, if_pos linked.next, if_pos linked.parent,
      blobSlice_within linked]
    rfl

theorem validateFrom_iff (index : Nat) (records : List NodeRecord) :
    tree.validateFrom index records = .ok () ↔ ∀ record ∈ records, Linked tree record := by
  induction records generalizing index with
  | nil => simp [validateFrom]
  | cons record rest ih =>
    rw [validateFrom, List.forall_mem_cons, ← ih (index + 1),
      ← validateRecord_iff (UInt32.ofNat index) record]
    constructor
    · intro valid
      obtain ⟨_, here, later⟩ := except_parts valid
      exact ⟨here, later⟩
    · rintro ⟨here, later⟩
      rw [except_done here, later]

theorem validate_iff : tree.validate = .ok () ↔ Sound tree := by
  by_cases lost : 0 < tree.nodeCount ∧ tree.nodeCount ≤ tree.root
  · rw [validate, if_pos lost]
    constructor
    · intro valid
      cases valid
    · intro sound
      exact absurd (sound.root lost.1) (UInt32.not_lt.mpr lost.2)
  · rw [validate, if_neg lost]
    constructor
    · intro valid
      refine ⟨?_, (validateFrom_iff 0 _).mp valid⟩
      intro some
      by_contra outside
      exact lost ⟨some, UInt32.not_lt.mp outside⟩
    · intro sound
      exact (validateFrom_iff 0 _).mpr sound.links

end FlatTree

namespace Flattening
variable {registry : TypeRegistry} {out : Flattening}

-- A record at each of `count` positions from `first` on, with its links and range in bounds.
def Bounded (out : Flattening) (first count : Nat) : Prop :=
  ∀ k, k < count → ∃ record, out.nodes[first + k]? = some record ∧
    record.child.toNat < out.nodes.size ∧ record.next.toNat < out.nodes.size ∧
    record.parent.toNat < out.nodes.size ∧
    record.blobOffset.toNat + record.blobLength.toNat ≤ out.blob.size

theorem Bounded.append {first count more : Nat} (left : Bounded out first count)
    (right : Bounded out (first + count) more) : Bounded out first (count + more) := by
  intro k within
  by_cases early : k < count
  · exact left k early
  · have later := right (k - count) (by omega)
    rwa [show first + count + (k - count) = first + k by omega] at later

theorem Recorded.bounded {place next : Nat} {parent : Option UInt32} {node : Outline}
    {record : NodeRecord} {table : StringTable} (small : out.nodes.size < 0x100000000)
    (recorded : Recorded registry out place next parent node record table)
    (room : place + node.size ≤ out.nodes.size) (nextIn : next < out.nodes.size)
    (parentIn : ∀ index ∈ parent, index.toNat < out.nodes.size) : Bounded out place 1 := by
  have held := recorded.blob.within
  have weight := node.size_children
  have here : (UInt32.ofNat place).toNat = place := toNat_word (by omega)
  rintro k within
  refine ⟨record, by rw [Nat.lt_one_iff.mp within]; exact recorded.stands, ?_, ?_, ?_, ?_⟩
  · rw [recorded.child]
    cases below : node.children with
    | nil =>
      simp
      omega
    | cons child rest =>
      have present := child.size_children
      rw [below, Outline.sizeAll] at weight
      simp [UInt32.toNat_add, here]
      omega
  · rw [recorded.next, toNat_word (by omega)]
    exact nextIn
  · rw [recorded.parent]
    cases parent with
    | none =>
      rw [Option.getD_none, here]
      omega
    | some index => exact parentIn index rfl
  · rw [recorded.length]
    exact held

mutual

theorem Laid.bounded (small : out.nodes.size < 0x100000000) {place next : Nat}
    {parent : Option UInt32} :
    ∀ {node : Outline}, Laid registry out place next parent node →
      place + node.size ≤ out.nodes.size → next < out.nodes.size →
      (∀ index ∈ parent, index.toNat < out.nodes.size) → Bounded out place node.size
  | .mk _ _ _ children, ⟨⟨_, _, recorded⟩, below⟩, room, nextIn, parentIn => by
    have first := recorded.bounded small room nextIn parentIn
    rw [Outline.size] at room ⊢
    have here : (UInt32.ofNat place).toNat = place := toNat_word (by omega)
    rw [Nat.add_comm]
    exact first.append (below.bounded small (by omega) (by rw [here]; omega))

theorem LaidAll.bounded (small : out.nodes.size < 0x100000000) {place : Nat} {parent : UInt32} :
    ∀ {nodes : List Outline}, LaidAll registry out place parent nodes →
      place + Outline.sizeAll nodes ≤ out.nodes.size → parent.toNat < out.nodes.size →
      Bounded out place (Outline.sizeAll nodes)
  | [], _, _, _ => fun _ within => absurd within (Nat.not_lt_zero _)
  | node :: rest, ⟨first, later⟩, room, parentIn => by
    rw [Outline.sizeAll] at room ⊢
    refine Bounded.append (first.bounded small (by omega) ?_ ?_) (later.bounded small (by omega) parentIn)
    · cases rest with
      | nil =>
        simp
        omega
      | cons second _ =>
        have present := second.size_children
        rw [Outline.sizeAll] at room
        simp
        omega
    · intro index same
      cases same
      exact parentIn

end

theorem Laid.sound {node : Outline} (small : out.nodes.size < 0x100000000)
    (count : out.nodes.size = node.size) (laid : Laid registry out 0 0 none node)
    (types : Option (Array String)) : FlatTree.Sound (out.tree types) := by
  have present := node.size_children
  have number : (out.tree types).nodeCount.toNat = out.nodes.size := toNat_word small
  have bounded := laid.bounded small (by omega) (by omega) (by simp)
  refine ⟨id, fun record among => ?_⟩
  change record ∈ out.nodes.toList at among
  obtain ⟨k, within, rfl⟩ := List.mem_iff_getElem.mp among
  rw [Array.length_toList] at within
  obtain ⟨record, stands, child, next, parent, range⟩ := bounded k (count ▸ within)
  rw [Nat.zero_add, Array.getElem?_eq_getElem within] at stands
  cases stands
  rw [Array.getElem_toList]
  exact ⟨UInt32.lt_iff_toNat_lt.mpr (number ▸ child), UInt32.lt_iff_toNat_lt.mpr (number ▸ next),
    UInt32.lt_iff_toNat_lt.mpr (number ▸ parent), range⟩

end Flattening

theorem flattenWith_sound {registry : TypeRegistry} {node : Outline} {tree : FlatTree}
    (done : node.flattenWith registry = .ok tree) (small : tree.nodes.size < 0x100000000) :
    FlatTree.Sound tree := by
  obtain ⟨out, rfl, count, _, laid⟩ := flattenWith_laid done
  exact laid.sound small count _

end PluginBridge
