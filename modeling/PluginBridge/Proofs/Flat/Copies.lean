import Mathlib.Data.List.Nodup
import PluginBridge.Proofs.Flat.Acceptance
import PluginBridge.Proofs.Flat.Preorder
namespace PluginBridge

namespace StringTable
variable {table other later : StringTable} {text : String}

structure Within (table other : StringTable) : Prop where
  distinct : table.entries.toList.Nodup
  subset : table.entries.toList ⊆ other.entries.toList

theorem Within.size (within : Within table other) : table.size ≤ other.size := by
  have fewer := (within.distinct.subperm within.subset).length_le
  rwa [Array.length_toList, Array.length_toList] at fewer

theorem Within.grown (within : Within table other) (grown : Extends other later) : Within table later := by
  obtain ⟨more, same⟩ := grown
  refine ⟨within.distinct, fun text among => ?_⟩
  rw [same]
  exact List.mem_append_left _ (within.subset among)

theorem Within.empty (other : StringTable) : Within .empty other := ⟨.nil, List.nil_subset _⟩

theorem intern_mem (table : StringTable) (text : String) : text ∈ (table.intern text).2.entries.toList := by
  by_contra absent
  cases (intern_place table text).symm.trans (indexOf?_none.mpr absent)

theorem Within.intern (within : Within table other) (text : String) :
    Within (table.intern text).2 (other.intern text).2 := by
  have kept := within.grown (intern_extends other text)
  have entered := intern_mem other text
  generalize (other.intern text).2 = grown at kept entered
  cases known : table.indexOf? text with
  | some index =>
    rw [intern_known known]
    exact kept
  | none =>
    have fresh := indexOf?_none.mp known
    refine ⟨?_, ?_⟩
    · rw [(intern_new fresh).2, Array.toList_push]
      exact List.nodup_append.mpr ⟨kept.distinct, List.nodup_singleton _, fun old among new last =>
        fun same => fresh (List.mem_singleton.mp last ▸ same ▸ among)⟩
    · rw [(intern_new fresh).2, Array.toList_push]
      refine List.append_subset.mpr ⟨kept.subset, fun new last => ?_⟩
      rwa [List.mem_singleton.mp last]

theorem Within.internAll (within : Within table other) (texts : List String) :
    Within (table.internAll texts) (other.internAll texts) := by
  induction texts generalizing table other with
  | nil => exact within
  | cons text rest ih => exact ih (within.intern text)

end StringTable

namespace Flattening.Fields
variable {stock other : Fields}

theorem addAll_within (within : stock.strings.Within other.strings) (nodes : List (Nat × Outline)) :
    (stock.addAll nodes).strings.Within (other.addAll nodes).strings := by
  rw [addAll_strings, addAll_strings]
  exact within.internAll _

mutual

theorem addAll_depth (stock : Fields) (depth other : Nat) : ∀ node : Outline,
    stock.addAll (node.preorder depth) = stock.addAll (node.preorder other)
  | .mk typeName flags properties children =>
    addAll_depths (stock.add (depth, .mk typeName flags properties children)) (depth + 1) (other + 1) children

theorem addAll_depths (stock : Fields) (depth other : Nat) : ∀ nodes : List Outline,
    stock.addAll (Outline.preorderAll depth nodes) = stock.addAll (Outline.preorderAll other nodes)
  | [] => rfl
  | node :: rest => by
    rw [Outline.preorderAll, Outline.preorderAll, addAll_append, addAll_append, addAll_depth stock depth other node,
      addAll_depths _ depth other rest]

end

theorem addAll_among {node : Outline} {nodes : List Outline} (among : node ∈ nodes) (depth : Nat) (stock : Fields) :
    (start.fields.addAll (node.preorder 0)).strings.Within
      (stock.addAll (Outline.preorderAll depth nodes)).strings := by
  induction nodes generalizing stock with
  | nil => cases among
  | cons first rest ih =>
    rw [Outline.preorderAll, addAll_append]
    rcases List.mem_cons.mp among with rfl | later
    · rw [addAll_depth stock depth 0]
      exact (addAll_within (.empty _) _).grown (addAll_grows _ _).1
    · exact ih later _

end Flattening.Fields

namespace Blob
variable {later : StringTable} {entries : List (String × Property)}

theorem encodeEntries_exact (small : later.size ≤ 0x100000000) (table : StringTable)
    (grown : StringTable.Extends (encodeEntries table entries).2 later) :
    Members.mapValues (decodeProperty later) (Members.mapValues Json.reread (encodeEntries table entries).1) =
      Members.mapValues (fun property => .ok property.reread) entries := by
  induction entries generalizing table with
  | nil => rfl
  | cons entry rest ih =>
    obtain ⟨key, property⟩ := entry
    have middle : StringTable.Extends (encodeProperty table property).2 later :=
      (encodeEntries_extends _ rest).trans grown
    obtain ⟨value, first, same⟩ := decodeProperty_reread middle
    have others := ih (encodeProperty table property).2 grown
    simp only [encodeEntries, Members.mapValues, List.map_cons] at others ⊢
    rw [first, same small, others]

theorem decode_exact (small : later.size ≤ 0x100000000) {table : StringTable}
    (grown : StringTable.Extends (encode table entries).2 later) {fields : Properties} :
    decode later (encode table entries).1 = .ok fields ↔
      (∀ entry ∈ Members.ofList entries, entry.2.levels < Json.maxLevels) ∧
        fields = Members.mapValues Property.reread (Members.ofList entries) := by
  have whole : (∀ entry ∈ Members.ofList entries, entry.2.levels < Json.maxLevels) →
      decode later (encode table entries).1 =
        .ok (Members.mapValues Property.reread (Members.ofList entries)) := by
    intro shallow
    cases entries with
    | nil => rfl
    | cons entry rest =>
      have texts : StringTable.Extends (encodeEntries table (entry :: rest)).2 later := grown
      rw [decode_reread ((encodeEntries_deep table _).mpr shallow)]
      refine decodeEntries_mapped ?_
      rw [← Members.ofList_map, ← Members.ofList_map, encodeEntries_exact small table texts, Members.ofList_map]
  constructor
  · intro decoded
    have shallow := (decode_encode_iff grown).mp ⟨fields, decoded⟩
    rw [whole shallow] at decoded
    exact ⟨shallow, (Except.ok.inj decoded).symm⟩
  · rintro ⟨shallow, rfl⟩
    exact whole shallow

end Blob

namespace FlatTree

-- A node of one tree and a node of another with the same kind, flags, fields and children all
-- the way down. Where the nodes and their texts stand in the tables may differ.
inductive Copy (one other : FlatTree) : UInt32 → UInt32 → Prop where
  | node {i j : UInt32} {record twin : NodeRecord} (here : one.node? i = some record)
      (there : other.node? j = some twin) (typed : record.typeId = twin.typeId) (flagged : record.flags = twin.flags)
      (fields : ∀ fields, one.properties i = .ok fields ↔ other.properties j = .ok fields)
      (children : List.Forall₂ (Copy one other) (one.children i) (other.children j)) : Copy one other i j

end FlatTree

namespace Flattening
variable {registry : TypeRegistry} {out other : Flattening} {node : Outline}

theorem Recorded.properties_exact {place next : Nat} {parent : Option UInt32} {record : NodeRecord} {table : StringTable}
    (types : Option (Array String)) (small : out.strings.size ≤ 0x100000000) (here : place < 0x100000000)
    (recorded : Recorded registry out place next parent node record table) {fields : Properties} :
    (out.tree types).properties (UInt32.ofNat place) = .ok fields ↔
      node.Shallow ∧ fields = Members.mapValues Property.reread (Members.ofList node.properties) := by
  have slice := recorded.slice types
  have found : (out.tree types).node? (UInt32.ofNat place) = some record := recorded.found here
  simp only [FlatTree.properties, found]
  rw [except_done slice]
  exact Blob.decode_exact small recorded.texts

structure Numbered (out : Flattening) : Prop where
  nodes : out.nodes.size < 0x100000000
  texts : out.strings.size ≤ 0x100000000

mutual

theorem Laid.copy (numbered : Numbered out) (others : Numbered other) (types more : Option (Array String))
    {place next spot after : Nat} {parent above : Option UInt32} : ∀ {node : Outline},
    Laid registry out place next parent node → Laid registry other spot after above node →
      place + node.size ≤ out.nodes.size → spot + node.size ≤ other.nodes.size →
        FlatTree.Copy (out.tree types) (other.tree more) (UInt32.ofNat place) (UInt32.ofNat spot)
  | .mk typeName flags properties children, laid, again, room, space => by
    have places : (out.tree types).children (UInt32.ofNat place) = Outline.positions (place + 1) children :=
      laid.children (Nat.le_of_lt numbered.nodes) room
    have spots : (other.tree more).children (UInt32.ofNat spot) = Outline.positions (spot + 1) children :=
      again.children (Nat.le_of_lt others.nodes) space
    obtain ⟨⟨record, table, recorded⟩, below⟩ := laid
    obtain ⟨⟨twin, terms, repeated⟩, under⟩ := again
    rw [Outline.size] at room space
    have small := numbered.nodes
    have few := others.nodes
    have inside : place + 1 + Outline.sizeAll children ≤ out.nodes.size := by omega
    have within : spot + 1 + Outline.sizeAll children ≤ other.nodes.size := by omega
    refine .node (recorded.found (by omega)) (repeated.found (by omega)) ?_ ?_ (fun fields => ?_) ?_
    · exact Option.some.inj (recorded.typed.symm.trans repeated.typed)
    · rw [recorded.flagged, repeated.flagged]
    · rw [recorded.properties_exact types numbered.texts (by omega),
        repeated.properties_exact more others.texts (by omega)]
    · rw [places, spots]
      exact LaidAll.copies numbered others types more below under inside within

theorem LaidAll.copies (numbered : Numbered out) (others : Numbered other) (types more : Option (Array String))
    {place spot : Nat} {parent above : UInt32} : ∀ {nodes : List Outline},
    LaidAll registry out place parent nodes → LaidAll registry other spot above nodes →
      place + Outline.sizeAll nodes ≤ out.nodes.size → spot + Outline.sizeAll nodes ≤ other.nodes.size →
        List.Forall₂ (FlatTree.Copy (out.tree types) (other.tree more)) (Outline.positions place nodes)
          (Outline.positions spot nodes)
  | [], _, _, _, _ => .nil
  | node :: rest, ⟨first, later⟩, ⟨again, behind⟩, room, space => by
    rw [Outline.sizeAll] at room space
    exact .cons (Laid.copy numbered others types more first again (by omega) (by omega))
      (LaidAll.copies numbered others types more later behind (by omega) (by omega))

end

end Flattening

theorem flattenWith_child {registry : TypeRegistry} {node child : Outline} {alone : FlatTree} (fits : node.Fits)
    (among : child ∈ node.children) (flattened : child.flattenWith registry = .ok alone) :
    alone.strings.size ≤ 0x100000000 := by
  have texts := fits.texts
  rw [Outline.preorder_children] at texts
  rw [flattenWith_texts flattened]
  exact Nat.le_trans (Flattening.Fields.addAll_among among 1 _).size texts

end PluginBridge
