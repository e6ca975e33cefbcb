import PluginBridge.Flat.Flatten
import PluginBridge.Proofs.Bytes.Readers
import PluginBridge.Proofs.Flat.Blob
namespace PluginBridge

mutual

def Outline.size : Outline → Nat
  | .mk _ _ _ children => Outline.sizeAll children + 1

def Outline.sizeAll : List Outline → Nat
  | [] => 0
  | node :: rest => node.size + Outline.sizeAll rest

end

mutual

def Outline.height : Outline → Nat
  | .mk _ _ _ children => Outline.heightAll children + 1

def Outline.heightAll : List Outline → Nat
  | [] => 0
  | node :: rest => max node.height (Outline.heightAll rest)

end

theorem Outline.size_children (node : Outline) : node.size = Outline.sizeAll node.children + 1 := by
  cases node
  rw [Outline.size, Outline.children]

namespace Flattening

-- Nodes stand in pre-order, so a node's first child follows it at once and its next sibling follows its last
-- descendant. With the sizes of the subtrees known, a record can be written with its links at once.
def entered (out : Flattening) (typeId : UInt16) (flags : NodeFlags) (properties : List (String × Property))
    (hasChildren : Bool) (next : Nat) (parent : Option UInt32) (words : UInt32 × UInt32 × UInt32) : Flattening where
  nodes := out.nodes.push {
    typeId := typeId
    flags := flags
    child := if hasChildren then words.1 + 1 else 0
    next := UInt32.ofNat next
    parent := parent.getD words.1
    blobOffset := words.2.1
    blobLength := words.2.2 }
  strings := (Blob.encode out.strings properties).2
  blob := out.blob ++ (Blob.encode out.strings properties).1
  usesExtensions := out.usesExtensions || TypeRegistry.isExtension typeId

def enter (out : Flattening) (typeId : UInt16) (flags : NodeFlags) (properties : List (String × Property))
    (hasChildren : Bool) (next : Nat) (parent : Option UInt32) : Except CodecError Flattening :=
  (out.room (Blob.encode out.strings properties).1).map (out.entered typeId flags properties hasChildren next parent)

mutual

def lay (registry : TypeRegistry) (out : Flattening) (depth next : Nat) (parent : Option UInt32) :
    Outline → Except CodecError Flattening
  | .mk typeName flags properties children =>
    if maxTreeDepth < depth then .error (.tooDeep maxTreeDepth)
    else
      match registry.idOf? typeName with
      | none => .error (.unknownNodeType typeName)
      | some typeId => do
        let index := UInt32.ofNat out.nodes.size
        let out ← out.enter typeId flags properties (!children.isEmpty) next parent
        layAll registry out (depth + 1) index children

def layAll (registry : TypeRegistry) (out : Flattening) (depth : Nat) (parent : UInt32) :
    List Outline → Except CodecError Flattening
  | [] => .ok out
  | node :: rest => do
    let next := if rest.isEmpty then 0 else out.nodes.size + node.size
    let out ← lay registry out depth next (some parent) node
    layAll registry out depth parent rest

end

variable {registry : TypeRegistry} {out middle later : Flattening} {place next : Nat}
  {parent : Option UInt32}

structure Grows (out later : Flattening) : Prop where
  nodes : ∃ more, later.nodes = out.nodes ++ more
  strings : StringTable.Extends out.strings later.strings
  blob : ∃ more, later.blob = out.blob ++ more

theorem Grows.refl (out : Flattening) : Grows out out :=
  ⟨⟨#[], by simp⟩, .refl _, ⟨.empty, by simp⟩⟩

theorem Grows.trans (first : Grows out middle) (second : Grows middle later) : Grows out later := by
  obtain ⟨⟨nodes, nodesEq⟩, strings, ⟨blob, blobEq⟩⟩ := first
  obtain ⟨⟨moreNodes, moreNodesEq⟩, moreStrings, ⟨moreBlob, moreBlobEq⟩⟩ := second
  exact ⟨⟨nodes ++ moreNodes, by rw [moreNodesEq, nodesEq, Array.append_assoc]⟩,
    strings.trans moreStrings, ⟨blob ++ moreBlob, by rw [moreBlobEq, blobEq, ByteArray.append_assoc]⟩⟩

-- What `record` and its range of the blob say of a node that stands at `place`. The texts of
-- its fields were entered into `table`.
structure Recorded (registry : TypeRegistry) (out : Flattening) (place next : Nat)
    (parent : Option UInt32) (node : Outline) (record : NodeRecord) (table : StringTable) : Prop where
  stands : out.nodes[place]? = some record
  typed : registry.idOf? node.typeName = some record.typeId
  flagged : record.flags = node.flags
  child : record.child = if node.children.isEmpty then 0 else UInt32.ofNat place + 1
  next : record.next = UInt32.ofNat next
  parent : record.parent = parent.getD (UInt32.ofNat place)
  length : record.blobLength.toNat = (Blob.encode table node.properties).1.size
  blob : Holds out.blob record.blobOffset.toNat (Blob.encode table node.properties).1
  texts : StringTable.Extends (Blob.encode table node.properties).2 out.strings

theorem Recorded.grown {node : Outline} {record : NodeRecord} {table : StringTable}
    (recorded : Recorded registry out place next parent node record table) (grows : Grows out later) :
    Recorded registry later place next parent node record table := by
  obtain ⟨⟨nodes, nodesEq⟩, strings, ⟨blob, blobEq⟩⟩ := grows
  obtain ⟨stands, typed, flagged, child, nextEq, parentEq, length, held, texts⟩ := recorded
  have within := (Array.getElem?_eq_some_iff.mp stands).1
  exact ⟨by rw [nodesEq, Array.getElem?_append_left within, stands], typed, flagged, child, nextEq,
    parentEq, length, by rw [blobEq]; exact held.extend blob, texts.trans strings⟩

mutual

def Laid (registry : TypeRegistry) (out : Flattening) (place next : Nat) (parent : Option UInt32) :
    Outline → Prop
  | .mk typeName flags properties children =>
    (∃ record table, Recorded registry out place next parent
      (.mk typeName flags properties children) record table) ∧
      LaidAll registry out (place + 1) (UInt32.ofNat place) children

def LaidAll (registry : TypeRegistry) (out : Flattening) (place : Nat) (parent : UInt32) :
    List Outline → Prop
  | [] => True
  | node :: rest =>
    Laid registry out place (if rest.isEmpty then 0 else place + node.size) (some parent) node ∧
      LaidAll registry out (place + node.size) parent rest

end

mutual

theorem Laid.grown (grows : Grows out later) {place next : Nat} {parent : Option UInt32} :
    ∀ {node : Outline}, Laid registry out place next parent node →
      Laid registry later place next parent node
  | .mk _ _ _ _, laid => by
    obtain ⟨⟨record, table, recorded⟩, below⟩ := laid
    exact ⟨⟨record, table, recorded.grown grows⟩, LaidAll.grown grows below⟩

theorem LaidAll.grown (grows : Grows out later) {place : Nat} {parent : UInt32} :
    ∀ {nodes : List Outline}, LaidAll registry out place parent nodes →
      LaidAll registry later place parent nodes
  | [], _ => trivial
  | _ :: _, ⟨first, rest⟩ => ⟨Laid.grown grows first, LaidAll.grown grows rest⟩

end

theorem room_iff {encoded : ByteArray} {words : UInt32 × UInt32 × UInt32} : out.room encoded = .ok words ↔
    (out.nodes.size < 0x100000000 ∧ out.blob.size < 0x100000000 ∧ encoded.size < 0x100000000) ∧
      words = (UInt32.ofNat out.nodes.size, UInt32.ofNat out.blob.size, UInt32.ofNat encoded.size) := by
  unfold room
  constructor
  · intro done
    obtain ⟨index, counted, done⟩ := except_parts done
    obtain ⟨start, started, done⟩ := except_parts done
    obtain ⟨length, measured, done⟩ := except_parts done
    obtain ⟨nodes, rfl⟩ := word32_fits counted
    obtain ⟨blob, rfl⟩ := word32_fits started
    obtain ⟨fits, rfl⟩ := word32_fits measured
    cases done
    exact ⟨⟨nodes, blob, fits⟩, rfl⟩
  · rintro ⟨⟨nodes, blob, fits⟩, rfl⟩
    have index : Bytes.word32? out.nodes.size = .ok _ := if_pos nodes
    have start : Bytes.word32? out.blob.size = .ok _ := if_pos blob
    have length : Bytes.word32? encoded.size = .ok _ := if_pos fits
    rw [except_done index, except_done start, except_done length]
    rfl

theorem enter_iff {typeId : UInt16} {flags : NodeFlags} {properties : List (String × Property)} {hasChildren : Bool} :
    out.enter typeId flags properties hasChildren next parent = .ok later ↔
      (out.nodes.size < 0x100000000 ∧ out.blob.size < 0x100000000 ∧
        (Blob.encode out.strings properties).1.size < 0x100000000) ∧
      later = {
        nodes := out.nodes.push {
          typeId := typeId
          flags := flags
          child := if hasChildren then UInt32.ofNat out.nodes.size + 1 else 0
          next := UInt32.ofNat next
          parent := parent.getD (UInt32.ofNat out.nodes.size)
          blobOffset := UInt32.ofNat out.blob.size
          blobLength := UInt32.ofNat (Blob.encode out.strings properties).1.size }
        strings := (Blob.encode out.strings properties).2
        blob := out.blob ++ (Blob.encode out.strings properties).1
        usesExtensions := out.usesExtensions || TypeRegistry.isExtension typeId } := by
  unfold enter
  constructor
  · intro done
    cases found : out.room (Blob.encode out.strings properties).1 with
    | error e =>
      rw [found] at done
      cases done
    | ok words =>
      rw [found] at done
      cases done
      obtain ⟨fits, rfl⟩ := room_iff.mp found
      exact ⟨fits, rfl⟩
  · rintro ⟨fits, rfl⟩
    rw [room_iff.mpr ⟨fits, rfl⟩]
    rfl

theorem enter_recorded {typeName : String} {typeId : UInt16} {flags : NodeFlags}
    {properties : List (String × Property)} {children : List Outline}
    (typed : registry.idOf? typeName = some typeId)
    (done : out.enter typeId flags properties (!children.isEmpty) next parent = .ok later) :
    Grows out later ∧ later.nodes.size = out.nodes.size + 1 ∧ ∃ record,
      Recorded registry later out.nodes.size next parent (.mk typeName flags properties children)
        record out.strings := by
  obtain ⟨⟨_, blob, fits⟩, rfl⟩ := enter_iff.mp done
  have texts := Blob.encode_extends out.strings properties
  refine ⟨⟨⟨_, Array.push_eq_append⟩, texts, ⟨_, rfl⟩⟩, Array.size_push _, ?_⟩
  exact ⟨_, {
    stands := Array.getElem?_push_size
    typed := typed
    flagged := rfl
    child := by cases children <;> rfl
    next := rfl
    parent := rfl
    length := toNat_word fits
    blob := by
      have placed := Holds.after out.blob (Blob.encode out.strings properties).1 .empty
      rw [ByteArray.append_empty, ← toNat_word blob] at placed
      exact placed
    texts := .refl _ }⟩

mutual

theorem lay_laid {depth next : Nat} {parent : Option UInt32} {out later : Flattening} :
    ∀ {node : Outline}, lay registry out depth next parent node = .ok later →
      Grows out later ∧ later.nodes.size = out.nodes.size + node.size ∧
        depth + node.height ≤ maxTreeDepth + 1 ∧
          Laid registry later out.nodes.size next parent node
  | .mk typeName flags properties children, done => by
    rw [lay] at done
    split at done
    · cases done
    · rename_i shallow
      split at done
      · cases done
      · rename_i typeId typed
        obtain ⟨middle, first, done⟩ := except_parts done
        obtain ⟨grows, count, record, recorded⟩ := enter_recorded typed first
        obtain ⟨more, total, deep, below⟩ := layAll_laid (by omega) done
        rw [count] at total below
        refine ⟨grows.trans more, ?_, ?_, ⟨record, _, recorded.grown more⟩, below⟩
        · rw [total, Outline.size]
          omega
        · rw [Outline.height]
          omega

theorem layAll_laid {depth : Nat} {parent : UInt32} {out later : Flattening}
    (shallow : depth ≤ maxTreeDepth + 1) :
    ∀ {nodes : List Outline}, layAll registry out depth parent nodes = .ok later →
      Grows out later ∧ later.nodes.size = out.nodes.size + Outline.sizeAll nodes ∧
        depth + Outline.heightAll nodes ≤ maxTreeDepth + 1 ∧
          LaidAll registry later out.nodes.size parent nodes
  | [], done => by
    cases done
    exact ⟨.refl _, rfl, shallow, trivial⟩
  | node :: rest, done => by
    rw [layAll] at done
    obtain ⟨middle, first, done⟩ := except_parts done
    obtain ⟨grows, count, deep, laid⟩ := lay_laid first
    obtain ⟨more, total, deepRest, laidRest⟩ := layAll_laid shallow done
    rw [count] at total laidRest
    refine ⟨grows.trans more, ?_, ?_, laid.grown more, laidRest⟩
    · rw [total, Outline.sizeAll]
      omega
    · rw [Outline.heightAll]
      omega

end

mutual

theorem lay_keeps (keeps : Flattening → Prop) (each : ∀ {out later : Flattening} {typeId : UInt16} {flags : NodeFlags}
    {properties : List (String × Property)} {hasChildren : Bool} {next : Nat} {parent : Option UInt32},
    keeps out → out.enter typeId flags properties hasChildren next parent = .ok later → keeps later)
    {depth next : Nat} {parent : Option UInt32} {out later : Flattening} (before : keeps out) :
    ∀ {node : Outline}, lay registry out depth next parent node = .ok later → keeps later
  | .mk typeName flags properties children, done => by
    rw [lay] at done
    split at done
    · cases done
    · split at done
      · cases done
      · obtain ⟨middle, first, done⟩ := except_parts done
        exact layAll_keeps keeps each (each before first) done

theorem layAll_keeps (keeps : Flattening → Prop) (each : ∀ {out later : Flattening} {typeId : UInt16} {flags : NodeFlags}
    {properties : List (String × Property)} {hasChildren : Bool} {next : Nat} {parent : Option UInt32},
    keeps out → out.enter typeId flags properties hasChildren next parent = .ok later → keeps later)
    {depth : Nat} {parent : UInt32} {out later : Flattening} (before : keeps out) :
    ∀ {nodes : List Outline}, layAll registry out depth parent nodes = .ok later → keeps later
  | [], done => by
    cases done
    exact before
  | node :: rest, done => by
    rw [layAll] at done
    obtain ⟨middle, first, done⟩ := except_parts done
    exact layAll_keeps keeps each (lay_keeps keeps each before first) done

end

end Flattening

end PluginBridge
