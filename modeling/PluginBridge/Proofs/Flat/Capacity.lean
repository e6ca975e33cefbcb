import Mathlib.Data.String.Basic
import PluginBridge.Proofs.Flat.Patching
namespace PluginBridge

theorem utf8_length (chars : List Char) : chars.length ≤ (String.ofList chars).toUTF8.size := by
  have size : (String.ofList chars).toUTF8.size = String.utf8Len chars :=
    String.utf8ByteSize_ofList chars
  rw [size]
  clear size
  induction chars with
  | nil => exact Nat.zero_le _
  | cons char rest ih =>
    have one := char.utf8Size_pos
    rw [String.utf8Len_cons, List.length_cons]
    omega

namespace Json

theorem itemsChars_length (item : Json) (rest : List Json) :
    item.chars.length + (itemsChars rest).length ≤ (itemsChars (item :: rest)).length := by
  cases rest with
  | nil => simp [itemsChars]
  | cons second rest =>
    have more : itemsChars (item :: second :: rest) = item.chars ++ ',' :: itemsChars (second :: rest) :=
      rfl
    rw [more, List.length_append, List.length_cons]
    omega

theorem membersChars_length (members : List (String × Json)) :
    (members.map fun member => member.2.chars.length).sum ≤ (membersChars members).length := by
  induction members with
  | nil => exact Nat.zero_le _
  | cons member rest ih =>
    obtain ⟨key, value⟩ := member
    rw [List.map_cons, List.sum_cons]
    cases rest with
    | nil =>
      simp [membersChars]
      omega
    | cons second rest =>
      have more : membersChars ((key, value) :: second :: rest) =
          stringChars key ++ ':' :: value.chars ++ ',' :: membersChars (second :: rest) := rfl
      simp only [more, List.length_append, List.length_cons] at ih ⊢
      omega

end Json

namespace Blob

mutual

theorem encodeProperty_room (table : StringTable) :
    ∀ property : Property, 2 * (encodeProperty table property).2.size ≤
      2 * table.size + (encodeProperty table property).1.chars.length
  | .string text => by
    have size := table.intern_size text
    simp only [encodeProperty, Json.chars, Json.membersChars, List.length_cons, List.length_append]
    omega
  | .list items => by
    have inside := encodeItems_room table items
    simp only [encodeProperty, Json.chars, List.length_cons, List.length_append]
    omega
  | .null => Nat.le_add_right _ _
  | .bool _ => Nat.le_add_right _ _
  | .number _ => Nat.le_add_right _ _

theorem encodeItems_room (table : StringTable) :
    ∀ items : List Property, 2 * (encodeItems table items).2.size ≤
      2 * table.size + (Json.itemsChars (encodeItems table items).1).length
  | [] => Nat.le_add_right _ _
  | item :: rest => by
    have first := encodeProperty_room table item
    have later := encodeItems_room (encodeProperty table item).2 rest
    have joined := Json.itemsChars_length (encodeProperty table item).1
      (encodeItems (encodeProperty table item).2 rest).1
    simp only [encodeItems]
    omega

end

theorem encodeEntries_room (table : StringTable) (entries : List (String × Property)) :
    2 * (encodeEntries table entries).2.size ≤ 2 * table.size +
      ((encodeEntries table entries).1.map fun member => member.2.chars.length).sum := by
  induction entries generalizing table with
  | nil => exact Nat.le_add_right _ _
  | cons entry rest ih =>
    have first := encodeProperty_room table entry.2
    have later := ih (encodeProperty table entry.2).2
    simp only [encodeEntries, List.map_cons, List.sum_cons]
    omega

theorem encodeEntries_keys (table : StringTable) (entries : List (String × Property)) :
    (encodeEntries table entries).1.map Prod.fst = entries.map Prod.fst := by
  induction entries generalizing table with
  | nil => rfl
  | cons entry rest ih => exact congrArg (entry.1 :: ·) (ih _)

theorem encode_room (table : StringTable) {entries : List (String × Property)}
    (apart : (entries.map Prod.fst).Nodup) :
    2 * (encode table entries).2.size ≤ 2 * table.size + (encode table entries).1.size := by
  unfold encode
  split
  · exact Nat.le_add_right _ _
  · have room := encodeEntries_room table entries
    have keys := encodeEntries_keys table entries
    rw [← keys] at apart
    have kept := ((Members.ofList_perm apart).map fun member => member.2.chars.length).sum_nat
    have values := Json.membersChars_length (Members.ofList (encodeEntries table entries).1)
    have bytes := utf8_length (Json.ofEntries (encodeEntries table entries).1).chars
    rw [Json.ofEntries, Json.chars, List.length_append, List.length_cons] at bytes
    simp only [Json.ofEntries, Json.render, Json.chars]
    omega

end Blob

namespace Outline

mutual

def FieldsApart : Outline → Prop
  | .mk _ _ properties children => (properties.map Prod.fst).Nodup ∧ AllFieldsApart children

def AllFieldsApart : List Outline → Prop
  | [] => True
  | node :: rest => FieldsApart node ∧ AllFieldsApart rest

end

end Outline

namespace Flattening
variable {registry : TypeRegistry} {out later : Flattening}

structure Counted (out : Flattening) : Prop where
  nodes : out.nodes.size ≤ 0x100000000
  texts : 2 * out.strings.size ≤ out.blob.size
  blob : out.blob.size ≤ 2 * 0xFFFFFFFF

theorem Counted.enter {typeId : UInt16} {flags : NodeFlags} {properties : List (String × Property)}
    {hasChildren : Bool} {next : Nat} {parent : Option UInt32} (counted : Counted out)
    (apart : (properties.map Prod.fst).Nodup)
    (done : out.enter typeId flags properties hasChildren next parent = .ok later) :
    Counted later := by
  have room := Blob.encode_room out.strings apart
  have before := counted.texts
  obtain ⟨⟨nodes, blob, added⟩, rfl⟩ := Flattening.enter_iff.mp done
  refine ⟨?_, ?_, ?_⟩
  · rw [Array.size_push]
    exact nodes
  · rw [ByteArray.size_append]
    exact Nat.le_trans room (Nat.add_le_add_right before _)
  · rw [ByteArray.size_append]
    omega

mutual

theorem Counted.lay {depth next : Nat} {parent : Option UInt32} {out later : Flattening}
    (counted : Counted out) :
    ∀ {node : Outline}, node.FieldsApart →
      Flattening.lay registry out depth next parent node = .ok later → Counted later
  | .mk typeName flags properties children, ⟨apart, below⟩, done => by
    rw [Flattening.lay] at done
    split at done
    · cases done
    · split at done
      · cases done
      · obtain ⟨middle, first, done⟩ := except_parts done
        exact Counted.layAll (counted.enter apart first) below done

theorem Counted.layAll {depth : Nat} {parent : UInt32} {out later : Flattening}
    (counted : Counted out) :
    ∀ {nodes : List Outline}, Outline.AllFieldsApart nodes →
      Flattening.layAll registry out depth parent nodes = .ok later → Counted later
  | [], _, done => by
    cases done
    exact counted
  | node :: rest, ⟨first, others⟩, done => by
    rw [Flattening.layAll] at done
    obtain ⟨middle, ran, done⟩ := except_parts done
    exact Counted.layAll (Counted.lay counted first ran) others done

end

end Flattening

theorem flattenWith_counted {registry : TypeRegistry} {node : Outline} {tree : FlatTree}
    (apart : node.FieldsApart) (done : node.flattenWith registry = .ok tree) :
    tree.nodes.size ≤ 0x100000000 ∧ tree.strings.size ≤ 0x100000000 := by
  obtain ⟨out, ran, rfl⟩ := flattenWith_parts done
  have start : Flattening.Counted .start := ⟨by decide, by decide, by decide⟩
  obtain ⟨nodes, texts, blob⟩ := start.lay apart ran
  have few : out.strings.size ≤ 0x100000000 := by omega
  exact ⟨nodes, few⟩

end PluginBridge
