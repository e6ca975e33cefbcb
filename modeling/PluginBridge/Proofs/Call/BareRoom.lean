import PluginBridge.Proofs.Call.RegionRoute
import PluginBridge.Proofs.Call.Rebuilding
import PluginBridge.Proofs.Flat.Copies
namespace PluginBridge

theorem mapM_each {ε α β : Type} {f : α → Except ε β} {values : List α} (each : ∀ a ∈ values, ∃ b, f a = .ok b) :
    ∃ results, values.mapM f = .ok results := by
  induction values with
  | nil => exact ⟨[], rfl⟩
  | cons value rest ih =>
    obtain ⟨⟨b, first⟩, others⟩ := List.forall_mem_cons.mp each
    obtain ⟨bs, later⟩ := ih others
    refine ⟨b :: bs, ?_⟩
    rw [List.mapM_cons, except_done first, except_done later]
    rfl

theorem forall₂_mem {α β : Type} {related : α → β → Prop} {as : List α} {bs : List β}
    (each : List.Forall₂ related as bs) {a : α} (among : a ∈ as) : ∃ b ∈ bs, related a b := by
  induction each with
  | nil => cases among
  | cons first _ ih =>
    rcases List.mem_cons.mp among with rfl | later
    · exact ⟨_, List.mem_cons_self, first⟩
    · obtain ⟨b, there, same⟩ := ih later
      exact ⟨b, List.mem_cons_of_mem _ there, same⟩

namespace Json

-- The bytes that a value takes, and those that items and members take with what stands behind each.
def width (json : Json) : Nat := String.utf8Len json.chars

def itemsWidth (items : List Json) : Nat := (items.map fun item => item.width + 1).sum

def membersWidth (members : List (String × Json)) : Nat :=
  (members.map fun member => String.utf8Len (stringChars member.1) + member.2.width + 2).sum

theorem render_width (json : Json) : json.render.toUTF8.size = json.width := String.utf8ByteSize_ofList json.chars

theorem itemsChars_width (item : Json) (rest : List Json) :
    String.utf8Len (itemsChars (item :: rest)) + 1 = itemsWidth (item :: rest) := by
  induction rest generalizing item with
  | nil => rfl
  | cons second rest ih =>
    have more : itemsChars (item :: second :: rest) = item.chars ++ ',' :: itemsChars (second :: rest) := rfl
    have comma : ','.utf8Size = 1 := by decide
    rw [more, String.utf8Len_append, String.utf8Len_cons, comma, ih second]
    simp only [itemsWidth, width, List.map_cons, List.sum_cons]
    omega

theorem membersChars_width (member : String × Json) (rest : List (String × Json)) :
    String.utf8Len (membersChars (member :: rest)) + 1 = membersWidth (member :: rest) := by
  have colon : ':'.utf8Size = 1 := by decide
  have comma : ','.utf8Size = 1 := by decide
  induction rest generalizing member with
  | nil =>
    simp only [membersChars, membersWidth, width, String.utf8Len_append, String.utf8Len_cons, colon, List.map_cons,
      List.map_nil, List.sum_cons, List.sum_nil]
    omega
  | cons second rest ih =>
    have more : membersChars (member :: second :: rest) =
        stringChars member.1 ++ ':' :: member.2.chars ++ ',' :: membersChars (second :: rest) := rfl
    rw [more, String.utf8Len_append, String.utf8Len_append, String.utf8Len_cons, String.utf8Len_cons, colon, comma,
      ih second]
    simp only [membersWidth, width, List.map_cons, List.sum_cons]
    omega

theorem membersWidth_perm {members others : List (String × Json)} (moved : members.Perm others) :
    membersWidth members = membersWidth others := by
  unfold membersWidth
  exact (moved.map _).sum_nat

theorem array_width (item : Json) (rest : List Json) :
    (Json.array (item :: rest)).width = itemsWidth (item :: rest) + 1 := by
  have bracket : '['.utf8Size = 1 ∧ ']'.utf8Size = 1 := by decide
  rw [← itemsChars_width]
  simp only [width, chars, List.cons_append, String.utf8Len_cons, String.utf8Len_append, bracket, String.utf8Len_nil]

theorem object_width (member : String × Json) (rest : List (String × Json)) :
    (Json.object (member :: rest)).width = membersWidth (member :: rest) + 1 := by
  have brace : '\x7b'.utf8Size = 1 ∧ '\x7d'.utf8Size = 1 := by decide
  rw [← membersChars_width]
  simp only [width, chars, List.cons_append, String.utf8Len_cons, String.utf8Len_append, brace, String.utf8Len_nil]

theorem natural_width (index : UInt32) : 1 ≤ (natural index.toNat).width ∧ (natural index.toNat).width ≤ 10 := by
  have single : ∀ digits : List Char, (∀ c ∈ digits, c.isDigit = true) → String.utf8Len digits = digits.length := by
    intro digits each
    induction digits with
    | nil => rfl
    | cons c rest ih =>
      obtain ⟨first, others⟩ := List.forall_mem_cons.mp each
      have low : c.val ≤ 57 := by
        rw [Char.isDigit, Bool.and_eq_true, decide_eq_true_eq, decide_eq_true_eq] at first
        exact first.2
      have one : c.utf8Size = 1 := Char.utf8Size_eq_one_iff.mpr (UInt32.le_trans low (by decide))
      rw [String.utf8Len_cons, ih others, one, List.length_cons]
  have written : (natural index.toNat).chars = Nat.toDigits 10 index.toNat := rfl
  have bound := index.toNat_lt
  rw [width, written, single _ (Parser.Digits.toDigits index.toNat).2]
  exact ⟨Nat.length_toDigits_pos, (Nat.length_toDigits_le_iff (by decide) (by decide)).mpr (by omega)⟩

end Json

namespace Blob

mutual

theorem encodeProperty_width (table other : StringTable) : ∀ property : Property,
    (encodeProperty other property).1.width ≤ 2 * (encodeProperty table property).1.width
  | .string text => by
    have shortest := (Json.natural_width (table.intern text).1).1
    have longest := (Json.natural_width (other.intern text).1).2
    have key : String.utf8Len (Json.stringChars stringKey) = 6 := by decide
    simp only [encodeProperty, Json.object_width, Json.membersWidth, List.map_cons, List.map_nil, List.sum_cons,
      List.sum_nil, key]
    omega
  | .list items => by
    have inside := encodeItems_width table other items
    cases items with
    | nil => exact Nat.le_mul_of_pos_left _ Nat.two_pos
    | cons item rest =>
      simp only [encodeProperty, encodeItems, Json.array_width] at inside ⊢
      omega
  | .null | .bool _ | .number _ => Nat.le_mul_of_pos_left _ Nat.two_pos

theorem encodeItems_width (table other : StringTable) : ∀ items : List Property,
    Json.itemsWidth (encodeItems other items).1 ≤ 2 * Json.itemsWidth (encodeItems table items).1
  | [] => Nat.le_refl 0
  | item :: rest => by
    have first := encodeProperty_width table other item
    have later := encodeItems_width (encodeProperty table item).2 (encodeProperty other item).2 rest
    simp only [encodeItems, Json.itemsWidth, List.map_cons, List.sum_cons] at later ⊢
    omega

end

theorem encodeEntries_width (table other : StringTable) (entries more : List (String × Property)) :
    Json.membersWidth (encodeEntries other entries).1 ≤ 2 * Json.membersWidth (encodeEntries table (entries ++ more)).1 := by
  induction entries generalizing table other with
  | nil => exact Nat.zero_le _
  | cons entry rest ih =>
    have first := encodeProperty_width table other entry.2
    have later := ih (encodeProperty table entry.2).2 (encodeProperty other entry.2).2
    simp only [List.cons_append, encodeEntries, Json.membersWidth, List.map_cons, List.sum_cons] at later ⊢
    omega

theorem encode_width (table : StringTable) {entries : List (String × Property)} (some : entries ≠ [])
    (apart : (entries.map Prod.fst).Nodup) :
    (encode table entries).1.size = Json.membersWidth (encodeEntries table entries).1 + 1 := by
  have keys := encodeEntries_keys table entries
  rw [← keys] at apart
  have kept := Members.ofList_perm apart
  have same := Json.membersWidth_perm kept
  obtain ⟨entry, rest, rfl⟩ := List.exists_cons_of_ne_nil some
  obtain ⟨written, -⟩ := encode_nonempty table entry rest
  rw [written, Json.render_width, Json.ofEntries, ← same]
  cases listed : Members.ofList (encodeEntries table (entry :: rest)).1 with
  | nil =>
    rw [listed] at kept
    cases List.nil_perm.mp kept
  | cons member others => exact Json.object_width member others

theorem encode_lighter (table other : StringTable) {entries more : List (String × Property)}
    (apart : ((entries ++ more).map Prod.fst).Nodup) :
    (encode other entries).1.size ≤ 2 * (encode table (entries ++ more)).1.size := by
  by_cases none : entries = []
  · rw [none]
    exact Nat.zero_le _
  · have fewer := encodeEntries_width table other entries more
    have front : (entries.map Prod.fst).Nodup := by
      rw [List.map_append] at apart
      exact (List.nodup_append.mp apart).1
    rw [encode_width other none front, encode_width table (List.append_ne_nil_of_left_ne_nil none more) apart]
    omega

end Blob

theorem StringTable.Within.trans {table other third : StringTable} (first : Within table other)
    (second : Within other third) : Within table third :=
  ⟨first.distinct, fun _ among => second.subset (first.subset among)⟩

namespace Flattening

structure Lighter (light full : Nat × Outline) : Prop where
  depth : light.1 = full.1
  named : light.2.typeName = full.2.typeName
  apart : (full.2.properties.map Prod.fst).Nodup
  fields : ∃ more, full.2.properties = light.2.properties ++ more

namespace Fields
variable {stock other : Fields} {light full : List (Nat × Outline)}

theorem addAll_lighter (lighter : List.Forall₂ Lighter light full) (less : stock.blob.size ≤ 2 * other.blob.size) :
    (stock.addAll light).blob.size ≤ 2 * (other.addAll full).blob.size := by
  induction lighter generalizing stock other with
  | nil => exact less
  | cons first _ ih =>
    refine ih ?_
    obtain ⟨more, same⟩ := first.fields
    have apart := first.apart
    rw [same] at apart
    have shorter := Blob.encode_lighter other.strings stock.strings apart
    rw [← same] at shorter
    rw [add, add, ByteArray.size_append, ByteArray.size_append]
    omega

theorem addAll_fewer (lighter : List.Forall₂ Lighter light full) (within : stock.strings.Within other.strings) :
    (stock.addAll light).strings.Within (other.addAll full).strings := by
  induction lighter generalizing stock other with
  | nil => exact within
  | cons first _ ih =>
    refine ih ?_
    obtain ⟨more, same⟩ := first.fields
    rw [add, add, Blob.encode_table, Blob.encode_table, same, List.flatMap_append, StringTable.internAll_append]
    exact (within.internAll _).grown (StringTable.internAll_extends _ _)

end Fields

mutual

theorem lay_builtin {depth next : Nat} {parent : Option UInt32} {out later : Flattening}
    (before : out.usesExtensions = false) : ∀ {node : Outline},
      lay .builtin out depth next parent node = .ok later → later.usesExtensions = false
  | .mk typeName flags properties children, done => by
    rw [lay] at done
    split at done
    · cases done
    · split at done
      · cases done
      · rename_i typeId known
        obtain ⟨middle, first, done⟩ := except_parts done
        refine layAll_builtin ?_ done
        obtain ⟨-, rfl⟩ := enter_iff.mp first
        have own : TypeRegistry.isExtension typeId = false := by
          unfold TypeRegistry.idOf? at known
          split at known
          · rename_i kind _
            cases known
            simp only [TypeRegistry.isExtension, NodeKind.ofId_id, Option.isNone_some]
          · simp [TypeRegistry.builtin] at known
        simp only [before, own, Bool.or_false]

theorem layAll_builtin {depth : Nat} {parent : UInt32} {out later : Flattening}
    (before : out.usesExtensions = false) : ∀ {nodes : List Outline},
      layAll .builtin out depth parent nodes = .ok later → later.usesExtensions = false
  | [], done => by
    cases done
    exact before
  | node :: rest, done => by
    rw [layAll] at done
    obtain ⟨middle, first, done⟩ := except_parts done
    exact layAll_builtin (lay_builtin before first) done

end

end Flattening

theorem flatten_types {node : Node} {tree : FlatTree} (done : node.flatten = .ok tree) : tree.types = none := by
  obtain ⟨out, ran, rfl⟩ := flattenWith_parts done
  have unused : out.usesExtensions = false := Flattening.lay_builtin rfl ran
  simp only [Flattening.tree, Flattening.typesOf, unused]
  rfl

namespace FlatTree
variable {tree : FlatTree} {encoded : ByteArray}

theorem tableBytes_within {table other : StringTable} (within : table.Within other)
    (written : tableBytes other.entries = .ok encoded) : ∃ shorter, tableBytes table.entries = .ok shorter := by
  obtain ⟨count, counted, written⟩ := except_parts written
  obtain ⟨parts, stored, -⟩ := except_parts written
  have few : table.entries.size < 0x100000000 := Nat.lt_of_le_of_lt within.size (word32_fits counted).1
  have each : ∀ text ∈ table.entries.toList, ∃ part, Bytes.text text = .ok part := by
    intro text among
    obtain ⟨part, -, done⟩ := forall₂_mem (mapM_parts stored) (within.subset among)
    exact ⟨part, done⟩
  obtain ⟨shorter, done⟩ := mapM_each each
  refine ⟨Bytes.concat (Bytes.u32 (UInt32.ofNat table.entries.size) :: shorter), ?_⟩
  rw [tableBytes, except_done (word32_done few), except_done done]
  rfl

theorem toBytes_written (untyped : tree.types = none) (written : tableBytes tree.strings.entries = .ok encoded)
    (few : headerSize + tree.nodes.size * recordSize < 0x100000000) (short : tree.blob.size < 0x100000000) :
    ∃ output, tree.toBytes = .ok output := by
  have nothing : typesBytes none = .ok .empty := rfl
  have nodes : Bytes.word32? headerSize = .ok _ := word32_done (by decide)
  have types : Bytes.word32? 0 = .ok _ := word32_done (by decide)
  rw [toBytes, except_done written, untyped, except_done nothing]
  simp only [Option.isSome_none, Bool.false_eq_true, if_false]
  rw [except_done nodes, except_done (word32_done few), except_done types, except_done (word32_done short)]
  exact ⟨_, rfl⟩

end FlatTree

namespace Node
variable {node : Node} {tree : FlatTree} {bytes : ByteArray}

theorem bare_lighter (builtin : node.Builtin) (depth : Nat) :
    List.Forall₂ Flattening.Lighter (node.bare.outline.preorder depth) (node.outline.preorder depth) := by
  induction node using byChildren generalizing depth with
  | step node ih =>
    obtain ⟨kind, known⟩ := builtin.kind
    rw [Outline.preorder_children, Outline.preorder_children]
    refine .cons ⟨rfl, ?_, ?_, infoProperties node.info, ?_⟩ ?_
    · obtain ⟨info, body⟩ := node
      cases body <;> rfl
    · rw [outline_properties]
      exact properties_apart known
    · obtain ⟨info, body⟩ := node
      rw [outline_properties, outline_properties, properties, properties]
      exact congrArg (· ++ infoProperties info) ((List.append_nil _).trans body.bare_properties).symm
    · have below : ∀ nodes : List Node, (∀ child ∈ nodes, child ∈ node.children) →
          List.Forall₂ Flattening.Lighter (Outline.preorderAll (depth + 1) ((nodes.map bare).map outline))
            (Outline.preorderAll (depth + 1) (nodes.map outline)) := by
        intro nodes among
        induction nodes with
        | nil => exact .nil
        | cons child rest inner =>
          have inside := among child List.mem_cons_self
          exact List.rel_append (ih child inside (builtin.below inside) (depth + 1))
            (inner fun other later => among other (List.mem_cons_of_mem _ later))
      rw [outline_children, outline_children, bare_node_children]
      exact below node.children fun _ among => among

theorem bare_written (builtin : node.Builtin) (flattened : node.flatten = .ok tree)
    (half : tree.blob.size < 0x80000000)
    (written : (plain (.arguments [node])).flatten.bind FlatTree.toBytes = .ok bytes) :
    ∃ answer, node.bare.flatten.bind FlatTree.toBytes = .ok answer := by
  obtain ⟨whole, listed, written⟩ := except_parts written
  obtain ⟨encoding, -⟩ := FlatTree.toBytes_encoding written
  have lighter := bare_lighter builtin 0
  have count : whole.nodes.size = node.outline.size + 1 := flattenWith_size listed
  have places := encoding.strings_place
  have bound := encoding.stringsAt.toNat_lt
  rw [count, FlatTree.headerSize, FlatTree.recordSize] at places
  rw [flattenWith_blob flattened] at half
  have size : node.bare.outline.size = node.outline.size := by
    rw [← Outline.preorder_length 0, ← Outline.preorder_length 0 node.outline]
    exact lighter.length_eq
  -- A bare blob is at most twice as long, and the own one takes less than half of the room.
  have doubled := @Flattening.Fields.addAll_lighter Flattening.start.fields Flattening.start.fields _ _ lighter (by decide)
  have texts : StringTable.Within (Flattening.start.fields.addAll (node.bare.outline.preorder 0)).strings
      whole.strings := by
    rw [flattenWith_texts listed]
    exact (@Flattening.Fields.addAll_fewer Flattening.start.fields Flattening.start.fields _ _ lighter
      (.empty _)).trans (Flattening.Fields.addAll_among List.mem_cons_self 1 _)
  have room : Flattening.Room .start (node.outline.preorder 0) := by
    refine ⟨?_, by omega⟩
    change 0 + (node.outline.preorder 0).length ≤ 0x100000000
    rw [Outline.preorder_length]
    omega
  have fine := (Outline.flattenWith_iff room).1.mp ⟨tree, flattened⟩
  have fits : node.bare.outline.Fits :=
    ⟨by omega, by omega, Nat.le_trans texts.size (Nat.le_of_lt encoding.texts_small)⟩
  have named : ∀ entry ∈ node.bare.outline.preorder 0,
      entry.1 ≤ maxTreeDepth ∧ TypeRegistry.builtin.idOf? entry.2.typeName ≠ none := by
    intro entry among
    obtain ⟨other, there, same⟩ := forall₂_mem lighter among
    rw [same.depth, same.named]
    exact fine other there
  obtain ⟨answer, done⟩ := Outline.flattenWith_named fits named
  obtain ⟨strings, stored⟩ := FlatTree.tableBytes_within (flattenWith_texts done ▸ texts) encoding.strings_written
  -- The list has one record more, and its records leave room for the sections behind them.
  have few : FlatTree.headerSize + answer.nodes.size * FlatTree.recordSize < 0x100000000 := by
    rw [flattenWith_size done, size, FlatTree.headerSize, FlatTree.recordSize]
    omega
  obtain ⟨output, ran⟩ := FlatTree.toBytes_written (flatten_types done) stored few (flattenWith_blob done ▸ fits.blob)
  exact ⟨output, (except_done done).trans ran⟩

end Node
end PluginBridge
