import PluginBridge.Proofs.Flat.RoundTrip
import PluginBridge.Proofs.Flat.Placement
namespace PluginBridge

-- Every text that was entered leads to a text, even where so many were that the indices repeat.
theorem StringTable.get?_entered {table : StringTable} {text : String} {index : UInt32}
    (known : table.places.get? text = some index) : ∃ found, table.get? index = some found := by
  obtain ⟨place, first, rfl⟩ := indexOf?_first known
  obtain ⟨within, -⟩ := List.idxOf?_eq_some_iff.mp first
  have fewer : (UInt32.ofNat place).toNat ≤ place := by
    rw [UInt32.toNat_ofNat']
    exact Nat.mod_le _ _
  exact ⟨_, Array.getElem?_eq_getElem (Nat.lt_of_le_of_lt fewer within)⟩

namespace Property

mutual

def reread : Property → Property
  | .number x => .ofJson (Json.ofFloat x).reread
  | .list items => .list (allReread items)
  | .null => .null
  | .bool b => .bool b
  | .string s => .string s

def allReread : List Property → List Property
  | [] => []
  | item :: rest => item.reread :: allReread rest

end

end Property

namespace Blob
variable {table later : StringTable} {entries : List (String × Property)}

mutual

theorem encodeProperty_legible (table : StringTable) : ∀ property, (encodeProperty table property).1.Legible
  | .null => trivial
  | .bool _ => trivial
  | .number x => by
    rw [encodeProperty, Json.ofFloat]
    split
    · rename_i finite
      exact finite
    · trivial
  | .string text => by
    have small := (table.intern text).1.toNat_lt
    have fits : (JsonNumber.integer (table.intern text).1.toNat).Legible := by
      rw [JsonNumber.Legible]
      omega
    exact ⟨List.pairwise_singleton _ _, fits, trivial⟩
  | .list items => encodeItems_legible table items

theorem encodeItems_legible (table : StringTable) : ∀ items, Json.ItemsLegible (encodeItems table items).1
  | [] => trivial
  | item :: rest => ⟨encodeProperty_legible table item, encodeItems_legible _ rest⟩

end

mutual

theorem decodeProperty_reread {table : StringTable} : ∀ {property : Property},
    StringTable.Extends (encodeProperty table property).2 later →
      ∃ value, decodeProperty later (encodeProperty table property).1.reread = .ok value ∧
        (later.size ≤ 0x100000000 → value = property.reread)
  | .null, _ => ⟨_, rfl, fun _ => rfl⟩
  | .bool _, _ => ⟨_, rfl, fun _ => rfl⟩
  | .number x, _ => by
    rw [encodeProperty, Property.reread, Json.ofFloat]
    split <;> exact ⟨_, rfl, fun _ => rfl⟩
  | .string text, grown => by
    have place := grown.place (StringTable.intern_place table text)
    obtain ⟨found, there⟩ := StringTable.get?_entered place
    have bound := (table.intern text).1.toNat_lt
    refine ⟨.string found, ?_, fun small => ?_⟩
    · simp only [encodeProperty, Json.reread, Json.membersReread, Json.natural, JsonNumber.reread, decodeProperty,
        Members.get?, Option.bind_some, Json.toWord?, if_true, Int.natCast_nonneg, Int.toNat_natCast,
        if_neg (Nat.not_le.mpr bound), UInt32.ofNat_toNat, there]
    · exact congrArg Property.string (Option.some.inj (there.symm.trans (StringTable.get?_place small place)))
  | .list items, grown => by
    obtain ⟨values, each, same⟩ := @decodeItems_reread table items grown
    refine ⟨.list values, ?_, fun small => congrArg Property.list (same small)⟩
    simp only [encodeProperty, Json.reread, decodeProperty]
    rw [except_done each]
    rfl

theorem decodeItems_reread {table : StringTable} : ∀ {items : List Property},
    StringTable.Extends (encodeItems table items).2 later →
      ∃ values, decodeItems later (Json.itemsReread (encodeItems table items).1) = .ok values ∧
        (later.size ≤ 0x100000000 → values = Property.allReread items)
  | [], _ => ⟨[], rfl, fun _ => rfl⟩
  | item :: rest, grown => by
    have middle : StringTable.Extends (encodeProperty table item).2 later :=
      (encodeItems_extends _ rest).trans grown
    obtain ⟨value, first, same⟩ := decodeProperty_reread middle
    obtain ⟨values, others, alike⟩ := @decodeItems_reread (encodeProperty table item).2 rest grown
    refine ⟨value :: values, ?_, fun small => congrArg₂ List.cons (same small) (alike small)⟩
    simp only [encodeItems, Json.itemsReread, decodeItems]
    rw [except_done first, except_done others]
    rfl

end

theorem encodeEntries_each_reread (table : StringTable)
    (grown : StringTable.Extends (encodeEntries table entries).2 later) :
    ∀ member ∈ (encodeEntries table entries).1,
      member.2.Legible ∧ ∃ value, decodeProperty later member.2.reread = .ok value := by
  induction entries generalizing table with
  | nil => exact List.forall_mem_nil _
  | cons entry rest ih =>
    obtain ⟨key, property⟩ := entry
    have middle : StringTable.Extends (encodeProperty table property).2 later :=
      (encodeEntries_extends _ rest).trans grown
    obtain ⟨value, first, _⟩ := decodeProperty_reread middle
    exact List.forall_mem_cons.mpr
      ⟨⟨encodeProperty_legible table property, value, first⟩, ih _ grown⟩

theorem encodeEntries_levels (table : StringTable) (entries : List (String × Property)) :
    Members.mapValues Json.levels (encodeEntries table entries).1 = Members.mapValues Property.levels entries := by
  induction entries generalizing table with
  | nil => rfl
  | cons entry rest ih =>
    obtain ⟨key, property⟩ := entry
    simp only [encodeEntries, Members.mapValues, List.map_cons, encodeProperty_levels] at ih ⊢
    rw [ih]

theorem decodeEntries_done {members : List (String × Json)}
    (each : ∀ member ∈ members, ∃ value, decodeProperty later member.2 = .ok value) :
    ∃ fields, decodeEntries later members = .ok fields := by
  induction members with
  | nil => exact ⟨[], rfl⟩
  | cons member rest ih =>
    obtain ⟨key, json⟩ := member
    obtain ⟨⟨value, first⟩, others⟩ := List.forall_mem_cons.mp each
    obtain ⟨fields, rest⟩ := ih others
    refine ⟨(key, value) :: fields, ?_⟩
    rw [decodeEntries, except_done first, except_done rest]
    rfl

theorem encode_nonempty (table : StringTable) (entry : String × Property) (rest : List (String × Property)) :
    (encode table (entry :: rest)).1 = (Json.ofEntries (encodeEntries table (entry :: rest)).1).render.toUTF8 ∧
      (encode table (entry :: rest)).1.size ≠ 0 := by
  have written : (encode table (entry :: rest)).1 =
      (Json.ofEntries (encodeEntries table (entry :: rest)).1).render.toUTF8 := rfl
  refine ⟨written, fun none => ?_⟩
  rw [written] at none
  have blank := congrArg String.toList (String.utf8ByteSize_eq_zero_iff.mp none)
  rw [Json.render, String.toList_ofList] at blank
  cases blank

theorem encodeEntries_deep (table : StringTable) (entries : List (String × Property)) :
    (Json.ofEntries (encodeEntries table entries).1).levels ≤ Json.maxLevels ↔
      ∀ entry ∈ Members.ofList entries, entry.2.levels < Json.maxLevels := by
  have collected : Members.mapValues Json.levels (Members.ofList (encodeEntries table entries).1) =
      Members.mapValues Property.levels (Members.ofList entries) := by
    rw [← Members.ofList_map, encodeEntries_levels, Members.ofList_map]
  have same : ∀ limit, (∀ member ∈ Members.ofList (encodeEntries table entries).1, member.2.levels < limit) ↔
      ∀ entry ∈ Members.ofList entries, entry.2.levels < limit := by
    intro limit
    have both := congrArg (fun levels : List (String × Nat) => ∀ entry ∈ levels, entry.2 < limit) collected
    simpa only [Members.mapValues, List.forall_mem_map, eq_iff_iff] using both
  rw [← same]
  constructor
  · exact fun shallow member among => Nat.lt_of_lt_of_le (Nat.lt_succ_of_le (Json.levels_member among)) shallow
  · exact fun each => Nat.succ_le_succ (Json.membersLevels_le.mpr fun member among => Nat.le_of_lt_succ (each member among))

theorem encodeEntries_legible (table : StringTable) (entries : List (String × Property)) :
    (Json.ofEntries (encodeEntries table entries).1).Legible :=
  ⟨Members.ofList_ascending _, Json.membersLegible fun member among =>
    (encodeEntries_each_reread table (.refl _) member (Members.ofList_mem among)).1⟩

theorem decode_reread {entry : String × Property} {rest : List (String × Property)}
    (shallow : (Json.ofEntries (encodeEntries table (entry :: rest)).1).levels ≤ Json.maxLevels) :
    decode later (encode table (entry :: rest)).1 = decodeEntries later
      (Members.mapValues Json.reread (Members.ofList (encodeEntries table (entry :: rest)).1)) := by
  obtain ⟨written, some⟩ := encode_nonempty table entry rest
  rw [decode, if_neg some, written, utf8_back, Option.bind_some,
    Json.parse_legible (encodeEntries_legible table _) shallow, ← Json.membersReread_eq]
  rfl

theorem decode_encode_iff (grown : StringTable.Extends (encode table entries).2 later) :
    (∃ fields, decode later (encode table entries).1 = .ok fields) ↔
      ∀ entry ∈ Members.ofList entries, entry.2.levels < Json.maxLevels := by
  cases entries with
  | nil => exact ⟨fun _ => List.forall_mem_nil _, fun _ => ⟨[], rfl⟩⟩
  | cons entry rest =>
    have texts : StringTable.Extends (encodeEntries table (entry :: rest)).2 later := grown
    have each := encodeEntries_each_reread table texts
    rw [← encodeEntries_deep table]
    by_cases shallow : (Json.ofEntries (encodeEntries table (entry :: rest)).1).levels ≤ Json.maxLevels
    · rw [decode_reread shallow, iff_true_right shallow]
      refine decodeEntries_done fun member among => ?_
      obtain ⟨written, inside, rfl⟩ := List.mem_map.mp among
      exact (each written (Members.ofList_mem inside)).2
    · obtain ⟨written, some⟩ := encode_nonempty table entry rest
      rw [decode, if_neg some, written, utf8_back, Option.bind_some,
        Json.parse_deep (encodeEntries_legible table _) (Nat.lt_of_not_le shallow), iff_false_right shallow]
      rintro ⟨fields, done⟩
      cases done

end Blob

namespace Outline

def Shallow (node : Outline) : Prop :=
  ∀ entry ∈ Members.ofList node.properties, entry.2.levels < Json.maxLevels

end Outline

namespace Flattening
variable {registry other : TypeRegistry} {out : Flattening} {types : Option (Array String)}
  {place next : Nat} {parent : Option UInt32} {node : Outline} {record : NodeRecord} {table : StringTable}
  {slots : List NodeSlot} {lists : List (List UInt32)}

theorem Recorded.properties_iff (types : Option (Array String)) (here : place < 0x100000000)
    (recorded : Recorded registry out place next parent node record table) :
    (∃ fields, (out.tree types).properties (UInt32.ofNat place) = .ok fields) ↔ node.Shallow := by
  have slice := recorded.slice types
  have found : (out.tree types).node? (UInt32.ofNat place) = some record := recorded.found here
  simp only [FlatTree.properties, found]
  rw [except_done slice]
  exact Blob.decode_encode_iff recorded.texts

theorem Laid.slotOf_done (bounded : TypeRegistry.Bounded registry)
    (own : types = none ∨ types = some registry.typeTable) (here : place < 0x100000000)
    (laid : Laid registry out place next parent node) (shallow : node.Shallow)
    (stands : out.nodes[place]? = some record) :
    ∃ slot, (out.tree types).slotOf registry place record = .ok slot := by
  obtain ⟨⟨found, table, recorded⟩, _⟩ := laid.recorded
  obtain rfl : found = record := Option.some.inj (recorded.stands.symm.trans stands)
  have named : (out.tree types).typeNameOf registry found.typeId = .ok node.typeName :=
    typeNameOf_idOf bounded recorded.typed own
  obtain ⟨fields, decoded⟩ := (recorded.properties_iff types here).mpr shallow
  rw [FlatTree.slotOf, except_done named, except_done decoded]
  exact ⟨_, rfl⟩

theorem Laid.shallow (small : out.nodes.size < 0x100000000)
    (collected : Collected other (out.tree types) slots lists) (laid : Laid registry out place next parent node) :
    node.Shallow := by
  obtain ⟨⟨record, table, recorded⟩, _⟩ := laid.recorded
  have within := (Array.getElem?_eq_some_iff.mp recorded.stands).1
  rcases FlatTree.eachFrom_parts collected.slots place with ⟨none, _⟩ | ⟨_, slot, _, _, read⟩
  · rw [Array.getElem?_toList] at none
    cases none.symm.trans recorded.stands
  · obtain ⟨_, _, read⟩ := except_parts read
    obtain ⟨fields, decoded, _⟩ := except_parts read
    rw [Nat.zero_add] at decoded
    exact (recorded.properties_iff _ (Nat.lt_trans within small)).mp ⟨fields, decoded⟩

theorem lay_nodes {depth : Nat} {later : Flattening} (few : out.nodes.size ≤ 0x100000000)
    (done : lay registry out depth next parent node = .ok later) : later.nodes.size ≤ 0x100000000 := by
  refine lay_keeps (fun out => out.nodes.size ≤ 0x100000000) (fun _ done => ?_) few done
  obtain ⟨⟨nodes, _⟩, rfl⟩ := enter_iff.mp done
  rw [Array.size_push]
  exact nodes

end Flattening

theorem flattenWith_nodes {registry : TypeRegistry} {node : Outline} {tree : FlatTree}
    (done : node.flattenWith registry = .ok tree) : tree.nodes.size ≤ 0x100000000 := by
  obtain ⟨out, ran, rfl⟩ := flattenWith_parts done
  exact Flattening.lay_nodes (Nat.zero_le _) ran

namespace Node
variable {registry : TypeRegistry} {node : Node} {tree : FlatTree}

def Shallow (node : Node) : Prop :=
  ∀ inner, Within inner node → ∀ entry ∈ Members.ofList inner.properties, entry.2.levels < Json.maxLevels

theorem outline_shallow (node : Node) : node.outline.Every Outline.Shallow ↔ node.Shallow := by
  simp only [outline_every, Outline.Shallow, outline_properties, Shallow]

theorem unflattenWith_shallow (flattened : node.flattenWith registry = .ok tree) {rebuilt : FlatNode}
    {other : TypeRegistry} (done : tree.unflattenWith other = .ok rebuilt) :
    tree.nodes.size < 0x100000000 ∧ node.Shallow := by
  have few := flattenWith_nodes flattened
  obtain ⟨out, rfl, count, _, laid⟩ := flattenWith_laid flattened
  have small : out.nodes.size < 0x100000000 := by
    refine Nat.lt_of_le_of_ne few fun full => ?_
    have none : (out.tree (Flattening.typesOf registry out)).nodeCount = 0 := by
      change UInt32.ofNat out.nodes.size = 0
      rw [full]
      rfl
    rw [FlatTree.unflattenWith, if_pos none] at done
    cases done
  obtain ⟨slots, lists, later, collected, _⟩ := FlatTree.unflattenWith_parts done
  refine ⟨small, (outline_shallow node).mp (laid.every (fun place next parent inner found _ => ?_) (by omega))⟩
  exact found.shallow small collected

theorem unflattenWith_done (reached : TypeRegistry.Reached registry) (flattened : node.flattenWith registry = .ok tree)
    (small : tree.nodes.size < 0x100000000) (shallow : node.Shallow) :
    ∃ rebuilt, tree.unflattenWith registry = .ok rebuilt := by
  obtain ⟨out, rfl, count, deep, laid⟩ := flattenWith_laid flattened
  have room : out.nodes.size < 0x100000000 := small
  have sound := laid.sound room count (Flattening.typesOf registry out)
  have own := Flattening.typesOf_cases registry out
  obtain ⟨slots, read⟩ := @FlatTree.eachFrom_done _ ((out.tree (Flattening.typesOf registry out)).slotOf registry)
    (out.tree (Flattening.typesOf registry out)).nodes.toList 0 fun k record stands => by
      obtain ⟨stored, _, _, inner, found, _, fine⟩ :=
        laid.recordAt ((outline_shallow node).mpr shallow) count stands
      have within := (Array.getElem?_eq_some_iff.mp stored).1
      rw [Nat.zero_add]
      exact found.slotOf_done reached.bounded own (Nat.lt_trans within room) fine stored
  obtain ⟨lists, listed⟩ := laid.listed room sound count
  exact ⟨_, unflattenWith_collected room sound ⟨read, listed⟩ laid count deep⟩

-- A tree that was flattened can be rebuilt exactly if no field nests deeper than a reader of its text follows
-- and the nodes do not take every position there is.
theorem unflattenWith_iff (reached : TypeRegistry.Reached registry) (flattened : node.flattenWith registry = .ok tree) :
    (∃ rebuilt, tree.unflattenWith registry = .ok rebuilt) ↔ tree.nodes.size < 0x100000000 ∧
      ∀ inner, Within inner node → ∀ entry ∈ Members.ofList inner.properties, entry.2.levels < Json.maxLevels := by
  constructor
  · rintro ⟨rebuilt, done⟩
    exact unflattenWith_shallow flattened done
  · rintro ⟨small, shallow⟩
    exact unflattenWith_done reached flattened small shallow

end Node

def Property.nested : Nat → Property
  | 0 => .null
  | depth + 1 => .list [nested depth]

theorem Property.nested_levels (depth : Nat) : (nested depth).levels = depth := by
  induction depth with
  | zero => rfl
  | succ depth ih => rw [nested, levels, allLevels, allLevels, ih, Nat.max_zero]

namespace Node

-- A field of as many levels as a reader follows is one level too deep, as it stands inside an object.
theorem unflattenWith_deep : ∃ tree,
    (plain (.extension "Grid" [("a", .nested 127)] [])).flattenWith (TypeRegistry.builtin.register "Grid").2 = .ok tree ∧
      ∀ rebuilt, tree.unflattenWith (TypeRegistry.builtin.register "Grid").2 ≠ .ok rebuilt := by
  have known := TypeRegistry.register_idOf (TypeRegistry.register_builtin "Grid" (by decide))
  obtain ⟨tree, flattened⟩ := flattenWith_leaf
    (outline (plain (.extension "Grid" [("a", .nested 127)] []))) known rfl (by decide +kernel)
  refine ⟨tree, flattened, fun rebuilt done => ?_⟩
  obtain ⟨_, shallow⟩ := unflattenWith_shallow flattened done
  have deep := shallow _ (.here _) ("a", .nested 127) List.mem_cons_self
  rw [Property.nested_levels] at deep
  exact absurd deep (by decide)

theorem unflattenWith_iff_nested : ∃ tree,
    (plain (.extension "Grid" [("a", .nested 126)] [])).flattenWith (TypeRegistry.builtin.register "Grid").2 = .ok tree ∧
      ∃ rebuilt, tree.unflattenWith (TypeRegistry.builtin.register "Grid").2 = .ok rebuilt := by
  have known := TypeRegistry.register_idOf (TypeRegistry.register_builtin "Grid" (by decide))
  obtain ⟨tree, flattened⟩ := flattenWith_leaf
    (outline (plain (.extension "Grid" [("a", .nested 126)] []))) known rfl (by decide +kernel)
  refine ⟨tree, flattened, (unflattenWith_iff (.registered .builtin "Grid") flattened).mpr ⟨?_, ?_⟩⟩
  · rw [flattenWith_size flattened]
    decide
  · refine Within.every (fun entry among => ?_) fun child among => absurd among List.not_mem_nil
    cases List.mem_singleton.mp among
    rw [Property.nested_levels]
    decide

end Node
end PluginBridge
