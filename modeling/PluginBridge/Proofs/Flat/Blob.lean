import PluginBridge.Flat.Blob
import PluginBridge.Flat.Strings
import PluginBridge.Proofs.Bytes.Readers
import PluginBridge.Proofs.Json.Depth
import PluginBridge.Proofs.Members
namespace PluginBridge

section places
open Members (get?_insert)
variable {places : Members UInt32} {text : String} {index : UInt32} {next : Nat}

theorem firstPlaces_get? (places : Members UInt32) (next : Nat) (texts : List String) (text : String) :
    (firstPlaces places next texts).get? text =
      (places.get? text).or ((texts.idxOf? text).map fun place => UInt32.ofNat (next + place)) := by
  induction texts generalizing places next with
  | nil => exact (Option.or_none).symm
  | cons first rest ih =>
    have later : (rest.idxOf? text).map (fun place => UInt32.ofNat (next + 1 + place)) =
        ((rest.idxOf? text).map (· + 1)).map fun place => UInt32.ofNat (next + place) := by
      rw [Option.map_map]
      congr 1
      funext place
      simp [Nat.add_assoc, Nat.add_comm 1]
    rw [firstPlaces, ih, later, List.idxOf?_cons]
    by_cases here : first = text
    · subst here
      cases known : places.get? first with
      | some index => simp [Members.contains, known]
      | none => simp [Members.contains, known, get?_insert]
    · split
      · simp [here]
      · simp [here, get?_insert]

namespace StringTable
variable {table earlier middle later : StringTable}

def Extends (earlier later : StringTable) : Prop :=
  ∃ more, later.entries.toList = earlier.entries.toList ++ more

theorem Extends.refl (table : StringTable) : Extends table table := ⟨[], by simp⟩

theorem Extends.trans (left : Extends earlier middle) (right : Extends middle later) :
    Extends earlier later := by
  obtain ⟨x, hx⟩ := left
  obtain ⟨y, hy⟩ := right
  exact ⟨x ++ y, by rw [hy, hx, List.append_assoc]⟩

theorem Extends.place (grown : Extends earlier later) (known : earlier.places.get? text = some index) :
    later.places.get? text = some index := by
  obtain ⟨more, same⟩ := grown
  rw [later.places_eq, same, firstPlaces_append, ← earlier.places_eq, firstPlaces_get?, known]
  rfl

theorem indexOf?_eq (table : StringTable) (text : String) :
    table.indexOf? text = (table.entries.toList.idxOf? text).map UInt32.ofNat := by
  rw [indexOf?, table.places_eq, firstPlaces_get?, Members.get?, Option.none_or]
  simp only [Nat.zero_add]

theorem indexOf?_none : table.indexOf? text = none ↔ text ∉ table.entries.toList := by
  rw [indexOf?_eq, Option.map_eq_none_iff, List.idxOf?_eq_none_iff]

theorem intern_known (known : table.indexOf? text = some index) : table.intern text = (index, table) := by
  rw [indexOf?] at known
  unfold intern
  split
  · rename_i other found
    rw [known] at found
    cases found
    rfl
  · rename_i absent
    cases known.symm.trans absent

theorem intern_new (new : text ∉ table.entries.toList) : (table.intern text).1 = UInt32.ofNat table.size ∧
    (table.intern text).2.entries = table.entries.push text := by
  have absent := indexOf?_none.mpr new
  rw [indexOf?] at absent
  unfold intern
  split
  · rename_i index known
    cases known.symm.trans absent
  · exact ⟨rfl, rfl⟩

theorem intern_extends (table : StringTable) (text : String) : Extends table (table.intern text).2 := by
  cases known : table.indexOf? text with
  | some index =>
    rw [intern_known known]
    exact .refl table
  | none => exact ⟨[text], by rw [(intern_new (indexOf?_none.mp known)).2, Array.toList_push]⟩

theorem intern_size (table : StringTable) (text : String) :
    (table.intern text).2.size ≤ table.size + 1 := by
  cases known : table.indexOf? text with
  | some index =>
    rw [intern_known known]
    exact Nat.le_succ _
  | none => rw [size, (intern_new (indexOf?_none.mp known)).2, Array.size_push, size]

theorem intern_place (table : StringTable) (text : String) :
    (table.intern text).2.places.get? text = some (table.intern text).1 := by
  unfold intern
  split
  · assumption
  · exact (get?_insert _ _ _ _).trans (if_pos rfl)

theorem indexOf?_first (known : table.indexOf? text = some index) :
    ∃ place, table.entries.toList.idxOf? text = some place ∧ index = UInt32.ofNat place := by
  rw [indexOf?_eq] at known
  obtain ⟨place, found, same⟩ := Option.map_eq_some_iff.mp known
  exact ⟨place, found, same.symm⟩

theorem get?_place (small : table.size ≤ 0x100000000) (known : table.places.get? text = some index) :
    table.get? index = some text := by
  obtain ⟨place, found, rfl⟩ := indexOf?_first known
  obtain ⟨within, stands, -⟩ := List.idxOf?_eq_some_iff.mp found
  have fits : place < 0x100000000 := Nat.lt_of_lt_of_le within small
  rw [get?, UInt32.toNat_ofNat_of_lt' fits, ← Array.getElem?_toList, List.getElem?_eq_getElem within, stands]

def internAll (table : StringTable) (texts : List String) : StringTable :=
  texts.foldl (fun table text => (table.intern text).2) table

theorem internAll_append (table : StringTable) (texts more : List String) :
    table.internAll (texts ++ more) = (table.internAll texts).internAll more :=
  List.foldl_append

theorem internAll_extends (table : StringTable) (texts : List String) : Extends table (table.internAll texts) := by
  induction texts generalizing table with
  | nil => exact .refl table
  | cons text rest ih => exact (intern_extends table text).trans (ih _)

end StringTable

end places

namespace Property

mutual

def restored : Property → Property
  | .number x => if x.isFinite then .number x else .null
  | .list items => .list (allRestored items)
  | .null => .null
  | .bool b => .bool b
  | .string s => .string s

def allRestored : List Property → List Property
  | [] => []
  | item :: rest => item.restored :: allRestored rest

end

mutual

def levels : Property → Nat
  | .string _ => 1
  | .list items => allLevels items + 1
  | _ => 0

def allLevels : List Property → Nat
  | [] => 0
  | item :: rest => max item.levels (allLevels rest)

end

mutual

def texts : Property → List String
  | .string text => [text]
  | .list items => allTexts items
  | _ => []

def allTexts : List Property → List String
  | [] => []
  | item :: rest => item.texts ++ allTexts rest

end

mutual

def NumbersSurvive : Property → Prop
  | .number x => x.isFinite = true → x.SurvivesText
  | .list items => AllNumbersSurvive items
  | _ => True

def AllNumbersSurvive : List Property → Prop
  | [] => True
  | item :: rest => NumbersSurvive item ∧ AllNumbersSurvive rest

end

end Property

namespace Blob
variable {table later : StringTable}

mutual

theorem encodeProperty_table (table : StringTable) :
    ∀ property : Property, (encodeProperty table property).2 = table.internAll property.texts
  | .string _ => rfl
  | .list items => encodeItems_table table items
  | .null => rfl
  | .bool _ => rfl
  | .number _ => rfl

theorem encodeItems_table (table : StringTable) :
    ∀ items : List Property, (encodeItems table items).2 = table.internAll (Property.allTexts items)
  | [] => rfl
  | item :: rest => by
    rw [Property.allTexts, StringTable.internAll_append, ← encodeProperty_table table item,
      ← encodeItems_table _ rest]
    rfl

end

theorem encodeEntries_table (table : StringTable) (entries : List (String × Property)) :
    (encodeEntries table entries).2 = table.internAll (entries.flatMap fun field => field.2.texts) := by
  induction entries generalizing table with
  | nil => rfl
  | cons entry rest ih =>
    rw [List.flatMap_cons, StringTable.internAll_append, ← encodeProperty_table table entry.2, ← ih]
    rfl

theorem encode_table (table : StringTable) (entries : List (String × Property)) :
    (encode table entries).2 = table.internAll (entries.flatMap fun field => field.2.texts) := by
  cases entries with
  | nil => rfl
  | cons entry rest => exact encodeEntries_table table (entry :: rest)

theorem encodeItems_extends (table : StringTable) (items : List Property) :
    StringTable.Extends table (encodeItems table items).2 := by
  rw [encodeItems_table]
  exact table.internAll_extends _

theorem encodeEntries_extends (table : StringTable) (entries : List (String × Property)) :
    StringTable.Extends table (encodeEntries table entries).2 := by
  rw [encodeEntries_table]
  exact table.internAll_extends _

theorem encode_extends (table : StringTable) (entries : List (String × Property)) :
    StringTable.Extends table (encode table entries).2 := by
  rw [encode_table]
  exact table.internAll_extends _

mutual

theorem encodeProperty_readable (table : StringTable) :
    ∀ {property : Property}, property.NumbersSurvive → (encodeProperty table property).1.Readable
  | .null, _ => trivial
  | .bool _, _ => trivial
  | .number x, survives => by
    rw [encodeProperty, Json.ofFloat]
    split
    · rename_i finite
      exact ⟨finite, survives finite⟩
    · trivial
  | .string text, _ => by
    have small := (table.intern text).1.toNat_lt
    have fits : (JsonNumber.integer (table.intern text).1.toNat).Readable := by
      rw [JsonNumber.Readable]
      omega
    exact ⟨List.pairwise_singleton _ _, fits, trivial⟩
  | .list _, survives => encodeItems_readable table survives

theorem encodeItems_readable (table : StringTable) :
    ∀ {items : List Property}, Property.AllNumbersSurvive items →
      Json.ItemsReadable (encodeItems table items).1
  | [], _ => trivial
  | _ :: _, ⟨first, rest⟩ => ⟨encodeProperty_readable table first, encodeItems_readable _ rest⟩

end

mutual

theorem encodeProperty_levels (table : StringTable) :
    ∀ property : Property, (encodeProperty table property).1.levels = property.levels
  | .null => rfl
  | .bool _ => rfl
  | .number x => by
    rw [encodeProperty, Json.ofFloat]
    split <;> rfl
  | .string _ => rfl
  | .list items => congrArg (· + 1) (encodeItems_levels table items)

theorem encodeItems_levels (table : StringTable) :
    ∀ items : List Property, Json.itemsLevels (encodeItems table items).1 = Property.allLevels items
  | [] => rfl
  | item :: rest => congrArg₂ max (encodeProperty_levels table item) (encodeItems_levels _ rest)

end

mutual

theorem decodeProperty_encode (small : later.size ≤ 0x100000000) {table : StringTable} :
    ∀ {property : Property}, StringTable.Extends (encodeProperty table property).2 later →
      decodeProperty later (encodeProperty table property).1 = .ok property.restored
  | .null, _ => rfl
  | .bool _, _ => rfl
  | .number x, _ => by
    rw [encodeProperty, Json.ofFloat, Property.restored]
    split <;> rfl
  | .string text, grown => by
    have place := grown.place (StringTable.intern_place table text)
    have found := StringTable.get?_place small place
    have bound := (table.intern text).1.toNat_lt
    simp only [encodeProperty, decodeProperty, Members.get?, Json.natural, Option.bind_some, Json.toWord?,
      if_true, Int.natCast_nonneg, Int.toNat_natCast, if_neg (Nat.not_le.mpr bound),
      UInt32.ofNat_toNat, found]
    rfl
  | .list items, grown => by
    have each : decodeItems later (encodeItems table items).1 = .ok (Property.allRestored items) :=
      decodeItems_encode small grown
    simp only [encodeProperty, decodeProperty]
    rw [except_done each]
    rfl

theorem decodeItems_encode (small : later.size ≤ 0x100000000) {table : StringTable} :
    ∀ {items : List Property}, StringTable.Extends (encodeItems table items).2 later →
      decodeItems later (encodeItems table items).1 = .ok (Property.allRestored items)
  | [], _ => rfl
  | item :: rest, grown => by
    have middle : StringTable.Extends (encodeProperty table item).2 later :=
      (encodeItems_extends _ rest).trans grown
    have first := decodeProperty_encode small middle
    have others : decodeItems later (encodeItems (encodeProperty table item).2 rest).1 =
        .ok (Property.allRestored rest) := decodeItems_encode small grown
    simp only [encodeItems, decodeItems]
    rw [except_done first, except_done others]
    rfl

end

theorem encodeEntries_each (small : later.size ≤ 0x100000000) (table : StringTable)
    {entries : List (String × Property)}
    (grown : StringTable.Extends (encodeEntries table entries).2 later) :
    Members.mapValues (decodeProperty later) (encodeEntries table entries).1 =
      Members.mapValues (fun property => .ok property.restored) entries := by
  induction entries generalizing table with
  | nil => rfl
  | cons entry rest ih =>
    obtain ⟨key, property⟩ := entry
    have middle : StringTable.Extends (encodeProperty table property).2 later :=
      (encodeEntries_extends _ rest).trans grown
    have first := decodeProperty_encode small middle
    have others := ih (encodeProperty table property).2 grown
    simp only [encodeEntries, Members.mapValues, List.map_cons] at others ⊢
    rw [first, others]

theorem encodeEntries_readable (table : StringTable) {entries : List (String × Property)} {limit : Nat}
    (survive : ∀ entry ∈ entries, entry.2.NumbersSurvive)
    (shallow : ∀ entry ∈ entries, entry.2.levels ≤ limit) :
    ∀ member ∈ (encodeEntries table entries).1, member.2.Readable ∧ member.2.levels ≤ limit := by
  induction entries generalizing table with
  | nil =>
    intro member among
    cases among
  | cons entry rest ih =>
    obtain ⟨key, property⟩ := entry
    intro member among
    rcases List.mem_cons.mp among with rfl | among
    · refine ⟨encodeProperty_readable table (survive _ List.mem_cons_self), ?_⟩
      rw [encodeProperty_levels]
      exact shallow _ List.mem_cons_self
    · exact ih _ (fun other inside => survive other (List.mem_cons_of_mem _ inside))
        (fun other inside => shallow other (List.mem_cons_of_mem _ inside)) member among

theorem decodeEntries_mapped {members : List (String × Json)} {fields : List (String × Property)}
    {back : Property → Property}
    (each : Members.mapValues (decodeProperty later) members =
      Members.mapValues (fun property => .ok (back property)) fields) :
    decodeEntries later members = .ok (Members.mapValues back fields) := by
  induction members generalizing fields with
  | nil =>
    cases fields with
    | nil => rfl
    | cons field rest => cases each
  | cons member members ih =>
    cases fields with
    | nil => cases each
    | cons field fields =>
      obtain ⟨key, json⟩ := member
      simp only [Members.mapValues, List.map_cons, List.cons.injEq, Prod.mk.injEq] at each
      obtain ⟨⟨rfl, first⟩, others⟩ := each
      rw [decodeEntries, except_done first, except_done (ih others)]
      rfl

theorem decode_encode (small : later.size ≤ 0x100000000) {table : StringTable}
    {entries : List (String × Property)}
    (grown : StringTable.Extends (encode table entries).2 later)
    (survive : ∀ entry ∈ entries, entry.2.NumbersSurvive)
    (shallow : ∀ entry ∈ entries, entry.2.levels < Json.maxLevels) :
    decode later (encode table entries).1 =
      .ok (Members.mapValues Property.restored (Members.ofList entries)) := by
  cases entries with
  | nil => rfl
  | cons entry rest =>
    have some : (encode table (entry :: rest)).1 =
        (Json.ofEntries (encodeEntries table (entry :: rest)).1).render.toUTF8 := rfl
    have texts : StringTable.Extends (encodeEntries table (entry :: rest)).2 later := grown
    have each := encodeEntries_each small table texts
    have members := encodeEntries_readable table survive fun entry among =>
      Nat.le_of_lt_succ (shallow entry among)
    generalize (encodeEntries table (entry :: rest)).1 = encoded at some each members
    -- It does not matter whether entries are collected by name before each is read back or after.
    have collected := Members.ofList_map (decodeProperty later) encoded
    rw [each, Members.ofList_map] at collected
    have readable : (Json.ofEntries encoded).Readable :=
      ⟨Members.ofList_ascending encoded, Json.membersReadable fun member among =>
        (members member (Members.ofList_mem among)).1⟩
    have levels : (Json.ofEntries encoded).levels ≤ Json.maxLevels :=
      Nat.succ_le_succ (Json.membersLevels_le.mpr fun member among =>
        (members member (Members.ofList_mem among)).2)
    have nonempty : (Json.ofEntries encoded).render.toUTF8.size ≠ 0 := by
      intro none
      have blank : (Json.ofEntries encoded).render = "" := String.utf8ByteSize_eq_zero_iff.mp none
      have text := congrArg String.toList blank
      rw [Json.render, String.toList_ofList] at text
      cases text
    rw [some, decode, if_neg nonempty, utf8_back, Option.bind_some, Json.parse_render readable levels]
    exact decodeEntries_mapped collected.symm

end Blob

end PluginBridge
