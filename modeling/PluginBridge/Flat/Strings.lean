import PluginBridge.Members
namespace PluginBridge

def firstPlaces (places : Members UInt32) (next : Nat) : List String → Members UInt32
  | [] => places
  | text :: rest =>
    firstPlaces
      (if places.contains text then places else places.insert text (UInt32.ofNat next)) (next + 1) rest

theorem firstPlaces_append (texts more : List String) (places : Members UInt32) (next : Nat) :
    firstPlaces places next (texts ++ more) =
      firstPlaces (firstPlaces places next texts) (next + texts.length) more := by
  induction texts generalizing places next with
  | nil => rfl
  | cons text rest ih =>
    simp only [List.cons_append, firstPlaces, List.length_cons, ih]
    rw [Nat.add_right_comm, Nat.add_assoc]

-- Texts with fixed positions, and for each text the first of its positions. A text is added
-- at the end and only if it is not there yet; a table read from bytes may repeat texts.
structure StringTable where
  entries : Array String
  places : Members UInt32
  places_eq : places = firstPlaces [] 0 entries.toList
deriving Repr

namespace StringTable

def empty : StringTable := ⟨#[], [], rfl⟩

instance : Inhabited StringTable := ⟨empty⟩

theorem eq_of_entries {a b : StringTable} (same : a.entries = b.entries) : a = b := by
  obtain ⟨entries, _, rfl⟩ := a
  obtain ⟨_, _, rfl⟩ := b
  cases same
  rfl

instance : DecidableEq StringTable := fun a b =>
  decidable_of_iff (a.entries = b.entries) ⟨eq_of_entries, congrArg StringTable.entries⟩

def ofList (entries : List String) : StringTable := ⟨entries.toArray, firstPlaces [] 0 entries, rfl⟩

def size (table : StringTable) : Nat := table.entries.size

def get? (table : StringTable) (index : UInt32) : Option String := table.entries[index.toNat]?

def indexOf? (table : StringTable) (text : String) : Option UInt32 := table.places.get? text

def intern (table : StringTable) (text : String) : UInt32 × StringTable :=
  match known : table.places.get? text with
  | some index => (index, table)
  | none =>
    let index := UInt32.ofNat table.size
    (index, {
      entries := table.entries.push text
      places := table.places.insert text index
      places_eq := by
        have absent : (firstPlaces [] 0 table.entries.toList).contains text = false := by
          simp [Members.contains, ← table.places_eq, known]
        rw [Array.toList_push, firstPlaces_append, table.places_eq]
        simp [firstPlaces, absent, index, size] })

end StringTable
end PluginBridge
