import Std.Data.HashMap
import PluginBridge.Codec
import PluginBridge.Tree.Kind
namespace PluginBridge

def firstExtensionId : Nat := 0x100

-- Type names and their ids. Kinds of the host take ids upward from the first one in the
-- order in which they were registered; `places` finds a name's position in that order.
structure TypeRegistry where
  extensions : Array String
  places : Std.HashMap String Nat
  places_eq : ∀ name : String, places[name]? = extensions.toList.idxOf? name

theorem idxOf_append_new (names : List String) (new : String) (fresh : names.idxOf? new = none)
    (name : String) : (names ++ [new]).idxOf? name =
      if new == name then some names.length else names.idxOf? name := by
  have absent : new ∉ names := by simpa [List.idxOf?_eq_none_iff] using fresh
  induction names with
  | nil => simp [List.idxOf?_cons]
  | cons head rest ih =>
    have inner : new ∉ rest := fun h => absent (List.mem_cons_of_mem _ h)
    have outer : head ≠ new := fun h => absent (h ▸ List.mem_cons_self)
    have step := ih (by simpa [List.idxOf?_eq_none_iff] using inner) inner
    rw [List.cons_append, List.idxOf?_cons, List.idxOf?_cons, step]
    by_cases here : head = name
    · subst here
      have apart : (new == head) = false := by simpa using Ne.symm outer
      simp [apart]
    · by_cases last : new = name
      · simp [here, last]
      · simp [here, last]

namespace TypeRegistry

def builtin : TypeRegistry where
  extensions := #[]
  places := ∅
  places_eq name := by simp

def idOf? (registry : TypeRegistry) (name : String) : Option UInt16 :=
  match NodeKind.ofName? name with
  | some kind => some kind.id
  | none => registry.places[name]?.map fun place => UInt16.ofNat (firstExtensionId + place)

def nameOf? (registry : TypeRegistry) (id : UInt16) : Option String :=
  match NodeKind.ofId? id with
  | some kind => some kind.name
  | none =>
    if firstExtensionId ≤ id.toNat then registry.extensions[id.toNat - firstExtensionId]? else none

def isExtension (id : UInt16) : Bool := (NodeKind.ofId? id).isNone

theorem places_unknown {registry : TypeRegistry} {name : String} (unknown : registry.idOf? name = none) :
    registry.places[name]? = none := by
  unfold idOf? at unknown
  split at unknown
  · cases unknown
  · exact Option.map_eq_none_iff.mp unknown

def register (registry : TypeRegistry) (name : String) : Except CodecError UInt16 × TypeRegistry :=
  match unknown : registry.idOf? name with
  | some id => (.ok id, registry)
  | none =>
    let id := firstExtensionId + registry.extensions.size
    if 0x10000 ≤ id then (.error (.typeIdsExhausted name), registry)
    else
      (.ok (UInt16.ofNat id), {
        extensions := registry.extensions.push name
        places := registry.places.insert name registry.extensions.size
        places_eq := by
          intro other
          rw [Std.HashMap.getElem?_insert, Array.toList_push,
            idxOf_append_new _ _ (by rw [← registry.places_eq, places_unknown unknown]), registry.places_eq]
          simp })

def registerAll (registry : TypeRegistry) :
    List String → Except CodecError (Option UInt16) × TypeRegistry
  | [] => (.ok none, registry)
  | name :: rest =>
    match registry.register name with
    | (.error e, registry) => (.error e, registry)
    | (.ok id, registry) =>
      match registry.registerAll rest with
      | (.ok last, registry) => (.ok (last.or (some id)), registry)
      | (.error e, registry) => (.error e, registry)

-- Every assigned name at the index that is its id, blanks between; as long as the
-- largest id needs.
def typeTable (registry : TypeRegistry) : Array String :=
  let kinds := (NodeKind.all.map NodeKind.name).toArray
  if registry.extensions.isEmpty then kinds
  else kinds ++ Array.replicate (firstExtensionId - kinds.size) "" ++ registry.extensions

end TypeRegistry
end PluginBridge
