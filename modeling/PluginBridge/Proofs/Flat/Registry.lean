import Mathlib.Data.List.Induction
import Mathlib.Data.List.Nodup
import Mathlib.Tactic.Common
import PluginBridge.Flat.Unflatten
import PluginBridge.Proofs.Bytes.Words
namespace PluginBridge

namespace NodeKind

theorem ofName_name {kind : NodeKind} {name : String} (found : ofName? name = some kind) :
    kind.name = name := by
  simpa using List.find?_some found

theorem ofId_id (kind : NodeKind) : ofId? kind.id = some kind := by
  cases kind <;> rfl

theorem ofId_large {id : UInt16} (large : firstExtensionId ≤ id.toNat) : ofId? id = none := by
  rw [ofId?, List.find?_eq_none]
  intro kind _ same
  have least : kind.id.toNat < firstExtensionId := by cases kind <;> decide
  rw [beq_iff_eq.mp same] at least
  omega

theorem ofName_of (kind : NodeKind) : ofName? kind.name = some kind := by
  cases kind <;> rfl

theorem ofId_last {id : UInt16} (unknown : ofId? id = none) : NodeKind.arguments.id < id := by
  have each : ∀ n < 19, (ofId? (UInt16.ofNat n)).isSome := by decide
  rw [UInt16.lt_iff_toNat_lt]
  by_contra low
  have found := each id.toNat (Nat.lt_succ_of_le (Nat.le_of_not_lt low))
  rw [UInt16.ofNat_toNat, unknown] at found
  cases found

end NodeKind

namespace TypeRegistry
variable {registry : TypeRegistry} {name : String} {id : UInt16} {place : Nat}

theorem idOf_places (registry : TypeRegistry) (new : NodeKind.ofName? name = none) :
    registry.idOf? name =
      (registry.extensions.toList.idxOf? name).map fun place => UInt16.ofNat (firstExtensionId + place) := by
  rw [idOf?, new, registry.places_eq]

theorem idOf_none : registry.idOf? name = none ↔ NodeKind.ofName? name = none ∧ name ∉ registry.extensions.toList := by
  cases built : NodeKind.ofName? name with
  | some kind => simp [idOf?, built]
  | none => simp [idOf_places registry built, List.idxOf?_eq_none_iff]

theorem register_known (known : registry.idOf? name = some id) : registry.register name = (.ok id, registry) := by
  unfold register
  split
  · rename_i other found
    rw [Option.some.inj (found.symm.trans known)]
  · rename_i unknown
    cases unknown.symm.trans known

theorem register_full (unknown : registry.idOf? name = none) (full : 0x10000 ≤ firstExtensionId + registry.extensions.size) :
    registry.register name = (.error (.typeIdsExhausted name), registry) := by
  unfold register
  split
  · rename_i other found
    cases unknown.symm.trans found
  · exact if_pos full

theorem register_new (unknown : registry.idOf? name = none) (room : firstExtensionId + registry.extensions.size < 0x10000) :
    (registry.register name).1 = .ok (UInt16.ofNat (firstExtensionId + registry.extensions.size)) ∧
      (registry.register name).2.extensions = registry.extensions.push name := by
  unfold register
  split
  · rename_i other found
    cases unknown.symm.trans found
  · simp only [if_neg (Nat.not_le_of_lt room)]
    exact ⟨trivial, trivial⟩

theorem idOf_registered (unknown : registry.idOf? name = none)
    (room : firstExtensionId + registry.extensions.size < 0x10000)
    (number : id.toNat = firstExtensionId + registry.extensions.size) (other : String) :
    (registry.register name).2.idOf? other = if name = other then some id else registry.idOf? other := by
  obtain ⟨new, absent⟩ := idOf_none.mp unknown
  obtain ⟨-, pushed⟩ := register_new unknown room
  cases built : NodeKind.ofName? other with
  | some kind =>
    have apart : name ≠ other := by
      rintro rfl
      cases new.symm.trans built
    simp [idOf?, built, apart]
  | none =>
    rw [idOf_places _ built, idOf_places _ built, pushed, Array.toList_push,
      idxOf_append_new _ _ (List.idxOf?_eq_none_iff.mpr absent)]
    by_cases same : name = other
    · simp [same, ← UInt16.toNat_inj, number, Nat.mod_eq_of_lt room]
    · simp [same]

theorem nameOf_registered (unknown : registry.idOf? name = none)
    (room : firstExtensionId + registry.extensions.size < 0x10000)
    (number : id.toNat = firstExtensionId + registry.extensions.size) (other : UInt16) :
    (registry.register name).2.nameOf? other = if id = other then some name else registry.nameOf? other := by
  obtain ⟨-, pushed⟩ := register_new unknown room
  cases built : NodeKind.ofId? other with
  | some kind =>
    have apart : id ≠ other := by
      rintro rfl
      cases (NodeKind.ofId_large (show firstExtensionId ≤ id.toNat by omega)).symm.trans built
    simp [nameOf?, built, apart]
  | none =>
    simp only [nameOf?, built, pushed, Array.getElem?_push]
    by_cases same : id = other
    · subst same
      have large : firstExtensionId ≤ id.toNat := by omega
      have offset : id.toNat - firstExtensionId = registry.extensions.size := by omega
      simp [large, offset]
    · by_cases large : firstExtensionId ≤ other.toNat
      · have apart : other.toNat - firstExtensionId ≠ registry.extensions.size := by
          intro offset
          exact same (UInt16.toNat_inj.mp (by omega))
        simp [same, large, apart]
      · simp [same, large]

inductive Reached : TypeRegistry → Prop where
  | builtin : Reached .builtin
  | registered {registry : TypeRegistry} (before : Reached registry) (name : String) :
      Reached (registry.register name).2

def Bounded (registry : TypeRegistry) : Prop :=
  firstExtensionId + registry.extensions.size ≤ 0x10000

theorem Bounded.registered (bounded : Bounded registry) (name : String) :
    Bounded (registry.register name).2 := by
  cases known : registry.idOf? name with
  | some id =>
    rw [register_known known]
    exact bounded
  | none =>
    rcases Nat.lt_or_ge (firstExtensionId + registry.extensions.size) 0x10000 with room | full
    · rw [Bounded, (register_new known room).2, Array.size_push]
      exact room
    · rw [register_full known full]
      exact bounded

theorem Reached.bounded (reached : Reached registry) : Bounded registry := by
  induction reached with
  | builtin =>
    rw [Bounded]
    decide
  | registered _ name ih => exact ih.registered name

theorem idOf_cases (bounded : Bounded registry) (known : registry.idOf? name = some id) :
    (∃ kind : NodeKind, kind.name = name ∧ kind.id = id) ∨
      ∃ place, registry.extensions[place]? = some name ∧ id.toNat = firstExtensionId + place := by
  unfold idOf? at known
  split at known
  · rename_i kind found
    exact .inl ⟨kind, NodeKind.ofName_name found, Option.some.inj known⟩
  · obtain ⟨place, found, rfl⟩ := Option.map_eq_some_iff.mp known
    rw [registry.places_eq, List.idxOf?_eq_some_iff] at found
    obtain ⟨within, stands, _⟩ := found
    refine .inr ⟨place, ?_, ?_⟩
    · rw [← Array.getElem?_toList, List.getElem?_eq_getElem within, stands]
    · rw [Array.length_toList] at within
      rw [Bounded] at bounded
      exact UInt16.toNat_ofNat_of_lt' (Nat.lt_of_lt_of_le (Nat.add_lt_add_left within _) bounded)

theorem nameOf_idOf (bounded : Bounded registry) (known : registry.idOf? name = some id) :
    registry.nameOf? id = some name := by
  rcases idOf_cases bounded known with ⟨kind, rfl, rfl⟩ | ⟨place, stands, number⟩
  · simp only [nameOf?, NodeKind.ofId_id]
  · have large : firstExtensionId ≤ id.toNat := by omega
    have offset : id.toNat - firstExtensionId = place := by omega
    simp only [nameOf?, NodeKind.ofId_large large, if_pos large, offset, stands]

theorem typeTable_idOf (bounded : Bounded registry) (known : registry.idOf? name = some id) :
    registry.typeTable[id.toNat]? = some name := by
  rcases idOf_cases bounded known with ⟨kind, rfl, rfl⟩ | ⟨place, stands, number⟩
  · have early : (NodeKind.all.map NodeKind.name).toArray[kind.id.toNat]? = some kind.name := by
      cases kind <;> rfl
    have within := (Array.getElem?_eq_some_iff.mp early).1
    unfold typeTable
    simp only
    split
    · exact early
    · rw [Array.getElem?_append_left (by rw [Array.size_append]; omega),
        Array.getElem?_append_left within, early]
  · have some : registry.extensions.isEmpty = false := by
      have within := (Array.getElem?_eq_some_iff.mp stands).1
      rw [Array.isEmpty_eq_false_iff_exists_mem]
      exact ⟨_, Array.getElem_mem within⟩
    have front : ((NodeKind.all.map NodeKind.name).toArray ++
        Array.replicate (firstExtensionId - (NodeKind.all.map NodeKind.name).toArray.size) "").size =
          firstExtensionId := by simp [firstExtensionId, NodeKind.all]
    simp only [typeTable, some, Bool.false_eq_true, if_false]
    rw [Array.getElem?_append_right (by rw [front]; omega), front, number, Nat.add_sub_cancel_left, stands]

theorem register_idOf {registry : TypeRegistry} {name : String} {id : UInt16}
    (done : (registry.register name).1 = .ok id) : (registry.register name).2.idOf? name = some id := by
  cases known : registry.idOf? name with
  | some other =>
    rw [register_known known] at done ⊢
    cases done
    exact known
  | none =>
    rcases Nat.lt_or_ge (firstExtensionId + registry.extensions.size) 0x10000 with room | full
    · rw [(register_new known room).1] at done
      cases done
      rw [idOf_registered known room (UInt16.toNat_ofNat_of_lt' room), if_pos rfl]
    · rw [register_full known full] at done
      cases done

theorem idOf_builtin {name : String} (new : NodeKind.ofName? name = none) : builtin.idOf? name = none := by
  simp [idOf?, new, builtin]

theorem register_builtin (name : String) (new : NodeKind.ofName? name = none) :
    (builtin.register name).1 = .ok 0x100 :=
  (register_new (idOf_builtin new) (by decide)).1

def registerEach (names : List String) : TypeRegistry :=
  names.foldl (fun registry name => (registry.register name).2) builtin

theorem registerEach_snoc (names : List String) (name : String) :
    registerEach (names ++ [name]) = ((registerEach names).register name).2 := by
  simp [registerEach]

def newNames (names : List String) : List String :=
  (names.filter fun name => (NodeKind.ofName? name).isNone).eraseDups

section newNames
variable {names : List String}

theorem mem_newNames : name ∈ newNames names ↔ name ∈ names ∧ NodeKind.ofName? name = none := by
  rw [newNames, List.mem_eraseDups, List.mem_filter, Option.isNone_iff_eq_none]

theorem newNames_append (names more : List String) : newNames names <+: newNames (names ++ more) := by
  rw [newNames, newNames, List.filter_append, List.eraseDups_append]
  exact List.prefix_append _ _

theorem newNames_known (known : NodeKind.ofName? name = none → name ∈ newNames names) :
    newNames (names ++ [name]) = newNames names := by
  rw [newNames, List.filter_append, List.eraseDups_append, ← newNames]
  cases built : NodeKind.ofName? name with
  | some kind => simp [built]
  | none =>
    have seen := (mem_newNames.mp (known built)).1
    simp [built, List.cons_removeAll, seen]

theorem newNames_new (new : NodeKind.ofName? name = none) (fresh : name ∉ newNames names) :
    newNames (names ++ [name]) = newNames names ++ [name] := by
  have unseen : name ∉ names := fun seen => fresh (mem_newNames.mpr ⟨seen, new⟩)
  rw [newNames, List.filter_append, List.eraseDups_append, ← newNames]
  simp [new, List.cons_removeAll, unseen, List.eraseDups_cons]

end newNames

def idRoom : Nat := 0x10000 - firstExtensionId

structure Lists (registry : TypeRegistry) (names : List String) : Prop where
  extensions : registry.extensions.toList = (newNames names).take idRoom
  distinct : registry.extensions.toList.Nodup

namespace Lists
variable {names : List String}

theorem new (lists : registry.Lists names) (among : name ∈ registry.extensions.toList) : NodeKind.ofName? name = none :=
  (mem_newNames.mp (List.mem_of_mem_take (lists.extensions ▸ among))).2

theorem size (lists : registry.Lists names) : registry.extensions.size = min idRoom (newNames names).length := by
  rw [← Array.length_toList, lists.extensions, List.length_take]

theorem bounded (lists : registry.Lists names) : Bounded registry := by
  have few : registry.extensions.size ≤ idRoom := lists.size ▸ Nat.min_le_left _ _
  rw [idRoom] at few
  rw [Bounded, firstExtensionId] at *
  omega

theorem register (lists : registry.Lists names) (name : String) :
    (registry.register name).2.Lists (names ++ [name]) := by
  have size := lists.size
  cases known : registry.idOf? name with
  | some id =>
    have same : newNames (names ++ [name]) = newNames names := by
      refine newNames_known fun built => ?_
      by_contra absent
      have unknown := idOf_none.mpr ⟨built, fun among => absent (List.mem_of_mem_take (lists.extensions ▸ among))⟩
      cases known.symm.trans unknown
    rw [register_known known]
    exact ⟨by rw [same]; exact lists.extensions, lists.distinct⟩
  | none =>
    obtain ⟨built, absent⟩ := idOf_none.mp known
    by_cases full : idRoom ≤ (newNames names).length
    · -- All ids are taken, so that one more new name makes no difference.
      rw [Nat.min_eq_left full] at size
      rw [register_full known (by rw [size]; decide)]
      refine ⟨?_, lists.distinct⟩
      obtain ⟨rest, more⟩ := newNames_append names [name]
      rw [← more, List.take_append_of_le_length full]
      exact lists.extensions
    · have room := Nat.lt_of_not_le full
      rw [Nat.min_eq_right room.le] at size
      obtain ⟨-, pushed⟩ := register_new known (by rw [size, idRoom] at *; omega)
      have all := lists.extensions
      rw [List.take_of_length_le room.le] at all
      rw [all] at absent
      refine ⟨?_, ?_⟩
      · rw [pushed, Array.toList_push, all, newNames_new built absent, List.take_of_length_le]
        rw [List.length_append]
        exact room
      · rw [pushed, Array.toList_push, all, List.nodup_append]
        refine ⟨all ▸ lists.distinct, List.nodup_singleton name, ?_⟩
        rintro first among _ last rfl
        exact absent (List.mem_singleton.mp last ▸ among)

end Lists

theorem registerEach_lists (names : List String) : (registerEach names).Lists names := by
  induction names using List.reverseRecOn with
  | nil => exact ⟨rfl, List.nodup_nil⟩
  | append_singleton names name ih =>
    rw [registerEach_snoc]
    exact ih.register name

section placed
variable {names : List String}

theorem idOf_extension (lists : registry.Lists names) (stands : registry.extensions[place]? = some name) :
    registry.idOf? name = some (UInt16.ofNat (firstExtensionId + place)) := by
  rw [← Array.getElem?_toList] at stands
  obtain ⟨within, here⟩ := List.getElem?_eq_some_iff.mp stands
  have found : registry.extensions.toList.idxOf? name = some place := by
    rw [List.idxOf?_eq_some_iff]
    refine ⟨within, here, fun earlier before same => ?_⟩
    exact before.ne (lists.distinct.getElem_inj_iff.mp (same.trans here.symm))
  rw [idOf_places registry (lists.new (List.mem_of_getElem? stands)), found, Option.map_some]

theorem idOf_nameOf (lists : registry.Lists names) (named : registry.nameOf? id = some name) :
    registry.idOf? name = some id := by
  unfold nameOf? at named
  split at named
  · rename_i kind found
    cases named
    have same : kind.id = id := by simpa using List.find?_some found
    rw [idOf?, NodeKind.ofName_of, ← same]
  · split at named
    · rename_i large
      rw [idOf_extension lists named, Nat.add_sub_cancel' large, UInt16.ofNat_toNat]
    · cases named

theorem idOf_newNames (lists : registry.Lists names) (new : NodeKind.ofName? name = none) :
    registry.idOf? name = some id ↔
      ∃ place : Nat, (newNames names)[place]? = some name ∧ id.toNat = firstExtensionId + place := by
  have taken : ∀ {place}, place < idRoom → registry.extensions[place]? = (newNames names)[place]? := by
    intro place within
    rw [← Array.getElem?_toList, lists.extensions, List.getElem?_take, if_pos within]
  have small := id.toNat_lt
  constructor
  · intro known
    rcases idOf_cases lists.bounded known with ⟨kind, rfl, -⟩ | ⟨place, stands, number⟩
    · rw [NodeKind.ofName_of] at new
      cases new
    · refine ⟨place, ?_, number⟩
      rw [← taken (by rw [idRoom]; omega), stands]
  · rintro ⟨place, stands, number⟩
    rw [← taken (by rw [idRoom]; omega)] at stands
    rw [idOf_extension lists stands, ← number, UInt16.ofNat_toNat]

theorem typeTable_size (registry : TypeRegistry) : registry.typeTable.size =
    if registry.extensions.isEmpty then NodeKind.arguments.id.toNat + 1
    else firstExtensionId + registry.extensions.size := by
  unfold typeTable
  simp only
  split
  · rfl
  · simp only [Array.size_append, Array.size_replicate, List.size_toArray, List.length_map]
    rw [Nat.add_sub_cancel' (by decide)]

theorem typeTable_last (lists : registry.Lists names) :
    ∃ last name, registry.nameOf? last = some name ∧ registry.typeTable.size = last.toNat + 1 := by
  have bounded := lists.bounded
  rw [Bounded] at bounded
  rw [typeTable_size]
  cases none : registry.extensions.isEmpty with
  | true => exact ⟨NodeKind.arguments.id, _, rfl, rfl⟩
  | false =>
    have some : 0 < registry.extensions.size := by
      simpa [Array.isEmpty_eq_false_iff, Array.size_pos_iff] using none
    have number : (UInt16.ofNat (firstExtensionId + (registry.extensions.size - 1))).toNat =
        firstExtensionId + (registry.extensions.size - 1) := UInt16.toNat_ofNat_of_lt' (by rw [UInt16.size]; omega)
    have stands := Array.getElem?_eq_getElem (Nat.sub_lt some Nat.one_pos)
    refine ⟨_, _, nameOf_idOf lists.bounded (idOf_extension lists stands), ?_⟩
    rw [number]
    simp only [Bool.false_eq_true, if_false]
    omega

theorem typeTable_blank (unnamed : registry.nameOf? id = none) (within : id.toNat < registry.typeTable.size) :
    registry.typeTable[id.toNat]? = some "" := by
  have foreign : NodeKind.ofId? id = none := by
    unfold nameOf? at unnamed
    split at unnamed
    · cases unnamed
    · assumption
  have high : NodeKind.arguments.id.toNat < id.toNat := NodeKind.ofId_last foreign
  rw [typeTable_size] at within
  cases none : registry.extensions.isEmpty with
  | true =>
    simp only [none, if_true] at within
    omega
  | false =>
    simp only [none, Bool.false_eq_true, if_false] at within
    have low : id.toNat < firstExtensionId := by
      by_contra large
      simp only [nameOf?, foreign, if_pos (Nat.le_of_not_lt large), Array.getElem?_eq_none_iff] at unnamed
      omega
    have kinds : (NodeKind.all.map NodeKind.name).toArray.size = NodeKind.arguments.id.toNat + 1 := rfl
    simp only [typeTable, none, Bool.false_eq_true, if_false]
    rw [Array.getElem?_append_left (by rw [Array.size_append, Array.size_replicate, kinds]; omega),
      Array.getElem?_append_right (by omega), Array.getElem?_replicate, if_pos (by omega)]

theorem idOf_later (more : List String) (known : (registerEach names).idOf? name = some id) :
    (registerEach (names ++ more)).idOf? name = some id := by
  cases built : NodeKind.ofName? name with
  | some kind =>
    rw [idOf?, built] at known ⊢
    exact known
  | none =>
    obtain ⟨place, stands, number⟩ := (idOf_newNames (registerEach_lists names) built).mp known
    obtain ⟨rest, grown⟩ := newNames_append names more
    refine (idOf_newNames (registerEach_lists (names ++ more)) built).mpr ⟨place, ?_, number⟩
    rw [← grown, List.getElem?_append_left (List.getElem?_eq_some_iff.mp stands).1, stands]

theorem nameOf_highest (registry : TypeRegistry) :
    registry.nameOf? 0xFFFF = none ↔ registry.extensions.size < idRoom := by
  have foreign : NodeKind.ofId? 0xFFFF = none := NodeKind.ofId_large (by decide)
  have place : (0xFFFF : UInt16).toNat - firstExtensionId = idRoom - 1 := rfl
  simp only [nameOf?, foreign]
  rw [if_pos (by decide), place, Array.getElem?_eq_none_iff, ← Nat.lt_iff_le_pred (by decide)]

end placed

-- What the names that were registered make of a registry. The new ones take the ids from the first free one upward, in
-- the order in which they first came.
structure Assigned (registry : TypeRegistry) (names : List String) : Prop where
  inverse : ∀ name id, registry.idOf? name = some id ↔ registry.nameOf? id = some name
  builtin : ∀ kind : NodeKind, registry.idOf? kind.name = some kind.id
  new : ∀ name id, NodeKind.ofName? name = none → (registry.idOf? name = some id ↔
    ∃ place : Nat, (newNames names)[place]? = some name ∧ id.toNat = firstExtensionId + place)
  known : ∀ name id, registry.idOf? name = some id → registry.register name = (.ok id, registry)
  next : ∀ name, registry.idOf? name = none → registry.nameOf? 0xFFFF = none →
    (registry.register name).1 = .ok (UInt16.ofNat (firstExtensionId + (newNames names).length))
  exhausted : ∀ name, registry.idOf? name = none → registry.nameOf? 0xFFFF ≠ none →
    registry.register name = (.error (.typeIdsExhausted name), registry)
  table : ∃ last, (∃ name, registry.nameOf? last = some name) ∧
    (∀ name id, registry.nameOf? id = some name → id ≤ last) ∧ registry.typeTable.size = last.toNat + 1 ∧
    ∀ id ≤ last, registry.typeTable[id.toNat]? = some ((registry.nameOf? id).getD "")

theorem Lists.assigned {names : List String} (lists : registry.Lists names) : registry.Assigned names where
  inverse name id := ⟨nameOf_idOf lists.bounded, idOf_nameOf lists⟩
  builtin kind := by rw [idOf?, NodeKind.ofName_of]
  new name id := idOf_newNames lists
  known name id := register_known
  next name unknown free := by
    have room := (nameOf_highest registry).mp free
    have size := lists.size
    rw [(register_new unknown (Nat.add_lt_of_lt_sub' room)).1, size, Nat.min_eq_right (by omega)]
  exhausted name unknown taken := by
    have full := Nat.le_of_not_lt (mt (nameOf_highest registry).mpr taken)
    exact register_full unknown (Nat.sub_le_iff_le_add'.mp full)
  table := by
    obtain ⟨last, name, named, length⟩ := typeTable_last lists
    refine ⟨last, ⟨name, named⟩, fun other id known => ?_, length, fun id low => ?_⟩
    · have stands := typeTable_idOf lists.bounded (idOf_nameOf lists known)
      have within : id.toNat < registry.typeTable.size := (Array.getElem?_eq_some_iff.mp stands).1
      rw [UInt16.le_iff_toNat_le]
      omega
    · cases known : registry.nameOf? id with
      | some other => exact typeTable_idOf lists.bounded (idOf_nameOf lists known)
      | none =>
        rw [UInt16.le_iff_toNat_le] at low
        exact typeTable_blank known (by omega)

-- Whatever names were registered, names and ids belong together one to one and stay so.
theorem registered_bijection (names : List String) :
    (registerEach names).Assigned names ∧ ∀ more name id, (registerEach names).idOf? name = some id →
      (registerEach (names ++ more)).idOf? name = some id :=
  ⟨(registerEach_lists names).assigned, fun more _ _ => idOf_later more⟩

end TypeRegistry

structure TypeIds where
  ids : Std.HashMap String UInt16
  names : Std.HashMap UInt16 String
  next : UInt32

namespace TypeIds
variable {maps : TypeIds} {registry : TypeRegistry} {name : String}

def insert (maps : TypeIds) (name : String) (id : UInt16) : TypeIds :=
  { maps with ids := maps.ids.insert name id, names := maps.names.insert id name }

def enter (maps : TypeIds) (kind : NodeKind) : TypeIds := maps.insert kind.name kind.id

def builtin : TypeIds := NodeKind.all.foldl enter ⟨∅, ∅, UInt32.ofNat firstExtensionId⟩

def register (maps : TypeIds) (name : String) : Except CodecError UInt16 × TypeIds :=
  match maps.ids[name]? with
  | some id => (.ok id, maps)
  | none =>
    if 0x10000 ≤ maps.next.toNat then (.error (.typeIdsExhausted name), maps)
    else (.ok maps.next.toUInt16, { maps with next := maps.next + 1 }.insert name maps.next.toUInt16)

def registerEach (names : List String) : TypeIds :=
  names.foldl (fun maps name => (maps.register name).2) builtin

theorem ids_entered (kinds : List NodeKind) (maps : TypeIds) (name : String) :
    (kinds.foldl enter maps).ids[name]? =
      ((kinds.find? fun kind => kind.name == name).map NodeKind.id).or maps.ids[name]? := by
  induction kinds generalizing maps with
  | nil => simp
  | cons kind rest ih =>
    rw [List.foldl_cons, ih, List.find?_cons]
    simp only [enter, insert, Std.HashMap.getElem?_insert]
    by_cases here : kind.name = name
    · -- A kind that comes later under the same name is the same kind.
      cases later : rest.find? fun kind => kind.name == name with
      | none => simp [here]
      | some other =>
        have named : other.name = name := by simpa using List.find?_some later
        have same : some other = some kind := by rw [← NodeKind.ofName_of other, ← NodeKind.ofName_of kind, named, here]
        simp [here, Option.some.inj same]
    · have apart : (kind.name == name) = false := beq_eq_false_iff_ne.mpr here
      simp [apart]

theorem names_entered (kinds : List NodeKind) (maps : TypeIds) (id : UInt16) :
    (kinds.foldl enter maps).names[id]? =
      ((kinds.find? fun kind => kind.id == id).map NodeKind.name).or maps.names[id]? := by
  induction kinds generalizing maps with
  | nil => simp
  | cons kind rest ih =>
    rw [List.foldl_cons, ih, List.find?_cons]
    simp only [enter, insert, Std.HashMap.getElem?_insert]
    by_cases here : kind.id = id
    · cases later : rest.find? fun kind => kind.id == id with
      | none => simp [here]
      | some other =>
        have numbered : other.id = id := by simpa using List.find?_some later
        have same : some other = some kind := by rw [← NodeKind.ofId_id other, ← NodeKind.ofId_id kind, numbered, here]
        simp [here, Option.some.inj same]
    · have apart : (kind.id == id) = false := beq_eq_false_iff_ne.mpr here
      simp [apart]

theorem next_entered (kinds : List NodeKind) (maps : TypeIds) : (kinds.foldl enter maps).next = maps.next := by
  induction kinds generalizing maps with
  | nil => rfl
  | cons kind rest ih => exact ih (maps.enter kind)

structure Shows (maps : TypeIds) (registry : TypeRegistry) : Prop where
  ids : ∀ name : String, maps.ids[name]? = registry.idOf? name
  names : ∀ id : UInt16, maps.names[id]? = registry.nameOf? id
  next : maps.next.toNat = firstExtensionId + registry.extensions.size

theorem builtin_shows : builtin.Shows .builtin where
  ids name := by
    rw [builtin, ids_entered, TypeRegistry.idOf?, ← NodeKind.ofName?]
    cases NodeKind.ofName? name <;> simp [TypeRegistry.builtin]
  names id := by
    rw [builtin, names_entered, TypeRegistry.nameOf?, ← NodeKind.ofId?]
    cases NodeKind.ofId? id <;> simp [TypeRegistry.builtin]
  next := by
    rw [builtin, next_entered]
    rfl

theorem Shows.insert (shows_ : maps.Shows registry) (unknown : registry.idOf? name = none)
    (room : firstExtensionId + registry.extensions.size < 0x10000) :
    ({ maps with next := maps.next + 1 }.insert name maps.next.toUInt16).Shows (registry.register name).2 := by
  have number : maps.next.toUInt16.toNat = firstExtensionId + registry.extensions.size := by
    rw [UInt32.toNat_toUInt16, shows_.next, Nat.mod_eq_of_lt room]
  refine ⟨fun other => ?_, fun id => ?_, ?_⟩
  · rw [TypeRegistry.idOf_registered unknown room number, ← shows_.ids]
    simp only [TypeIds.insert, Std.HashMap.getElem?_insert, beq_iff_eq]
  · rw [TypeRegistry.nameOf_registered unknown room number, ← shows_.names]
    simp only [TypeIds.insert, Std.HashMap.getElem?_insert, beq_iff_eq]
  · have next := shows_.next
    have small : maps.next.toNat + 1 < 2 ^ 32 := by omega
    simp only [TypeIds.insert, UInt32.toNat_add, (TypeRegistry.register_new unknown room).2, Array.size_push]
    rw [show (1 : UInt32).toNat = 1 from rfl, Nat.mod_eq_of_lt small, next]
    omega

theorem Shows.register (shows_ : maps.Shows registry) (name : String) :
    (maps.register name).1 = (registry.register name).1 ∧ (maps.register name).2.Shows (registry.register name).2 := by
  have found := shows_.ids name
  unfold TypeIds.register
  cases known : registry.idOf? name with
  | some id =>
    rw [TypeRegistry.register_known known]
    simp only [found.trans known]
    exact ⟨trivial, shows_⟩
  | none =>
    simp only [found.trans known]
    by_cases full : 0x10000 ≤ firstExtensionId + registry.extensions.size
    · rw [TypeRegistry.register_full known full, if_pos (shows_.next ▸ full)]
      exact ⟨rfl, shows_⟩
    · have room := Nat.lt_of_not_le full
      rw [if_neg (shows_.next ▸ full)]
      refine ⟨?_, shows_.insert known room⟩
      rw [(TypeRegistry.register_new known room).1, ← shows_.next]
      rfl

theorem registerEach_shows (names : List String) :
    (registerEach names).Shows (TypeRegistry.registerEach names) ∧
      ∀ name, ((registerEach names).register name).1 = ((TypeRegistry.registerEach names).register name).1 := by
  have all : (registerEach names).Shows (TypeRegistry.registerEach names) := by
    induction names using List.reverseRecOn with
    | nil => exact builtin_shows
    | append_singleton names name ih =>
      rw [TypeRegistry.registerEach_snoc, registerEach, List.foldl_append]
      exact (ih.register name).2
  exact ⟨all, fun name => (all.register name).1⟩

end TypeIds

theorem typeNameOf_idOf {tree : FlatTree} {registry : TypeRegistry} {name : String} {id : UInt16}
    (bounded : TypeRegistry.Bounded registry) (known : registry.idOf? name = some id)
    (own : tree.types = none ∨ tree.types = some registry.typeTable) :
    tree.typeNameOf registry id = .ok name := by
  have registered := TypeRegistry.nameOf_idOf bounded known
  have listed := TypeRegistry.typeTable_idOf bounded known
  unfold FlatTree.typeNameOf
  rcases own with none | table
  · simp only [none, Option.bind_none, Option.filter_none, registered]
  · by_cases blank : name = ""
    · have skipped : Option.filter (fun text : String => text ≠ "") (some name) = none := by
        simp [Option.filter, blank]
      simp only [table, Option.bind_some, listed, skipped, registered]
    · have kept : Option.filter (fun text : String => text ≠ "") (some name) = some name := by
        simp [Option.filter, blank]
      simp only [table, Option.bind_some, listed, kept]

end PluginBridge
