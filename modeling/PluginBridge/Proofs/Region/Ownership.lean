import Mathlib.Algebra.GroupWithZero.Nat
import Mathlib.Algebra.Order.BigOperators.Group.List
import Mathlib.Algebra.Order.Group.Nat
import Mathlib.Data.List.Infix
import Mathlib.Data.List.Nodup
import Mathlib.Tactic.Common
import PluginBridge.Proofs.Outcome
import PluginBridge.Region.Manager
namespace PluginBridge

inductive RegionStep where
  | create (size : Nat)
  | openFile (path : String)
  | destroy (key : String)
  | destroyAll
  | arrive (path : String) (bytes : ByteArray)

structure RegionLedger where
  store : Store
  created : List RegionId

def Store.after {α : Type} (access : StoreAccess α) (store : Store) : Store :=
  match access store with
  | .ok _ later | .error _ later => later

def Region.ended (region : Region) : Region := { region with mapping := .unmapped }

namespace RegionLedger

def apply (ledger : RegionLedger) : RegionStep → RegionLedger
  | .create size =>
    match Store.create size ledger.store with
    | .ok id later => ⟨later, ledger.created ++ [id]⟩
    | .error _ later => ⟨later, ledger.created⟩
  | .openFile path => ⟨Store.after (Store.openTracked path) ledger.store, ledger.created⟩
  | .destroy key => ⟨Store.after (Store.destroy key) ledger.store, ledger.created⟩
  | .destroyAll => ⟨ledger.store.destroyAll, ledger.created⟩
  | .arrive path bytes =>
    ⟨{ ledger.store with memory := ledger.store.memory.putFile path bytes }, ledger.created⟩

def run (memory : Memory) (limit : Nat) (steps : List RegionStep) : RegionLedger :=
  steps.foldl apply ⟨{ Store.new (some limit) with memory := memory }, []⟩

theorem run_snoc (memory : Memory) (limit : Nat) (steps : List RegionStep) (step : RegionStep) :
    run memory limit (steps ++ [step]) = (run memory limit steps).apply step := by
  simp [run]

structure Held (ledger : RegionLedger) (id : RegionId) (region : Region) : Prop where
  created : id ∈ ledger.created
  found : ledger.store.memory.region? id = some region
  mapped : region.mapping ≠ .unmapped

def heldSize (memory : Memory) (id : RegionId) : Nat :=
  match memory.region? id with
  | some region => if region.mapping = .unmapped then 0 else region.size
  | none => 0

structure Gone (memory : Memory) (id : RegionId) (region : Region) : Prop where
  unmapped : memory.region? id = some region.ended
  removed : ∃ file, memory.file? region.file = some file ∧ file.path = region.key ∧ file.linked = false

structure Owned (limit : Nat) (ledger : RegionLedger) : Prop where
  within : (ledger.created.map (heldSize ledger.store.memory)).sum ≤ limit
  tracked : ∀ id region, ledger.Held id region → ledger.store.lookup? region.key = some id
  removable : ∀ id region, ledger.Held id region →
    ∃ later, Store.destroy region.key ledger.store = .ok () later ∧ Gone later.memory id region
  ended : ∀ id ∈ ledger.created, ∃ region,
    ledger.store.destroyAll.memory.region? id = some region ∧ region.mapping = .unmapped

def Undisturbed (memory : Memory) (limit : Nat) (steps : List RegionStep) : Prop :=
  ∀ before path, before ++ [.openFile path] <+: steps →
    ∀ view later, Store.openTracked path (run memory limit before).store = .ok view later →
      ∀ id region, (run memory limit before).Held id region → region.key ≠ Memory.keyOfPath path

end RegionLedger

namespace Memory

structure Follows (earlier later : Memory) : Prop where
  region : ∀ id region, earlier.region? id = some region → ∃ mapping,
    later.region? id = some { region with mapping := mapping } ∧
      (mapping = region.mapping ∨ mapping = .unmapped)
  file : ∀ index file, earlier.file? index = some file →
    ∃ kept, later.file? index = some kept ∧ kept.path = file.path

theorem Follows.refl (memory : Memory) : Follows memory memory :=
  ⟨fun _ region found => ⟨region.mapping, found, .inl rfl⟩, fun _ file found => ⟨file, found, rfl⟩⟩

theorem Follows.trans {one two three : Memory} (first : Follows one two) (second : Follows two three) :
    Follows one three := by
  refine ⟨fun id region found => ?_, fun index file found => ?_⟩
  · obtain ⟨mapping, found, kept⟩ := first.region id region found
    obtain ⟨last, found, still⟩ := second.region id _ found
    refine ⟨last, found, ?_⟩
    rcases still with rfl | rfl
    · exact kept
    · exact .inr rfl
  · obtain ⟨file, found, same⟩ := first.file index file found
    obtain ⟨last, found, still⟩ := second.file index file found
    exact ⟨last, found, still.trans same⟩

theorem regions_grown {earlier later : Memory}
    (kept : ∀ id region, earlier.region? id = some region → ∃ still, later.region? id = some still) :
    earlier.regions.size ≤ later.regions.size := by
  by_contra fewer
  have inside : later.regions.size < earlier.regions.size := Nat.lt_of_not_le fewer
  obtain ⟨still, found⟩ := kept ⟨later.regions.size⟩ _ (Array.getElem?_eq_getElem inside)
  exact absurd (Array.getElem?_eq_some_iff.mp found).1 (Nat.lt_irrefl _)

theorem Follows.regions {earlier later : Memory} (follows : Follows earlier later) :
    earlier.regions.size ≤ later.regions.size :=
  regions_grown fun id region found => (follows.region id region found).elim fun _ still => ⟨_, still.1⟩

theorem Follows.of_kept {earlier later : Memory}
    (regions : ∀ id region, earlier.region? id = some region → later.region? id = some region)
    (files : ∀ index file, earlier.file? index = some file →
      ∃ kept, later.file? index = some kept ∧ kept.path = file.path) : Follows earlier later :=
  ⟨fun id region found => ⟨region.mapping, regions id region found, .inl rfl⟩, files⟩

theorem getElem?_push_kept {α : Type} {items : Array α} {index : Nat} {item : α} (last : α)
    (found : items[index]? = some item) : (items.push last)[index]? = some item := by
  obtain ⟨inside, rfl⟩ := Array.getElem?_eq_some_iff.mp found
  exact Array.getElem?_push_lt inside

theorem modify_paths {files : Array BackingFile} {change : BackingFile → BackingFile} (position : Nat)
    (same : ∀ file, (change file).path = file.path) (index : Nat) (file : BackingFile)
    (found : files[index]? = some file) :
    ∃ kept, (files.modify position change)[index]? = some kept ∧ kept.path = file.path := by
  rw [Array.getElem?_modify]
  split
  · exact ⟨change file, by rw [found]; rfl, same file⟩
  · exact ⟨file, found, rfl⟩

theorem putFile_follows (memory : Memory) (path : String) (bytes : ByteArray) :
    Follows memory (memory.putFile path bytes) := by
  unfold putFile
  split
  · exact .of_kept (fun _ _ found => found) (modify_paths _ fun _ => rfl)
  · exact .of_kept (fun _ _ found => found) fun _ file found => ⟨file, getElem?_push_kept _ found, rfl⟩

theorem unlinkFile_follows (memory : Memory) (index : Nat) :
    Follows memory (memory.unlinkFile index) :=
  .of_kept (fun _ _ found => found) (modify_paths _ fun _ => rfl)

theorem unlinkAll_follows (memory : Memory) : Follows memory memory.unlinkAll := by
  refine .of_kept (fun _ _ found => found) fun index file found => ?_
  refine ⟨{ file with linked := false }, ?_, rfl⟩
  simp only [file?, unlinkAll, Array.getElem?_map] at found ⊢
  rw [found]
  rfl

theorem unmap_region (memory : Memory) (id other : RegionId) : (memory.unmap id).region? other =
    if other = id then (memory.region? other).map Region.ended
    else memory.region? other := by
  by_cases same : other = id
  · subst same
    rw [if_pos rfl]
    unfold unmap
    split
    · rename_i none
      rw [none]
      rfl
    · rename_i region found
      have inside := (Array.getElem?_eq_some_iff.mp found).1
      rw [found]
      split
      · rename_i already
        rw [found, Option.map_some, Region.ended, ← already]
      · split <;> exact Array.getElem?_setIfInBounds_self_of_lt inside
  · rw [if_neg same]
    have apart : id.index ≠ other.index := fun equal => same (congrArg RegionId.mk equal).symm
    unfold unmap
    split
    · rfl
    · split
      · rfl
      · split <;> exact Array.getElem?_setIfInBounds_ne apart

theorem unmap_follows (memory : Memory) (id : RegionId) : Follows memory (memory.unmap id) := by
  refine ⟨fun other region found => ?_, fun index file found => ?_⟩
  · rw [unmap_region]
    split
    · exact ⟨.unmapped, by rw [found]; rfl, .inr rfl⟩
    · exact ⟨region.mapping, found, .inl rfl⟩
  · unfold unmap
    split
    · exact ⟨file, found, rfl⟩
    · split
      · exact ⟨file, found, rfl⟩
      · split
        · exact (unlinkFile_follows _ _).file index file found
        · exact ⟨file, found, rfl⟩

theorem unmap_removes {memory : Memory} {id : RegionId} {region : Region} {file : BackingFile}
    (found : memory.region? id = some region) (mapped : region.mapping ≠ .unmapped)
    (owned : region.owned = true) (lies : memory.file? region.file = some file) :
    (memory.unmap id).file? region.file = some { file with linked := false } := by
  simp only [unmap, found, if_neg mapped, owned, if_true, unlinkFile, file?, Array.getElem?_modify]
  rw [show memory.files[region.file]? = some file from lies]
  rfl

theorem create_parts {key path : String} {size : Nat} {memory later : Memory} {id : RegionId}
    (made : create key path size memory = .ok id later) : id = ⟨memory.regions.size⟩ ∧
      later = { memory with
        files := memory.files.push ⟨path, zeros size, true⟩
        regions := memory.regions.push ⟨key, memory.files.size, size, true, .readWrite⟩ } := by
  unfold create at made
  split at made
  · cases made
  · split at made
    · cases made
    · cases made
      exact ⟨rfl, rfl⟩

theorem create_free {key path : String} {size : Nat} {memory later : Memory} {id : RegionId}
    (made : create key path size memory = .ok id later) :
    size ≠ 0 ∧ size < min maxFileSize memory.room ∧ memory.findFile? path = none := by
  unfold create at made
  split at made
  · cases made
  · rename_i something
    split at made
    · cases made
    · rename_i room
      obtain ⟨small, absent⟩ := not_or.mp room
      exact ⟨something, Nat.lt_of_not_le small, Option.not_isSome_iff_eq_none.mp absent⟩

theorem create_room {key path : String} {size : Nat} {memory later : Memory} {id : RegionId}
    (made : create key path size memory = .ok id later) :
    size ≠ 0 ∧ size < maxFileSize ∧ memory.findFile? path = none :=
  have ⟨something, small, absent⟩ := create_free made
  ⟨something, Nat.lt_of_lt_of_le small (Nat.min_le_left _ _), absent⟩

theorem create_refused {key path : String} {size : Nat} {memory later : Memory} {e : RegionError}
    (refused : create key path size memory = .error e later) : later = memory := by
  unfold create at refused
  split at refused
  · cases refused
    rfl
  · split at refused
    · cases refused
      rfl
    · cases refused

theorem openPath_parts {path : String} {mapping : Mapping} {memory later : Memory} {id : RegionId}
    (opened : openPath path mapping memory = .ok id later) : id = ⟨memory.regions.size⟩ ∧
      ∃ file size, later = { memory with
        regions := memory.regions.push ⟨keyOfPath path, file, size, false, mapping⟩ } := by
  unfold openPath at opened
  split at opened
  · cases opened
  · dsimp only at opened
    split at opened
    · cases opened
    · cases opened
      exact ⟨rfl, _, _, rfl⟩

theorem openPath_refused {path : String} {mapping : Mapping} {memory later : Memory} {e : RegionError}
    (refused : openPath path mapping memory = .error e later) : later = memory := by
  unfold openPath at refused
  split at refused
  · cases refused
    rfl
  · dsimp only at refused
    split at refused
    · cases refused
      rfl
    · cases refused

end Memory

namespace RegionLedger
variable {limit size : Nat} {memory : Memory} {manager : RegionManager} {store later : Store}
  {ledger : RegionLedger} {created : List RegionId} {id : RegionId} {region : Region}
  {key path : String} {steps : List RegionStep}

def countedSize (memory : Memory) (id : RegionId) : Nat :=
  match memory.region? id with
  | some region => if region.owned then region.size else 0
  | none => 0

theorem usedBytes_sum (store : Store) : store.usedBytes =
    (store.manager.tracked.map fun entry => countedSize store.memory entry.2).sum := by
  have summed : ∀ (entries : List (String × RegionId)) (used : Nat),
      entries.foldl (fun used entry =>
        match store.memory.region? entry.2 with
        | some region => if region.owned then used + region.size else used
        | none => used) used =
        used + (entries.map fun entry => countedSize store.memory entry.2).sum := by
    intro entries
    induction entries with
    | nil => exact fun _ => rfl
    | cons entry rest ih =>
      intro used
      rw [List.foldl_cons, ih, List.map_cons, List.sum_cons, ← Nat.add_assoc]
      congr 1
      unfold countedSize
      split
      · split <;> rfl
      · rfl
  exact (summed _ 0).trans (Nat.zero_add _)

theorem lookup_of_mem (apart : (store.manager.tracked.map Prod.fst).Nodup)
    (among : (key, id) ∈ store.manager.tracked) : store.lookup? key = some id := by
  unfold Store.lookup?
  cases found : store.manager.tracked.find? fun entry => entry.1 == key with
  | none =>
    have differs := List.find?_eq_none.mp found _ among
    exact absurd (beq_self_eq_true key) differs
  | some entry =>
    have named : entry.1 = key := by simpa using List.find?_some found
    have same := List.inj_on_of_nodup_map apart (List.mem_of_find?_eq_some found) among named
    rw [same]
    rfl

theorem countedSize_follows {earlier later : Memory} (follows : earlier.Follows later)
    (found : (earlier.region? id).isSome) : countedSize later id = countedSize earlier id := by
  obtain ⟨region, found⟩ := Option.isSome_iff_exists.mp found
  obtain ⟨mapping, kept, -⟩ := follows.region id region found
  simp only [countedSize, found, kept]

-- A region that the manager made, mapped or not: its name is one of the names given so far
-- and its file lies where it was made.
structure Made (memory : Memory) (next : Nat) (region : Region) : Prop where
  owned : region.owned = true
  named : ∃ number < next, region.key = Store.keyText number
  backed : ∃ file, memory.file? region.file = some file ∧ file.path = region.key

structure Sound (limit : Nat) (ledger : RegionLedger) : Prop where
  capacity : ledger.store.manager.capacity = some limit
  used : ledger.store.usedBytes ≤ limit
  inside : ∀ entry ∈ ledger.store.manager.tracked, (ledger.store.memory.region? entry.2).isSome
  apart : (ledger.store.manager.tracked.map Prod.fst).Nodup
  once : ledger.created.Nodup
  made : ∀ id ∈ ledger.created, ∃ region,
    ledger.store.memory.region? id = some region ∧
      Made ledger.store.memory ledger.store.manager.nextKey region
  held : ∀ id region, ledger.Held id region → (region.key, id) ∈ ledger.store.manager.tracked

theorem Sound.held_earlier (sound : Sound limit ledger)
    (follows : ledger.store.memory.Follows later.memory)
    (held : Held ⟨later, ledger.created⟩ id region) : ledger.Held id region := by
  obtain ⟨before, found, -⟩ := sound.made id held.created
  obtain ⟨mapping, kept, same⟩ := follows.region id before found
  obtain rfl := Option.some.inj (kept.symm.trans held.found)
  rcases same with rfl | rfl
  · exact ⟨held.created, found, held.mapped⟩
  · exact absurd rfl held.mapped

theorem usedBytes_follows (sound : Sound limit ledger)
    (follows : ledger.store.memory.Follows later.memory)
    (fewer : later.manager.tracked.Sublist ledger.store.manager.tracked) :
    later.usedBytes ≤ ledger.store.usedBytes := by
  rw [usedBytes_sum, usedBytes_sum, List.map_congr_left fun entry among =>
    countedSize_follows follows (sound.inside entry (fewer.subset among))]
  exact (fewer.map _).sum_le_sum fun _ _ => Nat.zero_le _

theorem Sound.follow (sound : Sound limit ledger)
    (follows : ledger.store.memory.Follows later.memory)
    (capacity : later.manager.capacity = ledger.store.manager.capacity)
    (next : ledger.store.manager.nextKey ≤ later.manager.nextKey)
    (fewer : later.manager.tracked.Sublist ledger.store.manager.tracked)
    (kept : ∀ id region, Held ⟨later, ledger.created⟩ id region →
      (region.key, id) ∈ ledger.store.manager.tracked → (region.key, id) ∈ later.manager.tracked) :
    Sound limit ⟨later, ledger.created⟩ where
  capacity := capacity.trans sound.capacity
  used := (usedBytes_follows sound follows fewer).trans sound.used
  inside entry among := by
    obtain ⟨region, found⟩ := Option.isSome_iff_exists.mp (sound.inside entry (fewer.subset among))
    obtain ⟨mapping, found, -⟩ := follows.region entry.2 region found
    exact Option.isSome_iff_exists.mpr ⟨_, found⟩
  apart := (fewer.map _).nodup sound.apart
  once := sound.once
  made id among := by
    obtain ⟨region, found, owned, ⟨number, given, named⟩, file, lies, path⟩ := sound.made id among
    obtain ⟨mapping, found, -⟩ := follows.region id region found
    obtain ⟨after, still, same⟩ := follows.file region.file file lies
    exact ⟨_, found, owned, ⟨number, given.trans_le next, named⟩, after, still, same.trans path⟩
  held id region held := kept id region held (sound.held id region (sound.held_earlier follows held))

theorem filter_keeps {entries : List (String × RegionId)} (among : (region.key, id) ∈ entries)
    (apart : region.key ≠ key) : (region.key, id) ∈ entries.filter fun entry => entry.1 != key :=
  List.mem_filter.mpr ⟨among, bne_iff_ne.mpr apart⟩

theorem Sound.track (sound : Sound limit ledger) (follows : ledger.store.memory.Follows memory)
    (capacity : manager.capacity = ledger.store.manager.capacity)
    (next : ledger.store.manager.nextKey ≤ manager.nextKey)
    (tracked : manager.tracked = ledger.store.manager.tracked)
    (apart : ∀ id region, ledger.Held id region → region.key ≠ key)
    (found : (memory.region? id).isSome)
    (room : ledger.store.usedBytes + countedSize memory id ≤ limit) :
    Sound limit ⟨⟨memory, Store.track key id manager⟩, ledger.created⟩ := by
  -- An entry under the same key is dropped first, and it is none of the held regions.
  have emptied : Sound limit ⟨⟨memory, { manager with
      tracked := manager.tracked.filter fun entry => entry.1 != key }⟩, ledger.created⟩ := by
    refine sound.follow follows capacity next (tracked ▸ List.filter_sublist) ?_
    intro other region held among
    exact filter_keeps (tracked ▸ among) (apart other region (sound.held_earlier follows held))
  have used : Store.usedBytes ⟨memory, Store.track key id manager⟩ ≤
      ledger.store.usedBytes + countedSize memory id := by
    have fewer : Store.usedBytes ⟨memory, { manager with
        tracked := manager.tracked.filter fun entry => entry.1 != key }⟩ ≤ ledger.store.usedBytes :=
      usedBytes_follows sound follows (tracked ▸ List.filter_sublist)
    rw [usedBytes_sum] at fewer ⊢
    simpa [Store.track] using fewer
  exact {
    capacity := emptied.capacity
    used := used.trans room
    inside := fun entry among => by
      rcases List.mem_append.mp among with earlier | last
      · exact emptied.inside entry earlier
      · obtain rfl := List.mem_singleton.mp last
        exact found
    apart := by
      have absent : key ∉ (manager.tracked.filter fun entry => entry.1 != key).map Prod.fst := by
        simp
      simpa [Store.track] using emptied.apart.concat absent
    once := emptied.once
    made := emptied.made
    held := fun other region held => List.mem_append_left _
      (emptied.held other region ⟨held.created, held.found, held.mapped⟩) }

theorem Sound.own (sound : Sound limit ⟨store, created⟩) (new : id ∉ created)
    (found : store.memory.region? id = some region) (made : Made store.memory store.manager.nextKey region)
    (tracked : (region.key, id) ∈ store.manager.tracked) :
    Sound limit ⟨store, created ++ [id]⟩ where
  capacity := sound.capacity
  used := sound.used
  inside := sound.inside
  apart := sound.apart
  once := by simpa using sound.once.concat new
  made other among := by
    rcases List.mem_append.mp among with earlier | last
    · exact sound.made other earlier
    · obtain rfl := List.mem_singleton.mp last
      exact ⟨region, found, made⟩
  held other view held := by
    rcases List.mem_append.mp held.created with earlier | last
    · exact sound.held other view ⟨earlier, held.found, held.mapped⟩
    · obtain rfl := List.mem_singleton.mp last
      obtain rfl := Option.some.inj (found.symm.trans held.found)
      exact tracked

theorem sound_start (memory : Memory) (limit : Nat) : Sound limit (run memory limit []) where
  capacity := rfl
  used := Nat.zero_le limit
  inside := by simp [run, Store.new]
  apart := List.nodup_nil
  once := List.nodup_nil
  made := by simp [run]
  held id region held := absurd held.created List.not_mem_nil

theorem Sound.last_new (sound : Sound limit ledger)
    (last : id = ⟨ledger.store.memory.regions.size⟩) : id ∉ ledger.created := by
  intro among
  obtain ⟨region, found, -⟩ := sound.made id among
  have inside := (Array.getElem?_eq_some_iff.mp found).1
  rw [last] at inside
  exact Nat.lt_irrefl _ inside

theorem ensureDirectory_keeps (manager : RegionManager) : ∃ directory number,
    Store.ensureDirectory manager =
      { manager with directory := directory, nextDirectory := number } := by
  unfold Store.ensureDirectory
  split
  · exact ⟨_, _, rfl⟩
  · exact ⟨_, _, rfl⟩

theorem createUnchecked_done (made : Store.createUnchecked size store = .ok id later) :
    ∃ directory number,
      Memory.create (Store.keyText store.manager.nextKey) (Store.keyText store.manager.nextKey) size
        store.memory = .ok id later.memory ∧
      later.manager = Store.track (Store.keyText store.manager.nextKey) id { store.manager with
        nextKey := store.manager.nextKey + 1
        directory := directory
        nextDirectory := number } := by
  obtain ⟨directory, number, kept⟩ := ensureDirectory_keeps store.manager
  simp only [Store.createUnchecked, kept] at made
  split at made
  · rename_i found
    cases made
    exact ⟨directory, number, found, rfl⟩
  · cases made

theorem createUnchecked_refused {e : RegionError}
    (refused : Store.createUnchecked size store = .error e later) : ∃ directory number,
      later = ⟨store.memory, { store.manager with
        directory := directory, nextDirectory := number }⟩ := by
  obtain ⟨directory, number, kept⟩ := ensureDirectory_keeps store.manager
  simp only [Store.createUnchecked, kept] at refused
  split at refused
  · cases refused
  · rename_i found
    cases refused
    rw [Memory.create_refused found]
    exact ⟨_, _, rfl⟩

theorem create_made (made : Store.create size store = .ok id later) :
    Store.createUnchecked size store = .ok id later := by
  simp only [Store.create] at made
  split at made
  · exact made
  · split at made
    · cases made
    · exact made

theorem create_done (limited : store.manager.capacity = some limit)
    (made : Store.create size store = .ok id later) :
    ∃ directory number, size ≤ limit - store.usedBytes ∧
      Memory.create (Store.keyText store.manager.nextKey) (Store.keyText store.manager.nextKey) size
        store.memory = .ok id later.memory ∧
      later.manager = Store.track (Store.keyText store.manager.nextKey) id { store.manager with
        nextKey := store.manager.nextKey + 1
        directory := directory
        nextDirectory := number } := by
  obtain ⟨directory, number, done⟩ := createUnchecked_done (create_made made)
  simp only [Store.create, limited] at made
  split at made
  · cases made
  · rename_i room
    exact ⟨directory, number, Nat.le_of_not_lt room, done⟩

theorem create_refused {e : RegionError} (refused : Store.create size store = .error e later) :
    ∃ directory number, later = ⟨store.memory, { store.manager with
        directory := directory, nextDirectory := number }⟩ := by
  simp only [Store.create] at refused
  split at refused
  · exact createUnchecked_refused refused
  · split at refused
    · cases refused
      exact ⟨_, _, rfl⟩
    · exact createUnchecked_refused refused

theorem keyText_injective {m n : Nat} (same : Store.keyText m = Store.keyText n) : m = n := by
  have digits : Nat.toDigits 10 m = Nat.toDigits 10 n :=
    String.ofList_injective (by simpa [Store.keyText, Nat.repr] using same)
  have value := congrArg (Nat.ofDigitChars 10 · 0) digits
  simpa only [Nat.ofDigitChars_ten_toDigits] using value

theorem Sound.key_new (sound : Sound limit ledger) (held : ledger.Held id region) :
    region.key ≠ Store.keyText ledger.store.manager.nextKey := by
  obtain ⟨made, found, -, ⟨number, given, named⟩, -⟩ := sound.made id held.created
  obtain rfl := Option.some.inj (found.symm.trans held.found)
  intro same
  exact Nat.ne_of_lt given (keyText_injective (named.symm.trans same))

theorem sound_create (sound : Sound limit ledger) (size : Nat) :
    Sound limit (ledger.apply (.create size)) := by
  cases answer : Store.create size ledger.store with
  | error e later =>
    obtain ⟨directory, number, rfl⟩ := create_refused answer
    simp only [apply, answer]
    exact sound.follow (.refl _) rfl (Nat.le_refl _) (List.Sublist.refl _) fun _ _ _ among => among
  | ok id later =>
    obtain ⟨⟨memory, manager⟩, created⟩ := ledger
    obtain ⟨directory, number, room, done, entered⟩ := create_done sound.capacity answer
    obtain ⟨last, grown⟩ := Memory.create_parts done
    obtain ⟨memory', manager'⟩ := later
    dsimp only at grown entered room last
    have follows : memory.Follows memory' := by
      rw [grown]
      exact .of_kept (fun _ _ => Memory.getElem?_push_kept _) fun _ file found =>
        ⟨file, Memory.getElem?_push_kept _ found, rfl⟩
    have found : memory'.region? id =
        some ⟨Store.keyText manager.nextKey, memory.files.size, size, true, .readWrite⟩ := by
      rw [grown, last]
      exact Array.getElem?_push_size
    have counted : countedSize memory' id = size := by
      simp only [countedSize, found, if_true]
    have used : Store.usedBytes ⟨memory, manager⟩ ≤ limit := sound.used
    have tracked : Sound limit ⟨⟨memory', Store.track (Store.keyText manager.nextKey) id
        { manager with
          nextKey := manager.nextKey + 1
          directory := directory
          nextDirectory := number }⟩, created⟩ :=
      sound.track follows rfl (Nat.le_succ _) rfl (fun _ _ held => sound.key_new held)
        (by rw [found]; rfl) (by rw [counted]; exact Nat.add_le_of_le_sub' used room)
    simp only [apply, answer, entered]
    refine tracked.own (sound.last_new last) found ⟨rfl, ⟨_, Nat.lt_succ_self _, rfl⟩, ?_⟩ ?_
    · exact ⟨⟨Store.keyText manager.nextKey, zeros size, true⟩,
        by rw [grown]; exact Array.getElem?_push_size, rfl⟩
    · exact List.mem_append_right _ List.mem_cons_self

theorem sound_open (sound : Sound limit ledger) (path : String)
    (undisturbed : ∀ view later, Store.openTracked path ledger.store = .ok view later →
      ∀ id region, ledger.Held id region → region.key ≠ Memory.keyOfPath path) :
    Sound limit (ledger.apply (.openFile path)) := by
  cases answer : Memory.openReadOnly path ledger.store.memory with
  | error e later =>
    obtain rfl := Memory.openPath_refused answer
    simp only [apply, Store.after, Store.openTracked, answer]
    exact sound
  | ok view later =>
    have opened : Store.openTracked path ledger.store =
        .ok view ⟨later, Store.track (Memory.keyOfPath path) view ledger.store.manager⟩ := by
      simp only [Store.openTracked, answer]
    obtain ⟨last, file, size, grown⟩ := Memory.openPath_parts answer
    have found : later.region? view = some ⟨Memory.keyOfPath path, file, size, false, .readOnly⟩ := by
      rw [grown, last]
      exact Array.getElem?_push_size
    have counted : countedSize later view = 0 := by
      simp [countedSize, found]
    have follows : ledger.store.memory.Follows later := by
      rw [grown]
      exact .of_kept (fun _ _ => Memory.getElem?_push_kept _) fun _ file found => ⟨file, found, rfl⟩
    simp only [apply, Store.after, opened]
    exact sound.track follows rfl (Nat.le_refl _) rfl (undisturbed view _ opened)
      (by rw [found]; rfl) (by rw [counted]; exact sound.used)

theorem destroy_found (found : store.lookup? key = some id) : Store.destroy key store =
    .ok () ⟨store.memory.unmap id, { store.manager with
      tracked := store.manager.tracked.filter fun entry => entry.1 != key }⟩ := by
  have required : Store.require key store = .ok id store := by
    simp only [Store.require, found]
  exact bind_done required

theorem destroy_absent (absent : store.lookup? key = none) :
    Store.destroy key store = .error (.notFound key) store := by
  have required : Store.require key store = .error (.notFound key) store := by
    simp only [Store.require, absent]
  exact bind_failed required

theorem not_held_unmapped {before : Option Region} (held : Held ledger id region)
    (same : ledger.store.memory.region? id = before.map Region.ended) : False := by
  rw [held.found] at same
  obtain ⟨other, -, rfl⟩ := Option.map_eq_some_iff.mp same.symm
  exact held.mapped rfl

theorem sound_destroy (sound : Sound limit ledger) (key : String) :
    Sound limit (ledger.apply (.destroy key)) := by
  cases answer : ledger.store.lookup? key with
  | none =>
    simp only [apply, Store.after, destroy_absent answer]
    exact sound
  | some id =>
    simp only [apply, Store.after, destroy_found answer]
    refine sound.follow (Memory.unmap_follows _ _) rfl (Nat.le_refl _) List.filter_sublist ?_
    intro other region held among
    refine filter_keeps among fun same => ?_
    subst same
    obtain rfl := Option.some.inj (answer.symm.trans (lookup_of_mem sound.apart among))
    exact not_held_unmapped held (by rw [Memory.unmap_region, if_pos rfl])

theorem unmapAll_region (memory : Memory) (entries : List (String × RegionId)) (id : RegionId) :
    (entries.foldl (fun memory entry => memory.unmap entry.2) memory).region? id =
      if id ∈ entries.map Prod.snd then (memory.region? id).map Region.ended
      else memory.region? id := by
  induction entries generalizing memory with
  | nil => rfl
  | cons entry rest ih =>
    rw [List.foldl_cons, ih, Memory.unmap_region, List.map_cons]
    by_cases first : id = entry.2
    · have twice : ((memory.region? id).map Region.ended).map Region.ended =
          (memory.region? id).map Region.ended := by
        rw [Option.map_map]
        rfl
      rw [if_pos first, twice, ite_self, if_pos (first ▸ List.mem_cons_self)]
    · simp only [List.mem_cons, first, false_or, if_false]

theorem destroyAll_region (store : Store) (id : RegionId) : store.destroyAll.memory.region? id =
    if id ∈ store.manager.tracked.map Prod.snd then
      (store.memory.region? id).map Region.ended
    else store.memory.region? id := by
  rw [← unmapAll_region]
  unfold Store.destroyAll
  dsimp only
  split <;> rfl

theorem destroyAll_follows (store : Store) : store.memory.Follows store.destroyAll.memory := by
  have unmapped : ∀ (entries : List (String × RegionId)) (memory : Memory),
      memory.Follows (entries.foldl (fun memory entry => memory.unmap entry.2) memory) := by
    intro entries
    induction entries with
    | nil => exact fun memory => .refl memory
    | cons entry rest ih => exact fun memory => (memory.unmap_follows entry.2).trans (ih _)
  unfold Store.destroyAll
  dsimp only
  split
  · exact (unmapped _ _).trans (Memory.unlinkAll_follows _)
  · exact unmapped _ _

theorem sound_destroyAll (sound : Sound limit ledger) : Sound limit (ledger.apply .destroyAll) := by
  refine sound.follow (destroyAll_follows _) rfl (Nat.le_refl _) (List.nil_sublist _) ?_
  intro id region held among
  have ended : ledger.store.destroyAll.memory.region? id =
      (ledger.store.memory.region? id).map Region.ended := by
    rw [destroyAll_region, if_pos (List.mem_map_of_mem among)]
  exact (not_held_unmapped held ended).elim

theorem sound_arrive (sound : Sound limit ledger) (path : String) (bytes : ByteArray) :
    Sound limit (ledger.apply (.arrive path bytes)) :=
  sound.follow (Memory.putFile_follows _ _ _) rfl (Nat.le_refl _) (List.Sublist.refl _)
    fun _ _ _ among => among

theorem undisturbed_snoc {step : RegionStep} : Undisturbed memory limit (steps ++ [step]) ↔
    Undisturbed memory limit steps ∧ ∀ path, step = .openFile path →
      ∀ view later, Store.openTracked path (run memory limit steps).store = .ok view later →
        ∀ id region, (run memory limit steps).Held id region →
          region.key ≠ Memory.keyOfPath path := by
  constructor
  · intro whole
    refine ⟨fun before path earlier => whole before path (earlier.trans (List.prefix_append _ _)), ?_⟩
    rintro path rfl
    exact whole steps path (List.prefix_refl _)
  · rintro ⟨earlier, here⟩ before path inside
    rcases List.prefix_concat_iff.mp inside with last | inside
    · obtain ⟨rfl, same⟩ := List.append_inj' last rfl
      exact here path (List.singleton_injective same).symm
    · exact earlier before path inside

theorem sound_run (undisturbed : Undisturbed memory limit steps) :
    Sound limit (run memory limit steps) := by
  induction steps using List.reverseRecOn with
  | nil => exact sound_start memory limit
  | append_singleton steps step ih =>
    obtain ⟨earlier, here⟩ := undisturbed_snoc.mp undisturbed
    have sound := ih earlier
    rw [run_snoc]
    cases step with
    | create size => exact sound_create sound size
    | openFile path => exact sound_open sound path (here path rfl)
    | destroy key => exact sound_destroy sound key
    | destroyAll => exact sound_destroyAll sound
    | arrive path bytes => exact sound_arrive sound path bytes

theorem held_within {ids : List RegionId} (once : created.Nodup)
    (among : ∀ id ∈ created, heldSize memory id ≠ 0 → id ∈ ids)
    (counts : ∀ id ∈ created, heldSize memory id ≤ countedSize memory id) :
    (created.map (heldSize memory)).sum ≤ (ids.map (countedSize memory)).sum := by
  induction created generalizing ids with
  | nil => exact Nat.zero_le _
  | cons id rest ih =>
    obtain ⟨new, once⟩ := List.nodup_cons.mp once
    have later := fun other inside => counts other (List.mem_cons_of_mem id inside)
    rw [List.map_cons, List.sum_cons]
    by_cases empty : heldSize memory id = 0
    · rw [empty, Nat.zero_add]
      exact ih once (fun other inside => among other (List.mem_cons_of_mem id inside)) later
    · have present := among id List.mem_cons_self empty
      have split := (List.perm_cons_erase present).map (countedSize memory)
      rw [split.sum_eq, List.map_cons, List.sum_cons]
      refine Nat.add_le_add (counts id List.mem_cons_self) (ih once ?_ later)
      intro other inside some
      have apart : other ≠ id := fun same => new (same ▸ inside)
      exact (List.mem_erase_of_ne apart).mpr (among other (List.mem_cons_of_mem id inside) some)

theorem Sound.within (sound : Sound limit ledger) :
    (ledger.created.map (heldSize ledger.store.memory)).sum ≤ limit := by
  have counted : ((ledger.store.manager.tracked.map Prod.snd).map
      (countedSize ledger.store.memory)).sum ≤ limit := by
    rw [List.map_map]
    exact usedBytes_sum ledger.store ▸ sound.used
  refine (held_within sound.once ?_ ?_).trans counted
  · intro id among some
    obtain ⟨region, found, -⟩ := sound.made id among
    have mapped : region.mapping ≠ .unmapped := by
      intro gone
      simp [heldSize, found, gone] at some
    exact List.mem_map_of_mem (sound.held id region ⟨among, found, mapped⟩)
  · intro id among
    obtain ⟨region, found, made⟩ := sound.made id among
    simp only [heldSize, countedSize, found, made.owned, if_true]
    split
    · exact Nat.zero_le _
    · exact Nat.le_refl _

theorem Sound.removable (sound : Sound limit ledger) (held : ledger.Held id region) :
    ∃ later, Store.destroy region.key ledger.store = .ok () later ∧ Gone later.memory id region := by
  obtain ⟨before, found, made⟩ := sound.made id held.created
  obtain rfl := Option.some.inj (found.symm.trans held.found)
  obtain ⟨file, lies, path⟩ := made.backed
  have tracked := lookup_of_mem sound.apart (sound.held id before held)
  refine ⟨_, destroy_found tracked, ?_, { file with linked := false }, ?_, path, rfl⟩
  · rw [Memory.unmap_region, if_pos rfl, found]
    rfl
  · exact Memory.unmap_removes found held.mapped made.owned lies

theorem Sound.ended (sound : Sound limit ledger) (among : id ∈ ledger.created) : ∃ region,
    ledger.store.destroyAll.memory.region? id = some region ∧ region.mapping = .unmapped := by
  obtain ⟨region, found, -⟩ := sound.made id among
  rw [destroyAll_region, found]
  by_cases mapped : region.mapping = .unmapped
  · split
    · exact ⟨_, rfl, rfl⟩
    · exact ⟨region, rfl, mapped⟩
  · rw [if_pos (List.mem_map_of_mem (sound.held id region ⟨among, found, mapped⟩))]
    exact ⟨_, rfl, rfl⟩

theorem Sound.toOwned (sound : Sound limit ledger) : Owned limit ledger :=
  ⟨sound.within, fun _ _ held => lookup_of_mem sound.apart (sound.held _ _ held),
    fun _ _ held => sound.removable held, fun _ among => sound.ended among⟩

theorem openTracked_parts {view : RegionId}
    (opened : Store.openTracked path store = .ok view later) :
    Memory.openReadOnly path store.memory = .ok view later.memory ∧
      later.manager = Store.track (Memory.keyOfPath path) view store.manager := by
  unfold Store.openTracked at opened
  split at opened
  · rename_i answer
    cases opened
    exact ⟨answer, rfl⟩
  · cases opened

theorem track_lookup (memory : Memory) (manager : RegionManager) (key : String) (id : RegionId) :
    Store.lookup? ⟨memory, Store.track key id manager⟩ key = some id := by
  have absent : (manager.tracked.filter fun entry => entry.1 != key).find?
      (fun entry => entry.1 == key) = none := by
    simp
  simp [Store.lookup?, Store.track, List.find?_append, absent]

theorem opened_lookup {view : RegionId}
    (opened : Store.openTracked path store = .ok view later) :
    later.lookup? (Memory.keyOfPath path) = some view := by
  obtain ⟨memory, manager⟩ := later
  obtain rfl : manager = _ := (openTracked_parts opened).2
  exact track_lookup memory store.manager _ view

theorem opened_held {view : RegionId}
    (opened : Store.openTracked path ledger.store = .ok view later)
    (held : ledger.Held id region) : id ≠ view ∧ Held ⟨later, ledger.created⟩ id region := by
  obtain ⟨last, file, size, grown⟩ := Memory.openPath_parts (openTracked_parts opened).1
  refine ⟨?_, held.created, ?_, held.mapped⟩
  · rintro rfl
    have inside := (Array.getElem?_eq_some_iff.mp held.found).1
    rw [last] at inside
    exact Nat.lt_irrefl _ inside
  · dsimp only
    rw [grown]
    exact Memory.getElem?_push_kept _ held.found

-- The manager keeps hold of its regions through a run exactly if no file is opened under the
-- name of one of them.
theorem owned_iff (memory : Memory) (limit : Nat) (steps : List RegionStep) :
    (∀ before, before <+: steps → Owned limit (run memory limit before)) ↔
      Undisturbed memory limit steps := by
  constructor
  · intro owned before path inside view later opened id region held same
    have after := owned _ inside
    rw [run_snoc] at after
    simp only [apply, Store.after, opened] at after
    obtain ⟨apart, still⟩ := opened_held opened held
    have tracked := after.tracked id region still
    rw [same, opened_lookup opened] at tracked
    exact apart (Option.some.inj tracked).symm
  · intro undisturbed before earlier
    exact (sound_run fun first path inside => undisturbed first path (inside.trans earlier)).toOwned

-- A manager of 100 bytes makes two regions of 60, for it opened the first one's file between.
theorem capacity_exceeded : ¬ Owned 100 (run .empty 100 [.create 60, .openFile "k0", .create 60]) := by
  intro owned
  exact absurd owned.within (by decide +kernel)

end RegionLedger
end PluginBridge
