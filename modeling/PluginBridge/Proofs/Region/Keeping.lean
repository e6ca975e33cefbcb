import Mathlib.Order.Defs.Unbundled
import PluginBridge.Proofs.Region.Ownership
import PluginBridge.Proofs.Region.Shared
namespace PluginBridge
variable {base memory middle later : Memory} {id other writer : RegionId} {path : String}
  {data bytes : ByteArray} {number offset size : Nat}

theorem zeros_data (n : Nat) : (zeros n).data = Array.replicate n 0 := by
  induction n using zeros.induct with
  | case1 =>
    rw [zeros]
    rfl
  | case2 n even ih =>
    rw [zeros, if_pos even, ByteArray.data_append, ih, Array.replicate_append_replicate]
    congr 1
    omega
  | case3 n odd ih =>
    rw [zeros, if_neg odd, ByteArray.data_push, ByteArray.data_append, ih, Array.replicate_append_replicate,
      ← Array.replicate_succ]
    congr 1
    omega

theorem size_zeros (n : Nat) : (zeros n).size = n := by
  rw [← ByteArray.size_data, zeros_data, Array.size_replicate]

theorem zeros_holds {n m offset : Nat} (within : offset + m ≤ n) : Holds (zeros n) offset (zeros m) := by
  refine ⟨by rwa [size_zeros, size_zeros], ByteArray.ext ?_⟩
  rw [ByteArray.data_extract, zeros_data, zeros_data, size_zeros, Array.extract_replicate]
  congr 1
  omega

namespace Memory

structure Keeps (base memory : Memory) : Prop where
  region : ∀ id region, base.region? id = some region → memory.region? id = some region
  file : ∀ index file, base.file? index = some file → memory.file? index = some file

theorem Keeps.refl (memory : Memory) : memory.Keeps memory := ⟨fun _ _ found => found, fun _ _ found => found⟩

theorem Keeps.trans (first : base.Keeps middle) (second : middle.Keeps later) : base.Keeps later :=
  ⟨fun id region found => second.region id region (first.region id region found),
    fun index file found => second.file index file (first.file index file found)⟩

theorem Keeps.views (keeps : memory.Keeps later) (views : Views memory id number data) :
    Views later id number data := by
  obtain ⟨⟨region, found, mapped⟩, ⟨file, stored, holds⟩⟩ := views
  exact ⟨⟨region, keeps.region id region found, mapped⟩, ⟨file, keeps.file number file stored, holds⟩⟩

theorem Keeps.shared (keeps : memory.Keeps later) (shared : Shared memory id other data) :
    Shared later id other data := by
  obtain ⟨number, first, second⟩ := shared
  exact ⟨number, keeps.views first, keeps.views second⟩

theorem openPath_keeps {mapping : Mapping} (opened : openPath path mapping memory = .ok id later) :
    memory.Keeps later := by
  obtain ⟨-, file, size, rfl⟩ := openPath_parts opened
  exact ⟨fun _ _ => getElem?_push_kept _, fun _ _ found => found⟩

theorem Keeps.modified (keeps : base.Keeps memory) (recent : base.files.size ≤ number)
    (change : BackingFile → BackingFile) (index : Nat) (file : BackingFile)
    (found : base.file? index = some file) : (memory.files.modify number change)[index]? = some file := by
  have inside := (Array.getElem?_eq_some_iff.mp found).1
  have apart : number ≠ index := by omega
  rw [Array.getElem?_modify, if_neg apart]
  exact keeps.file index file found

theorem write_parts (written : write id offset bytes memory = .ok () later) :
    ∃ region, memory.region? id = some region ∧
      later = { memory with files := memory.files.modify region.file fun file => overwrite file offset bytes } := by
  unfold write at written
  split at written
  · cases written
  · rename_i region found
    split at written
    · cases written
    · cases written
    · split at written
      · cases written
        exact ⟨region, found, rfl⟩
      · cases written

theorem write_refused {e : RegionError} (refused : write id offset bytes memory = .error e later) :
    later = memory := by
  unfold write at refused
  split at refused
  · cases refused
    rfl
  · split at refused
    · cases refused
      rfl
    · cases refused
      rfl
    · split at refused
      · cases refused
      · cases refused
        rfl

theorem write_within {region : Region} (written : write id offset bytes memory = .ok () later)
    (found : memory.region? id = some region) : offset + bytes.size ≤ region.size := by
  simp only [write, found] at written
  split at written
  · cases written
  · cases written
  · split at written
    · assumption
    · cases written

theorem Keeps.unmap {region : Region} (keeps : base.Keeps memory) (recent : base.regions.size ≤ id.index)
    (found : memory.region? id = some region) (fresh : base.files.size ≤ region.file) :
    base.Keeps (memory.unmap id) := by
  refine ⟨fun other last there => ?_, ?_⟩
  · have inside := (Array.getElem?_eq_some_iff.mp there).1
    have apart : other ≠ id := by
      rintro rfl
      exact absurd inside (Nat.not_lt.mpr recent)
    rw [unmap_region, if_neg apart]
    exact keeps.region other last there
  · simp only [Memory.unmap, found]
    split
    · exact keeps.file
    · split
      · exact keeps.modified fresh _
      · exact keeps.file

theorem findFile_modify (memory : Memory) (number : Nat) {change : BackingFile → BackingFile}
    (same : ∀ file, (change file).path = file.path ∧ (change file).linked = file.linked)
    (path : String) :
    findFile? { memory with files := memory.files.modify number change } path = memory.findFile? path := by
  let label : BackingFile → Bool × String := fun file => (file.linked, file.path)
  have labels : (memory.files.modify number change).map label = memory.files.map label := by
    refine Array.ext_getElem? fun index => ?_
    rw [Array.getElem?_map, Array.getElem?_map, Array.getElem?_modify]
    split
    · cases memory.files[index]? <;> simp [label, same]
    · rfl
  have searched : ∀ files : Array BackingFile, (files.findIdx? fun file => file.linked && file.path == path) =
      (files.map label).findIdx? fun entry => entry.1 && entry.2 == path :=
    fun files => (@Array.findIdx?_map _ _ label files fun entry => entry.1 && entry.2 == path).symm
  rw [findFile?, findFile?, searched, labels, searched]

end Memory

structure Private (base memory : Memory) (path : String) (id other : RegionId) (data : ByteArray) : Prop where
  keeps : base.Keeps memory
  recent : base.regions.size ≤ id.index
  keyed : ∃ region, memory.region? id = some region ∧ region.key = path
  lies : ∃ number, base.files.size ≤ number ∧ memory.findFile? path = some number ∧
    Views memory id number data ∧ Views memory other number data

namespace Private

theorem shared (owned : Private base memory path id other data) : Shared memory id other data := by
  obtain ⟨number, _, _, first, second⟩ := owned.lies
  exact ⟨number, first, second⟩

theorem path_found (owned : Private base memory path id other data) : ∃ region file,
    memory.region? id = some region ∧ region.key = path ∧ region.size = data.size ∧
      memory.file? region.file = some file ∧ file.path = path := by
  obtain ⟨number, _, found, views, _⟩ := owned.lies
  obtain ⟨region, there, _, rfl, sized⟩ := views.region
  obtain ⟨file, stored, _⟩ := views.file
  obtain ⟨inside, chosen, _⟩ := Array.findIdx?_eq_some_iff_getElem.mp found
  obtain rfl := Option.some.inj ((Array.getElem?_eq_getElem inside).symm.trans stored)
  obtain ⟨same, again, keyed⟩ := owned.keyed
  obtain rfl := Option.some.inj (there.symm.trans again)
  rw [Bool.and_eq_true, beq_iff_eq] at chosen
  exact ⟨region, _, there, keyed, sized, stored, chosen.2⟩

theorem ranged (owned : Private base memory path id other data) : id.index < memory.regions.size := by
  obtain ⟨region, found, -⟩ := owned.keyed
  exact (Array.getElem?_eq_some_iff.mp found).1

theorem create (made : Memory.create path path size memory = .ok id later) :
    Private memory later path id id (zeros size) := by
  have absent := (Memory.create_room made).2.2
  obtain ⟨rfl, rfl⟩ := Memory.create_parts made
  have found : (memory.files.push ⟨path, zeros size, true⟩).findIdx?
      (fun file => file.linked && file.path == path) = some memory.files.size := by
    rw [Array.findIdx?_push, show memory.files.findIdx? _ = none from absent]
    simp
  have views : Views { memory with
      files := memory.files.push ⟨path, zeros size, true⟩
      regions := memory.regions.push ⟨path, memory.files.size, size, true, .readWrite⟩ }
      ⟨memory.regions.size⟩ memory.files.size (zeros size) :=
    ⟨⟨_, Array.getElem?_push_size, rfl, rfl, (size_zeros size).symm⟩, ⟨_, Array.getElem?_push_size, rfl⟩⟩
  exact ⟨⟨fun _ _ => Memory.getElem?_push_kept _, fun _ _ => Memory.getElem?_push_kept _⟩, Nat.le_refl _,
    ⟨_, Array.getElem?_push_size, rfl⟩, ⟨memory.files.size, Nat.le_refl _, found, views, views⟩⟩

theorem write (owned : Private base memory path id other data) (either : writer = id ∨ writer = other)
    (within : offset + bytes.size ≤ data.size) :
    ∃ later, Memory.write writer offset bytes memory = .ok () later ∧
      Private base later path id other (patched data offset bytes) := by
  obtain ⟨number, fresh, found, first, second⟩ := owned.lies
  have own : Views memory writer number data := by
    rcases either with rfl | rfl
    · exact first
    · exact second
  obtain ⟨later, written, kept⟩ := Views.write own within
  obtain ⟨region, there, _, rfl, _⟩ := own.region
  obtain ⟨same, again, rfl⟩ := Memory.write_parts written
  obtain rfl := Option.some.inj (there.symm.trans again)
  refine ⟨_, written, ⟨owned.keeps.region, owned.keeps.modified fresh _⟩, owned.recent, owned.keyed, ?_⟩
  have named := @Memory.findFile_modify memory region.file
    (fun file => Memory.overwrite file offset bytes) (fun _ => ⟨rfl, rfl⟩) path
  exact ⟨region.file, fresh, named.trans found, kept id first, kept other second⟩

theorem attach (owned : Private base memory path id other data) (something : data.size ≠ 0) :
    ∃ view later, Memory.attach path memory = .ok view later ∧ Private base later path id view data := by
  obtain ⟨number, fresh, found, views, _⟩ := owned.lies
  obtain ⟨file, stored, rfl⟩ := views.file
  let later : Memory := { memory with
    regions := memory.regions.push ⟨Memory.keyOfPath path, number, file.bytes.size, false, .readWrite⟩ }
  have attached : Memory.attach path memory = .ok ⟨memory.regions.size⟩ later := by
    simp [Memory.attach, Memory.openPath, found, stored, something, Memory.addRegion, later]
  have keeps := Memory.openPath_keeps attached
  obtain ⟨region, there, keyed⟩ := owned.keyed
  refine ⟨_, later, attached, owned.keeps.trans keeps, owned.recent,
    ⟨region, keeps.region id region there, keyed⟩, number, fresh, found, keeps.views views, ?_⟩
  exact ⟨⟨_, Array.getElem?_push_size, rfl, rfl, rfl⟩, ⟨file, stored, rfl⟩⟩

theorem openReadOnly (owned : Private base memory path id other data) (something : data.size ≠ 0) :
    ∃ view later, Memory.openReadOnly path memory = .ok view later ∧ ∀ offset length, offset + length ≤ data.size →
      Memory.read view offset length later = .ok (data.extract offset (offset + length)) later := by
  obtain ⟨number, -, found, views, -⟩ := owned.lies
  obtain ⟨file, stored, rfl⟩ := views.file
  let later : Memory := { memory with
    regions := memory.regions.push ⟨Memory.keyOfPath path, number, file.bytes.size, false, .readOnly⟩ }
  have opened : Memory.openReadOnly path memory = .ok ⟨memory.regions.size⟩ later := by
    simp [Memory.openReadOnly, Memory.openPath, found, stored, something, Memory.addRegion, later]
  have there : later.region? ⟨memory.regions.size⟩ =
      some ⟨Memory.keyOfPath path, number, file.bytes.size, false, .readOnly⟩ := Array.getElem?_push_size
  have holds : later.file? number = some file := stored
  have usable : ¬ Mapping.readOnly = .unmapped := by decide
  refine ⟨_, later, opened, fun offset length within => ?_⟩
  simp only [Memory.read, there, holds, if_neg usable, if_pos within, Option.map_some, Option.getD_some]

theorem unmap (owned : Private base memory path id other data) : base.Keeps (memory.unmap id) := by
  obtain ⟨number, fresh, _, views, _⟩ := owned.lies
  obtain ⟨region, found, _, rfl, _⟩ := views.region
  exact owned.keeps.unmap owned.recent found fresh

end Private

theorem Store.create_first {capacity : Option Nat} (something : size ≠ 0) (small : size < maxFileSize)
    (room : ∀ limit, capacity = some limit → size ≤ limit) :
    ∃ id later, Store.create size (.new capacity) = .ok id later := by
  have allowed : Store.create size (.new capacity) = Store.createUnchecked size (.new capacity) := by
    cases capacity with
    | none => rfl
    | some limit => exact if_neg (Nat.not_lt.mpr (room limit rfl))
  have free : ¬ (min maxFileSize Memory.empty.room ≤ size ∨ (Memory.empty.findFile? (keyText 0)).isSome) := by
    simpa [Memory.findFile?, Memory.empty] using small
  have created : Memory.create (keyText 0) (keyText 0) size .empty =
      Memory.addRegion ⟨keyText 0, 0, size, true, .readWrite⟩ ⟨#[⟨keyText 0, zeros size, true⟩], #[], maxFileSize⟩ :=
    (if_neg something).trans (if_neg free)
  rw [allowed]
  simp only [createUnchecked, new, ensureDirectory, created, Memory.addRegion]
  exact ⟨_, _, rfl⟩

namespace Memory
variable {memory middle later : Memory} {id other : RegionId} {kept : RegionId → Prop} {touched : Nat → Prop}
  {number offset : Nat} {data bytes : ByteArray}

instance : IsPreorder Memory Follows where
  refl memory := .refl memory
  trans _ _ _ first second := first.trans second

theorem write_follows (id : RegionId) (offset : Nat) (bytes : ByteArray) :
    Along Follows (Memory.write id offset bytes) := by
  intro memory
  cases ran : Memory.write id offset bytes memory with
  | error e later => exact write_refused ran ▸ refl_of Follows memory
  | ok _ later =>
    obtain ⟨region, found, rfl⟩ := write_parts ran
    exact .of_kept (fun _ _ there => there) (modify_paths region.file fun _ => rfl)

-- What goes on beside some regions: these stay as they are, others lose at most their mapping, and no
-- file that there is changes its bytes.
structure Stands (kept : RegionId → Prop) (before after : Memory) : Prop where
  follows : before.Follows after
  mapped : ∀ id region, kept id → before.region? id = some region → after.region? id = some region
  bytes : ∀ number file, before.file? number = some file →
    ∃ still, after.file? number = some still ∧ still.bytes = file.bytes

theorem Keeps.follows (keeps : memory.Keeps later) : memory.Follows later :=
  .of_kept keeps.region fun number file found => ⟨file, keeps.file number file found, rfl⟩

theorem Keeps.stands (keeps : memory.Keeps later) (kept : RegionId → Prop) : memory.Stands kept later where
  follows := keeps.follows
  mapped id region _ found := keeps.region id region found
  bytes number file found := ⟨file, keeps.file number file found, rfl⟩

theorem unmap_stands (memory : Memory) (other : ¬ kept id) : memory.Stands kept (memory.unmap id) where
  follows := unmap_follows memory id
  mapped third region chosen found := by
    have apart : third ≠ id := fun same => other (same ▸ chosen)
    rwa [unmap_region, if_neg apart]
  bytes number file found := by
    unfold unmap
    split
    · exact ⟨file, found, rfl⟩
    · split
      · exact ⟨file, found, rfl⟩
      · split
        · rename_i region _ _ _
          change ∃ still, (memory.files.modify region.file _)[number]? = some still ∧ _
          rw [Array.getElem?_modify, show memory.files[number]? = some file from found]
          split
          · exact ⟨_, rfl, rfl⟩
          · exact ⟨file, rfl, rfl⟩
        · exact ⟨file, found, rfl⟩

theorem Stands.views (stands : memory.Stands kept later) (chosen : kept id) (views : Views memory id number data) :
    Views later id number data := by
  obtain ⟨⟨region, found, mapped⟩, file, stored, holds⟩ := views
  obtain ⟨still, there, same⟩ := stands.bytes number file stored
  exact ⟨⟨region, stands.mapped id region chosen found, mapped⟩, still, there, same.trans holds⟩

-- What is done through one region: it changes its file, at the touched places and without changing its
-- size, and nothing else.
structure Through (id : RegionId) (touched : Nat → Prop) (before after : Memory) : Prop where
  follows : before.Follows after
  regions : after.regions = before.regions
  views : ∀ number data, Views before id number data →
    ∃ next, Views after id number next ∧ Differs touched data next
  others : ∀ region, before.region? id = some region →
    ∀ number, number ≠ region.file → after.file? number = before.file? number

theorem Through.region (through : memory.Through id touched later) (other : RegionId) :
    later.region? other = memory.region? other := by
  rw [region?, region?, through.regions]

instance : IsPreorder Memory (Through id touched) where
  refl memory := ⟨.refl memory, rfl, fun _ data views => ⟨data, views, .refl touched data⟩, fun _ _ _ _ => rfl⟩
  trans one two three first second := by
    refine ⟨first.follows.trans second.follows, second.regions.trans first.regions, fun number data views => ?_,
      fun region found number other => ?_⟩
    · obtain ⟨between, there, differs⟩ := first.views number data views
      obtain ⟨next, last, further⟩ := second.views number between there
      exact ⟨next, last, differs.trans further⟩
    · have still := (first.region id).trans found
      exact (second.others region still number other).trans (first.others region found number other)

theorem write_through (id : RegionId) (inside : ∀ k, offset ≤ k → k < offset + bytes.size → touched k) :
    Along (Through id touched) (Memory.write id offset bytes) := by
  intro memory
  cases ran : Memory.write id offset bytes memory with
  | error e later => exact write_refused ran ▸ refl_of (Through id touched) memory
  | ok _ later =>
    obtain ⟨region, found, same⟩ := write_parts ran
    have follows := write_follows id offset bytes memory
    rw [ran] at follows
    refine ⟨follows, by rw [same]; rfl, fun number data views => ?_, fun other there number apart => ?_⟩
    · obtain ⟨own, there, _, _, sized⟩ := views.region
      have fits : offset + bytes.size ≤ data.size := sized ▸ write_within ran there
      obtain ⟨written, again, kept⟩ := views.write fits
      cases ran.symm.trans again
      exact ⟨_, kept id views, (Differs.patch fits).widen fun k range => inside k range.1 range.2⟩
    · obtain rfl := Option.some.inj (there.symm.trans found)
      rw [same]
      change (memory.files.modify other.file _)[number]? = memory.files[number]?
      rw [Array.getElem?_modify, if_neg fun equal => apart equal.symm]

end Memory
end PluginBridge
