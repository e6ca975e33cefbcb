import PluginBridge.Proofs.Protocol.Steps
import PluginBridge.Proofs.Region.Keeping
namespace PluginBridge
variable {memory later : Memory} {id other : RegionId} {region : Region} {number offset length size k : Nat}
  {data bytes : ByteArray} {key path : String} {mapping : Mapping}

theorem patched_at (within : offset + bytes.size ≤ data.size) (k : Nat) : (patched data offset bytes).data[k]? =
    if offset ≤ k ∧ k < offset + bytes.size then bytes.data[k - offset]? else data.data[k]? := by
  have room : offset + bytes.data.size ≤ data.data.size := within
  have front : (data.data.extract 0 offset).size = offset := by
    rw [Array.size_extract]
    omega
  have middle : (data.data.extract 0 offset ++ bytes.data).size = offset + bytes.data.size := by
    rw [Array.size_append, front]
  rw [patched_parts, ByteArray.data_append, ByteArray.data_append, ByteArray.data_extract, ByteArray.data_extract,
    Array.getElem?_append, middle, Array.getElem?_append, front, Array.getElem?_extract, Array.getElem?_extract,
    ← ByteArray.size_data, ← ByteArray.size_data]
  by_cases before : k < offset
  · have early : k < offset + bytes.data.size := by omega
    have inside : k < min offset data.data.size - 0 := by omega
    have apart : ¬ (offset ≤ k ∧ k < offset + bytes.data.size) := by omega
    rw [if_pos early, if_pos before, if_pos inside, if_neg apart, Nat.zero_add]
  · by_cases among : k < offset + bytes.data.size
    · have inside : offset ≤ k ∧ k < offset + bytes.data.size := by omega
      rw [if_pos among, if_neg before, if_pos inside]
    · have apart : ¬ (offset ≤ k ∧ k < offset + bytes.data.size) := by omega
      have place : offset + bytes.data.size + (k - (offset + bytes.data.size)) = k := by omega
      rw [if_neg among, if_neg apart, place, Nat.min_self]
      split
      · rfl
      · rw [Array.getElem?_eq_none (by omega)]

namespace Memory

def bytes? (memory : Memory) (number : Nat) : Option ByteArray := (memory.file? number).map BackingFile.bytes

theorem bytes?_file (found : memory.bytes? number = some data) :
    ∃ file, memory.file? number = some file ∧ file.bytes = data := Option.map_eq_some_iff.mp found

theorem bytes?_lt (found : memory.bytes? number = some data) : number < memory.files.size := by
  obtain ⟨file, found, -⟩ := bytes?_file found
  exact (Array.getElem?_eq_some_iff.mp found).1

theorem findFile_iff : memory.findFile? path = some number ↔
    (∃ file, memory.file? number = some file ∧ file.linked = true ∧ file.path = path) ∧
      ∀ earlier file, earlier < number → memory.file? earlier = some file → ¬ (file.linked = true ∧ file.path = path) := by
  rw [findFile?, Array.findIdx?_eq_some_iff_getElem]
  constructor
  · rintro ⟨inside, goal, others⟩
    refine ⟨⟨_, Array.getElem?_eq_getElem inside, by simpa using goal⟩, fun earlier file before found => ?_⟩
    obtain ⟨_, rfl⟩ := Array.getElem?_eq_some_iff.mp found
    simpa using others earlier before
  · rintro ⟨⟨file, found, goal⟩, others⟩
    obtain ⟨inside, rfl⟩ := Array.getElem?_eq_some_iff.mp found
    refine ⟨inside, by simpa using goal, fun earlier before => ?_⟩
    simpa using others earlier _ before (Array.getElem?_eq_getElem (Nat.lt_trans before inside))

theorem findFile_unlink {gone : Nat} (found : memory.findFile? path = some number) (apart : gone ≠ number) :
    (memory.unlinkFile gone).findFile? path = some number := by
  obtain ⟨⟨file, stored, goal⟩, others⟩ := findFile_iff.mp found
  refine findFile_iff.mpr ⟨⟨file, ?_, goal⟩, fun earlier file before there => ?_⟩
  · simpa only [unlinkFile, file?, Array.getElem?_modify, if_neg apart] using stored
  · simp only [unlinkFile, file?, Array.getElem?_modify] at there
    split at there
    · obtain ⟨_, _, rfl⟩ := Option.map_eq_some_iff.mp there
      simp
    · exact others earlier file before there

theorem openPath_opened (opened : openPath path mapping memory = .ok id later) : ∃ number data,
    memory.findFile? path = some number ∧ memory.bytes? number = some data ∧
      later = { memory with regions := memory.regions.push ⟨keyOfPath path, number, data.size, false, mapping⟩ } := by
  unfold openPath at opened
  split at opened
  · cases opened
  · rename_i number led
    have inside := (Array.findIdx?_eq_some_iff_getElem.mp led).1
    have stored : memory.file? number = some memory.files[number] := Array.getElem?_eq_getElem inside
    simp only [stored, Option.map_some, Option.getD_some] at opened
    split at opened
    · cases opened
    · cases opened
      exact ⟨number, _, led, congrArg (Option.map BackingFile.bytes) stored, rfl⟩

theorem unmap_sizes (memory : Memory) (id : RegionId) : (memory.unmap id).regions.size = memory.regions.size ∧
    (memory.unmap id).files.size = memory.files.size := by
  unfold unmap
  split
  · exact ⟨rfl, rfl⟩
  · split
    · exact ⟨rfl, rfl⟩
    · split
      · exact ⟨Array.size_setIfInBounds, Array.size_modify⟩
      · exact ⟨Array.size_setIfInBounds, rfl⟩

theorem overwrite_bytes (memory : Memory) (written number offset : Nat) (bytes : ByteArray) :
    Memory.bytes? { memory with files := memory.files.modify written fun file => overwrite file offset bytes } number =
      (memory.bytes? number).map fun data => if written = number then patched data offset bytes else data := by
  simp only [bytes?, file?, Array.getElem?_modify]
  split
  · rw [Option.map_map, Option.map_map]
    rfl
  · rw [Option.map_map]
    rfl

theorem overwrite_parts {whole : ByteArray} {written : Nat} (backing : memory.bytes? written = some whole)
    (within : offset + bytes.size ≤ whole.size)
    (there : Memory.bytes? { memory with files := memory.files.modify written fun file => overwrite file offset bytes } number =
      some data) :
    ∃ before, memory.bytes? number = some before ∧ data.size = before.size ∧
      (written = number ∧ before = whole ∧ data = patched whole offset bytes ∨ written ≠ number ∧ data = before) := by
  rw [overwrite_bytes, Option.map_eq_some_iff] at there
  obtain ⟨before, there, rfl⟩ := there
  refine ⟨before, there, ?_⟩
  by_cases here : written = number
  · subst here
    obtain rfl := Option.some.inj (there.symm.trans backing)
    rw [if_pos rfl]
    exact ⟨size_patched within, .inl ⟨rfl, rfl, rfl⟩⟩
  · rw [if_neg here]
    exact ⟨rfl, .inr ⟨here, rfl⟩⟩

theorem overwrite_kept {whole before : ByteArray} {written : Nat} (backing : memory.bytes? written = some whole)
    (within : offset + bytes.size ≤ whole.size) (stored : memory.bytes? number = some before) :
    ∃ data, Memory.bytes? { memory with files := memory.files.modify written fun file => overwrite file offset bytes } number =
      some data ∧ data.size = before.size := by
  have shown := overwrite_bytes memory written number offset bytes
  rw [stored, Option.map_some] at shown
  obtain ⟨_, same, size, -⟩ := overwrite_parts backing within shown
  cases same.symm.trans stored
  exact ⟨_, shown, size⟩

theorem unmap_bytes (memory : Memory) (id : RegionId) (number : Nat) :
    (memory.unmap id).bytes? number = memory.bytes? number := by
  unfold unmap
  split
  · rfl
  · split
    · rfl
    · split
      · simp only [bytes?, file?, unlinkFile, Array.getElem?_modify]
        split
        · rw [Option.map_map]
          rfl
        · rfl
      · rfl

def Named (memory : Memory) : Prop :=
  ∀ number file, memory.file? number = some file → file.linked = true → memory.findFile? file.path = some number

theorem Named.push (named : memory.Named) (absent : memory.findFile? path = none) (bytes : ByteArray) :
    Named { memory with files := memory.files.push ⟨path, bytes, true⟩ } := by
  have led : ∀ other, findFile? { memory with files := memory.files.push ⟨path, bytes, true⟩ } other =
      (memory.findFile? other).or (if path = other then some memory.files.size else none) := by
    intro other
    simp [findFile?, Array.findIdx?_push]
  intro number file found linked
  rw [file?, Array.getElem?_push] at found
  split at found
  · rename_i last
    cases found
    rw [led, absent, if_pos rfl, last]
    rfl
  · rw [led, named number file found linked]
    rfl

theorem Named.write (named : memory.Named) (written offset : Nat) (bytes : ByteArray) :
    Named { memory with files := memory.files.modify written fun file => overwrite file offset bytes } := by
  have led := @findFile_modify memory written (fun file => overwrite file offset bytes) fun _ => ⟨rfl, rfl⟩
  intro number file found linked
  rw [led]
  rw [file?, Array.getElem?_modify] at found
  split at found
  · obtain ⟨before, stored, rfl⟩ := Option.map_eq_some_iff.mp found
    exact named number before stored linked
  · exact named number file found linked

theorem Named.unmap (named : memory.Named) (id : RegionId) : (memory.unmap id).Named := by
  unfold Memory.unmap
  split
  · exact named
  · split
    · exact named
    · split
      · intro number file found linked
        simp only [unlinkFile, file?, Array.getElem?_modify] at found
        split at found
        · obtain ⟨_, _, rfl⟩ := Option.map_eq_some_iff.mp found
          cases linked
        · rename_i apart
          exact findFile_unlink (named number file found linked) apart
      · exact named

end Memory

inductive RegionUse where
  | create (key path : String) (size : Nat)
  | attach (path : String)
  | openReadOnly (path : String)
  | write (id : RegionId) (offset : Nat) (bytes : ByteArray)
  | writeU32 (id : RegionId) (offset : Nat) (value : UInt32)
  | read (id : RegionId) (offset length : Nat)
  | readU32 (id : RegionId) (offset : Nat)
  | view (id : RegionId) (offset length : Nat)
  | destroy (id : RegionId)

structure RegionWriting where
  file : Nat
  offset : Nat
  bytes : ByteArray

-- The byte written last at a place of a file. The writings stand in the order from the last to the first.
def lastWritten (file k : Nat) : List RegionWriting → UInt8
  | [] => 0
  | writing :: earlier =>
    if writing.file = file ∧ writing.offset ≤ k ∧ k < writing.offset + writing.bytes.size then
      writing.bytes.data.getD (k - writing.offset) 0
    else lastWritten file k earlier

-- The memory, together with all that was written and the regions that were opened for reading only and
-- those that were destroyed.
structure RegionHistory where
  memory : Memory
  written : List RegionWriting
  readOnly : List RegionId
  ended : List RegionId

namespace RegionHistory
variable {history : RegionHistory}

def record (history : RegionHistory) (id : RegionId) (offset : Nat) (bytes : ByteArray) : RegionHistory :=
  match history.memory.region? id, Memory.write id offset bytes history.memory with
  | some region, .ok _ later => { history with memory := later, written := ⟨region.file, offset, bytes⟩ :: history.written }
  | _, outcome => { history with memory := left outcome }

def apply (history : RegionHistory) : RegionUse → RegionHistory
  | .create key path size => { history with memory := left (Memory.create key path size history.memory) }
  | .attach path => { history with memory := left (Memory.attach path history.memory) }
  | .openReadOnly path =>
    match Memory.openReadOnly path history.memory with
    | .ok id later => { history with memory := later, readOnly := id :: history.readOnly }
    | .error _ later => { history with memory := later }
  | .write id offset bytes => history.record id offset bytes
  | .writeU32 id offset value => history.record id offset (Bytes.u32 value)
  | .read id offset length | .view id offset length =>
    { history with memory := left (Memory.read id offset length history.memory) }
  | .readU32 id offset => { history with memory := left (Memory.readU32 id offset history.memory) }
  | .destroy id =>
    match history.memory.region? id with
    | none => history
    | some _ => { history with memory := history.memory.unmap id, ended := id :: history.ended }

def run (history : RegionHistory) (uses : List RegionUse) : RegionHistory := uses.foldl apply history

def start (room : Nat) : RegionHistory := ⟨{ Memory.empty with room := room }, [], [], []⟩

def mappingOf (history : RegionHistory) (id : RegionId) : Mapping :=
  if id ∈ history.ended then .unmapped else if id ∈ history.readOnly then .readOnly else .readWrite

structure Sound (history : RegionHistory) : Prop where
  backed : ∀ id region, history.memory.region? id = some region →
    ∃ data, history.memory.bytes? region.file = some data ∧ region.size = data.size
  small : ∀ number data, history.memory.bytes? number = some data → data.size ≠ 0 ∧ data.size < maxFileSize
  holds : ∀ number data, history.memory.bytes? number = some data → ∀ k, k < data.size →
    data.data[k]? = some (lastWritten number k history.written)
  known : ∀ writing ∈ history.written, writing.file < history.memory.files.size
  mapped : ∀ id region, history.memory.region? id = some region → region.mapping = history.mappingOf id
  earlier : ∀ id, id ∈ history.ended ∨ id ∈ history.readOnly → id.index < history.memory.regions.size
  named : history.memory.Named

theorem sound_start (room : Nat) : (start room).Sound where
  backed _ _ found := by cases found
  small _ _ found := by cases found
  holds _ _ found := by cases found
  known _ among := by cases among
  mapped _ _ found := by cases found
  earlier _ either := by
    rcases either with among | among <;> cases among
  named _ _ found := by cases found

theorem lastWritten_absent {written : List RegionWriting} (others : ∀ writing ∈ written, writing.file ≠ number) :
    lastWritten number k written = 0 := by
  induction written with
  | nil => rfl
  | cons writing earlier ih =>
    obtain ⟨other, others⟩ := List.forall_mem_cons.mp others
    rw [lastWritten, if_neg fun same => other same.1, ih others]

theorem Sound.mappingOf_new (sound : history.Sound) : history.mappingOf ⟨history.memory.regions.size⟩ = .readWrite := by
  have absent : ∀ id : RegionId, id = ⟨history.memory.regions.size⟩ → ¬ (id ∈ history.ended ∨ id ∈ history.readOnly) := by
    rintro _ rfl either
    exact absurd (sound.earlier _ either) (Nat.lt_irrefl _)
  obtain ⟨mapped, writable⟩ := not_or.mp (absent _ rfl)
  rw [mappingOf, if_neg mapped, if_neg writable]

theorem Sound.file (sound : history.Sound) (something : size ≠ 0) (limited : size < maxFileSize)
    (absent : history.memory.findFile? path = none) :
    Sound { history with memory :=
      { history.memory with files := history.memory.files.push ⟨path, zeros size, true⟩ } } := by
  have stored : ∀ number data,
      Memory.bytes? { history.memory with files := history.memory.files.push ⟨path, zeros size, true⟩ } number = some data →
      number = history.memory.files.size ∧ data = zeros size ∨ history.memory.bytes? number = some data := by
    intro number data found
    simp only [Memory.bytes?, Memory.file?, Array.getElem?_push] at found
    split at found
    · rename_i last
      cases found
      exact .inl ⟨last, rfl⟩
    · exact .inr found
  refine ⟨fun id region found => ?_, fun number data found => ?_, fun number data found k inside => ?_,
    fun writing among => ?_, sound.mapped, sound.earlier, sound.named.push absent _⟩
  · obtain ⟨data, backing, sized⟩ := sound.backed id region found
    obtain ⟨file, there, same⟩ := Memory.bytes?_file backing
    refine ⟨data, ?_, sized⟩
    rw [Memory.bytes?, Memory.file?, Memory.getElem?_push_kept _ there]
    exact congrArg some same
  · rcases stored number data found with ⟨-, rfl⟩ | found
    · rw [size_zeros]
      exact ⟨something, limited⟩
    · exact sound.small number data found
  · rcases stored number data found with ⟨rfl, rfl⟩ | found
    · rw [size_zeros] at inside
      -- No writing names the new file yet, so its bytes are the zeros it was made of.
      rw [lastWritten_absent fun writing among => Nat.ne_of_lt (sound.known writing among), zeros_data,
        Array.getElem?_replicate, if_pos inside]
    · exact sound.holds number data found k inside
  · rw [Array.size_push]
    exact Nat.lt_succ_of_lt (sound.known writing among)

theorem Sound.add (sound : history.Sound) (region : Region) (backing : history.memory.bytes? region.file = some data)
    (sized : region.size = data.size) {readOnly : List RegionId}
    (opened : readOnly = history.readOnly ∧ region.mapping = .readWrite ∨
      readOnly = ⟨history.memory.regions.size⟩ :: history.readOnly ∧ region.mapping = .readOnly) :
    Sound { history with
      memory := { history.memory with regions := history.memory.regions.push region }, readOnly := readOnly } := by
  have cases : ∀ (id : RegionId) found, (history.memory.regions.push region)[id.index]? = some found →
      id = ⟨history.memory.regions.size⟩ ∧ found = region ∨
        id.index < history.memory.regions.size ∧ history.memory.region? id = some found := by
    intro id found there
    rw [Array.getElem?_push] at there
    split at there
    · rename_i last
      cases there
      exact .inl ⟨congrArg RegionId.mk last, rfl⟩
    · exact .inr ⟨(Array.getElem?_eq_some_iff.mp there).1, there⟩
  have fresh := sound.mappingOf_new
  refine ⟨fun id found there => ?_, sound.small, sound.holds, sound.known, fun id found there => ?_,
    fun id either => ?_, sound.named⟩
  · rcases cases id found there with ⟨-, rfl⟩ | ⟨-, there⟩
    · exact ⟨data, backing, sized⟩
    · exact sound.backed id found there
  · rcases opened with ⟨rfl, kind⟩ | ⟨rfl, kind⟩
    · rcases cases id found there with ⟨rfl, rfl⟩ | ⟨-, there⟩
      · exact kind.trans fresh.symm
      · exact sound.mapped id found there
    · rcases cases id found there with ⟨rfl, rfl⟩ | ⟨early, there⟩
      · have mapped : (⟨history.memory.regions.size⟩ : RegionId) ∉ history.ended :=
          fun among => absurd (sound.earlier _ (.inl among)) (Nat.lt_irrefl _)
        rw [kind, mappingOf, if_neg mapped, if_pos List.mem_cons_self]
      · have other : id ≠ ⟨history.memory.regions.size⟩ := fun same => absurd early (same ▸ Nat.lt_irrefl _)
        rw [sound.mapped id found there]
        simp only [mappingOf, List.mem_cons, other, false_or]
  · rw [Array.size_push]
    rcases opened with ⟨rfl, -⟩ | ⟨rfl, -⟩
    · exact Nat.lt_succ_of_lt (sound.earlier id either)
    · rcases either with among | among
      · exact Nat.lt_succ_of_lt (sound.earlier id (.inl among))
      · rcases List.mem_cons.mp among with rfl | among
        · exact Nat.lt_succ_self _
        · exact Nat.lt_succ_of_lt (sound.earlier id (.inr among))

theorem Sound.create (sound : history.Sound) (key path : String) (size : Nat) :
    (history.apply (.create key path size)).Sound := by
  rw [RegionHistory.apply]
  cases made : Memory.create key path size history.memory with
  | error e later =>
    obtain rfl := Memory.create_refused made
    exact sound
  | ok id later =>
    obtain ⟨-, rfl⟩ := Memory.create_parts made
    obtain ⟨something, limited, absent⟩ := Memory.create_room made
    have stored : (history.memory.files.push ⟨path, zeros size, true⟩)[history.memory.files.size]? = _ :=
      Array.getElem?_push_size
    exact (sound.file something limited absent).add ⟨key, history.memory.files.size, size, true, .readWrite⟩
      (congrArg (Option.map BackingFile.bytes) stored) (size_zeros size).symm (.inl ⟨rfl, rfl⟩)

theorem Sound.attach (sound : history.Sound) (path : String) : (history.apply (.attach path)).Sound := by
  rw [RegionHistory.apply]
  cases opened : Memory.attach path history.memory with
  | error e later =>
    obtain rfl := Memory.openPath_refused opened
    exact sound
  | ok id later =>
    obtain ⟨number, data, -, backing, rfl⟩ := Memory.openPath_opened opened
    exact sound.add ⟨Memory.keyOfPath path, number, data.size, false, .readWrite⟩ backing rfl
      (.inl ⟨rfl, rfl⟩)

theorem Sound.openReadOnly (sound : history.Sound) (path : String) : (history.apply (.openReadOnly path)).Sound := by
  rw [RegionHistory.apply]
  cases opened : Memory.openReadOnly path history.memory with
  | error e later =>
    obtain rfl := Memory.openPath_refused opened
    exact sound
  | ok id later =>
    obtain ⟨rfl, -⟩ := Memory.openPath_parts opened
    obtain ⟨number, data, -, backing, rfl⟩ := Memory.openPath_opened opened
    exact sound.add ⟨Memory.keyOfPath path, number, data.size, false, .readOnly⟩ backing rfl
      (.inr ⟨rfl, rfl⟩)

theorem lastWritten_patched {file : Nat} {written : List RegionWriting} (within : offset + bytes.size ≤ data.size)
    (holds : data.data[k]? = some (lastWritten file k written)) : (patched data offset bytes).data[k]? =
      some (lastWritten file k (⟨file, offset, bytes⟩ :: written)) := by
  rw [patched_at within, lastWritten]
  by_cases covered : offset ≤ k ∧ k < offset + bytes.size
  · have reach : k - offset < bytes.data.size := by
      have size : bytes.data.size = bytes.size := rfl
      omega
    rw [if_pos covered, if_pos ⟨rfl, covered⟩, Array.getD_eq_getD_getElem?, Array.getElem?_eq_getElem reach]
    rfl
  · rwa [if_neg covered, if_neg fun all => covered all.2]

theorem Sound.overwrite (sound : history.Sound) (found : history.memory.region? id = some region)
    (within : offset + bytes.size ≤ region.size) : Sound { history with
      memory := { history.memory with
        files := history.memory.files.modify region.file fun file => Memory.overwrite file offset bytes }
      written := ⟨region.file, offset, bytes⟩ :: history.written } := by
  obtain ⟨whole, backing, sized⟩ := sound.backed id region found
  rw [sized] at within
  refine ⟨fun id own there => ?_, fun number data there => ?_, fun number data there k inside => ?_,
    fun writing among => ?_, sound.mapped, sound.earlier, sound.named.write _ _ _⟩
  · obtain ⟨before, stored, size⟩ := sound.backed id own there
    obtain ⟨data, shown, same⟩ := Memory.overwrite_kept backing within stored
    exact ⟨data, shown, size.trans same.symm⟩
  · obtain ⟨before, stored, size, -⟩ := Memory.overwrite_parts backing within there
    exact size ▸ sound.small number before stored
  · obtain ⟨before, stored, size, ⟨rfl, rfl, rfl⟩ | ⟨apart, rfl⟩⟩ := Memory.overwrite_parts backing within there
    · exact lastWritten_patched within (sound.holds _ _ stored k (size ▸ inside))
    · rw [lastWritten, if_neg fun all => apart all.1]
      exact sound.holds number data stored k inside
  · change writing.file < (history.memory.files.modify _ _).size
    rw [Array.size_modify]
    rcases List.mem_cons.mp among with rfl | among
    · exact Memory.bytes?_lt backing
    · exact sound.known writing among

theorem Sound.record (sound : history.Sound) (id : RegionId) (offset : Nat) (bytes : ByteArray) :
    (history.record id offset bytes).Sound := by
  cases written : Memory.write id offset bytes history.memory with
  | error e later =>
    have same : history.record id offset bytes = history := by
      unfold RegionHistory.record
      rw [written]
      obtain rfl := Memory.write_refused written
      cases history.memory.region? id <;> rfl
    rw [same]
    exact sound
  | ok _ later =>
    obtain ⟨region, found, same⟩ := Memory.write_parts written
    have recorded : history.record id offset bytes =
        { history with memory := later, written := ⟨region.file, offset, bytes⟩ :: history.written } := by
      unfold RegionHistory.record
      rw [found, written]
    rw [recorded, same]
    exact sound.overwrite found (Memory.write_within written found)

theorem Sound.destroy (sound : history.Sound) (id : RegionId) : (history.apply (.destroy id)).Sound := by
  rw [RegionHistory.apply]
  cases found : history.memory.region? id with
  | none => exact sound
  | some region =>
    obtain ⟨regions, files⟩ := Memory.unmap_sizes history.memory id
    -- Ending a region takes its mapping and nothing else.
    have parts : ∀ other own, (history.memory.unmap id).region? other = some own →
        ∃ before, history.memory.region? other = some before ∧
          own = if other = id then before.ended else before := by
      intro other own there
      rw [Memory.unmap_region] at there
      split at there
      · rename_i here
        obtain ⟨before, stood, rfl⟩ := Option.map_eq_some_iff.mp there
        exact ⟨before, stood, (if_pos here).symm⟩
      · rename_i apart
        exact ⟨own, there, (if_neg apart).symm⟩
    refine ⟨fun other own there => ?_, fun number data there => ?_, fun number data there => ?_,
      fun writing among => ?_, fun other own there => ?_, fun other either => ?_, sound.named.unmap id⟩
    · obtain ⟨before, stood, same⟩ := parts other own there
      obtain ⟨data, backing, sized⟩ := sound.backed other before stood
      have kept : own.file = before.file ∧ own.size = before.size := by
        rw [same]
        split <;> exact ⟨rfl, rfl⟩
      exact ⟨data, (Memory.unmap_bytes _ _ _).trans (kept.1 ▸ backing), kept.2.trans sized⟩
    · exact sound.small number data (Memory.unmap_bytes _ id number ▸ there)
    · exact sound.holds number data (Memory.unmap_bytes _ id number ▸ there)
    · exact files ▸ sound.known writing among
    · obtain ⟨before, stood, same⟩ := parts other own there
      by_cases here : other = id
      · rw [same, if_pos here, mappingOf, if_pos (here ▸ List.mem_cons_self)]
        rfl
      · rw [same, if_neg here, sound.mapped other before stood]
        simp only [mappingOf, List.mem_cons, here, false_or]
    · change other.index < (history.memory.unmap id).regions.size
      rw [regions]
      rcases either with among | among
      · rcases List.mem_cons.mp among with rfl | among
        · exact (Array.getElem?_eq_some_iff.mp found).1
        · exact sound.earlier other (.inl among)
      · exact sound.earlier other (.inr among)

theorem Sound.apply (sound : history.Sound) (use : RegionUse) : (history.apply use).Sound := by
  have looked : ∀ {memory : Memory}, history.memory = memory → Sound { history with memory := memory } := by
    rintro _ rfl
    exact sound
  cases use with
  | create key path size => exact sound.create key path size
  | attach path => exact sound.attach path
  | openReadOnly path => exact sound.openReadOnly path
  | write id offset bytes => exact sound.record id offset bytes
  | writeU32 id offset value => exact sound.record id offset (Bytes.u32 value)
  | read id offset length | view id offset length => exact looked (Memory.read_left id offset length _)
  | readU32 id offset => exact looked (((Memory.read_left id offset 4).bind fun _ => .pure _) _)
  | destroy id => exact sound.destroy id

theorem Sound.run (sound : history.Sound) (uses : List RegionUse) : (history.run uses).Sound := by
  induction uses generalizing history with
  | nil => exact sound
  | cons use rest ih => exact ih (sound.apply use)

def Reaches (history : RegionHistory) (id : RegionId) (region : Region) (offset length : Nat) : Prop :=
  id ∉ history.ended ∧ offset + length < wordLimit ∧ offset + length ≤ region.size

def Shows (history : RegionHistory) (file offset : Nat) (bytes : ByteArray) : Prop :=
  ∀ k, k < bytes.size → bytes.data[k]? = some (lastWritten file (offset + k) history.written)

structure Changes (before after : Memory) (number offset : Nat) (bytes : ByteArray) : Prop where
  regions : after.regions = before.regions
  files : after.files.size = before.files.size
  file : ∀ index file, before.file? index = some file → ∃ kept, after.file? index = some kept ∧
    kept.path = file.path ∧ kept.linked = file.linked ∧ kept.bytes.size = file.bytes.size ∧
      ∀ k, kept.bytes.data[k]? = if number = index ∧ offset ≤ k ∧ k < offset + bytes.size then
        bytes.data[k - offset]? else file.bytes.data[k]?

-- A new region is one of the file that a path leads to and shows it whole. No other region or file that there
-- was is touched.
structure Opens (before after : Memory) (path : String) (id : RegionId) (region : Region) (data : ByteArray) :
    Prop where
  fresh : before.region? id = none
  found : after.region? id = some region
  led : after.findFile? path = some region.file
  whole : after.bytes? region.file = some data ∧ region.size = data.size
  regions : ∀ other kept, before.region? other = some kept → after.region? other = some kept
  files : ∀ number file, before.file? number = some file → after.file? number = some file

structure OneArray (history : RegionHistory) : Prop where
  named : ∀ number file, history.memory.file? number = some file → file.linked = true →
    history.memory.findFile? file.path = some number
  create : ∀ key path size,
    (size ≠ 0 ∧ size < min maxFileSize history.memory.room ∧ history.memory.findFile? path = none →
      ∃ number id later, Memory.create key path size history.memory = .ok id later ∧
        history.memory.file? number = none ∧
        Opens history.memory later path id ⟨key, number, size, true, .readWrite⟩ (zeros size)) ∧
    (¬ (size ≠ 0 ∧ size < min maxFileSize history.memory.room ∧ history.memory.findFile? path = none) →
      ∃ e, Memory.create key path size history.memory = .error e history.memory)
  openPath : ∀ path mapping,
    (∀ number, history.memory.findFile? path = some number → ∃ data id later,
      Memory.openPath path mapping history.memory = .ok id later ∧ later.files = history.memory.files ∧
        Opens history.memory later path id ⟨Memory.keyOfPath path, number, data.size, false, mapping⟩ data) ∧
    (history.memory.findFile? path = none →
      ∃ e, Memory.openPath path mapping history.memory = .error e history.memory)
  read : ∀ id region, history.memory.region? id = some region → ∀ offset length,
    (history.Reaches id region offset length → ∃ bytes, bytes.size = length ∧ history.Shows region.file offset bytes ∧
      Memory.read id offset length history.memory = .ok bytes history.memory) ∧
    (¬ history.Reaches id region offset length →
      ∃ e, Memory.read id offset length history.memory = .error e history.memory)
  readU32 : ∀ id region, history.memory.region? id = some region → ∀ offset,
    (history.Reaches id region offset 4 → ∃ value, history.Shows region.file offset (Bytes.u32 value) ∧
      Memory.readU32 id offset history.memory = .ok value history.memory) ∧
    (¬ history.Reaches id region offset 4 → ∃ e, Memory.readU32 id offset history.memory = .error e history.memory)
  view : ∀ id region, history.memory.region? id = some region → ∀ (layout : Layout) offset length (α : Type)
      (look : ByteArray → Except ProtocolError α),
    (history.Reaches id region offset length → ∃ bytes, bytes.size = length ∧ history.Shows region.file offset bytes ∧
      (ProtocolRegion.mk id layout).view offset length look history.memory =
        ProtocolRegion.fromOutcome (look bytes) history.memory) ∧
    (¬ history.Reaches id region offset length → ∃ e,
      (ProtocolRegion.mk id layout).view offset length look history.memory = .error (.region e) history.memory)
  write : ∀ id region, history.memory.region? id = some region → ∀ offset bytes,
    (history.Reaches id region offset bytes.size ∧ id ∉ history.readOnly → ∃ later,
      Memory.write id offset bytes history.memory = .ok () later ∧
        Changes history.memory later region.file offset bytes) ∧
    (¬ (history.Reaches id region offset bytes.size ∧ id ∉ history.readOnly) →
      ∃ e, Memory.write id offset bytes history.memory = .error e history.memory)
  writeU32 : ∀ id region, history.memory.region? id = some region → ∀ offset value,
    (history.Reaches id region offset 4 ∧ id ∉ history.readOnly → ∃ later,
      Memory.writeU32 id offset value history.memory = .ok () later ∧
        Changes history.memory later region.file offset (Bytes.u32 value)) ∧
    (¬ (history.Reaches id region offset 4 ∧ id ∉ history.readOnly) →
      ∃ e, Memory.writeU32 id offset value history.memory = .error e history.memory)
  refused : (∀ key path size e later, Memory.create key path size history.memory = .error e later →
      later = history.memory) ∧
    ∀ path mapping e later, Memory.openPath path mapping history.memory = .error e later → later = history.memory
  ended : ∀ id region, history.memory.region? id = some region → ∀ more,
    let next := (history.apply (.destroy id)).run more
    (∀ offset length, ∃ e, Memory.read id offset length next.memory = .error e next.memory) ∧
      ∀ offset bytes, ∃ e, Memory.write id offset bytes next.memory = .error e next.memory
  others : ∀ id other region, other ≠ id → history.memory.region? other = some region →
    let next := history.apply (.destroy id)
    next.memory.region? other = some region ∧ ∀ offset length,
      (next.Reaches other region offset length ↔ history.Reaches other region offset length) ∧
        answered (Memory.read other offset length next.memory) = answered (Memory.read other offset length history.memory)

section access
variable (sound : history.Sound) (found : history.memory.region? id = some region)
include sound found

theorem Sound.unmapped_iff : region.mapping = .unmapped ↔ id ∈ history.ended := by
  rw [sound.mapped id region found, mappingOf]
  split
  · rename_i among
    exact iff_of_true rfl among
  · rename_i absent
    split <;> exact iff_of_false (by decide) absent

theorem Sound.writable_iff : region.mapping = .readWrite ↔ id ∉ history.ended ∧ id ∉ history.readOnly := by
  rw [sound.mapped id region found, mappingOf]
  split
  · rename_i among
    exact iff_of_false (by decide) fun both => both.1 among
  · rename_i absent
    split
    · rename_i among
      exact iff_of_false (by decide) fun both => both.2 among
    · rename_i writable
      exact iff_of_true rfl ⟨absent, writable⟩

theorem Sound.reaches_iff (offset length : Nat) : history.Reaches id region offset length ↔
    region.mapping ≠ .unmapped ∧ offset + length ≤ region.size := by
  obtain ⟨data, backing, sized⟩ := sound.backed id region found
  have small := (sound.small _ _ backing).2
  have limit : maxFileSize < wordLimit := by decide
  rw [Reaches, Ne, sound.unmapped_iff found]
  constructor
  · rintro ⟨mapped, -, inside⟩
    exact ⟨mapped, inside⟩
  · rintro ⟨mapped, inside⟩
    exact ⟨mapped, by omega, inside⟩

theorem Sound.reads (offset length : Nat) :
    (history.Reaches id region offset length → ∃ bytes, bytes.size = length ∧ history.Shows region.file offset bytes ∧
      Memory.read id offset length history.memory = .ok bytes history.memory) ∧
    (¬ history.Reaches id region offset length →
      ∃ e, Memory.read id offset length history.memory = .error e history.memory) := by
  obtain ⟨data, backing, sized⟩ := sound.backed id region found
  obtain ⟨file, stored, rfl⟩ := Memory.bytes?_file backing
  rw [sound.reaches_iff found]
  constructor
  · rintro ⟨mapped, inside⟩
    have within : offset + length ≤ file.bytes.size := sized ▸ inside
    refine ⟨file.bytes.extract offset (offset + length), size_extract_within within, fun k low => ?_, ?_⟩
    · rw [size_extract_within within] at low
      have last : k < min (offset + length) file.bytes.data.size - offset := by
        have size : file.bytes.data.size = file.bytes.size := rfl
        omega
      rw [ByteArray.data_extract, Array.getElem?_extract, if_pos last]
      exact sound.holds _ _ backing _ (by omega)
    · simp only [Memory.read, found, if_neg mapped, if_pos inside, stored]
      rfl
  · intro missed
    by_cases mapped : region.mapping = .unmapped
    · exact ⟨.destroyed region.key, by simp only [Memory.read, found, if_pos mapped]⟩
    · have outside : ¬ offset + length ≤ region.size := fun inside => missed ⟨mapped, inside⟩
      exact ⟨.readOutOfBounds offset length region.size, by
        simp only [Memory.read, found, if_neg mapped, if_neg outside]⟩

theorem Sound.writes (offset : Nat) (bytes : ByteArray) :
    (history.Reaches id region offset bytes.size ∧ id ∉ history.readOnly → ∃ later,
      Memory.write id offset bytes history.memory = .ok () later ∧
        Changes history.memory later region.file offset bytes) ∧
    (¬ (history.Reaches id region offset bytes.size ∧ id ∉ history.readOnly) →
      ∃ e, Memory.write id offset bytes history.memory = .error e history.memory) := by
  obtain ⟨data, backing, sized⟩ := sound.backed id region found
  obtain ⟨file, stored, rfl⟩ := Memory.bytes?_file backing
  have writable := sound.writable_iff found
  have unmapped := sound.unmapped_iff found
  have reaches := sound.reaches_iff found offset bytes.size
  constructor
  · rintro ⟨reached, allowed⟩
    have mapped : region.mapping = .readWrite := writable.mpr ⟨reached.1, allowed⟩
    have inside := (reaches.mp reached).2
    let later : Memory := { history.memory with
      files := history.memory.files.modify region.file fun file => Memory.overwrite file offset bytes }
    have ran : Memory.write id offset bytes history.memory = .ok () later := by
      simp only [Memory.write, found, mapped, if_pos inside]
      rfl
    refine ⟨later, ran, rfl, Array.size_modify, fun index own there => ?_⟩
    change ∃ kept, (history.memory.files.modify _ _)[index]? = some kept ∧ _
    rw [Array.getElem?_modify, show history.memory.files[index]? = some own from there]
    by_cases here : region.file = index
    · subst here
      obtain rfl := Option.some.inj (there.symm.trans stored)
      have within : offset + bytes.size ≤ own.bytes.size := sized ▸ inside
      rw [if_pos rfl]
      refine ⟨_, rfl, rfl, rfl, size_patched within, fun k => ?_⟩
      exact (patched_at within k).trans (by simp only [true_and])
    · rw [if_neg here]
      exact ⟨own, rfl, rfl, rfl, rfl, fun k => (if_neg fun same => here same.1).symm⟩
  · intro missed
    have mapped := sound.mapped id region found
    rw [mappingOf] at mapped
    split at mapped
    · exact ⟨.destroyed region.key, by simp only [Memory.write, found, mapped]⟩
    · split at mapped
      · exact ⟨.readOnly region.key, by simp only [Memory.write, found, mapped]⟩
      · have outside : ¬ offset + bytes.size ≤ region.size := fun inside =>
          missed ⟨reaches.mpr ⟨by rw [mapped]; decide, inside⟩, (writable.mp mapped).2⟩
        exact ⟨.writeOutOfBounds offset bytes.size region.size, by
          simp only [Memory.write, found, mapped, if_neg outside]⟩

theorem Sound.readsU32 (offset : Nat) :
    (history.Reaches id region offset 4 → ∃ value, history.Shows region.file offset (Bytes.u32 value) ∧
      Memory.readU32 id offset history.memory = .ok value history.memory) ∧
    (¬ history.Reaches id region offset 4 → ∃ e, Memory.readU32 id offset history.memory = .error e history.memory) := by
  obtain ⟨reached, missed⟩ := sound.reads found offset 4
  constructor
  · intro reaches
    obtain ⟨bytes, size, shows, ran⟩ := reached reaches
    refine ⟨UInt32.ofNat (Bytes.number bytes), by rwa [Bytes.u32_number size], ?_⟩
    rw [Memory.readU32, bind_done ran]
    rfl
  · intro absent
    obtain ⟨e, ran⟩ := missed absent
    exact ⟨e, bind_failed ran⟩

theorem Sound.views (layout : Layout) (offset length : Nat) {α : Type} (look : ByteArray → Except ProtocolError α) :
    (history.Reaches id region offset length → ∃ bytes, bytes.size = length ∧ history.Shows region.file offset bytes ∧
      (ProtocolRegion.mk id layout).view offset length look history.memory =
        ProtocolRegion.fromOutcome (look bytes) history.memory) ∧
    (¬ history.Reaches id region offset length → ∃ e,
      (ProtocolRegion.mk id layout).view offset length look history.memory = .error (.region e) history.memory) := by
  obtain ⟨reached, missed⟩ := sound.reads found offset length
  constructor
  · intro reaches
    obtain ⟨bytes, size, shows, ran⟩ := reached reaches
    refine ⟨bytes, size, shows, ?_⟩
    rw [ProtocolRegion.view, bind_done (ProtocolRegion.access_done ran)]
    cases look bytes <;> rfl
  · intro absent
    obtain ⟨e, ran⟩ := missed absent
    refine ⟨e, bind_failed ?_⟩
    simp only [ProtocolRegion.access, EStateM.adaptExcept, ran]

end access

theorem Sound.creates (sound : history.Sound) (key path : String) (size : Nat) :
    (size ≠ 0 ∧ size < min maxFileSize history.memory.room ∧ history.memory.findFile? path = none →
      ∃ number id later, Memory.create key path size history.memory = .ok id later ∧
        history.memory.file? number = none ∧
        Opens history.memory later path id ⟨key, number, size, true, .readWrite⟩ (zeros size)) ∧
    (¬ (size ≠ 0 ∧ size < min maxFileSize history.memory.room ∧ history.memory.findFile? path = none) →
      ∃ e, Memory.create key path size history.memory = .error e history.memory) := by
  constructor
  · rintro ⟨something, limited, absent⟩
    have free : ¬ (min maxFileSize history.memory.room ≤ size ∨ (history.memory.findFile? path).isSome) := by
      simpa [absent] using limited
    have made : Memory.create key path size history.memory = .ok _ _ := (if_neg something).trans (if_neg free)
    have named := (sound.named.push absent (zeros size)) history.memory.files.size _ Array.getElem?_push_size rfl
    refine ⟨history.memory.files.size, _, _, made, Array.getElem?_eq_none (Nat.le_refl _), ?_⟩
    exact ⟨Array.getElem?_eq_none (Nat.le_refl _), Array.getElem?_push_size, named,
      ⟨congrArg (Option.map BackingFile.bytes) Array.getElem?_push_size, (size_zeros size).symm⟩,
      fun _ _ => Memory.getElem?_push_kept _, fun _ _ => Memory.getElem?_push_kept _⟩
  · intro missed
    cases made : Memory.create key path size history.memory with
    | ok id later => exact absurd (Memory.create_free made) missed
    | error e later =>
      obtain rfl := Memory.create_refused made
      exact ⟨e, rfl⟩

theorem Sound.opens (sound : history.Sound) (path : String) (mapping : Mapping) :
    (∀ number, history.memory.findFile? path = some number → ∃ data id later,
      Memory.openPath path mapping history.memory = .ok id later ∧ later.files = history.memory.files ∧
        Opens history.memory later path id ⟨Memory.keyOfPath path, number, data.size, false, mapping⟩ data) ∧
    (history.memory.findFile? path = none →
      ∃ e, Memory.openPath path mapping history.memory = .error e history.memory) := by
  constructor
  · intro number led
    obtain ⟨⟨file, stored, -⟩, -⟩ := Memory.findFile_iff.mp led
    have backing : history.memory.bytes? number = some file.bytes := congrArg (Option.map BackingFile.bytes) stored
    have opened : Memory.openPath path mapping history.memory = .ok ⟨history.memory.regions.size⟩
        { history.memory with regions :=
            history.memory.regions.push ⟨Memory.keyOfPath path, number, file.bytes.size, false, mapping⟩ } := by
      simp only [Memory.openPath, led, stored, Option.map_some, Option.getD_some,
        if_neg (sound.small number _ backing).1]
      rfl
    exact ⟨file.bytes, _, _, opened, rfl, Array.getElem?_eq_none (Nat.le_refl _), Array.getElem?_push_size, led,
      ⟨backing, rfl⟩, fun _ _ => Memory.getElem?_push_kept _, fun _ _ there => there⟩
  · intro absent
    exact ⟨.io, by simp only [Memory.openPath, absent]⟩

theorem ended_stays (uses : List RegionUse) (among : id ∈ history.ended) : id ∈ (history.run uses).ended := by
  induction uses generalizing history with
  | nil => exact among
  | cons use rest ih =>
    refine ih ?_
    cases use with
    | openReadOnly path =>
      rw [apply]
      split <;> exact among
    | write _ _ _ | writeU32 _ _ _ =>
      rw [apply, record]
      split <;> exact among
    | destroy other =>
      rw [apply]
      split
      · exact among
      · exact List.mem_cons_of_mem _ among
    | _ => exact among

theorem Sound.ends (sound : history.Sound) (found : history.memory.region? id = some region) (more : List RegionUse) :
    let next := (history.apply (.destroy id)).run more
    (∀ offset length, ∃ e, Memory.read id offset length next.memory = .error e next.memory) ∧
      ∀ offset bytes, ∃ e, Memory.write id offset bytes next.memory = .error e next.memory := by
  intro next
  have destroyed : id ∈ (history.apply (.destroy id)).ended := by
    simp only [RegionHistory.apply, found]
    exact List.mem_cons_self
  have still : next.Sound := (sound.apply (.destroy id)).run more
  have gone : id ∈ next.ended := ended_stays more destroyed
  have there : next.memory.region? id = some _ := Array.getElem?_eq_getElem (still.earlier id (.inl gone))
  exact ⟨fun offset length => (still.reads there offset length).2 fun reached => reached.1 gone,
    fun offset bytes => (still.writes there offset bytes).2 fun reached => reached.1.1 gone⟩

theorem destroy_spares (apart : other ≠ id) (found : history.memory.region? other = some region) :
    let next := history.apply (.destroy id)
    next.memory.region? other = some region ∧ ∀ offset length,
      (next.Reaches other region offset length ↔ history.Reaches other region offset length) ∧
        answered (Memory.read other offset length next.memory) = answered (Memory.read other offset length history.memory) := by
  intro next
  cases destroyed : history.memory.region? id with
  | none =>
    have same : next = history := by
      simp only [next, RegionHistory.apply, destroyed]
    rw [same]
    exact ⟨found, fun offset length => ⟨Iff.rfl, rfl⟩⟩
  | some own =>
    have same : next = { history with memory := history.memory.unmap id, ended := id :: history.ended } := by
      simp only [next, RegionHistory.apply, destroyed]
    have stays : next.memory.region? other = some region := by
      rw [same, Memory.unmap_region, if_neg apart]
      exact found
    have shown : (next.memory.file? region.file).map BackingFile.bytes =
        (history.memory.file? region.file).map BackingFile.bytes := by
      rw [same]
      exact Memory.unmap_bytes history.memory id region.file
    refine ⟨stays, fun offset length => ⟨?_, ?_⟩⟩
    · simp only [same, Reaches, List.mem_cons, apart, false_or]
    · simp only [Memory.read, stays, found, shown]
      split
      · rfl
      · split <;> rfl

theorem Sound.oneArray (sound : history.Sound) : history.OneArray where
  named := sound.named
  create := sound.creates
  openPath := sound.opens
  read id region found offset length := sound.reads found offset length
  readU32 id region found offset := sound.readsU32 found offset
  view id region found layout offset length α look := sound.views found layout offset length look
  write id region found offset bytes := sound.writes found offset bytes
  writeU32 id region found offset value := by
    have writes := sound.writes found offset (Bytes.u32 value)
    rwa [Bytes.size_u32] at writes
  refused := ⟨fun _ _ _ _ _ => Memory.create_refused, fun _ _ _ _ => Memory.openPath_refused⟩
  ended id region found more := sound.ends found more
  others id other region apart found := destroy_spares apart found

theorem one_array (room : Nat) (uses : List RegionUse) : ((start room).run uses).OneArray :=
  ((sound_start room).run uses).oneArray

-- A region is written through by a second one and destroyed, and a third one shows the bytes.
theorem one_array_aliased :
    let uses : List RegionUse := [.create "k" "d/k" 8, .attach "d/k", .openReadOnly "d/k", .write ⟨1⟩ 2 ⟨#[7, 9]⟩,
      .destroy ⟨0⟩]
    let history := (start 64).run uses
    history.OneArray ∧ history.memory.region? ⟨2⟩ = some ⟨"k", 0, 8, false, .readOnly⟩ ∧
      Memory.read ⟨2⟩ 1 4 history.memory = .ok ⟨#[0, 7, 9, 0]⟩ history.memory ∧
      (∃ e, Memory.read ⟨0⟩ 1 4 history.memory = .error e history.memory) ∧
      ∃ e, Memory.write ⟨2⟩ 0 ⟨#[1]⟩ history.memory = .error e history.memory := by
  intro uses history
  have whole : history.OneArray := one_array 64 uses
  have third : history.memory.region? ⟨2⟩ = some ⟨"k", 0, 8, false, .readOnly⟩ := by decide +kernel
  have first : history.memory.region? ⟨0⟩ = some ⟨"k", 0, 8, true, .unmapped⟩ := by decide +kernel
  have reached : history.Reaches ⟨2⟩ ⟨"k", 0, 8, false, .readOnly⟩ 1 4 :=
    ⟨by decide +kernel, by decide +kernel, by decide⟩
  obtain ⟨bytes, size, shows, read⟩ := (whole.read _ _ third 1 4).1 reached
  obtain ⟨e, gone⟩ := (whole.read _ _ first 1 4).2 fun reached => reached.1 (by decide +kernel)
  obtain ⟨fault, refused⟩ := (whole.write _ _ third 0 ⟨#[1]⟩).2 fun allowed => allowed.2 (by decide +kernel)
  have told : answered (Memory.read ⟨2⟩ 1 4 history.memory) = .ok ⟨#[0, 7, 9, 0]⟩ := by decide +kernel
  rw [read] at told
  cases told
  exact ⟨whole, third, read, ⟨e, gone⟩, fault, refused⟩

end RegionHistory
end PluginBridge
