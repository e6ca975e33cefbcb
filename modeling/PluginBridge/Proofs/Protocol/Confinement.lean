import PluginBridge.Proofs.Protocol.Steps
import PluginBridge.Proofs.Region.Keeping
namespace PluginBridge
open ProtocolRegion (access)
variable {layout : Layout} {cell : ControlCell} {memory : Memory} {id : RegionId} {data : ByteArray}

def ProtocolError.OutOfBounds : ProtocolError → Prop
  | .region (.readOutOfBounds ..) | .region (.writeOutOfBounds ..) => True
  | _ => False

namespace ControlCell

def Inside (layout : Layout) (cell : ControlCell) : Prop := cell.field layout.fields + 4 ≤ layout.controlSize

-- The words whose places are looked at before a layout is accepted. The sums saturate there, so that a
-- control section of the largest size passes wherever these words stand.
def Checked (layout : Layout) : ControlCell → Prop
  | peerReady | slot _ => layout.controlSize + 1 < wordLimit
  | _ => False

end ControlCell

namespace ProtocolRegion

-- How either end reads a control word: an argument slot by its index, any other word by its field.
def look (block : ProtocolRegion) : ControlCell → ProtocolAccess UInt32
  | .slot index => access (Memory.readU32 block.region (block.layout.argSlot index))
  | cell => block.get (cell.field block.layout.fields)

def put (block : ProtocolRegion) (value : UInt32) : ControlCell → ProtocolAccess Unit
  | .slot index => access (Memory.writeU32 block.region (block.layout.argSlot index) value)
  | cell => block.set (cell.field block.layout.fields) value

theorem access_parts {α : Type} {action : Access α} {e : ProtocolError} {later : Memory}
    (failed : access action memory = .error e later) : ∃ fault, e = .region fault ∧ action memory = .error fault later := by
  cases ran : action memory with
  | ok a middle =>
    simp only [access, EStateM.adaptExcept, ran] at failed
    cases failed
  | error fault middle =>
    simp only [access, EStateM.adaptExcept, ran] at failed
    cases failed
    exact ⟨fault, rfl, rfl⟩

theorem look_offset (block : ProtocolRegion) (cell : ControlCell) :
    block.look cell = access (Memory.readU32 block.region (cell.offset block.layout)) := by
  cases cell with
  | slot index => rw [look, Layout.argSlot_offset]
  | _ => rfl

theorem put_offset (block : ProtocolRegion) (value : UInt32) (cell : ControlCell) :
    block.put value cell = access (Memory.writeU32 block.region (cell.offset block.layout) value) := by
  cases cell with
  | slot index => rw [put, Layout.argSlot_offset]
  | _ => rfl

end ProtocolRegion

namespace Memory

theorem read_bounded {region : Region} {offset length : Nat} (found : memory.region? id = some region)
    (room : offset + length ≤ region.size) {e : RegionError} {later : Memory}
    (failed : read id offset length memory = .error e later) : ¬ (ProtocolError.region e).OutOfBounds := by
  simp only [read, found, if_pos room] at failed
  split at failed
  · cases failed
    exact fun bad => bad
  · cases failed

theorem readU32_bounded {region : Region} {offset : Nat} (found : memory.region? id = some region)
    (room : offset + 4 ≤ region.size) {e : RegionError} {later : Memory}
    (failed : readU32 id offset memory = .error e later) : ¬ (ProtocolError.region e).OutOfBounds := by
  cases ran : read id offset 4 memory with
  | ok bytes middle =>
    rw [readU32, bind_done ran] at failed
    cases failed
  | error fault middle =>
    rw [readU32, bind_failed ran] at failed
    cases failed
    exact read_bounded found room ran

theorem write_bounded {region : Region} {offset : Nat} {bytes : ByteArray}
    (found : memory.region? id = some region) (room : offset + bytes.size ≤ region.size) {e : RegionError}
    {later : Memory} (failed : write id offset bytes memory = .error e later) :
    ¬ (ProtocolError.region e).OutOfBounds := by
  simp only [write, found, if_pos room] at failed
  split at failed
  · cases failed
    exact fun bad => bad
  · cases failed
    exact fun bad => bad
  · cases failed

end Memory

namespace Layout

-- Every control word lies in the control section. So no end that reads or writes one in a region of the
-- layout's size leaves the region, and what is written stays out of the other sections.
structure Confines (layout : Layout) : Prop where
  inside : ∀ cell : ControlCell, cell.Present layout.fields → cell.Inside layout
  bounded : ∀ (memory : Memory) (id : RegionId) (region : Region), memory.region? id = some region →
    layout.totalSize ≤ region.size → ∀ cell : ControlCell, cell.Present layout.fields →
      (∀ e later, ProtocolRegion.look ⟨id, layout⟩ cell memory = .error e later → ¬ e.OutOfBounds) ∧
      ∀ value e later, ProtocolRegion.put ⟨id, layout⟩ value cell memory = .error e later → ¬ e.OutOfBounds
  reads : ∀ (memory : Memory) (id : RegionId) (number : Nat) (data : ByteArray), Views memory id number data →
    layout.totalSize ≤ data.size → ∀ cell : ControlCell, cell.Present layout.fields →
      ∃ value, ProtocolRegion.look ⟨id, layout⟩ cell memory = .ok value memory
  writes : ∀ (memory : Memory) (id : RegionId) (number : Nat) (data : ByteArray), Views memory id number data →
    layout.totalSize ≤ data.size → ∀ cell : ControlCell, cell.Present layout.fields → ∀ value, ∃ later after,
      ProtocolRegion.put ⟨id, layout⟩ value cell memory = .ok () later ∧ Views later id number after ∧
        after.size = data.size ∧ (∀ part ∈ layout.sections.tail,
          after.extract part.1 (part.1 + part.2) = data.extract part.1 (part.1 + part.2)) ∧
        ∀ other, other ≠ number → later.file? other = memory.file? other

def Controls (layout : Layout) (k : Nat) : Prop :=
  layout.controlOffset ≤ k ∧ k < layout.controlOffset + layout.controlSize

theorem put_through (inside : cell.Inside layout) (value : UInt32) :
    Along (Memory.Through id layout.Controls) (ProtocolRegion.put ⟨id, layout⟩ value cell) := by
  rw [ProtocolRegion.put_offset]
  refine Along.adapt _ (Memory.write_through id fun k low high => ?_)
  rw [Bytes.size_u32] at high
  have start : cell.offset layout = layout.controlOffset + cell.field layout.fields := rfl
  have fits : cell.field layout.fields + 4 ≤ layout.controlSize := inside
  change cell.offset layout ≤ k at low
  change k < cell.offset layout + 4 at high
  exact ⟨by omega, by omega⟩

section consistent
variable (consistent : layout.isConsistent = true)
include consistent

theorem checked_inside (present : cell.Present layout.fields) (checked : cell.Checked layout) :
    cell.Inside layout := by
  simp only [isConsistent, Bool.and_eq_true, decide_eq_true_eq] at consistent
  obtain ⟨⟨-, ready⟩, slots⟩ := consistent
  cases cell with
  | peerReady =>
    have small : layout.controlSize + 1 < wordLimit := checked
    rw [saturatingAdd] at ready
    change layout.fields.peerReady + 4 ≤ layout.controlSize
    omega
  | slot index =>
    have small : layout.controlSize + 1 < wordLimit := checked
    have few : index < layout.fields.maxArgs := present
    rw [saturatingAdd, saturatingMul] at slots
    change layout.fields.argOffsets + index * 4 + 4 ≤ layout.controlSize
    omega
  | _ => exact checked.elim

theorem inside_room (inside : cell.Inside layout) {size : Nat} (room : layout.totalSize ≤ size) :
    cell.offset layout + 4 ≤ size := by
  have within := control_room consistent room
  rw [ControlCell.Inside] at inside
  rw [ControlCell.offset, control]
  omega

theorem sections_kept {after : ByteArray} (room : layout.totalSize ≤ data.size)
    (differs : Differs layout.Controls data after) (part : Nat × Nat) (among : part ∈ layout.sections.tail) :
    after.extract part.1 (part.1 + part.2) = data.extract part.1 (part.1 + part.2) := by
  obtain ⟨apart, within⟩ := holding consistent room part among
  have sized := size_extract_within within
  have held : Holds data part.1 (data.extract part.1 (part.1 + part.2)) := ⟨by omega, by rw [sized]⟩
  have kept := differs.keeps _ _ held fun k low high inside => by
    rw [sized] at high
    rw [Controls] at inside
    rw [Apart] at apart
    omega
  have same := kept.exact
  rwa [sized] at same

-- An accepted layout confines its control words exactly if those lie inside that the check passes over.
theorem confines_iff : layout.Confines ↔
    ∀ cell : ControlCell, cell.Present layout.fields → ¬ cell.Checked layout → cell.Inside layout := by
  refine ⟨fun confines cell present _ => confines.inside cell present, fun unchecked => ?_⟩
  have inside : ∀ cell : ControlCell, cell.Present layout.fields → cell.Inside layout := by
    intro cell present
    by_cases checked : cell.Checked layout
    · exact checked_inside consistent present checked
    · exact unchecked cell present checked
  refine ⟨inside, fun memory id region found room cell present => ?_, fun memory id number data views room cell
    present => ?_, fun memory id number data views room cell present value => ?_⟩
  · have within := inside_room consistent (inside cell present) room
    rw [ProtocolRegion.look_offset]
    refine ⟨fun e later failed => ?_, fun value e later failed => ?_⟩
    · obtain ⟨fault, same, failed⟩ := ProtocolRegion.access_parts failed
      exact same ▸ Memory.readU32_bounded found within failed
    · rw [ProtocolRegion.put_offset] at failed
      obtain ⟨fault, same, failed⟩ := ProtocolRegion.access_parts failed
      exact same ▸ Memory.write_bounded found (by rwa [Bytes.size_u32]) failed
  · have shared : Shared memory id id data := ⟨number, views, views⟩
    have within := inside_room consistent (inside cell present) room
    have read := shared.read within
    exact ⟨_, by
      rw [ProtocolRegion.look_offset]
      exact ProtocolRegion.access_done (bind_done read)⟩
  · have within : cell.offset layout + (Bytes.u32 value).size ≤ data.size := by
      rw [Bytes.size_u32]
      exact inside_room consistent (inside cell present) room
    obtain ⟨later, written, -⟩ := views.write within
    have ran : ProtocolRegion.put ⟨id, layout⟩ value cell memory = .ok () later := by
      rw [ProtocolRegion.put_offset]
      exact ProtocolRegion.access_done written
    have through := @put_through layout cell id (inside cell present) value memory
    rw [ran] at through
    obtain ⟨after, still, differs⟩ := through.views number data views
    obtain ⟨region, found, -, rfl, -⟩ := views.region
    exact ⟨later, after, ran, still, differs.size, sections_kept consistent room differs,
      through.others region found⟩

end consistent

theorem standard_confines : standard.isConsistent = true ∧ standard.Confines :=
  ⟨standard_consistent, (confines_iff standard_consistent).mpr fun cell present _ => standard_separate.inside cell present⟩

-- A layout with small sections, whose word that raises a request stands among the arguments.
def stray : Layout where
  controlOffset := 0
  controlSize := 128
  preloadOffset := 128
  preloadSize := 64
  argsOffset := 192
  argsSize := 64
  resultsOffset := 256
  resultsSize := 64
  errorOffset := 320
  errorSize := 16
  totalSize := 336
  fields := { ControlFields.standard with requestReady := 200 }

theorem stray_accepted : stray.isConsistent = true ∧ ¬ stray.Confines ∧
    stray.argsOffset ≤ ControlCell.requestReady.offset stray ∧
      ControlCell.requestReady.offset stray + 4 ≤ stray.argsOffset + stray.argsSize := by
  have sorted : stray.sections.mergeSort sectionLe = stray.sections := List.mergeSort_of_pairwise (by decide)
  refine ⟨?_, fun confines => ?_, by decide, by decide⟩
  · rw [isConsistent, sorted]
    decide
  · have escaped : 200 + 4 ≤ 128 := confines.inside .requestReady trivial
    exact absurd escaped (by decide)

end Layout
end PluginBridge
