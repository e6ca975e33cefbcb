import PluginBridge.Proofs.Protocol.Cells
import PluginBridge.Proofs.Protocol.Writes
import PluginBridge.Proofs.Region.Keeping
namespace PluginBridge
variable {memory middle later : Memory} {id : RegionId} {data bytes front : ByteArray} {offset : Nat}
  {host : ProtocolHost}

def Rung (data : ByteArray) : Prop := Holds data (ControlCell.requestReady.offset .standard) (Bytes.u32 1)

theorem patched_front (room : front.size ≤ offset) (inside : front.size ≤ data.size) :
    Holds (patched data offset bytes) 0 front ↔ Holds data 0 front := by
  have cut : (data.extract 0 offset).extract 0 front.size = data.extract 0 front.size := by
    rw [ByteArray.extract_extract]
    congr 1
    omega
  have long : front.size ≤ (data.extract 0 offset).size := by
    rw [ByteArray.size_extract]
    omega
  have kept : (patched data offset bytes).extract 0 front.size = data.extract 0 front.size := by
    have rest : ∀ more : ByteArray, more.extract (0 - (data.extract 0 offset).size)
        (front.size - (data.extract 0 offset).size) = .empty := by
      intro more
      rw [ByteArray.extract_eq_empty_iff]
      omega
    rw [patched_parts, ByteArray.append_assoc, ByteArray.extract_append, cut, rest, ByteArray.append_empty]
  have size : front.size ≤ (patched data offset bytes).size := by
    rw [patched_parts, ByteArray.size_append, ByteArray.size_append]
    omega
  constructor
  · intro held
    exact ⟨by omega, by simpa [kept] using held.exact⟩
  · intro held
    exact ⟨by omega, by simpa [kept] using held.exact⟩

theorem patched_room (room : 4 ≤ data.size) : 4 ≤ (patched data offset bytes).size := by
  rw [patched_parts, ByteArray.size_append, ByteArray.size_append, ByteArray.size_extract,
    ByteArray.size_extract]
  omega

theorem not_rung_zero (data : ByteArray) : ¬ Rung (patched data 0 (Bytes.u32 0)) := by
  intro rung
  have zero := Holds.after (data.extract 0 0) (Bytes.u32 0) (data.extract (0 + (Bytes.u32 0).size) data.size)
  rw [← patched_parts] at zero
  have first := zero.exact
  have second := rung.exact
  rw [show ControlCell.requestReady.offset .standard = (data.extract 0 0).size by simp; rfl] at second
  rw [Bytes.size_u32] at first second
  have same := congrArg Bytes.number (first.symm.trans second)
  rw [Bytes.number_u32, Bytes.number_u32] at same
  exact absurd same (by decide)

namespace Memory

structure Silent (before after : Memory) : Prop where
  file : ∀ number file, before.file? number = some file → 4 ≤ file.bytes.size →
    ∃ kept, after.file? number = some kept ∧ 4 ≤ kept.bytes.size ∧ (Rung kept.bytes → Rung file.bytes)

instance : IsPreorder Memory Silent where
  refl memory := ⟨fun _ file found room => ⟨file, found, room, fun rung => rung⟩⟩
  trans one two three first second := by
    refine ⟨fun number file found room => ?_⟩
    obtain ⟨between, there, wide, down⟩ := first.file number file found room
    obtain ⟨kept, last, still, further⟩ := second.file number between there wide
    exact ⟨kept, last, still, fun rung => down (further rung)⟩

theorem Keeps.silent (keeps : memory.Keeps later) : memory.Silent later :=
  ⟨fun number file found room => ⟨file, keeps.file number file found, room, fun rung => rung⟩⟩

theorem modify_silent {number : Nat} {regions : Array Region} {change : BackingFile → BackingFile}
    (silent : ∀ file, 4 ≤ file.bytes.size → 4 ≤ (change file).bytes.size ∧
      (Rung (change file).bytes → Rung file.bytes)) :
    memory.Silent { memory with files := memory.files.modify number change, regions := regions } := by
  refine ⟨fun index file found room => ?_⟩
  by_cases same : number = index
  · refine ⟨change file, ?_, silent file room⟩
    change (memory.files.modify number change)[index]? = _
    rw [Array.getElem?_modify, if_pos same]
    exact congrArg (Option.map change) found
  · refine ⟨file, ?_, room, fun rung => rung⟩
    change (memory.files.modify number change)[index]? = _
    rw [Array.getElem?_modify, if_neg same]
    exact found

theorem write_silent (id : RegionId) (place : 4 ≤ offset ∨ offset = 0 ∧ bytes = Bytes.u32 0) :
    Along Silent (Memory.write id offset bytes) := by
  intro memory
  cases ran : Memory.write id offset bytes memory with
  | error e later => exact write_refused ran ▸ refl_of Silent memory
  | ok _ later =>
    obtain ⟨region, found, rfl⟩ := write_parts ran
    refine modify_silent fun file room => ⟨patched_room room, fun rung => ?_⟩
    rcases place with behind | ⟨rfl, rfl⟩
    · exact (patched_front (by rwa [Bytes.size_u32]) (by rwa [Bytes.size_u32])).mp rung
    · exact absurd rung (not_rung_zero file.bytes)

theorem unmap_silent (memory : Memory) (id : RegionId) : memory.Silent (memory.unmap id) := by
  unfold unmap
  split
  · exact refl_of Silent memory
  · split
    · exact refl_of Silent memory
    · split
      · exact modify_silent fun file room => ⟨room, fun rung => rung⟩
      · exact ⟨fun _ file found room => ⟨file, found, room, fun rung => rung⟩⟩

end Memory

open Memory (Silent)

theorem HostWrites.silent (id : RegionId) : Permits Silent id HostWrites := by
  intro offset bytes place
  refine Memory.write_silent id ?_
  cases place with
  | lower => exact .inr ⟨rfl, rfl⟩
  | word value low high => exact .inl low
  | args low high => exact .inl (Nat.le_trans (by decide) low)

namespace ProtocolHost

theorem stageCall_silent (standard : host.block.layout = .standard) (id : UInt32) (args : List WireValue) :
    Along Silent (host.stageCall id args) :=
  stageCall_along (HostWrites.silent _) standard id args

theorem preload_silent (standard : host.block.layout = .standard) (vars : List PreloadedVariable) :
    Along Silent (host.preload vars) :=
  preload_along standard vars fun _ _ _ => Memory.write_silent _ (.inl (by decide))

theorem takeResponse_silent (standard : host.block.layout = .standard) : Along Silent host.takeResponse :=
  takeResponse_along (HostWrites.silent _) standard

theorem requestShutdown_silent (standard : host.block.layout = .standard) : Along Silent host.requestShutdown :=
  requestShutdown_along (HostWrites.silent _) standard

end ProtocolHost
end PluginBridge
