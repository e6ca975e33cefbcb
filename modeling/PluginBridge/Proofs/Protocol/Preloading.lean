import PluginBridge.Proofs.Protocol.Steps
import PluginBridge.Proofs.Protocol.Writes
import PluginBridge.Proofs.Region.Keeping
import PluginBridge.Proofs.Wire.Values
namespace PluginBridge
variable {memory later : Memory} {id other : RegionId} {data bytes : ByteArray} {host : ProtocolHost}
  {vars : List PreloadedVariable}

def OutsidePreload (k : Nat) : Prop :=
  k < Layout.standard.preloadOffset ∨ Layout.standard.preloadOffset + Layout.standard.preloadSize ≤ k

-- Files that some regions view change at the touched places only, and these still view them. No region
-- vanishes.
def Memory.Lets (guarded : RegionId → Prop) (touched : Nat → Prop) (before after : Memory) : Prop :=
  before.regions.size ≤ after.regions.size ∧ ∀ id, guarded id → ∀ number data, Views before id number data →
    ∃ next, Views after id number next ∧ Differs touched data next

structure SectionHolds (id : RegionId) (bytes : ByteArray) (memory : Memory) : Prop where
  short : bytes.size ≤ Layout.standard.preloadSize
  lies : ∃ number data, Views memory id number data ∧ Layout.standard.totalSize ≤ data.size ∧
    Holds data Layout.standard.preloadOffset bytes

namespace SectionHolds

theorem differs (holds : SectionHolds id bytes memory)
    (views : ∀ number data, Views memory id number data →
      ∃ next, Views later id number next ∧ Differs OutsidePreload data next) : SectionHolds id bytes later := by
  obtain ⟨short, number, data, first, room, held⟩ := holds
  obtain ⟨next, second, differs⟩ := views number data first
  refine ⟨short, number, next, second, differs.size ▸ room, differs.keeps _ _ held fun k low high outside => ?_⟩
  unfold OutsidePreload at outside
  omega

theorem lets {guarded : RegionId → Prop} (holds : SectionHolds id bytes memory) (chosen : guarded id)
    (lets : memory.Lets guarded OutsidePreload later) : SectionHolds id bytes later :=
  holds.differs (lets.2 id chosen)

theorem stands {kept : RegionId → Prop} (holds : SectionHolds id bytes memory)
    (stands : memory.Stands kept later) (chosen : kept id) : SectionHolds id bytes later :=
  holds.differs fun _ data views => ⟨data, stands.views chosen views, .refl _ data⟩

theorem there (holds : SectionHolds id bytes memory) : ∃ region, memory.region? id = some region := by
  obtain ⟨number, data, views, -⟩ := holds.lies
  obtain ⟨region, found, -⟩ := views.region
  exact ⟨region, found⟩

theorem fresh {base : Memory} {path : String}
    (owned : Private base memory path id other (zeros Layout.standard.totalSize)) : SectionHolds id (zeros 4) memory := by
  obtain ⟨number, -, -, views, -⟩ := owned.lies
  refine ⟨?_, number, _, views, Nat.le_of_eq (size_zeros _).symm, zeros_holds (by decide)⟩
  rw [size_zeros]
  decide

theorem through {touched : Nat → Prop} (holds : SectionHolds id bytes memory)
    (through : memory.Through id touched later) : SectionHolds id .empty later := by
  obtain ⟨-, number, data, views, room, -⟩ := holds
  obtain ⟨next, second, differs⟩ := through.views number data views
  have large : Layout.standard.totalSize ≤ next.size := differs.size ▸ room
  exact ⟨Nat.zero_le _, number, next, second, large, Holds.empty.mpr (Nat.le_trans (by decide) large)⟩

end SectionHolds

theorem HostWrites.apart (id : RegionId) : Permits (Memory.Through id OutsidePreload) id HostWrites := by
  intro offset bytes place
  refine Memory.write_through id fun k low high => ?_
  cases place with
  | lower => exact .inl (Nat.lt_of_lt_of_le high (by decide))
  | word value least most => exact .inl (Nat.lt_of_lt_of_le high most)
  | args least most => exact .inr (Nat.le_trans least low)

theorem ProtocolRegion.preloaded_read {block : ProtocolRegion} (shared : Shared memory block.region other data)
    (room : block.layout.preloadOffset + block.layout.preloadSize ≤ data.size)
    (written : Preload.encode vars = .ok bytes) (short : bytes.size ≤ block.layout.preloadSize)
    (shallow : ∀ var ∈ vars, var.value.depth ≤ WireValue.maxDepth)
    (held : Holds data block.layout.preloadOffset bytes) :
    block.view block.layout.preloadOffset block.layout.preloadSize Preload.decode memory = .ok vars memory := by
  have cut := held.cut (Nat.le_refl _) (Nat.add_le_add_left short _) room
  rw [Nat.sub_self] at cut
  exact view_done shared room (Preload.decode_held written shallow cut)

namespace ProtocolHost

theorem preload_through (standard : host.block.layout = .standard) (vars : List PreloadedVariable) :
    Along (Memory.Through host.block.region fun _ => True) (host.preload vars) :=
  preload_along standard vars fun _ _ _ => Memory.write_through _ fun _ _ _ => trivial

theorem preload_cases (shared : Shared memory host.block.region other data)
    (room : host.block.layout.preloadOffset + host.block.layout.preloadSize ≤ data.size)
    (vars : List PreloadedVariable) :
    (∃ bytes later after, Preload.encode vars = .ok bytes ∧ bytes.size ≤ host.block.layout.preloadSize ∧
      host.preload vars memory = .ok () later ∧ Shared later host.block.region other after ∧
        after.size = data.size ∧ Holds after host.block.layout.preloadOffset bytes) ∨
    (∃ bytes, Preload.encode vars = .ok bytes ∧ host.block.layout.preloadSize < bytes.size ∧
      host.preload vars memory =
        .error (.sectionFull .preload bytes.size host.block.layout.preloadSize) memory) ∨
    ∃ e, Preload.encode vars = .error e ∧ host.preload vars memory = .error (.codec e) memory := by
  cases encoded : Preload.encode vars with
  | error e =>
    refine .inr (.inr ⟨e, rfl, ?_⟩)
    rw [preload, encoded]
    rfl
  | ok bytes =>
    have coded := ProtocolRegion.codec_done memory encoded
    by_cases large : host.block.layout.preloadSize < bytes.size
    · refine .inr (.inl ⟨bytes, rfl, large, ?_⟩)
      rw [preload, bind_done coded]
      simp only [if_pos large]
      rfl
    · have short : bytes.size ≤ host.block.layout.preloadSize := Nat.not_lt.mp large
      have within : host.block.layout.preloadOffset + bytes.size ≤ data.size := by omega
      obtain ⟨later, written, still⟩ := shared.write within
      have sized := size_patched within
      refine .inl ⟨bytes, later, _, rfl, short, ?_, still, sized, patched_holds within⟩
      rw [preload, bind_done coded]
      simp only [if_neg large]
      rw [bind_done (ProtocolRegion.access_done written)]
      exact ProtocolRegion.access_done (still.syncRange (sized.symm ▸ within))

theorem preload_done (standard : host.block.layout = .standard) (holds : SectionHolds host.block.region bytes memory)
    (done : host.preload vars memory = .ok () later) :
    ∃ encoded, Preload.encode vars = .ok encoded ∧ SectionHolds host.block.region encoded later := by
  obtain ⟨-, number, data, views, room, -⟩ := holds
  have within : host.block.layout.preloadOffset + host.block.layout.preloadSize ≤ data.size := by
    rw [standard]
    exact Nat.le_trans (by decide) room
  rcases preload_cases ⟨number, views, views⟩ within vars with
    ⟨encoded, next, after, written, short, ran, ⟨number, shown, -⟩, sized, held⟩ | ⟨_, _, _, ran⟩ | ⟨_, _, ran⟩
  · cases done.symm.trans ran
    rw [standard] at short held
    exact ⟨encoded, written, short, number, after, shown, sized ▸ room, held⟩
  · cases done.symm.trans ran
  · cases done.symm.trans ran

theorem readPreloaded_done (standard : host.block.layout = .standard)
    (holds : SectionHolds host.block.region bytes memory) (written : Preload.encode vars = .ok bytes)
    (shallow : ∀ var ∈ vars, var.value.depth ≤ WireValue.maxDepth) :
    host.readPreloaded memory = .ok vars memory := by
  obtain ⟨short, number, data, views, room, held⟩ := holds
  have within : Layout.standard.preloadOffset + Layout.standard.preloadSize ≤ data.size :=
    Nat.le_trans (by decide) room
  rw [← standard] at within short held
  exact ProtocolRegion.preloaded_read ⟨number, views, views⟩ within written short shallow held

end ProtocolHost
end PluginBridge
