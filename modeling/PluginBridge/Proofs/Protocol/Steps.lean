import PluginBridge.Proofs.Protocol.Cells
namespace PluginBridge
variable {layout : Layout} {size : Nat} {cell : ControlCell} {cells : ControlCell → Prop}

structure Layout.Serves (layout : Layout) (size : Nat) : Prop where
  consistent : layout.isConsistent = true
  separate : layout.Separate
  addressable : layout.Addressable
  room : layout.totalSize ≤ size

structure Layout.Holding (layout : Layout) (size start length : Nat) : Prop where
  apart : Layout.Apart (layout.controlOffset, layout.controlSize) (start, length)
  within : start + length ≤ size

namespace Layout
variable (consistent : layout.isConsistent = true) (room : layout.totalSize ≤ size)
include consistent room

theorem control_room : layout.controlOffset + layout.controlSize ≤ size := by
  have inside := (sections_within consistent _ (by simp [sections]
    : (layout.controlOffset, layout.controlSize) ∈ layout.sections)).2
  exact Nat.le_trans inside room

theorem holding (part : Nat × Nat) (among : part ∈ layout.sections.tail) : layout.Holding size part.1 part.2 := by
  have pairs := List.pairwise_cons.mp (sections_apart consistent)
  have inside := (sections_within consistent part (List.mem_of_mem_tail among)).2
  exact ⟨pairs.1 part among, Nat.le_trans inside room⟩

end Layout

theorem Layout.Separate.within (separate : layout.Separate) (present : cell.Present layout.fields) :
    layout.controlOffset ≤ cell.offset layout ∧
      cell.offset layout + 4 ≤ layout.controlOffset + layout.controlSize := by
  have inside := separate.inside cell present
  rw [ControlCell.offset, control]
  omega

namespace Layout.Serves

theorem control_within (serves : layout.Serves size) :
    layout.controlOffset + layout.controlSize ≤ size := control_room serves.consistent serves.room

theorem holding (serves : layout.Serves size) (part : Nat × Nat)
    (among : part ∈ layout.sections.tail) : layout.Holding size part.1 part.2 :=
  Layout.holding serves.consistent serves.room part among

theorem args (serves : layout.Serves size) : layout.Holding size layout.argsOffset layout.argsSize :=
  serves.holding (layout.argsOffset, layout.argsSize) (by simp [sections])

theorem results (serves : layout.Serves size) :
    layout.Holding size layout.resultsOffset layout.resultsSize :=
  serves.holding (layout.resultsOffset, layout.resultsSize) (by simp [sections])

theorem error (serves : layout.Serves size) : layout.Holding size layout.errorOffset layout.errorSize :=
  serves.holding (layout.errorOffset, layout.errorSize) (by simp [sections])

theorem cell_within (serves : layout.Serves size) (present : cell.Present layout.fields) :
    layout.controlOffset ≤ cell.offset layout ∧
      cell.offset layout + 4 ≤ layout.controlOffset + layout.controlSize := serves.separate.within present

theorem cell_room (serves : layout.Serves size) (present : cell.Present layout.fields) :
    cell.offset layout + 4 ≤ size :=
  Nat.le_trans (serves.cell_within present).2 serves.control_within

end Layout.Serves

def Touches (layout : Layout) (cells : ControlCell → Prop) (k : Nat) : Prop :=
  ∃ cell, cells cell ∧ cell.Present layout.fields ∧ cell.offset layout ≤ k ∧ k < cell.offset layout + 4

theorem Touches.mono {wider : ControlCell → Prop} (sub : ∀ cell, cells cell → wider cell) {k : Nat}
    (touched : Touches layout cells k) : Touches layout wider k := by
  obtain ⟨cell, chosen, inside⟩ := touched
  exact ⟨cell, sub cell chosen, inside⟩

theorem touches_other (serves : layout.Serves size) (present : cell.Present layout.fields)
    (free : ¬ cells cell) {k : Nat} (low : cell.offset layout ≤ k) (high : k < cell.offset layout + 4) :
    ¬ Touches layout cells k := by
  rintro ⟨found, chosen, foundPresent, foundLow, foundHigh⟩
  have different : found ≠ cell := fun same => free (same ▸ chosen)
  have apart := serves.separate.apart found cell foundPresent present different
  simp only [ControlCell.offset, Layout.control] at low high foundLow foundHigh
  simp only [Layout.Apart] at apart
  omega

theorem touches_outside (serves : layout.Serves size) {start length : Nat}
    (holding : layout.Holding size start length) {k : Nat} (low : start ≤ k) (high : k < start + length) :
    ¬ Touches layout cells k := by
  rintro ⟨found, _, present, foundLow, foundHigh⟩
  have inside := serves.cell_within present
  have apart := holding.apart
  simp only [Layout.Apart] at apart
  omega

theorem cell_outside (serves : layout.Serves size) (present : cell.Present layout.fields)
    {start length : Nat} (holding : layout.Holding size start length) {k : Nat}
    (low : cell.offset layout ≤ k) (high : k < cell.offset layout + 4) :
    ¬ (start ≤ k ∧ k < start + length) := by
  intro inside
  have touched : Touches layout (fun found => found = cell) k := ⟨cell, rfl, present, low, high⟩
  exact touches_outside serves holding inside.1 inside.2 touched

theorem Differs.keepsCell {data after : ByteArray} {value : UInt32} (serves : layout.Serves size)
    (kept : ControlCell) (present : kept.Present layout.fields) (free : ¬ cells kept)
    (differs : Differs (Touches layout cells) data after)
    (held : Holds data (kept.offset layout) (Bytes.u32 value)) :
    Holds after (kept.offset layout) (Bytes.u32 value) := by
  refine differs.keeps _ _ held fun k low high => ?_
  rw [Bytes.size_u32] at high
  exact touches_other serves present free low high

-- One end took a step from one state of the shared bytes to another, changing only what is touched.
structure Does {α : Type} (block : ProtocolRegion) (other : RegionId) (touched : Nat → Prop)
    (action : ProtocolAccess α) (memory : Memory) (data : ByteArray) (a : α) (later : Memory)
    (after : ByteArray) : Prop where
  ran : action memory = .ok a later
  shared : Shared later block.region other after
  differs : Differs touched data after

namespace Does
variable {α β : Type} {block : ProtocolRegion} {other : RegionId} {touched wider : Nat → Prop}
  {memory middle later : Memory} {data between after : ByteArray} {a : α} {b : β}

theorem bind {first : ProtocolAccess α} {rest : α → ProtocolAccess β}
    (one : Does block other touched first memory data a middle between)
    (two : Does block other touched (rest a) middle between b later after) :
    Does block other touched (first >>= rest) memory data b later after :=
  ⟨by rw [bind_done one.ran, two.ran], two.shared, one.differs.trans two.differs⟩

theorem widen {action : ProtocolAccess α} (one : Does block other touched action memory data a later after)
    (sub : ∀ k, touched k → wider k) : Does block other wider action memory data a later after :=
  ⟨one.ran, one.shared, one.differs.widen sub⟩

theorem serves {layout : Layout} {action : ProtocolAccess α}
    (one : Does block other touched action memory data a later after)
    (before : layout.Serves data.size) : layout.Serves after.size :=
  one.differs.size ▸ before

theorem pure (touched : Nat → Prop) (a : α) (shared : Shared memory block.region other data) :
    Does block other touched (Pure.pure a) memory data a memory data :=
  ⟨rfl, shared, .refl touched data⟩

end Does

namespace ProtocolRegion
variable {block : ProtocolRegion} {other : RegionId} {memory : Memory} {data : ByteArray}

theorem access_done {α : Type} {action : Access α} {later : Memory} {a : α}
    (ran : action memory = .ok a later) : access action memory = .ok a later := by
  simp only [access, EStateM.adaptExcept, ran]

theorem write_done (shared : Shared memory block.region other data) {offset : Nat} {bytes : ByteArray}
    (within : offset + bytes.size ≤ data.size) :
    ∃ later after, Does block other (fun k => offset ≤ k ∧ k < offset + bytes.size)
      (access (Memory.write block.region offset bytes)) memory data () later after ∧
        Holds after offset bytes := by
  obtain ⟨later, ran, still⟩ := shared.write within
  exact ⟨later, _, ⟨access_done ran, still, .patch within⟩, patched_holds within⟩

theorem writeCell_done (serves : block.layout.Serves data.size)
    (shared : Shared memory block.region other data) (cell : ControlCell)
    (present : cell.Present block.layout.fields) (value : UInt32) :
    ∃ later after, Does block other (Touches block.layout fun found => found = cell)
      (access (Memory.writeU32 block.region (cell.offset block.layout) value)) memory data () later
        after ∧ Holds after (cell.offset block.layout) (Bytes.u32 value) := by
  have room := serves.cell_room present
  obtain ⟨later, after, does, held⟩ := write_done shared
    (show cell.offset block.layout + (Bytes.u32 value).size ≤ data.size by rwa [Bytes.size_u32])
  refine ⟨later, after, does.widen fun k inside => ?_, held⟩
  rw [Bytes.size_u32] at inside
  exact ⟨cell, rfl, present, inside⟩

theorem set_done (serves : block.layout.Serves data.size)
    (shared : Shared memory block.region other data) (cell : ControlCell)
    (present : cell.Present block.layout.fields) (value : UInt32) :
    ∃ later after, Does block other (Touches block.layout fun found => found = cell)
      (block.set (cell.field block.layout.fields) value) memory data () later after ∧
        Holds after (cell.offset block.layout) (Bytes.u32 value) :=
  writeCell_done serves shared cell present value

theorem readCell_done (shared : Shared memory block.region other data) {offset : Nat} {value : UInt32}
    (held : Holds data offset (Bytes.u32 value)) :
    access (Memory.readU32 block.region offset) memory = .ok value memory := by
  have within := held.within
  have exact := held.exact
  rw [Bytes.size_u32] at within exact
  apply access_done
  rw [Memory.readU32, bind_done (shared.read within), exact, Bytes.number_u32, UInt32.ofNat_toNat]
  rfl

theorem get_done (shared : Shared memory block.region other data) {value : UInt32}
    (held : Holds data (cell.offset block.layout) (Bytes.u32 value)) :
    block.get (cell.field block.layout.fields) memory = .ok value memory :=
  readCell_done shared held

theorem syncControl_done (serves : block.layout.Serves data.size)
    (shared : Shared memory block.region other data) : block.syncControl memory = .ok () memory :=
  access_done (shared.syncRange serves.control_within)

theorem codec_done {α : Type} {result : Except CodecError α} {a : α} (memory : Memory)
    (done : result = .ok a) : codec result memory = .ok a memory := by
  rw [done]
  rfl

theorem view_done {α : Type} (shared : Shared memory block.region other data) {offset length : Nat}
    (within : offset + length ≤ data.size) {read : ByteArray → Except ProtocolError α} {a : α}
    (found : read (data.extract offset (offset + length)) = .ok a) :
    block.view offset length read memory = .ok a memory := by
  rw [view, bind_done (access_done (shared.read within))]
  simp only [found]
  rfl

theorem checkWithin_done {part : Section} {offset length start size : Nat} (low : start ≤ offset)
    (high : offset + length ≤ start + size) : checkWithin part offset length start size memory =
      .ok () memory := by
  rw [checkWithin, if_pos ⟨low, high⟩]
  rfl

theorem setAll_done (serves : block.layout.Serves data.size)
    (shared : Shared memory block.region other data) (value : UInt32) (chosen : List ControlCell)
    (present : ∀ cell ∈ chosen, cell.Present block.layout.fields) :
    ∃ later after, Does block other (Touches block.layout (· ∈ chosen))
      (block.setAll value (chosen.map (ControlCell.field block.layout.fields))) memory data () later
        after ∧ ∀ cell ∈ chosen, Holds after (cell.offset block.layout) (Bytes.u32 value) := by
  induction chosen generalizing memory data with
  | nil => exact ⟨memory, data, .pure _ () shared, fun cell among => by cases among⟩
  | cons first rest ih =>
    have here := present first List.mem_cons_self
    obtain ⟨middle, between, one, held⟩ := set_done serves shared first here value
    have still : block.layout.Serves between.size := one.serves serves
    obtain ⟨later, after, others, each⟩ := ih still one.shared fun cell among =>
      present cell (List.mem_cons_of_mem _ among)
    refine ⟨later, after, ?_, fun cell among => ?_⟩
    · have front := one.widen fun _ => Touches.mono fun cell (same : cell = first) =>
        (same ▸ List.mem_cons_self : cell ∈ first :: rest)
      have back := others.widen fun _ => Touches.mono fun cell (among : cell ∈ rest) =>
        (List.mem_cons_of_mem first among : cell ∈ first :: rest)
      exact front.bind back
    · by_cases later : cell ∈ rest
      · exact each cell later
      · obtain rfl : cell = first := (List.mem_cons.mp among).resolve_right later
        exact others.differs.keepsCell still cell here later held

end ProtocolRegion
end PluginBridge
