import Mathlib.Tactic.Common
import PluginBridge.Proofs.Bytes.Words
import PluginBridge.Proofs.Outcome
import PluginBridge.Region.Memory
namespace PluginBridge

theorem Holds.cut {data bytes : ByteArray} {offset start stop : Nat} (held : Holds data offset bytes)
    (low : start ≤ offset) (high : offset + bytes.size ≤ stop) (room : stop ≤ data.size) :
    Holds (data.extract start stop) (offset - start) bytes := by
  refine ⟨by rw [ByteArray.size_extract]; omega, ?_⟩
  have first : start + (offset - start) = offset := by omega
  have last : min (start + (offset - start + bytes.size)) stop = offset + bytes.size := by omega
  rw [ByteArray.extract_extract, first, last, held.exact]

def patched (data : ByteArray) (offset : Nat) (bytes : ByteArray) : ByteArray :=
  bytes.copySlice 0 data offset bytes.size

theorem patched_parts (data bytes : ByteArray) (offset : Nat) : patched data offset bytes =
    data.extract 0 offset ++ bytes ++ data.extract (offset + bytes.size) data.size := by
  rw [patched, ByteArray.copySlice_eq_append]
  simp

theorem size_patched {data bytes : ByteArray} {offset : Nat} (within : offset + bytes.size ≤ data.size) :
    (patched data offset bytes).size = data.size := by
  rw [patched_parts, ByteArray.size_append, ByteArray.size_append, ByteArray.size_extract,
    ByteArray.size_extract]
  omega

theorem patched_holds {data bytes : ByteArray} {offset : Nat} (within : offset + bytes.size ≤ data.size) :
    Holds (patched data offset bytes) offset bytes := by
  have front : (data.extract 0 offset).size = offset := by
    rw [ByteArray.size_extract]
    omega
  have placed := Holds.after (data.extract 0 offset) bytes (data.extract (offset + bytes.size) data.size)
  rwa [front, ← patched_parts] at placed

theorem patched_keeps {data bytes other : ByteArray} {offset start : Nat}
    (within : offset + bytes.size ≤ data.size) (held : Holds data start other)
    (apart : start + other.size ≤ offset ∨ offset + bytes.size ≤ start) :
    Holds (patched data offset bytes) start other := by
  rw [patched_parts]
  rcases apart with before | after
  · have kept := held.cut (Nat.zero_le _) before (by omega)
    exact (kept.extend bytes).extend _
  · have kept := held.cut after held.within (Nat.le_refl _)
    have front : (data.extract 0 offset ++ bytes).size = offset + bytes.size := by
      rw [ByteArray.size_append, ByteArray.size_extract]
      omega
    have tail := Holds.after (data.extract 0 offset ++ bytes)
      (data.extract (offset + bytes.size) data.size) .empty
    rw [ByteArray.append_empty] at tail
    have placed := tail.part kept
    rwa [front, show offset + bytes.size + (start - (offset + bytes.size)) = start by omega] at placed

-- The two have the same size, and a range that avoids the touched positions holds the same.
structure Differs (touched : Nat → Prop) (data later : ByteArray) : Prop where
  size : later.size = data.size
  keeps : ∀ offset bytes, Holds data offset bytes →
    (∀ k, offset ≤ k → k < offset + bytes.size → ¬ touched k) → Holds later offset bytes

namespace Differs
variable {touched wider : Nat → Prop} {data middle later : ByteArray}

theorem refl (touched : Nat → Prop) (data : ByteArray) : Differs touched data data :=
  ⟨rfl, fun _ _ held _ => held⟩

theorem trans (first : Differs touched data middle) (second : Differs touched middle later) :
    Differs touched data later :=
  ⟨second.size.trans first.size, fun offset bytes held clear =>
    second.keeps offset bytes (first.keeps offset bytes held clear) clear⟩

theorem widen (first : Differs touched data later) (sub : ∀ k, touched k → wider k) :
    Differs wider data later :=
  ⟨first.size, fun offset bytes held clear =>
    first.keeps offset bytes held fun k low high inside => clear k low high (sub k inside)⟩

theorem patch {bytes : ByteArray} {offset : Nat} (within : offset + bytes.size ≤ data.size) :
    Differs (fun k => offset ≤ k ∧ k < offset + bytes.size) data (patched data offset bytes) := by
  refine ⟨size_patched within, fun start other held clear => ?_⟩
  by_cases apart : start + other.size ≤ offset ∨ offset + bytes.size ≤ start
  · exact patched_keeps within held apart
  · -- The ranges meet, so one of them is empty: a position in both would be a touched one.
    have inside := held.within
    by_cases nothing : bytes.size = 0
    · have same : patched data offset bytes = data := by
        rw [patched_parts, ByteArray.size_eq_zero_iff.mp nothing, ByteArray.append_empty,
          ByteArray.size_empty, Nat.add_zero, ByteArray.extract_append_extract, Nat.min_eq_left (by omega),
          Nat.max_eq_right (by omega), ByteArray.extract_zero_size]
      rwa [same]
    · by_cases none : other.size = 0
      · rw [ByteArray.size_eq_zero_iff.mp none, Holds.empty, size_patched within]
        omega
      · exact absurd ⟨Nat.le_max_right _ _, by omega⟩ (clear (max start offset) (by omega) (by omega))

end Differs

variable {memory : Memory} {one other : RegionId} {number offset length : Nat} {data bytes : ByteArray}

-- A region that maps the file of that number to read and write it, without faults, and what the file holds.
structure Views (memory : Memory) (id : RegionId) (number : Nat) (data : ByteArray) : Prop where
  region : ∃ region, memory.region? id = some region ∧ region.mapping = .readWrite ∧
    region.file = number ∧ region.size = data.size
  file : ∃ file, memory.file? number = some file ∧ file.bytes = data

def Shared (memory : Memory) (one other : RegionId) (data : ByteArray) : Prop :=
  ∃ number, Views memory one number data ∧ Views memory other number data

theorem Shared.symm (shared : Shared memory one other data) : Shared memory other one data := by
  obtain ⟨number, first, second⟩ := shared
  exact ⟨number, second, first⟩

theorem Shared.size (shared : Shared memory one other data) :
    (memory.region? one).map Region.size = some data.size := by
  obtain ⟨number, first, _⟩ := shared
  obtain ⟨region, found, _, _, sized⟩ := first.region
  rw [found, Option.map_some, sized]

theorem Views.write (views : Views memory one number data) (within : offset + bytes.size ≤ data.size) :
    ∃ later, Memory.write one offset bytes memory = .ok () later ∧
      ∀ id, Views memory id number data → Views later id number (patched data offset bytes) := by
  obtain ⟨region, found, mapped, numbered, sized⟩ := views.region
  obtain ⟨file, stored, holds⟩ := views.file
  have fits : offset + bytes.size ≤ region.size := sized ▸ within
  let later : Memory := { memory with
    files := memory.files.modify region.file fun file => Memory.overwrite file offset bytes }
  refine ⟨later, ?_, fun id views => ?_⟩
  · simp only [Memory.write, found, mapped, if_pos fits]
    rfl
  · obtain ⟨own, ownFound, ownMapped, ownNumbered, ownSized⟩ := views.region
    refine ⟨⟨own, ownFound, ownMapped, ownNumbered, ownSized.trans (size_patched within).symm⟩, ?_⟩
    refine ⟨Memory.overwrite file offset bytes, ?_, ?_⟩
    · change (memory.files.modify region.file _)[number]? = _
      rw [numbered, Array.getElem?_modify, if_pos rfl]
      change (memory.file? number).map _ = _
      rw [stored]
      rfl
    · rw [← holds]
      rfl

theorem Shared.write (shared : Shared memory one other data) (within : offset + bytes.size ≤ data.size) :
    ∃ later, Memory.write one offset bytes memory = .ok () later ∧
      Shared later one other (patched data offset bytes) := by
  obtain ⟨number, first, second⟩ := shared
  obtain ⟨later, written, kept⟩ := first.write within
  exact ⟨later, written, number, kept one first, kept other second⟩

theorem Shared.read (shared : Shared memory one other data) (within : offset + length ≤ data.size) :
    Memory.read one offset length memory = .ok (data.extract offset (offset + length)) memory := by
  obtain ⟨number, first, _⟩ := shared
  obtain ⟨region, found, mapped, numbered, sized⟩ := first.region
  obtain ⟨file, stored, rfl⟩ := first.file
  have fits : offset + length ≤ region.size := sized ▸ within
  have usable : ¬ Mapping.readWrite = .unmapped := by decide
  simp only [Memory.read, found, mapped, if_neg usable, if_pos fits, numbered, stored]
  rfl

theorem Shared.syncRange (shared : Shared memory one other data) (within : offset + length ≤ data.size) :
    Memory.syncRange one offset length memory = .ok () memory := by
  obtain ⟨number, first, _⟩ := shared
  obtain ⟨region, found, mapped, _, sized⟩ := first.region
  have fits : ¬ region.size < offset + length := by omega
  have flushed : Memory.flush region offset length = .ok () := by
    rw [Memory.flush, mapped]
  simp only [Memory.syncRange, found, if_neg fits, flushed]

theorem Shared.sync (shared : Shared memory one other data) : Memory.sync one memory = .ok () memory := by
  rw [Memory.sync, shared.size]
  exact shared.syncRange (Nat.le_of_eq (Nat.zero_add _))

theorem Memory.read_left (id : RegionId) (offset length : Nat) : Along Eq (read id offset length) := by
  intro memory
  unfold read
  split
  · rfl
  · split
    · rfl
    · split <;> rfl

theorem Memory.syncRange_left (id : RegionId) (offset length : Nat) : Along Eq (syncRange id offset length) := by
  intro memory
  unfold syncRange
  split
  · rfl
  · split
    · rfl
    · split <;> rfl

end PluginBridge
