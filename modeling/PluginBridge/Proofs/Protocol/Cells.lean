import Mathlib.Data.List.Pairwise
import PluginBridge.Proofs.Region.Shared
import PluginBridge.Proofs.Bytes.Readers
import PluginBridge.Protocol.Control
namespace PluginBridge

namespace Layout
variable {layout : Layout}

def Apart (a b : Nat × Nat) : Prop := a.1 + a.2 ≤ b.1 ∨ b.1 + b.2 ≤ a.1

theorem apart_pairwise {parts : List (Nat × Nat)} (bounded : ∀ part ∈ parts, part.1 + part.2 < wordLimit)
    (ordered : apart parts = true) : parts.Pairwise fun a b => a.1 + a.2 ≤ b.1 := by
  induction parts with
  | nil => exact .nil
  | cons first rest ih =>
    cases rest with
    | nil => exact List.pairwise_singleton _ _
    | cons second rest =>
      rw [apart, Bool.and_eq_true, decide_eq_true_eq] at ordered
      obtain ⟨here, later⟩ := ordered
      have limit := bounded first List.mem_cons_self
      have next : first.1 + first.2 ≤ second.1 := by
        rw [saturatingAdd, Nat.min_eq_left (by omega)] at here
        exact here
      have others := ih (fun part among => bounded part (List.mem_cons_of_mem _ among)) later
      refine List.pairwise_cons.mpr ⟨fun part among => ?_, others⟩
      rcases List.mem_cons.mp among with rfl | among
      · exact next
      · have behind := (List.pairwise_cons.mp others).1 part among
        omega

theorem sections_within (consistent : layout.isConsistent = true) :
    ∀ part ∈ layout.sections, part.1 + part.2 < wordLimit ∧ part.1 + part.2 ≤ layout.totalSize := by
  simp only [isConsistent, Bool.and_eq_true, List.all_eq_true, decide_eq_true_eq] at consistent
  exact consistent.1.1.1

theorem sections_apart (consistent : layout.isConsistent = true) : layout.sections.Pairwise Apart := by
  have within := sections_within consistent
  simp only [isConsistent, Bool.and_eq_true, decide_eq_true_eq] at consistent
  have sorted := List.mergeSort_perm layout.sections sectionLe
  have ordered := apart_pairwise (fun part among => (within part (sorted.mem_iff.mp among)).1)
    consistent.1.1.2
  have either : (layout.sections.mergeSort sectionLe).Pairwise Apart := ordered.imp fun before => .inl before
  exact (sorted.pairwise_iff fun ends => ends.symm).mp either

end Layout

inductive ControlCell where
  | requestReady
  | responseReady
  | functionId
  | argCount
  | resultOffset
  | resultSize
  | errorFlag
  | errorOffset
  | errorSize
  | shutdown
  | peerReady
  | slot (index : Nat)
deriving DecidableEq, Repr

namespace ControlCell

abbrev field (fields : ControlFields) : ControlCell → Nat
  | requestReady => fields.requestReady
  | responseReady => fields.responseReady
  | functionId => fields.functionId
  | argCount => fields.argCount
  | resultOffset => fields.resultOffset
  | resultSize => fields.resultSize
  | errorFlag => fields.errorFlag
  | errorOffset => fields.errorOffset
  | errorSize => fields.errorSize
  | shutdown => fields.shutdown
  | peerReady => fields.peerReady
  | slot index => fields.argOffsets + index * 4

def Present (fields : ControlFields) : ControlCell → Prop
  | slot index => index < fields.maxArgs
  | _ => True

def offset (layout : Layout) (cell : ControlCell) : Nat := layout.control (cell.field layout.fields)

end ControlCell

-- The control fields and the argument slots are words of 4 bytes in the control section, no
-- two of which overlap.
structure Layout.Separate (layout : Layout) : Prop where
  apart : ∀ a b : ControlCell, a.Present layout.fields → b.Present layout.fields → a ≠ b →
    Layout.Apart (a.field layout.fields, 4) (b.field layout.fields, 4)
  inside : ∀ a : ControlCell, a.Present layout.fields → a.field layout.fields + 4 ≤ layout.controlSize

-- What the words are to hold fits in 32 bits: where an argument stands or ends, where the result
-- and the error text stand, and how long these may be.
structure Layout.Addressable (layout : Layout) : Prop where
  args : layout.argsOffset + layout.argsSize < 0x100000000
  results : layout.resultsOffset < 0x100000000 ∧ layout.resultsSize < 0x100000000
  error : layout.errorOffset < 0x100000000 ∧ layout.errorSize < 0x100000000

theorem Layout.argSlot_offset (layout : Layout) (index : Nat) :
    layout.argSlot index = (ControlCell.slot index).offset layout :=
  Nat.add_assoc _ _ _

namespace Layout

theorem standard_consistent : standard.isConsistent = true := by
  have sorted : standard.sections.mergeSort sectionLe = standard.sections :=
    List.mergeSort_of_pairwise (by decide)
  rw [isConsistent, sorted]
  decide

theorem standard_separate : standard.Separate := by
  refine ⟨fun a b aPresent bPresent different => ?_, fun a present => ?_⟩
  · cases a <;> cases b <;>
      simp_all [Apart, ControlCell.field, ControlCell.Present, standard, ControlFields.standard] <;> omega
  · cases a with
    | slot index =>
      simp only [ControlCell.field, ControlCell.Present, standard, ControlFields.standard] at present ⊢
      omega
    | _ => exact of_decide_eq_true rfl

theorem standard_addressable : standard.Addressable := ⟨by decide, by decide, by decide⟩

end Layout

theorem Shared.ofRegion {memory : Memory} {id other : RegionId} {data : ByteArray} {layout : Layout}
    (shared : Shared memory id other data) (consistent : layout.isConsistent = true) (room : layout.totalSize ≤ data.size) :
    ProtocolRegion.ofRegion id layout memory = .ok ⟨id, layout⟩ memory := by
  have fits : ProtocolRegion.fits layout data.size = true := by
    simp [ProtocolRegion.fits, consistent, room]
  rw [ProtocolRegion.ofRegion, bind_done (get_done memory)]
  simp only [shared.size, Option.getD_some, fits, if_true]
  rfl

end PluginBridge
