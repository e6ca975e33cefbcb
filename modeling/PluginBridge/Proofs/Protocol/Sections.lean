import PluginBridge.Proofs.Protocol.Cells
namespace PluginBridge

theorem saturatingAdd_le {a b n : Nat} : saturatingAdd a b ≤ n ↔ (n + 1 < wordLimit → a + b ≤ n) := by
  rw [saturatingAdd]
  omega

theorem saturatingAdd_mul_le {a b c n : Nat} :
    saturatingAdd a (saturatingMul b c) ≤ n ↔ (n + 1 < wordLimit → a + b * c ≤ n) := by
  rw [saturatingAdd_le, saturatingMul]
  omega

namespace Layout
variable {layout : Layout} {parts : List (Nat × Nat)} {a b : Nat × Nat}

def Covers (part : Nat × Nat) (k : Nat) : Prop := part.1 ≤ k ∧ k < part.1 + part.2

def Cuts (a b : Nat × Nat) : Prop := a.2 = 0 ∧ b.1 < a.1 ∧ a.1 < b.1 + b.2

theorem apart_bytes : Apart a b ↔ (∀ k, Covers a k → ¬ Covers b k) ∧ ¬ Cuts a b ∧ ¬ Cuts b a := by
  constructor
  · intro apart
    rw [Apart] at apart
    refine ⟨fun k here there => ?_, fun cut => ?_, fun cut => ?_⟩
    · rw [Covers] at here there
      omega
    · rw [Cuts] at cut
      omega
    · rw [Cuts] at cut
      omega
  · rintro ⟨disjoint, uncut, whole⟩
    -- Where both have bytes and overlap, they share the one at which the later of them begins.
    have first := disjoint a.1
    have second := disjoint b.1
    simp only [Covers, Cuts] at first second uncut whole
    rw [Apart]
    omega

theorem sectionLe_iff : sectionLe a b = true ↔ a.1 < b.1 ∨ a.1 = b.1 ∧ a.2 ≤ b.2 := by
  simp only [sectionLe, Bool.or_eq_true, Bool.and_eq_true, decide_eq_true_eq, beq_iff_eq]

theorem sections_sorted (parts : List (Nat × Nat)) :
    (parts.mergeSort sectionLe).Pairwise fun a b => sectionLe a b = true := by
  refine List.pairwise_mergeSort (fun a b c => ?_) (fun a b => ?_) parts
  · simp only [sectionLe_iff]
    omega
  · simp only [Bool.or_eq_true, sectionLe_iff]
    omega

theorem apart_ordered (sorted : parts.Pairwise fun a b => sectionLe a b = true)
    (separate : parts.Pairwise Apart) : apart parts = true := by
  induction parts with
  | nil => rfl
  | cons first rest ih =>
    cases rest with
    | nil => rfl
    | cons second rest =>
      obtain ⟨before, sorted⟩ := List.pairwise_cons.mp sorted
      obtain ⟨beside, separate⟩ := List.pairwise_cons.mp separate
      have least := sectionLe_iff.mp (before second List.mem_cons_self)
      have either : Apart first second := beside second List.mem_cons_self
      rw [apart, Bool.and_eq_true, decide_eq_true_eq]
      refine ⟨?_, ih sorted separate⟩
      rw [Apart] at either
      rw [saturatingAdd]
      omega

theorem apart_sorted (bounded : ∀ part ∈ parts, part.1 + part.2 < wordLimit) :
    apart (parts.mergeSort sectionLe) = true ↔ parts.Pairwise Apart := by
  have sorted := List.mergeSort_perm parts sectionLe
  have same := sorted.pairwise_iff (R := Apart) fun ends => ends.symm
  constructor
  · intro ordered
    have follow := apart_pairwise (fun part among => bounded part (sorted.mem_iff.mp among)) ordered
    exact same.mp (follow.imp fun before => .inl before)
  · intro separate
    exact apart_ordered (sections_sorted parts) (same.mpr separate)

-- The sections end in machine words and within the region, no byte belongs to two of them, and none
-- without bytes stands inside another one.
structure Divided (layout : Layout) : Prop where
  bounded : ∀ part ∈ layout.sections, part.1 + part.2 < wordLimit
  inside : ∀ part ∈ layout.sections, part.1 + part.2 ≤ layout.totalSize
  disjoint : layout.sections.Pairwise fun a b => ∀ k, Covers a k → ¬ Covers b k
  uncut : ∀ a ∈ layout.sections, ∀ b ∈ layout.sections, ¬ Cuts a b

-- The last control field and the argument slots end in the control section, unless this is so large that
-- a sum can only reach its end.
def HoldsWords (layout : Layout) : Prop :=
  layout.controlSize + 1 < wordLimit →
    layout.fields.peerReady + 4 ≤ layout.controlSize ∧
      layout.fields.argOffsets + layout.fields.maxArgs * 4 ≤ layout.controlSize

theorem sections_uncut (separate : parts.Pairwise Apart) : ∀ a ∈ parts, ∀ b ∈ parts, ¬ Cuts a b := by
  have forth : parts.Pairwise fun a b => ¬ Cuts a b := separate.imp fun ends => (apart_bytes.mp ends).2.1
  have back : parts.Pairwise fun a b => ¬ Cuts b a := separate.imp fun ends => (apart_bytes.mp ends).2.2
  have alone : ∀ part ∈ parts, ¬ Cuts part part := fun part _ cut => Nat.lt_irrefl _ cut.2.1
  exact fun a amongA b amongB => forth.forall_of_forall_of_flip alone back amongA amongB

theorem divided_iff : layout.Divided ↔
    (∀ part ∈ layout.sections, part.1 + part.2 < wordLimit ∧ part.1 + part.2 ≤ layout.totalSize) ∧
      layout.sections.Pairwise Apart := by
  constructor
  · intro divided
    refine ⟨fun part among => ⟨divided.bounded part among, divided.inside part among⟩, ?_⟩
    refine divided.disjoint.imp_of_mem fun {a b} amongA amongB disjoint => ?_
    exact apart_bytes.mpr ⟨disjoint, divided.uncut a amongA b amongB, divided.uncut b amongB a amongA⟩
  · rintro ⟨within, separate⟩
    constructor
    · exact fun part among => (within part among).1
    · exact fun part among => (within part among).2
    · exact separate.imp fun ends => (apart_bytes.mp ends).1
    · exact sections_uncut separate

theorem holdsWords_iff : layout.HoldsWords ↔ saturatingAdd layout.fields.peerReady 4 ≤ layout.controlSize ∧
    saturatingAdd layout.fields.argOffsets (saturatingMul layout.fields.maxArgs 4) ≤ layout.controlSize := by
  rw [saturatingAdd_le, saturatingAdd_mul_le, HoldsWords, imp_and]

-- Exactly the layouts are accepted whose sections share nothing and whose control section has room for
-- the words that are looked at.
theorem isConsistent_iff (layout : Layout) : layout.isConsistent = true ↔ layout.Divided ∧ layout.HoldsWords := by
  rw [divided_iff, holdsWords_iff]
  simp only [isConsistent, Bool.and_eq_true, List.all_eq_true, decide_eq_true_eq, and_assoc]
  -- No sum of a section saturates, so that the sorted sections are compared by their true ends.
  refine and_congr_right fun within => and_congr_left fun _ => ?_
  exact apart_sorted fun part among => (within part among).1

-- Sections without bytes may stand where another one begins or ends, also where the machine words end.
example : ({ standard with
    preloadSize := 0, argsOffset := 4096, argsSize := 0, resultsOffset := 4096, resultsSize := wordLimit - 4097,
    errorOffset := wordLimit - 1, errorSize := 0, totalSize := wordLimit - 1 } : Layout).isConsistent = true := by
  cbv

def Passes (part range : Nat × Nat) : Prop :=
  ∀ name memory, ProtocolRegion.checkWithin name range.1 range.2 part.1 part.2 memory = .ok () memory

theorem passes_iff {part range : Nat × Nat} :
    Passes part range ↔ part.1 ≤ range.1 ∧ range.1 + range.2 ≤ part.1 + part.2 := by
  constructor
  · intro passes
    have passed := passes .error default
    by_contra outside
    rw [ProtocolRegion.checkWithin, if_neg outside] at passed
    cases passed
  · intro inside name memory
    rw [ProtocolRegion.checkWithin, if_pos inside]
    rfl

theorem Divided.ranges (divided : layout.Divided) :
    (∀ part ∈ layout.sections, ∀ range, Passes part range → range.1 + range.2 ≤ layout.totalSize) ∧
      layout.sections.Pairwise fun a b => ∀ first second, Passes a first → Passes b second →
        ∀ k, Covers first k → ¬ Covers second k := by
  have wider : ∀ {part range : Nat × Nat}, Passes part range → ∀ k, Covers range k → Covers part k := by
    intro part range passes k covers
    have within := passes_iff.mp passes
    rw [Covers] at covers ⊢
    omega
  constructor
  · intro part among range passes
    exact Nat.le_trans (passes_iff.mp passes).2 (divided.inside part among)
  · refine divided.disjoint.imp fun disjoint first second here there k one other => ?_
    exact disjoint k (wider here k one) (wider there k other)

end Layout
end PluginBridge
