import Mathlib.Data.List.Nodup
import PluginBridge.Flat.Unflatten
import PluginBridge.Proofs.Flat.Soundness
namespace PluginBridge
namespace FlatTree
variable {tree : FlatTree} {link : UInt32} {bound : Nat}

inductive SiblingChain (tree : FlatTree) : UInt32 → List UInt32 → Prop where
  | ended : SiblingChain tree 0 []
  | linked {index : UInt32} {record : NodeRecord} {rest : List UInt32} (named : index ≠ 0)
      (stands : tree.node? index = some record) (later : SiblingChain tree record.next rest) :
      SiblingChain tree index (index :: rest)

theorem linkOf_nonzero {raw index : UInt32} (linked : linkOf raw = some index) : index = raw ∧ index ≠ 0 := by
  unfold linkOf at linked
  split at linked
  · cases linked
  · rename_i named
    cases linked
    exact ⟨rfl, named⟩

theorem linkOf_none {raw : UInt32} (ended : linkOf raw = none) : raw = 0 := by
  unfold linkOf at ended
  split at ended
  · assumption
  · cases ended

theorem chain_nonzero {start : Option UInt32} (first : ∀ index ∈ start, index ≠ 0) :
    ∀ index ∈ tree.chain bound start, index ≠ 0 := by
  induction bound generalizing start with
  | zero =>
    intro index among
    cases among
  | succ bound ih =>
    cases start with
    | none =>
      intro index among
      cases among
    | some link =>
      intro index among
      rcases List.mem_cons.mp among with rfl | among
      · exact first index rfl
      · refine ih ?_ index among
        intro next linked
        obtain ⟨record, _, sibling⟩ := Option.bind_eq_some_iff.mp linked
        exact (linkOf_nonzero sibling).2

theorem chain_complete (short : (tree.chain bound (linkOf link)).length < bound)
    (within : ∀ index ∈ tree.chain bound (linkOf link), index.toNat < tree.nodes.size) :
    SiblingChain tree link (tree.chain bound (linkOf link)) := by
  induction bound generalizing link with
  | zero => exact absurd short (Nat.not_lt_zero _)
  | succ bound ih =>
    cases linked : linkOf link with
    | none =>
      cases linkOf_none linked
      exact .ended
    | some index =>
      obtain ⟨rfl, named⟩ := linkOf_nonzero linked
      rw [linked] at short within
      have inside := within index List.mem_cons_self
      have stands : tree.node? index = some tree.nodes[index.toNat] := Array.getElem?_eq_getElem inside
      simp only [chain, stands, Option.bind_some, List.length_cons, Nat.add_lt_add_iff_right,
        List.forall_mem_cons] at short within ⊢
      exact .linked named stands (ih short within.2)

theorem length_below {indices : List UInt32} {count : Nat} (some_ : 0 < count) (apart : indices.Nodup)
    (named : ∀ index ∈ indices, index ≠ 0) (within : ∀ index ∈ indices, index.toNat < count) :
    indices.length < count := by
  have numbers : (0 :: indices.map UInt32.toNat).Nodup := by
    refine List.nodup_cons.mpr ⟨?_, apart.map fun _ _ same => UInt32.toNat_inj.mp same⟩
    intro zero
    obtain ⟨index, among, same⟩ := List.mem_map.mp zero
    exact named index among (UInt32.toNat_inj.mp same)
  have counted : (0 :: indices.map UInt32.toNat) ⊆ List.range count := by
    intro number among
    rw [List.mem_range]
    rcases List.mem_cons.mp among with rfl | among
    · exact some_
    · obtain ⟨index, inside, rfl⟩ := List.mem_map.mp among
      exact within index inside
  have few := numbers.length_le_of_subset counted
  rw [List.length_cons, List.length_map, List.length_range] at few
  exact few

theorem checkedChildren_parts {index : UInt32} {children : List UInt32}
    (checked : tree.checkedChildren index = .ok children) :
    children = tree.children index ∧ ∀ child ∈ children, child < tree.nodeCount := by
  cases found : (tree.children index).find? fun child =>
      tree.nodeCount ≤ child || child == tree.root with
  | some child =>
    unfold checkedChildren at checked
    simp only [found] at checked
    split at checked
    · split at checked <;> cases checked
    · cases checked
  | none =>
    have same : tree.children index = children := by
      unfold checkedChildren at checked
      simp only [found] at checked
      split at checked
      · split at checked
        · cases checked
        · exact Except.ok.inj checked
      · exact Except.ok.inj checked
    subst same
    refine ⟨rfl, fun child among => ?_⟩
    have fine := List.find?_eq_none.mp found child among
    simp only [Bool.or_eq_true, decide_eq_true_eq, not_or] at fine
    exact UInt32.not_le.mp fine.1

-- When the children of a record are all different, there are fewer of them than nodes: none is at
-- position zero and all are within the tables. So the bound on the walk was not what ended it.
theorem checkedChildren_whole {index : UInt32} {record : NodeRecord} {children : List UInt32}
    (counted : tree.nodeCount.toNat = tree.nodes.size) (stands : tree.node? index = some record)
    (checked : tree.checkedChildren index = .ok children) (apart : children.Nodup) :
    SiblingChain tree record.child children := by
  obtain ⟨walked, within⟩ := checkedChildren_parts checked
  rw [FlatTree.children, stands, Option.bind_some, NodeRecord.firstChild?] at walked
  have inside : ∀ child ∈ children, child.toNat < tree.nodes.size := by
    intro child among
    rw [← counted]
    exact UInt32.lt_iff_toNat_lt.mp (within child among)
  have named : ∀ child ∈ children, child ≠ 0 := by
    rw [walked]
    exact chain_nonzero fun child linked => (linkOf_nonzero linked).2
  have some_ : 0 < tree.nodes.size := by
    have room := (Array.getElem?_eq_some_iff.mp stands).1
    omega
  have short := length_below some_ apart named inside
  rw [walked] at short inside ⊢
  exact chain_complete short inside

end FlatTree
end PluginBridge
