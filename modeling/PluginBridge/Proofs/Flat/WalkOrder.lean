import PluginBridge.Proofs.Flat.Walk
namespace PluginBridge
namespace FlatNode

-- A list that grows while it is looked through. The nodes before the place `next` were looked at.
structure Scan where
  nodes : List FlatNode
  next : Nat

namespace Scan

def step? (scan : Scan) : Option Scan :=
  scan.nodes[scan.next]?.map fun node =>
    ⟨scan.nodes.take (scan.next + 1) ++ node.children ++ scan.nodes.drop (scan.next + 1), scan.next + 1⟩

inductive Ends : Nat → Scan → List FlatNode → Prop where
  | done {scan : Scan} (stopped : scan.step? = none) : Ends 0 scan scan.nodes
  | step {count : Nat} {scan later : Scan} {nodes : List FlatNode} (step : scan.step? = some later)
      (rest : Ends count later nodes) : Ends (count + 1) scan nodes

variable {scan later : Scan}

def waiting (scan : Scan) : List FlatNode := scan.nodes.drop scan.next

-- What was looked at stays where it is, and what waits will be followed by its descendants.
def outcome (scan : Scan) : List FlatNode := scan.nodes.take scan.next ++ visit scan.waiting

theorem stopped_outcome (stopped : scan.step? = none) : scan.outcome = scan.nodes ∧ scan.waiting = [] := by
  have behind : scan.nodes.length ≤ scan.next := by
    rwa [step?, Option.map_eq_none_iff, List.getElem?_eq_none_iff] at stopped
  have nothing : scan.waiting = [] := List.drop_eq_nil_of_le behind
  refine ⟨?_, nothing⟩
  rw [outcome, nothing, visit, List.append_nil, List.take_of_length_le behind]

theorem step_parts (step : scan.step? = some later) : ∃ node rest, scan.waiting = node :: rest ∧
    later.waiting = node.children ++ rest ∧ later.nodes.take later.next = scan.nodes.take scan.next ++ [node] := by
  rw [step?, Option.map_eq_some_iff] at step
  obtain ⟨node, here, rfl⟩ := step
  obtain ⟨within, rfl⟩ := List.getElem?_eq_some_iff.mp here
  have front : (scan.nodes.take (scan.next + 1)).length = scan.next + 1 := List.length_take_of_le within
  refine ⟨_, _, List.drop_eq_getElem_cons within, ?_, ?_⟩
  · rw [waiting, List.append_assoc, List.drop_left' front]
  · rw [List.append_assoc, List.take_left' front, List.take_succ_eq_append_getElem within]

theorem step_outcome (step : scan.step? = some later) : later.outcome = scan.outcome := by
  obtain ⟨node, rest, before, after, front⟩ := step_parts step
  rw [outcome, outcome, front, before, after, visit_cons, visit_append, List.append_assoc, List.singleton_append]

theorem step_weight (step : scan.step? = some later) : weightAll scan.waiting = weightAll later.waiting + 1 := by
  obtain ⟨node, rest, before, after, _⟩ := step_parts step
  rw [before, after, weightAll, weight_children, weightAll_append]
  omega

theorem ends (scan : Scan) : Ends (weightAll scan.waiting) scan scan.outcome := by
  induction count : weightAll scan.waiting generalizing scan with
  | zero =>
    cases stepped : scan.step? with
    | none => exact (stopped_outcome stepped).1 ▸ .done stepped
    | some later =>
      have more := step_weight stepped
      omega
  | succ count ih =>
    cases stepped : scan.step? with
    | none =>
      rw [(stopped_outcome stepped).2, weightAll] at count
      cases count
    | some later =>
      have one := step_weight stepped
      exact step_outcome stepped ▸ .step stepped (ih later (by omega))

theorem Ends.unique {m n : Nat} {nodes others : List FlatNode} (one : Ends m scan nodes) (other : Ends n scan others) :
    m = n ∧ nodes = others := by
  induction one generalizing n with
  | done stopped =>
    cases other with
    | done => exact ⟨rfl, rfl⟩
    | step further => exact absurd (stopped.symm.trans further) (Option.some_ne_none _).symm
  | step further rest ih =>
    cases other with
    | done stopped => exact absurd (stopped.symm.trans further) (Option.some_ne_none _).symm
    | step again other =>
      cases further.symm.trans again
      obtain ⟨rfl, same⟩ := ih other
      exact ⟨rfl, same⟩

end Scan

theorem scan_walk (node : FlatNode) : Scan.Ends node.walk.length ⟨[node], 0⟩ node.walk := by
  rw [walk, visit_length]
  exact Scan.ends ⟨[node], 0⟩

theorem walk_children (node : FlatNode) : node.walk = node :: node.children.flatMap walk := by
  rw [walk, visit_children, visit_flatMap]

def follow? : FlatNode → List Nat → Option FlatNode
  | node, [] => some node
  | node, number :: path => node.children[number]?.bind fun child => child.follow? path

mutual

-- The paths to a node and to all below it, and to the trees of children that are numbered from `number` on.
def paths : FlatNode → List (List Nat)
  | .mk _ _ children => [] :: pathsFrom 0 children

def pathsFrom : Nat → List FlatNode → List (List Nat)
  | _, [] => []
  | number, node :: rest => node.paths.map (number :: ·) ++ pathsFrom (number + 1) rest

end

theorem paths_children (node : FlatNode) : node.paths = [] :: pathsFrom 0 node.children := by
  cases node
  rw [paths, children]

theorem mem_pathsFrom {number : Nat} {nodes : List FlatNode} {path : List Nat} : path ∈ pathsFrom number nodes ↔
    ∃ k node rest, nodes[k]? = some node ∧ rest ∈ node.paths ∧ path = (number + k) :: rest := by
  induction nodes generalizing number with
  | nil => simp [pathsFrom]
  | cons node nodes ih =>
    rw [pathsFrom, List.mem_append, List.mem_map, ih]
    constructor
    · rintro (⟨rest, among, rfl⟩ | ⟨k, inner, rest, stands, among, rfl⟩)
      · exact ⟨0, node, rest, rfl, among, rfl⟩
      · exact ⟨k + 1, inner, rest, stands, among, by rw [Nat.add_assoc, Nat.add_comm 1]⟩
    · rintro ⟨k, inner, rest, stands, among, rfl⟩
      cases k with
      | zero =>
        cases stands
        exact .inl ⟨rest, among, rfl⟩
      | succ k => exact .inr ⟨k, inner, rest, stands, among, by rw [Nat.add_assoc, Nat.add_comm 1]⟩

theorem mem_paths {node : FlatNode} {path : List Nat} : path ∈ node.paths ↔ (node.follow? path).isSome := by
  induction path generalizing node with
  | nil => simp [paths_children, follow?]
  | cons number path ih =>
    rw [paths_children, List.mem_cons, or_iff_right (List.cons_ne_nil number path), mem_pathsFrom, follow?]
    constructor
    · rintro ⟨k, child, rest, stands, among, same⟩
      rw [Nat.zero_add, List.cons.injEq] at same
      obtain ⟨rfl, rfl⟩ := same
      rw [stands, Option.bind_some]
      exact ih.mp among
    · intro found
      cases stands : node.children[number]? with
      | none =>
        rw [stands] at found
        cases found
      | some child =>
        rw [stands, Option.bind_some] at found
        exact ⟨number, child, path, stands, ih.mpr found, by rw [Nat.zero_add]⟩

mutual

theorem paths_increasing : ∀ node : FlatNode, node.paths.Pairwise (· < ·)
  | .mk _ _ children => by
    rw [paths]
    refine List.pairwise_cons.mpr ⟨fun path among => ?_, pathsFrom_increasing 0 children⟩
    obtain ⟨k, _, rest, _, _, rfl⟩ := mem_pathsFrom.mp among
    exact List.nil_lt_cons _ _

theorem pathsFrom_increasing (number : Nat) : ∀ nodes : List FlatNode, (pathsFrom number nodes).Pairwise (· < ·)
  | [] => .nil
  | node :: rest => by
    rw [pathsFrom]
    refine List.pairwise_append.mpr ⟨?_, pathsFrom_increasing (number + 1) rest, ?_⟩
    · refine List.pairwise_map.mpr ((paths_increasing node).imp fun less => ?_)
      exact List.cons_lt_cons_self.mpr less
    · intro early first late second
      obtain ⟨_, _, rfl⟩ := List.mem_map.mp first
      obtain ⟨k, _, _, _, _, rfl⟩ := mem_pathsFrom.mp second
      exact List.cons_lt_cons_iff.mpr (.inl (by omega))

end

mutual

theorem visit_found : ∀ node : FlatNode, (visit [node]).map some = node.paths.map node.follow?
  | .mk slot parent children => by
    rw [visit_children, paths_children, List.map_cons, List.map_cons, follow?]
    exact congrArg _ (visit_numbered (.mk slot parent children) 0 children rfl)

theorem visit_numbered (above : FlatNode) (number : Nat) : ∀ nodes : List FlatNode,
    above.children.drop number = nodes → (visit nodes).map some = (pathsFrom number nodes).map above.follow?
  | [], _ => by
    rw [visit, pathsFrom]
    rfl
  | node :: rest, stand => by
    have here : above.children[number]? = some node := by
      rw [← List.head?_drop, stand, List.head?_cons]
    have others : above.children.drop (number + 1) = rest := by
      rw [← List.tail_drop, stand, List.tail_cons]
    have below : node.paths.map (fun path => above.follow? (number :: path)) = node.paths.map node.follow? := by
      simp only [follow?, here, Option.bind_some]
    rw [← List.singleton_append, visit_append, List.map_append, visit_found node, visit_numbered above _ rest others,
      List.singleton_append, pathsFrom, List.map_append, List.map_map]
    exact congrArg (· ++ _) below.symm

end

-- The nodes of a tree in the lexicographic order of their paths, each path once. So a node comes before all
-- that is below it, and what is below one child comes before the next child.
structure Preorder (root : FlatNode) (nodes : List FlatNode) (paths : List (List Nat)) : Prop where
  found : nodes.map some = paths.map root.follow?
  every : ∀ path, path ∈ paths ↔ (root.follow? path).isSome
  increasing : paths.Pairwise (· < ·)

-- A walk is what a list becomes that starts with the node alone and gets the children of every node right
-- behind it when this node is looked at. As many steps as it has nodes are taken.
theorem walk_preorder (node : FlatNode) :
    (∀ count nodes, Scan.Ends count ⟨[node], 0⟩ nodes ↔ count = node.walk.length ∧ nodes = node.walk) ∧
      node.walk = node :: node.children.flatMap walk ∧ Preorder node node.walk node.paths := by
  refine ⟨fun count nodes => ⟨fun ends => ends.unique node.scan_walk, ?_⟩, node.walk_children,
    node.visit_found, fun _ => mem_paths, node.paths_increasing⟩
  rintro ⟨rfl, rfl⟩
  exact node.scan_walk

end FlatNode
end PluginBridge
