import PluginBridge.Flat.Unflatten
namespace PluginBridge
namespace FlatNode

theorem visit_append (nodes more : List FlatNode) :
    visit (nodes ++ more) = visit nodes ++ visit more := by
  induction nodes using visit.induct with
  | case1 => simp [visit]
  | case2 slot parent children rest ih =>
    rw [List.cons_append, visit, visit, List.cons_append, ← ih, List.append_assoc]

theorem visit_cons (node : FlatNode) (rest : List FlatNode) :
    visit (node :: rest) = node :: (visit node.children ++ visit rest) := by
  cases node with
  | mk slot parent children => rw [visit, visit_append, FlatNode.children]

theorem visit_children (node : FlatNode) : visit [node] = node :: visit node.children := by
  rw [visit_cons, visit, List.append_nil]

theorem visit_flatMap (nodes : List FlatNode) : visit nodes = nodes.flatMap walk := by
  induction nodes with
  | nil => rw [visit, List.flatMap_nil]
  | cons node rest ih =>
    rw [← List.singleton_append, visit_append, ih, List.singleton_append, List.flatMap_cons, walk]

theorem visit_length (nodes : List FlatNode) : (visit nodes).length = weightAll nodes := by
  induction nodes using visit.induct with
  | case1 => rw [visit, weightAll, List.length_nil]
  | case2 slot parent children rest ih =>
    rw [visit, List.length_cons, ih, weightAll_append, weightAll, weight, Nat.add_right_comm]

theorem weight_children (node : FlatNode) : node.weight = weightAll node.children + 1 := by
  cases node
  rw [weight, children]

theorem visit_roots (nodes : List FlatNode) : nodes.Sublist (visit nodes) := by
  induction nodes with
  | nil => exact List.nil_sublist _
  | cons node rest ih =>
    rw [visit_cons]
    exact (ih.trans (List.sublist_append_right _ _)).cons_cons node

mutual

def depth : FlatNode → Nat
  | .mk _ _ children => depthAll children

def depthAll : List FlatNode → Nat
  | [] => 0
  | node :: rest => max (node.depth + 1) (depthAll rest)

end

theorem depthAll_le {nodes : List FlatNode} {limit : Nat} (each : ∀ node ∈ nodes, node.depth < limit) :
    depthAll nodes ≤ limit := by
  induction nodes with
  | nil => exact Nat.zero_le _
  | cons node rest ih =>
    rw [depthAll]
    apply Nat.max_le.mpr
    constructor
    · exact each node List.mem_cons_self
    · exact ih fun other among => each other (List.mem_cons_of_mem _ among)

end FlatNode
end PluginBridge
