import PluginBridge.Call.Argument
import PluginBridge.Proofs.Flat.Copies
namespace PluginBridge

section alone
variable {registry : TypeRegistry} {node : Outline} {tree : FlatTree}

theorem flattenWith_known (flattened : node.flattenWith registry = .ok tree) :
    node.Every fun inner => registry.idOf? inner.typeName ≠ none := by
  obtain ⟨out, rfl, count, _, laid⟩ := flattenWith_laid flattened
  refine laid.every (fun place next parent inner found _ => ?_) (by omega)
  obtain ⟨⟨record, table, recorded⟩, _⟩ := found.recorded
  rw [recorded.typed]
  exact Option.some_ne_none _

theorem flattenWith_unknown (unknown : registry.idOf? node.typeName = none) :
    node.flattenWith registry = .error (.unknownNodeType node.typeName) := by
  cases node
  rw [Outline.typeName] at unknown ⊢
  rw [flattenWith_lay, Flattening.lay, if_neg (by decide), unknown]
  rfl

theorem flattenWith_height (fits : node.Fits) (known : node.Every fun inner => registry.idOf? inner.typeName ≠ none) :
    node.height ≤ maxTreeDepth + 1 ∧ (∃ tree, node.flattenWith registry = .ok tree) ∨
      maxTreeDepth + 1 < node.height ∧ node.flattenWith registry = .error (.tooDeep maxTreeDepth) := by
  have named := (Outline.every_preorder 0 node).mp known
  have outcome := @Outline.flattenWith_first registry node fits.room
  have shallow : (∀ entry ∈ node.preorder 0, entry.1 ≤ maxTreeDepth) ↔ node.height ≤ maxTreeDepth + 1 := by
    rw [Outline.preorder_shallow, Nat.zero_add]
  split at outcome
  · rename_i error first
    obtain ⟨entry, among, offends⟩ := List.exists_of_findSome?_eq_some first
    have deep : maxTreeDepth < entry.1 := by
      by_contra fine
      rw [Outline.offence_none.mpr ⟨Nat.not_lt.mp fine, named entry among⟩] at offends
      cases offends
    rw [Outline.offence?, if_pos deep] at offends
    cases offends
    refine .inr ⟨Nat.lt_of_not_le fun low => ?_, outcome⟩
    exact absurd (shallow.mpr low entry among) (Nat.not_le.mpr deep)
  · rename_i none
    refine .inl ⟨shallow.mp fun entry among => ?_, outcome⟩
    exact (Outline.offence_none.mp (List.findSome?_eq_none_iff.mp none entry among)).1

end alone

namespace CallArg
variable {args : List CallArg} {tree : FlatTree}

def batch (args : List CallArg) : Outline := (Node.plain (.arguments (args.map flattenable))).outline

theorem batch_children (args : List CallArg) :
    (batch args).children = args.map fun arg => arg.flattenable.outline := by
  have inside : (batch args).children = outlines (args.map flattenable) := rfl
  rw [inside, outlines_eq_map, List.map_map]
  rfl

-- The child of an argument: what the argument is flattened to alone, or what null is if it cannot be.
def Fills (tree : FlatTree) (arg : CallArg) (child : UInt32) : Prop :=
  (∃ alone, arg.toNode.flatten = .ok alone ∧ alone.Copy tree alone.root child) ∨
    ∃ error nothing, arg.toNode.flatten = .error error ∧ Node.null.flatten = .ok nothing ∧
      nothing.Copy tree nothing.root child

theorem null_flattened : ∃ nothing, Node.null.flatten = .ok nothing :=
  flattenWith_leaf Node.null.outline rfl rfl (by decide)

theorem flattenable_cases (arg : CallArg) :
    (∃ alone, arg.toNode.flatten = .ok alone) ∧ arg.flattenable = arg.toNode ∨
      (∃ error, arg.toNode.flatten = .error error) ∧ arg.flattenable = Node.null := by
  unfold flattenable
  cases ran : arg.toNode.flatten with
  | ok alone => exact .inl ⟨⟨alone, rfl⟩, rfl⟩
  | error error => exact .inr ⟨⟨error, rfl⟩, rfl⟩

theorem flattenable_flattened (arg : CallArg) : ∃ alone, arg.flattenable.flatten = .ok alone := by
  rcases arg.flattenable_cases with ⟨done, same⟩ | ⟨_, same⟩
  · rwa [same]
  · rw [same]
    exact null_flattened

theorem fills_copy {arg : CallArg} {child : UInt32}
    (copied : ∀ alone, arg.flattenable.flatten = .ok alone → alone.Copy tree alone.root child) :
    Fills tree arg child := by
  rcases arg.flattenable_cases with ⟨⟨alone, done⟩, same⟩ | ⟨⟨error, failed⟩, same⟩
  · rw [same] at copied
    exact .inl ⟨alone, done, copied alone done⟩
  · obtain ⟨nothing, flattened⟩ := null_flattened
    rw [same] at copied
    exact .inr ⟨error, nothing, failed, flattened, copied nothing flattened⟩

theorem laidAll_fills {out : Flattening} (numbered : Flattening.Numbered out) (types : Option (Array String))
    {place : Nat} {parent : UInt32}
    (laid : Flattening.LaidAll .builtin out place parent (args.map fun arg => arg.flattenable.outline))
    (room : place + Outline.sizeAll (args.map fun arg => arg.flattenable.outline) ≤ out.nodes.size)
    (texts : ∀ arg ∈ args, ∀ alone, arg.flattenable.flatten = .ok alone → alone.strings.size ≤ 0x100000000) :
    List.Forall₂ (Fills (out.tree types)) args
      (Outline.positions place (args.map fun arg => arg.flattenable.outline)) := by
  induction args generalizing place with
  | nil => exact .nil
  | cons arg rest ih =>
    obtain ⟨first, later⟩ := laid
    obtain ⟨texts, others⟩ := List.forall_mem_cons.mp texts
    rw [List.map_cons, Outline.sizeAll, ← Nat.add_assoc] at room
    refine .cons (fills_copy fun alone flattened => ?_) (ih later room others)
    obtain ⟨own, rfl, count, _, wrote⟩ := flattenWith_laid flattened
    have small := numbered.nodes
    have here := Nat.le_trans (Nat.le_add_right _ _) room
    have whole : 0 + arg.flattenable.outline.size ≤ own.nodes.size := by omega
    have few : own.nodes.size < 0x100000000 := by omega
    exact Flattening.Laid.copy ⟨few, texts _ flattened⟩ numbered _ types wrote first whole here

theorem batch_known (args : List CallArg) :
    (batch args).Every fun inner => TypeRegistry.builtin.idOf? inner.typeName ≠ none := by
  refine (Outline.every_parts _).mpr ⟨Option.some_ne_none _, (Outline.everyOf_iff _).mpr fun node among => ?_⟩
  rw [batch_children] at among
  obtain ⟨arg, _, rfl⟩ := List.mem_map.mp among
  obtain ⟨alone, flattened⟩ := arg.flattenable_flattened
  exact flattenWith_known flattened

theorem batch_height (args : List CallArg) :
    (batch args).height ≤ maxTreeDepth + 1 ↔ ∀ arg ∈ args, arg.flattenable.outline.height ≤ maxTreeDepth := by
  rw [Outline.height_children, Nat.add_le_add_iff_right, Outline.heightAll_le, batch_children, List.forall_mem_map]

theorem batch_filled (fits : (batch args).Fits) (flattened : (batch args).flattenWith .builtin = .ok tree) :
    (∃ root, tree.node? tree.root = some root ∧ TypeRegistry.builtin.idOf? "Arguments" = some root.typeId) ∧
      List.Forall₂ (Fills tree) args (tree.children tree.root) := by
  have texts : tree.strings.size ≤ 0x100000000 := by
    rw [flattenWith_texts flattened]
    exact fits.texts
  obtain ⟨out, rfl, count, _, laid⟩ := flattenWith_laid flattened
  have small : out.nodes.size < 0x100000000 := count ▸ fits.nodes
  have room : 0 + (batch args).size ≤ out.nodes.size := Nat.le_of_eq (Nat.zero_add _ ▸ count.symm)
  have children : (out.tree (Flattening.typesOf .builtin out)).children (UInt32.ofNat 0) =
      Outline.positions (0 + 1) (batch args).children :=
    laid.children (Nat.le_of_lt small) room
  obtain ⟨⟨record, table, recorded⟩, below⟩ := laid.recorded
  refine ⟨⟨record, recorded.found (by decide), recorded.typed⟩, ?_⟩
  rw [Outline.size_children, ← Nat.add_assoc, Nat.add_right_comm] at room
  rw [batch_children] at room children below
  exact children ▸ laidAll_fills ⟨small, texts⟩ _ below room fun arg among alone done =>
    flattenWith_child fits (batch_children args ▸ List.mem_map_of_mem among) done

-- The arguments lie one level deeper in the tree that they share than they do alone, so an argument of the
-- largest height that can be flattened alone fails all of them. Otherwise every argument has its child.
theorem flattenAll_slots {args : List CallArg} (fits : (batch args).Fits) :
    ((∃ arg ∈ args, (∃ alone, arg.toNode.flatten = .ok alone) ∧ arg.toNode.outline.height = maxTreeDepth + 1) ∧
      flattenAll args = .error (.tooDeep maxTreeDepth)) ∨
    ((∀ arg ∈ args, ∀ alone, arg.toNode.flatten = .ok alone → arg.toNode.outline.height ≤ maxTreeDepth) ∧
      ∃ tree, flattenAll args = .ok tree ∧
        (∃ root, tree.node? tree.root = some root ∧ TypeRegistry.builtin.idOf? "Arguments" = some root.typeId) ∧
        List.Forall₂ (Fills tree) args (tree.children tree.root)) := by
  rcases flattenWith_height fits (batch_known args) with ⟨low, tree, flattened⟩ | ⟨high, failed⟩
  · refine .inr ⟨fun arg among alone done => ?_, tree, flattened, batch_filled fits flattened⟩
    have small := (batch_height args).mp low arg among
    rcases arg.flattenable_cases with ⟨_, same⟩ | ⟨⟨error, unable⟩, _⟩
    · rwa [same] at small
    · cases unable.symm.trans done
  · obtain ⟨arg, among, above⟩ : ∃ arg ∈ args, ¬ arg.flattenable.outline.height ≤ maxTreeDepth := by
      simpa only [not_forall, exists_prop] using mt (batch_height args).mpr (Nat.not_le.mpr high)
    refine .inl ⟨⟨arg, among, ?_⟩, failed⟩
    rcases arg.flattenable_cases with ⟨⟨alone, done⟩, same⟩ | ⟨_, same⟩
    · obtain ⟨_, _, _, most, _⟩ := flattenWith_laid done
      rw [same] at above
      exact ⟨⟨alone, done⟩, by omega⟩
    · rw [same] at above
      exact absurd (by decide) above

-- An argument of an unregistered kind is null among the others.
theorem flattenAll_slots_unregistered :
    let args : List CallArg := [.node (.plain (.keyword "a")), .node (.plain (.extension "Grid" [] []))]
    (batch args).Fits ∧ ∃ tree, flattenAll args = .ok tree ∧ List.Forall₂ (Fills tree) args (tree.children tree.root) := by
  intro args
  have failed : (Node.plain (.extension "Grid" [] [])).flatten = .error (.unknownNodeType "Grid") :=
    flattenWith_unknown (TypeRegistry.idOf_builtin (by decide))
  have same : args.map flattenable = [.plain (.keyword "a"), .null] := by
    simp only [args, List.map_cons, List.map_nil, flattenable, toNode, failed]
    rfl
  have fits : (batch args).Fits := by
    rw [batch, same]
    exact ⟨by decide +kernel, by decide +kernel, by decide +kernel⟩
  refine ⟨fits, ?_⟩
  rcases flattenAll_slots fits with ⟨⟨arg, among, _, high⟩, _⟩ | ⟨_, tree, flattened, _, slots⟩
  · have low : ∀ arg ∈ args, arg.toNode.outline.height ≠ maxTreeDepth + 1 := by decide
    exact absurd high (low arg among)
  · exact ⟨tree, flattened, slots⟩

end CallArg

def Node.stacked : Nat → Node
  | 0 => null
  | depth + 1 => plain (.expression [stacked depth])

theorem Node.stacked_outline (depth : Nat) : (stacked depth).outline.size = depth + 1 ∧
    (stacked depth).outline.height = depth + 1 ∧ (stacked depth).outline.Every (fun inner => inner.properties = []) ∧
      (stacked depth).outline.Every fun inner => TypeRegistry.builtin.idOf? inner.typeName ≠ none := by
  induction depth with
  | zero => exact ⟨rfl, rfl, ⟨rfl, trivial⟩, ⟨Option.some_ne_none _, trivial⟩⟩
  | succ depth ih =>
    obtain ⟨size, height, bare, known⟩ := ih
    refine ⟨congrArg (· + 1) size, congrArg (· + 1) ?_, ⟨rfl, bare, trivial⟩, ⟨Option.some_ne_none _, known, trivial⟩⟩
    exact (Nat.max_zero _).trans height

theorem Node.stacked_flattened {depth : Nat} (low : depth ≤ maxTreeDepth) : ∃ tree, (stacked depth).flatten = .ok tree := by
  obtain ⟨size, height, bare, known⟩ := stacked_outline depth
  rw [maxTreeDepth] at low
  rcases flattenWith_height (Outline.fits_bare (by omega) bare) known with ⟨-, done⟩ | ⟨high, -⟩
  · exact done
  · rw [height, maxTreeDepth] at high
    omega

namespace CallArg

-- The highest node that can be flattened alone fails even as the only argument.
theorem flattenAll_stacked : (batch [.node (.stacked 1024)]).Fits ∧
    (∃ alone, (Node.stacked 1024).flatten = .ok alone) ∧
      flattenAll [.node (.stacked 1024)] = .error (.tooDeep 1024) := by
  obtain ⟨size, height, bare, known⟩ := Node.stacked_outline 1024
  have alone := Node.stacked_flattened (Nat.le_refl 1024 : 1024 ≤ maxTreeDepth)
  generalize Node.stacked 1024 = stack at *
  have same : flattenable (.node stack) = stack := by
    rcases flattenable_cases (.node stack) with ⟨_, same⟩ | ⟨⟨error, failed⟩, _⟩
    · exact same
    · obtain ⟨tree, done⟩ := alone
      cases failed.symm.trans done
  have fits : (batch [.node stack]).Fits := by
    rw [batch, List.map_singleton, same]
    refine Outline.fits_bare ?_ ⟨rfl, bare, trivial⟩
    change stack.outline.size + 0 + 1 < 0x100000000
    omega
  refine ⟨fits, alone, ?_⟩
  rcases flattenWith_height fits (batch_known _) with ⟨low, _⟩ | ⟨_, failed⟩
  · have small := (batch_height _).mp low _ List.mem_cons_self
    rw [same, height] at small
    exact absurd small (by decide)
  · exact failed

end CallArg
end PluginBridge
