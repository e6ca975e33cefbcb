import PluginBridge.Peer.RegionCall
import PluginBridge.Proofs.Call.Readable
import PluginBridge.Proofs.Flat.Codec
import PluginBridge.Proofs.Region.Keeping
namespace PluginBridge

namespace Node
variable {node : Node} {holds : Binary64 → Prop} {tree : FlatTree} {bytes : ByteArray}

theorem decoded (builtin : node.Builtin) (survive : node.EveryNumber Binary64.SurvivesText)
    (written : node.flatten.bind FlatTree.toBytes = .ok bytes) :
    (FlatTree.ofBytes bytes).bind FlatTree.unflatten = .ok (node.outline.rebuilt .builtin 0 none) ∧
      node.outline.size ≤ 0x100000000 := by
  obtain ⟨tree, flattened, written⟩ := except_parts written
  obtain ⟨nodes, _⟩ := flattenWith_counted builtin.apart flattened
  obtain ⟨out, rfl, count, _, _⟩ := flattenWith_laid flattened
  have small : node.outline.size ≤ 0x100000000 := count ▸ nodes
  obtain ⟨encoding, rfl⟩ := FlatTree.toBytes_encoding written
  have sound := flattenWith_sound flattened encoding.small
  have read := encoding.ofBytes_append sound .empty
  rw [ByteArray.append_empty] at read
  have back := unflatten_flatten builtin (properties_survive builtin survive small) flattened
  rw [if_neg (Nat.ne_of_lt encoding.small)] at back
  exact ⟨(except_done read).trans back, small⟩

theorem arguments_builtin (builtin : node.Builtin) : (Node.plain (.arguments [node])).Builtin := by
  refine Within.every rfl fun child among => ?_
  obtain rfl := List.mem_singleton.mp among
  exact builtin

theorem arguments_numbers (every : node.EveryNumber holds) :
    (Node.plain (.arguments [node])).EveryNumber holds := by
  refine Within.every (fun x among => absurd among List.not_mem_nil) fun child among => ?_
  obtain rfl := List.mem_singleton.mp among
  exact every

end Node

theorem CallArg.flattenAll_node {node : Node} {tree : FlatTree} (flattened : node.flatten = .ok tree) :
    flattenAll [.node node] = (Node.plain (.arguments [node])).flatten := by
  have whole : flattenable (.node node) = node := by
    simp only [flattenable, toNode, flattened]
  rw [flattenAll, List.map_singleton, whole]

namespace RegionCall
variable {base memory : Memory} {path : String} {id view : RegionId} {node : Node} {data : Json}
  {content bytes : ByteArray} {request : RegionCallRequest} {call : RegionCall}

theorem access_done {α : Type} {action : Access α} {later : Memory} {a : α}
    (ran : action memory = .ok a later) : access action memory = .ok a later := by
  simp only [access, EStateM.adaptExcept, ran]

theorem ofJson_node (asked : RegionCallRequest.ofJson data = .ok request)
    (owned : Private base memory request.path id id content) (something : content.size ≠ 0)
    (builtin : node.Builtin) (survive : node.EveryNumber Binary64.SurvivesText)
    (written : (Node.plain (.arguments [node])).flatten.bind FlatTree.toBytes = .ok bytes)
    (held : Holds content 0 bytes) (sized : request.dataSize = bytes.size) :
    ∃ view middle arg, ResultNode.ofFlat arg = .ofNode node ∧
      ofJson data memory = .ok ⟨request.name, [arg], request.preloaded, request.needsContext,
        request.contextId, view, bytes.size⟩ middle ∧
      Private base middle request.path id view content := by
  obtain ⟨view, middle, attached, placed⟩ := owned.attach something
  obtain ⟨decoded, small⟩ := Node.decoded (Node.arguments_builtin builtin)
    (Node.arguments_numbers survive) written
  have within : node.outline.size ≤ 0x100000000 :=
    Nat.le_trans (Nat.le_of_lt (Node.child_size List.mem_cons_self)) small
  have inside := held.within
  have read := placed.shared.symm.read inside
  rw [held.exact] at read
  refine ⟨view, middle, node.outline.rebuilt .builtin 1 (some 0),
    ResultNode.ofFlat_rebuilt .builtin builtin within 1 _, ?_, placed⟩
  have parsed : codec ((FlatTree.ofBytes bytes).bind FlatTree.unflatten) middle =
      .ok ((Node.plain (.arguments [node])).outline.rebuilt .builtin 0 none) middle := by
    rw [decoded]
    rfl
  rw [ofJson, asked]
  simp only []
  rw [bind_done (access_done attached), sized, bind_done (access_done read), bind_done parsed]
  rfl

theorem reply_node (call : RegionCall) (owned : Private base memory path id call.region content)
    (written : node.flatten.bind FlatTree.toBytes = .ok bytes) :
    (call.resultOffset + bytes.size ≤ content.size ∧ ∃ later after,
      call.reply node memory = .ok (.ofEntries [("resultOffset", .natural call.resultOffset),
        ("resultSize", .natural bytes.size)]) later ∧
      Private base later path id call.region after ∧ Holds after call.resultOffset bytes) ∨
      call.reply node memory = .ok (.ofEntries [("json", (ResultNode.ofNode node).toJson)]) memory := by
  have encoded : codec (node.flatten.bind FlatTree.toBytes) memory = .ok bytes memory := by
    rw [written]
    rfl
  have size := owned.shared.symm.size
  by_cases room : call.resultOffset + bytes.size ≤ content.size
  · obtain ⟨later, stored, kept⟩ := owned.write (.inr rfl) room
    refine .inl ⟨room, later, _, ?_, kept, patched_holds room⟩
    rw [reply, bind_done encoded, bind_done (get_done memory)]
    simp only [size, Option.getD_some, if_pos room]
    rw [bind_done (access_done stored), bind_done (access_done kept.shared.symm.sync)]
    rfl
  · refine .inr ?_
    rw [reply, bind_done encoded, bind_done (get_done memory)]
    simp only [size, Option.getD_some, if_neg room]
    rfl

end RegionCall
end PluginBridge
