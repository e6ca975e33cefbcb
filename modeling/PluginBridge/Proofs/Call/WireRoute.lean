import PluginBridge.Call.Argument
import PluginBridge.Proofs.Call.JsonRoute
namespace PluginBridge

def NodeInfo.Unplaced (info : NodeInfo) : Prop := info.file = none ∧ info.index = none

theorem NodeFlags.outside_contains {flags mask wanted : NodeFlags} (part : mask.inter wanted = wanted)
    (some : NodeFlags.none.contains wanted = false) (outside : flags.intersects mask = false) :
    flags.contains wanted = false := by
  have none : flags.inter mask = .none := by
    simpa [NodeFlags.intersects] using outside
  rwa [← NodeFlags.inter_contains part, none]

theorem NodeFlags.outside_parens {flags : NodeFlags}
    (outside : flags.intersects (NodeFlags.parens.union .parensInOperation) = false) :
    flags.contains .parens = false :=
  NodeFlags.outside_contains (by decide) (by decide) outside

namespace Node
variable {node : Node} {depth : Nat}

theorem allHaveWireForm_mem {nodes : List Node} (all : allHaveWireForm depth nodes = true) :
    ∀ child ∈ nodes, child.hasWireForm depth = true := by
  induction nodes with
  | nil => exact fun child among => absurd among List.not_mem_nil
  | cons node rest ih =>
    rw [allHaveWireForm, Bool.and_eq_true] at all
    exact List.forall_mem_cons.mpr ⟨all.1, ih all.2⟩

theorem hasWireForm_below (held : node.hasWireForm depth = true) :
    ∀ child ∈ node.children, child.hasWireForm (depth + 1) = true := by
  obtain ⟨info, body⟩ := node
  rw [hasWireForm, Bool.and_eq_true] at held
  cases body with
  | expression items =>
    have all := allHaveWireForm_mem held.2
    simpa [children, Node.body, NodeBody.children, NodeBody.childFields, ChildGroup.nodes] using all
  | null | dimension | keyword | color | quoted => exact fun child among => absurd among List.not_mem_nil
  | _ => cases held.2

theorem hasWireForm_kinds (held : node.hasWireForm depth = true) :
    ∀ inner, Within inner node → inner.kind?.isSome ∧ inner.kind? ≠ some .ruleset := by
  induction node using byChildren generalizing depth with
  | step node ih =>
    refine Within.every ?_ fun child among => ih child among (hasWireForm_below held child among)
    obtain ⟨info, body⟩ := node
    rw [hasWireForm, Bool.and_eq_true] at held
    cases body with
    | null | dimension | keyword | color | quoted | expression => exact ⟨rfl, by rintro ⟨⟩⟩
    | _ => cases held.2

end Node

theorem Binary64.equals_one {x : Binary64} (same : x.equals .one = true) : x = .one := by
  have bits : Binary64.one.bits = 0x3FF0000000000000 := by decide
  have key : Binary64.one.orderKey = 0x3FF0000000000000 := by decide
  rw [equals, Bool.and_eq_true, key, beq_iff_eq] at same
  have order := same.2
  rw [orderKey, magnitude, isNegative] at order
  have size := x.bits.toNat_lt
  have number : x.bits.toNat = 0x3FF0000000000000 := by
    by_cases sign : signBit ≤ x.bits.toNat
    · rw [if_pos (decide_eq_true sign)] at order
      omega
    · rw [if_neg (by simpa using sign), signBit] at order
      rw [signBit] at sign
      omega
  cases x
  rw [show Binary64.one = ⟨0x3FF0000000000000⟩ from congrArg Binary64.mk bits]
  exact congrArg Binary64.mk (UInt64.toNat_inj.mp number)

theorem quoteChar_quoteByte {quote : Char} (ascii : quote.toNat < 128) :
    quoteChar (quoteByte quote) = quote := by
  have byte : (UInt8.ofNat quote.toNat).toNat = quote.toNat := by
    rw [UInt8.toNat_ofNat']
    omega
  rw [quoteByte, if_pos (by omega), quoteChar, byte, Char.ofNat_toNat]

namespace ResultNode
variable {info : NodeInfo} {body : NodeBody} {node : Node} {depth : Nat}

theorem new_ofList (name : String) : new name = .mk name (Members.ofList []) [] := rfl

theorem withField_ofList (name key : String) (value : Json) (entries : List (String × Json)) :
    (ResultNode.mk name (Members.ofList entries) []).withField key value =
      .mk name (Members.ofList (entries ++ [(key, value)])) [] := by
  rw [Members.ofList_snoc]
  rfl

theorem ofWires_ofNodes {nodes : List Node}
    (each : ∀ child ∈ nodes, ofWire (.ofNode child) = ofNode child) :
    ofWires (WireValue.ofNodes nodes) = ofNodes nodes := by
  induction nodes with
  | nil => rfl
  | cons child rest ih =>
    rw [WireValue.ofNodes, ofWires, ofNodes, each child List.mem_cons_self,
      ih fun other among => each other (List.mem_cons_of_mem _ among)]

theorem markParens_without {flags : NodeFlags} (fields : Members Json)
    (outside : flags.intersects (NodeFlags.parens.union .parensInOperation) = false) :
    markParens flags fields = fields := by
  rw [markParens, NodeFlags.outside_parens outside]
  rfl

theorem ofNode_unplaced {kind : NodeKind} (unplaced : info.Unplaced)
    (outside : info.flags.intersects (NodeFlags.parens.union .parensInOperation) = false)
    (builtin : body.kind? = some kind) (other : kind ≠ .ruleset) : ofNode (.mk info body) =
      .mk body.typeName (fieldsOfProperties body.properties) (slotsOfBody body) := by
  obtain ⟨file, index⟩ := unplaced
  rw [ofNode, markParens_without _ outside, erase_selectorCount builtin other]
  simp [Node.infoProperties, file, index]

theorem ofWire_ofNode (held : node.hasWireForm depth = true)
    (unplaced : ∀ inner, Node.Within inner node → inner.info.Unplaced) :
    ofWire (.ofNode node) = ofNode node := by
  induction node using Node.byChildren generalizing depth with
  | step node ih =>
    have below := fun child among => ih child among (Node.hasWireForm_below held child among)
      fun inner within => unplaced inner (.deeper within among)
    have here := unplaced node (.here node)
    obtain ⟨info, body⟩ := node
    rw [Node.info] at here
    rw [Node.hasWireForm, Bool.and_eq_true, Bool.and_eq_true, Bool.not_eq_true'] at held
    obtain ⟨⟨-, outside⟩, form⟩ := held
    cases body with
    | null =>
      rw [ofNode_unplaced here outside rfl (by decide)]
      rfl
    | dimension size unit =>
      rw [ofNode_unplaced here outside rfl (by decide), WireValue.ofNode, WireValue.ofBody, ofWire,
        dimension, new_ofList, withField_ofList, withField_ofList]
      rfl
    | keyword text =>
      rw [ofNode_unplaced here outside rfl (by decide), WireValue.ofNode, WireValue.ofBody, ofWire,
        keyword, new_ofList, withField_ofList]
      rfl
    | color rgb alpha spelling =>
      rw [NodeBody.hasWireForm, Option.isNone_iff_eq_none] at form
      subst form
      -- An alpha of one is left out on the wire and stands for one when it is missing.
      have shown : (if alpha.equals .one = true then none else some alpha).getD .one = alpha := by
        split
        · rename_i one
          exact (Binary64.equals_one one).symm
        · rfl
      rw [ofNode_unplaced here outside rfl (by decide), WireValue.ofNode, WireValue.ofBody, ofWire,
        shown, new_ofList, withField_ofList, withField_ofList]
      rfl
    | quoted quote text escaped =>
      have ascii : quote.toNat < 128 := by simpa [NodeBody.hasWireForm] using form
      -- The fields are written in another order, which makes no difference once they are sorted.
      have order : Members.ofList [("quote", Json.string quote.toString), ("escaped", .bool escaped),
          ("value", .string text)] = fieldsOfProperties (NodeBody.quoted quote text escaped).properties :=
        Members.ofList_eq_of_perm (of_decide_eq_true rfl) (.cons _ (.swap _ _ _))
      rw [ofNode_unplaced here outside rfl (by decide), WireValue.ofNode, WireValue.ofBody, ofWire,
        quoteChar_quoteByte ascii, new_ofList, withField_ofList, withField_ofList, withField_ofList]
      exact congrArg (ResultNode.mk NodeKind.quoted.name · []) order
    | expression items =>
      have same := ofWires_ofNodes fun child among => below child (by
        simpa [Node.children, Node.body, NodeBody.children, NodeBody.childFields,
          ChildGroup.nodes] using among)
      rw [ofNode_unplaced here outside rfl (by decide), WireValue.ofNode, WireValue.ofBody, ofWire, same]
      rfl
    | _ => cases form

end ResultNode

-- A peer function sees one argument in both ways: from the protocol what it sees from the command
-- stream. Only a plain string is a keyword here and an anonymous value there.
theorem wire_route {arg : CallArg} {value : WireValue}
    (unplaced : ∀ tree, arg = .node tree → ∀ inner, Node.Within inner tree → inner.info.Unplaced)
    (sent : arg.toWire? = some value) :
    ((∀ text, arg ≠ .json (.string text)) → ResultNode.ofWire value = ResultNode.ofJson arg.toJson) ∧
      ∀ text, arg = .json (.string text) → ResultNode.ofWire value = .keyword text ∧
        ResultNode.ofJson arg.toJson =
          (ResultNode.new NodeKind.anonymous.name).withField "value" (.string text) := by
  constructor
  · intro other
    cases arg with
    | node tree =>
      rw [CallArg.toWire?] at sent
      split at sent
      · rename_i held
        cases sent
        have kinds := Node.hasWireForm_kinds held
        have read := ResultNode.ofJson_toJson (ResultNode.ofNode_regular fun inner within =>
          (kinds inner within).1)
        have same := ResultNode.inOrder_ofNode.mpr fun inner within => (kinds inner within).2
        rw [ResultNode.ofWire_ofNode held (unplaced tree rfl), CallArg.toJson, read, same]
      · cases sent
    | json plain =>
      cases plain with
      | string text => exact absurd rfl (other text)
      | null | bool | number =>
        cases sent
        rfl
      | array | object => cases sent
  · rintro text rfl
    cases sent
    exact ⟨rfl, rfl⟩

theorem wire_route_expression :
    ∃ arg value, arg = CallArg.node (.plain (.expression
        [.plain (.color ⟨.zero, .one, .zero⟩ .one none), .plain (.quoted '"' "a" true)])) ∧
      arg.toWire? = some value ∧ ResultNode.ofWire value = ResultNode.ofJson arg.toJson := by
  refine ⟨_, _, rfl, rfl, (wire_route ?_ rfl).1 fun text => by rintro ⟨⟩⟩
  rintro tree ⟨⟩
  refine Node.Within.every ⟨rfl, rfl⟩ fun child among => ?_
  rcases List.mem_cons.mp among with rfl | among
  · exact Node.Within.every ⟨rfl, rfl⟩ fun child among => absurd among List.not_mem_nil
  · cases List.mem_singleton.mp among
    exact Node.Within.every ⟨rfl, rfl⟩ fun child among => absurd among List.not_mem_nil

-- The plain string arrives with one type from the protocol and with another from the stream.
theorem wire_route_string : ∃ value, (CallArg.json (.string "bold")).toWire? = some value ∧
    (ResultNode.ofWire value).typeName = "Keyword" ∧
      (ResultNode.ofJson (CallArg.json (.string "bold")).toJson).typeName = "Anonymous" :=
  ⟨_, rfl, rfl, rfl⟩

end PluginBridge
