import PluginBridge.Wire.Value
namespace PluginBridge

def quoteByte (quote : Char) : UInt8 :=
  if quote.toNat < 256 then UInt8.ofNat quote.toNat else UInt8.ofNat '"'.toNat

def quoteChar (quote : UInt8) : Char := Char.ofNat quote.toNat

mutual

def WireValue.ofNode : Node → WireValue
  | .mk _ body => WireValue.ofBody body

def WireValue.ofBody : NodeBody → WireValue
  | .dimension size unit => .dimension size unit
  | .color rgb alpha _ => .color rgb (if alpha.equals .one then none else some alpha)
  | .quoted quote text escaped => .quoted (quoteByte quote) escaped text
  | .keyword text => .keyword text
  | .anonymous text => .keyword text
  | .expression items => .expression (WireValue.ofNodes items)
  | .value items => .expression (WireValue.ofNodes items)
  | .arguments items => .expression (WireValue.ofNodes items)
  | _ => .null

def WireValue.ofNodes : List Node → List WireValue
  | [] => []
  | node :: rest => WireValue.ofNode node :: WireValue.ofNodes rest

end

mutual

def WireValue.toNode : WireValue → Node
  | .null => .null
  | .dimension size unit => .plain (.dimension size unit)
  | .color rgb alpha => .plain (.color rgb (alpha.getD .one) none)
  | .quoted quote escaped text => .plain (.quoted (quoteChar quote) text escaped)
  | .keyword text => .plain (.keyword text)
  | .expression items => .plain (.expression (WireValue.toNodes items))
  | .number size => .plain (.dimension size "")
  | .boolean value => .plain (.keyword (if value then "true" else "false"))

def WireValue.toNodes : List WireValue → List Node
  | [] => []
  | item :: rest => item.toNode :: WireValue.toNodes rest

end

mutual

-- Whether a node under `depth` expressions comes back unchanged: its kind and content have
-- a wire form, it stands in no parentheses, and it is not nested too deep.
def Node.hasWireForm (depth : Nat) : Node → Bool
  | .mk info body =>
    decide (depth ≤ WireValue.maxDepth) &&
      !info.flags.intersects (NodeFlags.parens.union .parensInOperation) && body.hasWireForm depth

def NodeBody.hasWireForm (depth : Nat) : NodeBody → Bool
  | .null => true
  | .dimension .. => true
  | .keyword _ => true
  | .color _ _ spelling => spelling.isNone
  | .quoted quote _ _ => quote.toNat < 128
  | .expression items => allHaveWireForm (depth + 1) items
  | _ => false

def allHaveWireForm (depth : Nat) : List Node → Bool
  | [] => true
  | node :: rest => node.hasWireForm depth && allHaveWireForm depth rest

end

def WireValue.supports (node : Node) : Bool := node.hasWireForm 0

end PluginBridge
