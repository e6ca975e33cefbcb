import PluginBridge.Tree.Node
namespace PluginBridge

-- All that is kept of a node once its kind is a type name: flags, scalar fields in
-- their order, and children.
inductive Outline where
  | mk (typeName : String) (flags : NodeFlags) (properties : List (String × Property))
      (children : List Outline)

namespace Outline

def typeName : Outline → String
  | .mk name _ _ _ => name

def flags : Outline → NodeFlags
  | .mk _ flags _ _ => flags

def properties : Outline → List (String × Property)
  | .mk _ _ properties _ => properties

def children : Outline → List Outline
  | .mk _ _ _ children => children

end Outline

mutual

def Node.outline : Node → Outline
  | .mk info body =>
    .mk body.typeName (Node.recordFlags info) (body.properties ++ Node.infoProperties info)
      body.childOutlines

def NodeBody.childOutlines : NodeBody → List Outline
  | .ruleset selectors rules => outlines selectors ++ outlines rules
  | .selector elements => outlines elements
  | .declaration _ content _ => [content.outline]
  | .paren content => [content.outline]
  | .url content => [content.outline]
  | .value items => outlines items
  | .expression items => outlines items
  | .arguments items => outlines items
  | .call _ args => outlines args
  | .operation _ operands => outlines operands
  | .extension _ _ children => outlines children
  | _ => []

def outlines : List Node → List Outline
  | [] => []
  | node :: rest => node.outline :: outlines rest

end

theorem outlines_eq_map (nodes : List Node) : outlines nodes = nodes.map Node.outline := by
  induction nodes with
  | nil => rfl
  | cons node rest ih => simp [outlines, ih]

end PluginBridge
