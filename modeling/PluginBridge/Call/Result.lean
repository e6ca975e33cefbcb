import PluginBridge.Flat.Unflatten
import PluginBridge.Wire.Convert
namespace PluginBridge

mutual

-- A node as a peer hands it back, on whichever way: a type name, scalar fields, and
-- children under the names of their fields.
inductive ResultNode where
  | mk (typeName : String) (fields : Members Json) (slots : List (String × ChildSlot))

inductive ChildSlot where
  | one (node : ResultNode)
  | many (nodes : List ResultNode)

end

def ChildSlot.nodes : ChildSlot → List ResultNode
  | .one node => [node]
  | .many nodes => nodes

namespace ResultNode

def typeKey : String := "_type"

def typeName : ResultNode → String
  | .mk name _ _ => name

def fields : ResultNode → Members Json
  | .mk _ fields _ => fields

def slots : ResultNode → List (String × ChildSlot)
  | .mk _ _ slots => slots

def new (typeName : String) : ResultNode := .mk typeName [] []

instance : Inhabited ResultNode := ⟨new ""⟩

def withField (node : ResultNode) (key : String) (value : Json) : ResultNode :=
  .mk node.typeName (Members.insert key value node.fields) node.slots

def withChild (node : ResultNode) (field : String) (child : ResultNode) : ResultNode :=
  .mk node.typeName node.fields (node.slots ++ [(field, .one child)])

def withChildren (node : ResultNode) (field : String) (children : List ResultNode) : ResultNode :=
  .mk node.typeName node.fields (node.slots ++ [(field, .many children)])

def null : ResultNode := new NodeKind.null.name

def dimension (size : Binary64) (unit : String) : ResultNode :=
  ((new NodeKind.dimension.name).withField "value" (.ofFloat size)).withField "unit" (.string unit)

def keyword (text : String) : ResultNode :=
  (new NodeKind.keyword.name).withField "value" (.string text)

def boolean (value : Bool) : ResultNode := (new "Boolean").withField "value" (.bool value)

def kind? (node : ResultNode) : Option NodeKind := NodeKind.ofName? node.typeName

def isNull (node : ResultNode) : Bool := node.kind? == some .null

def field? (key : String) (node : ResultNode) : Option Json := Members.get? key node.fields

def value? (node : ResultNode) : Option Json := node.field? "value"

def slot? (name : String) (node : ResultNode) : Option ChildSlot :=
  (node.slots.find? fun slot => slot.1 == name).map Prod.snd

def children (node : ResultNode) : List ResultNode := node.slots.flatMap fun slot => slot.2.nodes

def toFloat? (node : ResultNode) : Option Binary64 := node.value?.bind Json.toFloat?

def toString? (node : ResultNode) : Option String := node.value?.bind Json.toString?

def isTyped : Json → Bool
  | .object members => Members.contains typeKey members
  | _ => false

-- Where an empty list stands for no children and not for a scalar.
def isChildField (typeName key : String) : Bool :=
  match NodeKind.ofName? typeName with
  | some .ruleset => key == "selectors" || key == "rules"
  | some .selector => key == "elements"
  | some .value => key == "value"
  | some .expression => key == "value"
  | some .arguments => key == "value"
  | some .call => key == "args"
  | some .operation => key == "operands"
  | _ => key == "children"

inductive MemberRole where
  | typeTag
  | child
  | children
  | field
deriving DecidableEq

def memberRole (typeName key : String) (value : Json) : MemberRole :=
  if key = typeKey then .typeTag
  else
    match value with
    | .object _ => if isTyped value then .child else .field
    | .array [] => if isChildField typeName key then .children else .field
    | .array items => if items.all isTyped then .children else .field
    | _ => .field

mutual

-- Reads the structural form, an object with a type name; a plain value becomes the node
-- that is closest to it.
def ofJson : Json → ResultNode
  | .null => null
  | .bool b => boolean b
  | .number n => dimension n.toFloat ""
  | .string s => (new NodeKind.anonymous.name).withField "value" (.string s)
  | .array items => .mk NodeKind.value.name [] [("value", .many (allOfJson items))]
  | .object members =>
    match (Members.get? typeKey members).bind Json.toString? with
    | none => .mk "Object" members []
    | some name => .mk name (fieldsOf name members) (slotsOf name members)

def allOfJson : List Json → List ResultNode
  | [] => []
  | item :: rest => ofJson item :: allOfJson rest

def slotsOf (typeName : String) : List (String × Json) → List (String × ChildSlot)
  | [] => []
  | (key, value) :: rest =>
    match memberRole typeName key value with
    | .child => (key, .one (ofJson value)) :: slotsOf typeName rest
    | .children =>
      match value with
      | .array items => (key, .many (allOfJson items)) :: slotsOf typeName rest
      | _ => slotsOf typeName rest
    | _ => slotsOf typeName rest

def fieldsOf (typeName : String) : List (String × Json) → Members Json
  | [] => []
  | (key, value) :: rest =>
    match memberRole typeName key value with
    | .field => (key, value) :: fieldsOf typeName rest
    | _ => fieldsOf typeName rest

end

mutual

def toJson : ResultNode → Json
  | .mk name fields slots =>
    .ofEntries ((typeKey, .string name) :: fields ++ slotsToJson slots)

def slotsToJson : List (String × ChildSlot) → List (String × Json)
  | [] => []
  | (key, slot) :: rest => (key, slotToJson slot) :: slotsToJson rest

def slotToJson : ChildSlot → Json
  | .one node => node.toJson
  | .many nodes => .array (allToJson nodes)

def allToJson : List ResultNode → List Json
  | [] => []
  | node :: rest => node.toJson :: allToJson rest

end

def fieldsOfProperties (properties : List (String × Property)) : Members Json :=
  Members.ofList (properties.map fun entry => (entry.1, entry.2.toJson))

def markParens (flags : NodeFlags) (fields : Members Json) : Members Json :=
  if flags.contains .parens then Members.insert "parens" (.bool true) fields else fields

def selectorCountKey : String := "selectorCount"

mutual

def ofNode : Node → ResultNode
  | .mk info body =>
    let properties := body.properties ++ Node.infoProperties info
    let fields := Members.erase selectorCountKey (fieldsOfProperties properties)
    .mk body.typeName (markParens info.flags fields) (slotsOfBody body)

def slotsOfBody : NodeBody → List (String × ChildSlot)
  | .ruleset selectors rules =>
    [("selectors", .many (ofNodes selectors)), ("rules", .many (ofNodes rules))]
  | .selector elements => [("elements", .many (ofNodes elements))]
  | .declaration _ content _ => [("value", .one (ofNode content))]
  | .paren content => [("value", .one (ofNode content))]
  | .url content => [("value", .one (ofNode content))]
  | .value items => [("value", .many (ofNodes items))]
  | .expression items => [("value", .many (ofNodes items))]
  | .arguments items => [("value", .many (ofNodes items))]
  | .call _ args => [("args", .many (ofNodes args))]
  | .operation _ operands => [("operands", .many (ofNodes operands))]
  | .extension _ _ children => [("children", .many (ofNodes children))]
  | _ => []

def ofNodes : List Node → List ResultNode
  | [] => []
  | node :: rest => ofNode node :: ofNodes rest

end

def slotsByKind (slot : NodeSlot) (children : List ResultNode) : List (String × ChildSlot) :=
  match slot.kind? with
  | some .ruleset =>
    let count := ((Members.get? selectorCountKey slot.properties).bind Property.toFloat?).elim 0
      fun x => (x.clampToRange 0 0xFFFFFFFFFFFFFFFF).toNat
    [("selectors", .many (children.take count)), ("rules", .many (children.drop count))]
  | some .declaration => (children.take 1).map fun child => ("value", .one child)
  | some .paren => (children.take 1).map fun child => ("value", .one child)
  | some .url => (children.take 1).map fun child => ("value", .one child)
  | some .value => [("value", .many children)]
  | some .expression => [("value", .many children)]
  | some .arguments => [("value", .many children)]
  | some .selector => [("elements", .many children)]
  | some .call => [("args", .many children)]
  | some .operation => [("operands", .many children)]
  | _ => if children.isEmpty then [] else [("children", .many children)]

mutual

def ofFlat : FlatNode → ResultNode
  | .mk slot _ children =>
    let fields := markParens slot.flags (fieldsOfProperties slot.properties)
    let fields :=
      if slot.kind? = some .ruleset then Members.erase selectorCountKey fields else fields
    .mk slot.typeName fields (slotsByKind slot (ofFlats children))

def ofFlats : List FlatNode → List ResultNode
  | [] => []
  | node :: rest => ofFlat node :: ofFlats rest

end

mutual

def ofWire : WireValue → ResultNode
  | .null => null
  | .dimension size unit => dimension size unit
  | .number size => dimension size ""
  | .color rgb alpha =>
    ((new NodeKind.color.name).withField "rgb" (.array (rgb.toList.map .ofFloat))).withField "alpha"
      (.ofFloat (alpha.getD .one))
  | .quoted quote escaped text =>
    (((new NodeKind.quoted.name).withField "quote" (.string (quoteChar quote).toString)).withField
      "escaped" (.bool escaped)).withField "value" (.string text)
  | .keyword text => keyword text
  | .expression items => .mk NodeKind.expression.name [] [("value", .many (ofWires items))]
  | .boolean value => boolean value

def ofWires : List WireValue → List ResultNode
  | [] => []
  | item :: rest => ofWire item :: ofWires rest

end

mutual

def equals : ResultNode → ResultNode → Bool
  | .mk n f s, .mk m g t => n == m && Json.membersEqual f g && slotsEqual s t

def slotsEqual : List (String × ChildSlot) → List (String × ChildSlot) → Bool
  | [], [] => true
  | (j, a) :: as, (k, b) :: bs => j == k && slotEqual a b && slotsEqual as bs
  | _, _ => false

def slotEqual : ChildSlot → ChildSlot → Bool
  | .one a, .one b => a.equals b
  | .many as, .many bs => nodesEqual as bs
  | _, _ => false

def nodesEqual : List ResultNode → List ResultNode → Bool
  | [], [] => true
  | a :: as, b :: bs => a.equals b && nodesEqual as bs
  | _, _ => false

end

end ResultNode
end PluginBridge
