import PluginBridge.Call.Result
namespace PluginBridge.ResultNode

def stringField (key : String) (node : ResultNode) : String :=
  ((node.field? key).bind Json.toString?).getD ""

def boolField (key : String) (node : ResultNode) : Bool :=
  ((node.field? key).bind Json.toBool?).getD false

def floatField? (key : String) (node : ResultNode) : Option Binary64 :=
  (node.field? key).bind Json.toFloat?

-- A whole number below 1e15 is written without a point, any other with at most eight places.
def numberText (x : Binary64) : String :=
  let small := match x.truncate? with
    | some n => x.isIntegral && n.natAbs < 1000000000000000
    | none => false
  if small then (x.truncate?.getD 0).repr
  else
    let digits := (x.fixedText 8).toList.reverse
    String.ofList (((digits.dropWhile (· == '0')).dropWhile (· == '.')).reverse)

def scalarTextOf : Json → String
  | .string s => s
  | .number n => numberText n.toFloat
  | .null => ""
  | json => json.render

def scalarText (node : ResultNode) : String := (node.value?.map scalarTextOf).getD ""

def rgb (node : ResultNode) : Rgb :=
  let components := ((node.field? "rgb").bind Json.toArray?).getD []
  let component := fun i => ((components[i]?).bind Json.toFloat?).getD .zero
  ⟨component 0, component 1, component 2⟩

abbrev NodeSlots := List (String × List Node)

def nodesIn (field : String) (slots : NodeSlots) : List Node :=
  ((slots.find? fun slot => slot.1 == field).map Prod.snd).getD []

def firstIn (field : String) (slots : NodeSlots) : Node := (nodesIn field slots).headD .null

-- The content of a tree node from the fields of a result and its children, converted
-- already. A type name that is not built in makes an extension.
def bodyOf (node : ResultNode) (slots : NodeSlots) : NodeBody :=
  match node.kind? with
  | some .null => .null
  | some .ruleset => .ruleset (nodesIn "selectors" slots) (nodesIn "rules" slots)
  | some .selector => .selector (nodesIn "elements" slots)
  | some .element => .element (node.stringField "combinator") (node.stringField "value")
  | some .declaration =>
    .declaration (node.stringField "name") (firstIn "value" slots) (node.boolField "important")
  | some .value => .value (nodesIn "value" slots)
  | some .expression => .expression (nodesIn "value" slots)
  | some .arguments => .arguments (nodesIn "value" slots)
  | some .dimension => .dimension (node.toFloat?.getD .zero) (node.stringField "unit")
  | some .color =>
    .color node.rgb ((node.floatField? "alpha").getD .one)
      ((node.field? "original").bind Json.toString?)
  | some .quoted =>
    .quoted ((node.stringField "quote").toList.headD '"') (node.stringField "value")
      (node.boolField "escaped")
  | some .keyword => .keyword node.scalarText
  | some .anonymous => .anonymous node.scalarText
  | some .call => .call (node.stringField "name") (nodesIn "args" slots)
  | some .variable => .variable (node.stringField "name")
  | some .operation => .operation (node.stringField "op") (nodesIn "operands" slots)
  | some .paren => .paren (firstIn "value" slots)
  | some .url => .url (firstIn "value" slots)
  | some .comment => .comment (node.stringField "value") (node.boolField "isLineComment")
  | none =>
    if node.typeName = "Boolean" then .keyword node.scalarText
    else
      let fields := node.fields.filter fun field => field.1 ≠ "parens"
      .extension node.typeName (fields.map fun field => (field.1, Property.ofJson field.2))
        (slots.flatMap Prod.snd)

mutual

def toNode : ResultNode → Node
  | .mk name fields slots =>
    let node := Node.plain (bodyOf (.mk name fields slots) (slotsToNodes slots))
    if boolField "parens" (.mk name fields slots) then node.withParens else node

def slotsToNodes : List (String × ChildSlot) → NodeSlots
  | [] => []
  | (key, slot) :: rest => (key, slotToNodes slot) :: slotsToNodes rest

def slotToNodes : ChildSlot → List Node
  | .one node => [node.toNode]
  | .many nodes => allToNodes nodes

def allToNodes : List ResultNode → List Node
  | [] => []
  | node :: rest => node.toNode :: allToNodes rest

end

end PluginBridge.ResultNode
