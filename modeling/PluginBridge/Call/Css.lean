import PluginBridge.Call.Rebuild
namespace PluginBridge.ResultNode

def lowerHexByte (n : Nat) : String := String.ofList (hexDigits 2 n)

def channel (x : Binary64) : Nat := (max 0 (min 255 (x.round?.getD 0))).toNat

-- An opaque color is written in its own spelling, if that is known, or by six hex
-- digits; any other by its components and its alpha.
def colorCss (node : ResultNode) : String :=
  let alpha := (node.floatField? "alpha").getD .one
  let rgb := node.rgb
  if alpha.lt .one then
    s!"rgba({channel rgb.red}, {channel rgb.green}, {channel rgb.blue}, {numberText alpha})"
  else
    match (node.field? "original").bind Json.toString? with
    | some spelling => spelling
    | none =>
      "#" ++ lowerHexByte (channel rgb.red) ++ lowerHexByte (channel rgb.green) ++
        lowerHexByte (channel rgb.blue)

abbrev CssSlots := List (String × List String)

def joined (field separator : String) (slots : CssSlots) : String :=
  separator.intercalate (((slots.find? fun slot => slot.1 == field).map Prod.snd).getD [])

def cssOf (node : ResultNode) (slots : CssSlots) : String :=
  match node.kind? with
  | some .null => ""
  | some .dimension => numberText (node.toFloat?.getD .zero) ++ node.stringField "unit"
  | some .color => node.colorCss
  | some .quoted =>
    if node.boolField "escaped" then node.stringField "value"
    else
      let quote := node.stringField "quote"
      let quote := if quote = "" then "\"" else quote
      quote ++ node.stringField "value" ++ quote
  | some .keyword => node.scalarText
  | some .anonymous => node.scalarText
  | some .comment => node.scalarText
  | some .element => node.scalarText
  | some .variable => node.stringField "name"
  | some .expression => joined "value" " " slots
  | some .value => joined "value" ", " slots
  | some .arguments => joined "value" ", " slots
  | some .selector => joined "elements" "" slots
  | some .call => node.stringField "name" ++ "(" ++ joined "args" ", " slots ++ ")"
  | some .paren => "(" ++ joined "value" "" slots ++ ")"
  | some .url => "url(" ++ joined "value" "" slots ++ ")"
  | some .operation => joined "operands" (" " ++ node.stringField "op" ++ " ") slots
  | some .declaration =>
    let important := if node.boolField "important" then " !important" else ""
    node.stringField "name" ++ ": " ++ joined "value" "" slots ++ important
  | some .ruleset =>
    let rules := ((slots.find? fun slot => slot.1 == "rules").map Prod.snd).getD []
    joined "selectors" ", " slots ++ " \x7b " ++ " ".intercalate (rules.map (· ++ ";")) ++ " \x7d"
  | none =>
    match node.value? with
    | some value => scalarTextOf value
    | none => " ".intercalate (slots.flatMap Prod.snd)

mutual

def css : ResultNode → String
  | .mk name fields slots =>
    let node : ResultNode := .mk name fields slots
    let text := cssOf node (slotsCss slots)
    if node.boolField "parens" && node.kind? != some .paren then "(" ++ text ++ ")" else text

def slotsCss : List (String × ChildSlot) → CssSlots
  | [] => []
  | (key, slot) :: rest => (key, slotCss slot) :: slotsCss rest

def slotCss : ChildSlot → List String
  | .one node => [node.css]
  | .many nodes => allCss nodes

def allCss : List ResultNode → List String
  | [] => []
  | node :: rest => node.css :: allCss rest

end

end PluginBridge.ResultNode
