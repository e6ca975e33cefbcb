import PluginBridge.Listing.Basic
import PluginBridge.Tree.Node
namespace PluginBridge

mutual

def Property.listing : Property → Json
  | .null => .null
  | .bool b => .bool b
  | .number x => .ofEntries [("n", Listed.listing x)]
  | .string s => .string s
  | .list items => .array (listingsOfProperties items)

def listingsOfProperties : List Property → List Json
  | [] => []
  | item :: rest => item.listing :: listingsOfProperties rest

end

instance : Listed Property := ⟨Property.listing⟩

def Properties.listing (properties : Properties) : Json :=
  .object (properties.map fun entry => (entry.1, entry.2.listing))

instance : Listed Rgb := ⟨fun rgb => Listed.listing rgb.toList⟩

def NodeInfo.entries (info : NodeInfo) : List (String × Json) :=
  (if info.flags = .none then [] else [("flags", Listed.listing info.flags.bits)]) ++
    (info.file.toList.map fun file => ("file", Listed.listing file)) ++
    info.index.toList.map fun index => ("index", Listed.listing index)

mutual

def Node.listing : Node → Json
  | .mk info body =>
    let kind := (body.kind?.map NodeKind.name).getD "Extension"
    .ofEntries (("k", .string kind) :: body.entries ++ info.entries)

def NodeBody.entries : NodeBody → List (String × Json)
  | .null => []
  | .ruleset selectors rules =>
    [("selectors", .array (listingsOfNodes selectors)), ("rules", .array (listingsOfNodes rules))]
  | .selector items => [("items", .array (listingsOfNodes items))]
  | .element combinator text => [("combinator", .string combinator), ("value", .string text)]
  | .declaration name content important =>
    [("name", .string name), ("value", content.listing), ("important", .bool important)]
  | .value items => [("items", .array (listingsOfNodes items))]
  | .expression items => [("items", .array (listingsOfNodes items))]
  | .dimension size unit => [("value", listing size), ("unit", .string unit)]
  | .color rgb alpha spelling =>
    [("rgb", listing rgb), ("alpha", listing alpha), ("original", listing spelling)]
  | .quoted quote text escaped =>
    [("quote", .string quote.toString), ("value", .string text), ("escaped", .bool escaped)]
  | .keyword text => [("value", .string text)]
  | .anonymous text => [("value", .string text)]
  | .call name args => [("name", .string name), ("items", .array (listingsOfNodes args))]
  | .variable name => [("name", .string name)]
  | .operation operator operands =>
    [("oper", .string operator), ("items", .array (listingsOfNodes operands))]
  | .paren content => [("value", content.listing)]
  | .url content => [("value", content.listing)]
  | .comment text line => [("value", .string text), ("line", .bool line)]
  | .arguments items => [("items", .array (listingsOfNodes items))]
  | .extension typeName properties children =>
    [("type", .string typeName), ("props", properties.listing),
      ("items", .array (listingsOfNodes children))]

def listingsOfNodes : List Node → List Json
  | [] => []
  | node :: rest => node.listing :: listingsOfNodes rest

end

instance : Listed Node := ⟨Node.listing⟩

end PluginBridge
