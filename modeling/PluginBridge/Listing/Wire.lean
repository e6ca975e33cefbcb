import PluginBridge.Listing.Tree
import PluginBridge.Wire.Preload
namespace PluginBridge

def typed (type : String) (entries : List (String × Json)) : Json :=
  .ofEntries (("t", .string type) :: entries)

mutual

def WireValue.listing : WireValue → Json
  | .null => typed "null" []
  | .dimension size unit => typed "dimension" [("value", Listed.listing size), ("unit", .string unit)]
  | .color rgb alpha => typed "color" [("rgb", Listed.listing rgb), ("alpha", Listed.listing alpha)]
  | .quoted quote escaped text =>
    typed "quoted" [("quote", Listed.listing quote), ("escaped", .bool escaped), ("value", .string text)]
  | .keyword text => typed "keyword" [("value", .string text)]
  | .expression items => typed "expression" [("items", .array (listingsOfValues items))]
  | .number size => typed "number" [("value", Listed.listing size)]
  | .boolean value => typed "boolean" [("value", .bool value)]

def listingsOfValues : List WireValue → List Json
  | [] => []
  | item :: rest => item.listing :: listingsOfValues rest

end

instance : Listed WireValue := ⟨WireValue.listing⟩

instance : Listed PreloadedVariable :=
  ⟨fun var => .ofEntries
    [("name", .string var.name), ("important", .bool var.important), ("value", var.value.listing)]⟩

end PluginBridge
