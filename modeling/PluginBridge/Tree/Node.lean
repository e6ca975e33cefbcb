import PluginBridge.Tree.Flags
import PluginBridge.Tree.Kind
import PluginBridge.Tree.Property
namespace PluginBridge

structure Rgb where
  red : Binary64
  green : Binary64
  blue : Binary64
deriving DecidableEq, Inhabited, Repr

def Rgb.toList (rgb : Rgb) : List Binary64 := [rgb.red, rgb.green, rgb.blue]

def Rgb.equals (a b : Rgb) : Bool :=
  a.red.equals b.red && a.green.equals b.green && a.blue.equals b.blue

structure NodeInfo where
  flags : NodeFlags
  file : Option String
  index : Option UInt32
deriving DecidableEq, Inhabited, Repr

def NodeInfo.plain : NodeInfo := ⟨.none, none, none⟩

mutual

inductive Node where
  | mk (info : NodeInfo) (body : NodeBody)

inductive NodeBody where
  | null
  | ruleset (selectors rules : List Node)
  | selector (elements : List Node)
  | element (combinator value : String)
  | declaration (name : String) (value : Node) (important : Bool)
  | value (items : List Node)
  | expression (items : List Node)
  | dimension (value : Binary64) (unit : String)
  | color (rgb : Rgb) (alpha : Binary64) (spelling : Option String)
  | quoted (quote : Char) (value : String) (escaped : Bool)
  | keyword (value : String)
  | anonymous (value : String)
  | call (name : String) (args : List Node)
  | variable (name : String)
  | operation (operator : String) (operands : List Node)
  | paren (value : Node)
  | url (value : Node)
  | comment (value : String) (line : Bool)
  | arguments (items : List Node)
  -- A kind of the host's own, known by its registered name.
  | extension (typeName : String) (properties : Properties) (children : List Node)

end

inductive ChildGroup where
  | one (node : Node)
  | many (nodes : List Node)

def ChildGroup.nodes : ChildGroup → List Node
  | .one node => [node]
  | .many nodes => nodes

namespace NodeBody

def kind? : NodeBody → Option NodeKind
  | .null => some .null
  | .ruleset .. => some .ruleset
  | .selector .. => some .selector
  | .element .. => some .element
  | .declaration .. => some .declaration
  | .value .. => some .value
  | .expression .. => some .expression
  | .dimension .. => some .dimension
  | .color .. => some .color
  | .quoted .. => some .quoted
  | .keyword .. => some .keyword
  | .anonymous .. => some .anonymous
  | .call .. => some .call
  | .variable .. => some .variable
  | .operation .. => some .operation
  | .paren .. => some .paren
  | .url .. => some .url
  | .comment .. => some .comment
  | .arguments .. => some .arguments
  | .extension .. => none

def typeName (body : NodeBody) : String :=
  match body with
  | .extension name _ _ => name
  | _ => (body.kind?.map NodeKind.name).getD ""

def childFields : NodeBody → List (String × ChildGroup)
  | .ruleset selectors rules => [("selectors", .many selectors), ("rules", .many rules)]
  | .selector elements => [("elements", .many elements)]
  | .declaration _ content _ => [("value", .one content)]
  | .paren content => [("value", .one content)]
  | .url content => [("value", .one content)]
  | .value items => [("value", .many items)]
  | .expression items => [("value", .many items)]
  | .arguments items => [("value", .many items)]
  | .call _ args => [("args", .many args)]
  | .operation _ operands => [("operands", .many operands)]
  | .extension _ _ children => [("children", .many children)]
  | _ => []

def children (body : NodeBody) : List Node := body.childFields.flatMap fun field => field.2.nodes

-- The scalar fields in their order. The two lists of a ruleset become one list of
-- children, so a count tells where the second begins.
def properties : NodeBody → List (String × Property)
  | .ruleset selectors _ => [("selectorCount", .number (.ofNat selectors.length))]
  | .element combinator text => [("combinator", .string combinator), ("value", .string text)]
  | .declaration name _ important => [("name", .string name), ("important", .bool important)]
  | .dimension size unit => [("value", .number size), ("unit", .string unit)]
  | .color rgb alpha spelling =>
    ("rgb", .list (rgb.toList.map .number)) :: ("alpha", .number alpha) ::
      (spelling.toList.map fun text => ("original", .string text))
  | .quoted quote text escaped =>
    [("quote", .string quote.toString), ("value", .string text), ("escaped", .bool escaped)]
  | .keyword text => [("value", .string text)]
  | .anonymous text => [("value", .string text)]
  | .call name _ => [("name", .string name)]
  | .variable name => [("name", .string name)]
  | .operation operator _ => [("op", .string operator)]
  | .comment text line => [("value", .string text), ("isLineComment", .bool line)]
  | .extension _ properties _ => properties
  | _ => []

end NodeBody

namespace Node

def info : Node → NodeInfo
  | .mk info _ => info

def body : Node → NodeBody
  | .mk _ body => body

def plain (body : NodeBody) : Node := .mk .plain body

def null : Node := plain .null

instance : Inhabited Node := ⟨null⟩

def kind? (node : Node) : Option NodeKind := node.body.kind?

def typeName (node : Node) : String := node.body.typeName

def children (node : Node) : List Node := node.body.children

def withFlags (flags : NodeFlags) (node : Node) : Node :=
  .mk { node.info with flags := flags } node.body

def withParens (node : Node) : Node := node.withFlags (node.info.flags.union .parens)

def withVisibility (shown : Bool) (node : Node) : Node :=
  node.withFlags (node.info.flags.withVisibility shown)

def recordFlags (info : NodeInfo) : NodeFlags :=
  let own := info.flags.inter .own
  let own := if info.file.isSome then own.union .fileInfo else own
  if info.index.isSome then own.union .explicitIndex else own

def infoProperties (info : NodeInfo) : List (String × Property) :=
  (info.file.toList.map fun file => ("filename", .string file)) ++
    info.index.toList.map fun index => ("index", .number (.ofNat index.toNat))

def properties (node : Node) : List (String × Property) :=
  node.body.properties ++ infoProperties node.info

end Node

mutual

def Node.equals : Node → Node → Bool
  | .mk i a, .mk j b => i == j && a.equals b

def NodeBody.equals : NodeBody → NodeBody → Bool
  | .null, .null => true
  | .ruleset s r, .ruleset t q => nodesEqual s t && nodesEqual r q
  | .selector e, .selector f => nodesEqual e f
  | .element c v, .element d w => c == d && v == w
  | .declaration n v i, .declaration m w j => n == m && v.equals w && i == j
  | .value a, .value b => nodesEqual a b
  | .expression a, .expression b => nodesEqual a b
  | .dimension x u, .dimension y v => x.equals y && u == v
  | .color r a o, .color s b p => r.equals s && a.equals b && o == p
  | .quoted q v e, .quoted r w f => q == r && v == w && e == f
  | .keyword v, .keyword w => v == w
  | .anonymous v, .anonymous w => v == w
  | .call n a, .call m b => n == m && nodesEqual a b
  | .variable n, .variable m => n == m
  | .operation o a, .operation p b => o == p && nodesEqual a b
  | .paren v, .paren w => v.equals w
  | .url v, .url w => v.equals w
  | .comment v l, .comment w k => v == w && l == k
  | .arguments a, .arguments b => nodesEqual a b
  | .extension n p a, .extension m q b => n == m && Properties.equals p q && nodesEqual a b
  | _, _ => false

def nodesEqual : List Node → List Node → Bool
  | [], [] => true
  | a :: as, b :: bs => a.equals b && nodesEqual as bs
  | _, _ => false

end

end PluginBridge
