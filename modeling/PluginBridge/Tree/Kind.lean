namespace PluginBridge

-- The node kinds that need no registration. Their order fixes their type ids.
inductive NodeKind where
  | null
  | ruleset
  | selector
  | element
  | declaration
  | value
  | expression
  | dimension
  | color
  | quoted
  | keyword
  | anonymous
  | call
  | variable
  | operation
  | paren
  | url
  | comment
  | arguments
deriving DecidableEq, Repr

namespace NodeKind

def all : List NodeKind :=
  [.null, .ruleset, .selector, .element, .declaration, .value, .expression, .dimension, .color,
    .quoted, .keyword, .anonymous, .call, .variable, .operation, .paren, .url, .comment, .arguments]

def name : NodeKind → String
  | .null => "Null"
  | .ruleset => "Ruleset"
  | .selector => "Selector"
  | .element => "Element"
  | .declaration => "Declaration"
  | .value => "Value"
  | .expression => "Expression"
  | .dimension => "Dimension"
  | .color => "Color"
  | .quoted => "Quoted"
  | .keyword => "Keyword"
  | .anonymous => "Anonymous"
  | .call => "Call"
  | .variable => "Variable"
  | .operation => "Operation"
  | .paren => "Paren"
  | .url => "Url"
  | .comment => "Comment"
  | .arguments => "Arguments"

def id : NodeKind → UInt16
  | .null => 0
  | .ruleset => 1
  | .selector => 2
  | .element => 3
  | .declaration => 4
  | .value => 5
  | .expression => 6
  | .dimension => 7
  | .color => 8
  | .quoted => 9
  | .keyword => 10
  | .anonymous => 11
  | .call => 12
  | .variable => 13
  | .operation => 14
  | .paren => 15
  | .url => 16
  | .comment => 17
  | .arguments => 18

def ofId? (id : UInt16) : Option NodeKind := all.find? (·.id == id)

def ofName? (name : String) : Option NodeKind := all.find? (·.name == name)

end NodeKind
end PluginBridge
