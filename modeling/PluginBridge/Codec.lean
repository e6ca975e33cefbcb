namespace PluginBridge

inductive LinkField where
  | self
  | child
  | next
  | parent
deriving DecidableEq, Repr

def LinkField.name : LinkField → String
  | .self => "self"
  | .child => "child"
  | .next => "next"
  | .parent => "parent"

inductive CodecError where
  | bufferTooSmall (needed actual : Nat)
  | invalidMagic (found : UInt32)
  | unsupportedVersion (found : UInt32)
  | emptyTree
  | invalidRoot (root nodeCount : UInt32)
  | invalidLink (node : UInt32) (field : LinkField) (target : UInt32)
  | offsetOutOfRange (offset length limit : Nat)
  | unknownNodeType (name : String)
  | unknownTypeId (id : UInt16)
  | stringIndexOutOfRange (index : UInt32)
  | invalidUtf8 (place : String)
  -- Fields that cannot be read, and the place where they nest too deep if that is why.
  | properties (tooDeepAt : Option Nat)
  | tooLarge
  | tooDeep (levels : Nat)
  | typeIdsExhausted (name : String)
deriving DecidableEq, Repr

def upperHex (width n : Nat) : String :=
  let digits := (Nat.toDigits 16 n).map Char.toUpper
  String.ofList (List.replicate (width - digits.length) '0' ++ digits)

def CodecError.message : CodecError → String
  | .bufferTooSmall needed actual => s!"Buffer too small: need {needed} bytes, got {actual}"
  | .invalidMagic found => s!"Invalid magic 0x{upperHex 8 found.toNat}"
  | .unsupportedVersion found => s!"Unsupported FlatAST version {found}"
  | .emptyTree => "Empty AST"
  | .invalidRoot root count => s!"Invalid root index {root} for {count} nodes"
  | .invalidLink node field target => s!"Node {node} has an invalid {field.name} link to {target}"
  | .offsetOutOfRange offset length limit =>
    s!"Offset {offset} with length {length} is out of range ({limit} bytes available)"
  | .unknownNodeType name => "Unknown node type \"" ++ name ++ "\""
  | .unknownTypeId id => s!"Unknown node type id {id}"
  | .stringIndexOutOfRange index => s!"String index {index} is out of range"
  | .invalidUtf8 place => s!"Invalid UTF-8 in {place}"
  | .properties none => "Invalid node properties"
  | .properties (some column) =>
    s!"Invalid node properties: recursion limit exceeded at line 1 column {column}"
  | .tooLarge => "FlatAST section exceeds the 32-bit offset range"
  | .tooDeep levels => s!"Tree nests deeper than {levels} levels"
  | .typeIdsExhausted name => "No type ids left for \"" ++ name ++ "\""

-- One more than the largest offset, length or count a machine word holds.
def wordLimit : Nat := 0x10000000000000000

def saturatingAdd (a b : Nat) : Nat := min (a + b) (wordLimit - 1)

def saturatingMul (a b : Nat) : Nat := min (a * b) (wordLimit - 1)

end PluginBridge
