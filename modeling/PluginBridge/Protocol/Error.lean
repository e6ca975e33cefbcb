import PluginBridge.Codec
import PluginBridge.Region.Error
import PluginBridge.Text.Duration
namespace PluginBridge

inductive Section where
  | preload
  | arguments
  | argument
  | result
  | error
deriving DecidableEq, Repr

def Section.name : Section → String
  | .preload => "preload"
  | .arguments => "arguments"
  | .argument => "argument"
  | .result => "result"
  | .error => "error"

inductive Malformation where
  | nestingTooDeep
  | colorComponents (count : UInt8)
  | itemCount (count : UInt32)
  | entryCount (count : UInt32)
  | range (part : Section) (offset length start size : Nat)
deriving DecidableEq, Repr

def Malformation.message : Malformation → String
  | .nestingTooDeep => "expression nesting too deep"
  | .colorComponents count => s!"color with {count} components"
  | .itemCount count => s!"expression claims {count} items"
  | .entryCount count => s!"preload claims {count} entries"
  | .range part offset length start size =>
    s!"{part.name} range {offset}+{length} outside {start}+{size}"

inductive ProtocolError where
  | region (error : RegionError)
  | codec (error : CodecError)
  | unknownTag (tag : UInt8)
  | malformed (reason : Malformation)
  | tooManyArguments (count max : Nat)
  | argumentIndex (index count : Nat)
  | sectionFull (part : Section) (needed available : Nat)
  | inconsistentLayout
  | timeout (waited : Duration)
  | peer (text : String)
deriving DecidableEq, Repr

def ProtocolError.message : ProtocolError → String
  | .region e => e.message
  | .codec e => e.message
  | .unknownTag tag => s!"Unknown value tag {tag}"
  | .malformed reason => s!"Malformed protocol data: {reason.message}"
  | .tooManyArguments count max => s!"Too many arguments: {count} (maximum {max})"
  | .argumentIndex index count =>
    s!"Argument index {index} out of range for a call with {count} arguments"
  | .sectionFull part needed available =>
    s!"The {part.name} section is full: {needed} bytes needed, {available} available"
  | .inconsistentLayout => "Inconsistent protocol layout"
  | .timeout waited => s!"No response from peer within {waited.text}"
  | .peer text => s!"Peer error: {text}"

end PluginBridge
