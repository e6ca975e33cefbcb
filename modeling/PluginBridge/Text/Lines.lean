import PluginBridge.Bytes.Word
namespace PluginBridge

-- A line of a byte stream; one that is no UTF-8 is garbled.
inductive StreamLine where
  | text (line : String)
  | garbled
deriving DecidableEq, Inhabited, Repr

namespace StreamLine

def ofBytes (bytes : List UInt8) : StreamLine :=
  match String.fromUTF8? (Bytes.ofList bytes) with
  | some line => .text line
  | none => .garbled

def splitFrom (part : List UInt8) : List UInt8 → List StreamLine × List UInt8
  | [] => ([], part.reverse)
  | b :: rest =>
    if b = 10 then
      let (lines, last) := splitFrom [] rest
      (ofBytes part.reverse :: lines, last)
    else splitFrom (b :: part) rest

-- The last line of a stream need not be closed.
def ofRest (rest : List UInt8) : List StreamLine := if rest.isEmpty then [] else [ofBytes rest]

def ofStream (bytes : ByteArray) : List StreamLine :=
  let (lines, rest) := splitFrom [] (Bytes.toList bytes)
  lines ++ ofRest rest

end StreamLine
end PluginBridge
