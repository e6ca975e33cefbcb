import PluginBridge.Bytes.Word
import PluginBridge.Numeric.Hexadecimal
namespace PluginBridge.Bytes

def toHex (bytes : ByteArray) : String :=
  String.ofList ((toList bytes).flatMap fun b => hexDigits 2 b.toNat)

def ofHexPairs : List Char → List UInt8
  | a :: b :: rest => UInt8.ofNat (ofHexDigits [a, b]) :: ofHexPairs rest
  | _ => []

def ofHex (digits : String) : ByteArray := ofList (ofHexPairs digits.toList)

def digest (bytes : ByteArray) : UInt64 :=
  bytes.foldl (fun h b => (h ^^^ b.toUInt64) * 0x100000001b3) 0xcbf29ce484222325

end PluginBridge.Bytes
