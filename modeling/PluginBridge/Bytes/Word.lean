import PluginBridge.Numeric.Binary64
namespace PluginBridge

def littleEndian : Nat → Nat → List UInt8
  | 0, _ => []
  | width + 1, n => UInt8.ofNat (n % 256) :: littleEndian width (n / 256)

def ofLittleEndian : List UInt8 → Nat
  | [] => 0
  | b :: rest => b.toNat + 256 * ofLittleEndian rest

namespace Bytes

def ofList (bytes : List UInt8) : ByteArray := bytes.toByteArray

def toList (bytes : ByteArray) : List UInt8 := bytes.data.toList

def number (bytes : ByteArray) : Nat := ofLittleEndian (toList bytes)

def u8 (n : UInt8) : ByteArray := ofList [n]

def flag (b : Bool) : ByteArray := u8 (if b then 1 else 0)

def u16 (n : UInt16) : ByteArray := ofList (littleEndian 2 n.toNat)

def u32 (n : UInt32) : ByteArray := ofList (littleEndian 4 n.toNat)

def f64 (x : Binary64) : ByteArray := ofList (littleEndian 8 x.bits.toNat)

def concat (parts : List ByteArray) : ByteArray := parts.foldl (· ++ ·) ByteArray.empty

end Bytes
end PluginBridge
