import PluginBridge.Wire.Value
namespace PluginBridge

structure PreloadedVariable where
  name : String
  important : Bool
  value : WireValue
deriving Inhabited, Repr

namespace PreloadedVariable

def encode (var : PreloadedVariable) : Except CodecError ByteArray := do
  return (← Bytes.text var.name) ++ Bytes.flag var.important ++ (← var.value.encode)

def decode (data : ByteArray) : Reader ProtocolError PreloadedVariable := do
  let name ← WireValue.codec (Cursor.text data "variable name")
  let important ← WireValue.codec (Cursor.u8 data)
  let value ← WireValue.decode data
  return ⟨name, important != 0, value⟩

def equals (a b : PreloadedVariable) : Bool :=
  a.name == b.name && a.important == b.important && a.value.equals b.value

end PreloadedVariable

namespace Preload

def encode (vars : List PreloadedVariable) : Except CodecError ByteArray := do
  let count ← Bytes.word32? vars.length
  let entries ← vars.mapM PreloadedVariable.encode
  return Bytes.concat (Bytes.u32 count :: entries)

def readAll (data : ByteArray) : Reader ProtocolError (List PreloadedVariable) := do
  let count ← WireValue.codec (Cursor.u32 data)
  if data.size < count.toNat then throw (.malformed (.entryCount count))
  Cursor.many (PreloadedVariable.decode data) count.toNat []

def decode (data : ByteArray) : Except ProtocolError (List PreloadedVariable) :=
  Cursor.run (readAll data) 0

def equals : List PreloadedVariable → List PreloadedVariable → Bool
  | [], [] => true
  | a :: as, b :: bs => a.equals b && equals as bs
  | _, _ => false

end Preload
end PluginBridge
