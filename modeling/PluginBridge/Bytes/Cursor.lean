import PluginBridge.Bytes.Word
import PluginBridge.Codec
namespace PluginBridge

-- A reader of `data` from the cursor, a byte offset. The cursor after a failure is part
-- of the answer.
abbrev Reader (ε α : Type) := EStateM ε Nat α

namespace Cursor

def bytes (data : ByteArray) (length : Nat) : Reader CodecError ByteArray := fun offset =>
  if offset + length ≤ data.size then .ok (data.extract offset (offset + length)) (offset + length)
  else .error (.bufferTooSmall (saturatingAdd offset length) data.size) offset

def u8 (data : ByteArray) : Reader CodecError UInt8 := do
  return UInt8.ofNat (Bytes.number (← bytes data 1))

def u16 (data : ByteArray) : Reader CodecError UInt16 := do
  return UInt16.ofNat (Bytes.number (← bytes data 2))

def u32 (data : ByteArray) : Reader CodecError UInt32 := do
  return UInt32.ofNat (Bytes.number (← bytes data 4))

def f64 (data : ByteArray) : Reader CodecError Binary64 := do
  return ⟨UInt64.ofNat (Bytes.number (← bytes data 8))⟩

-- A text after its 32-bit length. When the data ends early the cursor stays before the
-- length; when the bytes are there but are no UTF-8 it stands behind them.
def text (data : ByteArray) (place : String) : Reader CodecError String := fun start =>
  match u32 data start with
  | .error e offset => .error e offset
  | .ok length offset =>
    match bytes data length.toNat offset with
    | .error e _ => .error e start
    | .ok encoded offset =>
      match String.fromUTF8? encoded with
      | some s => .ok s offset
      | none => .error (.invalidUtf8 place) offset

def many {ε α : Type} (item : Reader ε α) : Nat → List α → Reader ε (List α)
  | 0, read, offset => .ok read.reverse offset
  | count + 1, read, offset =>
    match item offset with
    | .ok a offset => many item count (a :: read) offset
    | .error e offset => .error e offset

def run {ε α : Type} (reader : Reader ε α) (offset : Nat) : Except ε α :=
  match reader offset with
  | .ok a _ => .ok a
  | .error e _ => .error e

def widen {ε ε' α : Type} (f : ε → ε') (reader : Reader ε α) : Reader ε' α := fun offset =>
  match reader offset with
  | .ok a after => .ok a after
  | .error e after => .error (f e) after

end Cursor

namespace Bytes

def word32? (n : Nat) : Except CodecError UInt32 :=
  if n < 0x100000000 then .ok (UInt32.ofNat n) else .error .tooLarge

def text (s : String) : Except CodecError ByteArray := do
  return u32 (← word32? s.utf8ByteSize) ++ s.toUTF8

end Bytes
end PluginBridge
