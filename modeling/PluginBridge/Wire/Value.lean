import PluginBridge.Bytes.Cursor
import PluginBridge.Protocol.Error
import PluginBridge.Tree.Node
namespace PluginBridge

inductive WireValue where
  | null
  | dimension (size : Binary64) (unit : String)
  | color (rgb : Rgb) (alpha : Option Binary64)
  | quoted (quote : UInt8) (escaped : Bool) (text : String)
  | keyword (text : String)
  | expression (items : List WireValue)
  | number (size : Binary64)
  | boolean (value : Bool)
deriving Inhabited, Repr

namespace WireValue

def maxDepth : Nat := 64

mutual

-- A tag byte and what it calls for: numbers as 8 bytes, texts behind their length, the
-- items of an expression behind their count.
def encode : WireValue → Except CodecError ByteArray
  | .null => .ok (Bytes.u8 0)
  | .dimension size unit => do return Bytes.u8 1 ++ Bytes.f64 size ++ (← Bytes.text unit)
  | .color rgb alpha =>
    let components := rgb.toList ++ alpha.toList
    .ok (Bytes.concat (Bytes.u8 2 :: Bytes.u8 (UInt8.ofNat components.length) ::
      components.map Bytes.f64))
  | .quoted quote escaped text => do
    return Bytes.u8 3 ++ Bytes.u8 quote ++ Bytes.flag escaped ++ (← Bytes.text text)
  | .keyword text => do return Bytes.u8 4 ++ (← Bytes.text text)
  | .expression items => do
    let count ← Bytes.word32? items.length
    return Bytes.u8 5 ++ Bytes.u32 count ++ (← encodeAll items)
  | .number size => .ok (Bytes.u8 6 ++ Bytes.f64 size)
  | .boolean value => .ok (Bytes.u8 7 ++ Bytes.flag value)

def encodeAll : List WireValue → Except CodecError ByteArray
  | [] => .ok .empty
  | item :: rest => do
    let first ← item.encode
    return first ++ (← encodeAll rest)

end

def codec {α : Type} (reader : Reader CodecError α) : Reader ProtocolError α :=
  Cursor.widen .codec reader

def decodeWithin (data : ByteArray) : Nat → Reader ProtocolError WireValue
  | 0 => throw (.malformed .nestingTooDeep)
  | levels + 1 => do
    let tag ← codec (Cursor.u8 data)
    match tag with
    | 0 => return .null
    | 1 =>
      let size ← codec (Cursor.f64 data)
      let unit ← codec (Cursor.text data "dimension unit")
      return .dimension size unit
    | 2 =>
      let count ← codec (Cursor.u8 data)
      if count ≠ 3 ∧ count ≠ 4 then throw (.malformed (.colorComponents count))
      let red ← codec (Cursor.f64 data)
      let green ← codec (Cursor.f64 data)
      let blue ← codec (Cursor.f64 data)
      let alpha ← if count = 4 then some <$> codec (Cursor.f64 data) else pure none
      return .color ⟨red, green, blue⟩ alpha
    | 3 =>
      let quote ← codec (Cursor.u8 data)
      let escaped ← codec (Cursor.u8 data)
      let text ← codec (Cursor.text data "quoted value")
      return .quoted quote (escaped != 0) text
    | 4 => return .keyword (← codec (Cursor.text data "keyword"))
    | 5 =>
      let count ← codec (Cursor.u32 data)
      let offset ← get
      -- Each item takes at least its tag.
      if data.size - offset < count.toNat then throw (.malformed (.itemCount count))
      return .expression (← Cursor.many (decodeWithin data levels) count.toNat [])
    | 6 => return .number (← codec (Cursor.f64 data))
    | 7 => return .boolean ((← codec (Cursor.u8 data)) != 0)
    | tag => throw (.unknownTag tag)

def decode (data : ByteArray) : Reader ProtocolError WireValue := decodeWithin data (maxDepth + 1)

def ofBytes (data : ByteArray) : Except ProtocolError WireValue := Cursor.run (decode data) 0

mutual

def equals : WireValue → WireValue → Bool
  | .null, .null => true
  | .dimension x u, .dimension y v => x.equals y && u == v
  | .color r none, .color s none => r.equals s
  | .color r (some a), .color s (some b) => r.equals s && a.equals b
  | .quoted q e t, .quoted r f u => q == r && e == f && t == u
  | .keyword t, .keyword u => t == u
  | .expression as, .expression bs => allEqual as bs
  | .number x, .number y => x.equals y
  | .boolean a, .boolean b => a == b
  | _, _ => false

def allEqual : List WireValue → List WireValue → Bool
  | [], [] => true
  | a :: as, b :: bs => a.equals b && allEqual as bs
  | _, _ => false

end

end WireValue
end PluginBridge
