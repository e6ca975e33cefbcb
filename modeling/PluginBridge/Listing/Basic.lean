import PluginBridge.Bytes.Hex
import PluginBridge.Json.Printer
namespace PluginBridge

-- A value as JSON for someone who looks at it. Nothing is rounded on the way: a double
-- is listed by the digits of its word.
class Listed (α : Type) where
  listing : α → Json

export Listed (listing)

instance : Listed Json := ⟨id⟩

instance : Listed String := ⟨.string⟩

instance : Listed Bool := ⟨.bool⟩

instance : Listed Nat := ⟨.natural⟩

instance : Listed UInt8 := ⟨fun n => .natural n.toNat⟩

instance : Listed UInt16 := ⟨fun n => .natural n.toNat⟩

instance : Listed UInt32 := ⟨fun n => .natural n.toNat⟩

instance {α : Type} [Listed α] : Listed (List α) := ⟨fun items => .array (items.map listing)⟩

instance {α : Type} [Listed α] : Listed (Option α) := ⟨fun value => (value.map listing).getD .null⟩

def wordText (word : UInt64) : String := String.ofList (hexDigits 16 word.toNat)

instance : Listed Binary64 := ⟨fun x => .string (wordText x.bits)⟩

def maxListedBytes : Nat := 2048

def bytesText (bytes : ByteArray) : String :=
  if maxListedBytes < bytes.size then
    "fnv:" ++ bytes.size.repr ++ ":" ++ wordText (Bytes.digest bytes)
  else Bytes.toHex bytes

instance : Listed ByteArray := ⟨fun bytes => .string (bytesText bytes)⟩

end PluginBridge
