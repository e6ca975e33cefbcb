import PluginBridge.Codec
namespace PluginBridge

def naturalOfDigits (digits : List Char) : Nat :=
  digits.foldl (fun n c => n * 10 + (c.toNat - '0'.toNat)) 0

def wordOfDigits? (digits : List Char) : Option Nat :=
  if digits.isEmpty ∨ !digits.all Char.isDigit then none
  else if naturalOfDigits digits < wordLimit then some (naturalOfDigits digits) else none

-- A number as settings give it: digits after at most one plus sign.
def wordOfText? (text : String) : Option Nat :=
  match text.toList with
  | '+' :: digits => wordOfDigits? digits
  | digits => wordOfDigits? digits

end PluginBridge
