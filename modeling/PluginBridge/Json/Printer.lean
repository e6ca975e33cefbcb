import PluginBridge.Json.Basic
import PluginBridge.Numeric.Decimal
import PluginBridge.Numeric.Hexadecimal
namespace PluginBridge

namespace Json

def escapeChar (c : Char) : List Char :=
  if c = '"' then ['\\', '"']
  else if c = '\\' then ['\\', '\\']
  else if c = '\x08' then ['\\', 'b']
  else if c = '\x0c' then ['\\', 'f']
  else if c = '\n' then ['\\', 'n']
  else if c = '\r' then ['\\', 'r']
  else if c = '\t' then ['\\', 't']
  else if c.toNat < 32 then ['\\', 'u', '0', '0', hexDigit (c.toNat / 16), hexDigit (c.toNat % 16)]
  else [c]

def stringChars (s : String) : List Char :=
  '"' :: s.toList.flatMap escapeChar ++ ['"']

-- Positional from 1e-5 up to below 1e16 and always with a digit after the point,
-- otherwise one digit, the rest after a point, and a signed exponent.
def decimalChars (d : Decimal) : List Char :=
  let digits := Nat.toDigits 10 d.digits
  let leading : Int := (digits.length : Int) - 1 + d.exponent
  if leading < -5 ∨ 16 ≤ leading then
    let rest := digits.drop 1
    let exponent := (if leading < 0 then '-' else '+') :: Nat.toDigits 10 leading.natAbs
    digits.take 1 ++ (if rest.isEmpty then [] else '.' :: rest) ++ 'e' :: exponent
  else if 0 ≤ d.exponent then
    digits ++ List.replicate d.exponent.toNat '0' ++ ['.', '0']
  else if 0 ≤ leading then
    digits.take (leading.toNat + 1) ++ '.' :: digits.drop (leading.toNat + 1)
  else '0' :: '.' :: List.replicate (-leading - 1).toNat '0' ++ digits

def floatChars (x : Binary64) : List Char :=
  match x.meaning with
  | .finite negative m e =>
    let size := if m = 0 then ['0', '.', '0'] else decimalChars (Decimal.shortest m e)
    if negative then '-' :: size else size
  | _ => "null".toList

def numberChars : JsonNumber → List Char
  | .integer n => (if n < 0 then ['-'] else []) ++ Nat.toDigits 10 n.natAbs
  | .float x => floatChars x

mutual

def chars : Json → List Char
  | .null => ['n', 'u', 'l', 'l']
  | .bool true => ['t', 'r', 'u', 'e']
  | .bool false => ['f', 'a', 'l', 's', 'e']
  | .number n => numberChars n
  | .string s => stringChars s
  | .array items => '[' :: itemsChars items ++ [']']
  | .object members => '{' :: membersChars members ++ ['}']

def itemsChars : List Json → List Char
  | [] => []
  | [item] => item.chars
  | item :: rest => item.chars ++ ',' :: itemsChars rest

def membersChars : List (String × Json) → List Char
  | [] => []
  | [(key, value)] => stringChars key ++ ':' :: value.chars
  | (key, value) :: rest => stringChars key ++ ':' :: value.chars ++ ',' :: membersChars rest

end

def render (json : Json) : String := String.ofList json.chars

def renderFields (fields : List (String × Json)) : String :=
  String.ofList ('{' :: membersChars fields ++ ['}'])

end Json
end PluginBridge
