import PluginBridge.Members
import PluginBridge.Numeric.Binary64
namespace PluginBridge

-- A number literal: one without fraction and exponent that fits a signed or an unsigned
-- 64-bit word stays an integer, any other is a double.
inductive JsonNumber where
  | integer (value : Int)
  | float (value : Binary64)
deriving DecidableEq, Repr

inductive Json where
  | null
  | bool (value : Bool)
  | number (value : JsonNumber)
  | string (value : String)
  | array (items : List Json)
  | object (members : List (String × Json))
deriving Inhabited, Repr

namespace JsonNumber

def toFloat : JsonNumber → Binary64
  | .integer n => .ofInt n
  | .float x => x

def equals : JsonNumber → JsonNumber → Bool
  | .integer m, .integer n => m == n
  | .float x, .float y => x.equals y
  | _, _ => false

end JsonNumber

namespace Json

def natural (n : Nat) : Json := .number (.integer n)

def ofFloat (x : Binary64) : Json := if x.isFinite then .number (.float x) else .null

-- An object from entries in any order; of several under one key the last stays.
def ofEntries (entries : List (String × Json)) : Json := .object (Members.ofList entries)

def isNull : Json → Bool
  | .null => true
  | _ => false

def get? (key : String) : Json → Option Json
  | .object members => Members.get? key members
  | _ => none

def get (key : String) (json : Json) : Json := (json.get? key).getD .null

def toBool? : Json → Option Bool
  | .bool b => some b
  | _ => none

def toString? : Json → Option String
  | .string s => some s
  | _ => none

def toFloat? : Json → Option Binary64
  | .number n => some n.toFloat
  | _ => none

def toArray? : Json → Option (List Json)
  | .array items => some items
  | _ => none

def toWord? : Json → Option Nat
  | .number (.integer n) => if 0 ≤ n then some n.toNat else none
  | _ => none

def toSigned? : Json → Option Int
  | .number (.integer n) => if n < 0x8000000000000000 then some n else none
  | _ => none

mutual

def equals : Json → Json → Bool
  | .null, .null => true
  | .bool a, .bool b => a == b
  | .number a, .number b => a.equals b
  | .string a, .string b => a == b
  | .array as, .array bs => itemsEqual as bs
  | .object as, .object bs => membersEqual as bs
  | _, _ => false

def itemsEqual : List Json → List Json → Bool
  | [], [] => true
  | a :: as, b :: bs => a.equals b && itemsEqual as bs
  | _, _ => false

def membersEqual : List (String × Json) → List (String × Json) → Bool
  | [], [] => true
  | (j, a) :: as, (k, b) :: bs => j == k && a.equals b && membersEqual as bs
  | _, _ => false

end

end Json
end PluginBridge
