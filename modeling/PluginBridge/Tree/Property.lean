import PluginBridge.Json.Printer
namespace PluginBridge

inductive Property where
  | null
  | bool (value : Bool)
  | number (value : Binary64)
  | string (value : String)
  | list (items : List Property)
deriving Inhabited, Repr

abbrev Properties := Members Property

namespace Property

def toString? : Property → Option String
  | .string s => some s
  | _ => none

def toFloat? : Property → Option Binary64
  | .number x => some x
  | _ => none

def toBool? : Property → Option Bool
  | .bool b => some b
  | _ => none

mutual

def toJson : Property → Json
  | .null => .null
  | .bool b => .bool b
  | .number x => .ofFloat x
  | .string s => .string s
  | .list items => .array (allToJson items)

def allToJson : List Property → List Json
  | [] => []
  | item :: rest => item.toJson :: allToJson rest

end

mutual

-- An object has no form of its own and is kept as its text.
def ofJson : Json → Property
  | .null => .null
  | .bool b => .bool b
  | .number n => .number n.toFloat
  | .string s => .string s
  | .array items => .list (allOfJson items)
  | .object members => .string (Json.object members).render

def allOfJson : List Json → List Property
  | [] => []
  | item :: rest => ofJson item :: allOfJson rest

end

mutual

def equals : Property → Property → Bool
  | .null, .null => true
  | .bool a, .bool b => a == b
  | .number x, .number y => x.equals y
  | .string s, .string t => s == t
  | .list as, .list bs => allEqual as bs
  | _, _ => false

def allEqual : List Property → List Property → Bool
  | [], [] => true
  | a :: as, b :: bs => a.equals b && allEqual as bs
  | _, _ => false

end

end Property

def Properties.equals : Properties → Properties → Bool
  | [], [] => true
  | (j, a) :: as, (k, b) :: bs => j == k && a.equals b && Properties.equals as bs
  | _, _ => false

end PluginBridge
