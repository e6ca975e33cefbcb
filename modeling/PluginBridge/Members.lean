namespace PluginBridge

-- Named entries in ascending order of their names, each name once. The order of names
-- is that of their code points, which is also the order of their UTF-8 bytes.
abbrev Members (α : Type) := List (String × α)

namespace Members
variable {α β : Type}

def get? (name : String) : Members α → Option α
  | [] => none
  | (key, value) :: rest => if key = name then some value else get? name rest

def contains (name : String) (members : Members α) : Bool := (members.get? name).isSome

def insert (name : String) (value : α) : Members α → Members α
  | [] => [(name, value)]
  | (key, old) :: rest =>
    if name = key then (name, value) :: rest
    else if name < key then (name, value) :: (key, old) :: rest
    else (key, old) :: insert name value rest

def erase (name : String) : Members α → Members α
  | [] => []
  | (key, value) :: rest => if key = name then rest else (key, value) :: erase name rest

def ofList (entries : List (String × α)) : Members α :=
  entries.foldl (fun members entry => insert entry.1 entry.2 members) []

end Members
end PluginBridge
