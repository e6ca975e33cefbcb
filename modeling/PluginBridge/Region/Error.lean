namespace PluginBridge

inductive RegionError where
  | io
  | map
  | invalidSize
  | writeOutOfBounds (offset length size : Nat)
  | readOutOfBounds (offset length size : Nat)
  | readOnly (key : String)
  | destroyed (key : String)
  | notFound (key : String)
  | capacityExceeded (requested available : Nat)
deriving DecidableEq, Repr

def regionNamed (key : String) : String := "Shared region \"" ++ key ++ "\""

def RegionError.message : RegionError → String
  | .io => "I/O error on shared region"
  | .map => "Failed to map shared region"
  | .invalidSize => "Shared region size must be non-zero"
  | .writeOutOfBounds offset length size =>
    s!"Write of {length} bytes at offset {offset} exceeds region size {size}"
  | .readOutOfBounds offset length size =>
    s!"Read of {length} bytes at offset {offset} exceeds region size {size}"
  | .readOnly key => regionNamed key ++ " is mapped read-only"
  | .destroyed key => regionNamed key ++ " has been destroyed"
  | .notFound key => regionNamed key ++ " not found"
  | .capacityExceeded requested available =>
    s!"Shared memory capacity exceeded: {requested} bytes requested, {available} available"

end PluginBridge
