import PluginBridge.Bytes.Cursor
import PluginBridge.Protocol.Error
import PluginBridge.Protocol.Layout
import PluginBridge.Region.Memory
namespace PluginBridge

abbrev ProtocolAccess := EStateM ProtocolError Memory

structure ProtocolRegion where
  region : RegionId
  layout : Layout
deriving DecidableEq, Inhabited, Repr

namespace ProtocolRegion

def access {α : Type} (action : Access α) : ProtocolAccess α :=
  EStateM.adaptExcept ProtocolError.region action

def codec {α : Type} (result : Except CodecError α) : ProtocolAccess α :=
  match result with
  | .ok a => pure a
  | .error e => throw (.codec e)

-- A region serves a layout that contradicts nothing and fits into it.
def fits (layout : Layout) (size : Nat) : Bool := layout.isConsistent && layout.totalSize ≤ size

def ofRegion (region : RegionId) (layout : Layout) : ProtocolAccess ProtocolRegion := do
  let memory ← get
  let size := ((memory.region? region).map Region.size).getD 0
  if fits layout size then return ⟨region, layout⟩
  else throw .inconsistentLayout

def get (block : ProtocolRegion) (field : Nat) : ProtocolAccess UInt32 :=
  access (Memory.readU32 block.region (block.layout.control field))

def set (block : ProtocolRegion) (field : Nat) (value : UInt32) : ProtocolAccess Unit :=
  access (Memory.writeU32 block.region (block.layout.control field) value)

def setAll (block : ProtocolRegion) (value : UInt32) : List Nat → ProtocolAccess Unit
  | [] => pure ()
  | field :: rest => do
    block.set field value
    block.setAll value rest

def syncControl (block : ProtocolRegion) : ProtocolAccess Unit :=
  access (Memory.syncRange block.region block.layout.controlOffset block.layout.controlSize)

def checkWithin (part : Section) (offset length start size : Nat) : ProtocolAccess Unit :=
  if start ≤ offset ∧ offset + length ≤ start + size then pure ()
  else throw (.malformed (.range part offset length start size))

def view {α : Type} (block : ProtocolRegion) (offset length : Nat)
    (read : ByteArray → Except ProtocolError α) : ProtocolAccess α := do
  let bytes ← access (Memory.read block.region offset length)
  match read bytes with
  | .ok a => return a
  | .error e => throw e

-- What came of a step, kept as a value so that the next step can be taken either way.
def outcome {α : Type} (action : ProtocolAccess α) : ProtocolAccess (Except ProtocolError α) :=
  fun memory =>
    match action memory with
    | .ok a memory => .ok (.ok a) memory
    | .error e memory => .ok (.error e) memory

def fromOutcome {α : Type} : Except ProtocolError α → ProtocolAccess α
  | .ok a => pure a
  | .error e => throw e

end ProtocolRegion
end PluginBridge
