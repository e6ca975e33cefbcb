import PluginBridge.Bytes.Word
import PluginBridge.Codec
import PluginBridge.Region.Error
namespace PluginBridge

-- A file that backs regions. After it is unlinked it can no longer be opened, but what
-- is mapped stays usable.
structure BackingFile where
  path : String
  bytes : ByteArray
  linked : Bool
deriving Inhabited

-- A region may be mapped although the system fails to write out the bytes at some positions. No
-- action here brings such a fault about or takes it away; what goes on outside does.
inductive Mapping where
  | readWrite
  | faulty (positions : List Nat)
  | readOnly
  | unmapped
deriving DecidableEq, Repr

structure Region where
  key : String
  file : Nat
  size : Nat
  owned : Bool
  mapping : Mapping
deriving DecidableEq, Repr

-- File sizes are signed words.
def maxFileSize : Nat := 0x8000000000000000

-- All files and all regions that were ever made. A file or region is known by its position, which it
-- keeps. The system has room for files smaller than `room`.
structure Memory where
  files : Array BackingFile
  regions : Array Region
  room : Nat
deriving Inhabited

structure RegionId where
  index : Nat
deriving DecidableEq, Inhabited, Repr

abbrev Access := EStateM RegionError Memory

def zeros : Nat → ByteArray
  | 0 => .empty
  | n + 1 =>
    let half := zeros ((n + 1) / 2)
    if (n + 1) % 2 = 0 then half ++ half else (half ++ half).push 0

namespace Memory

def empty : Memory := ⟨#[], #[], maxFileSize⟩

def region? (memory : Memory) (id : RegionId) : Option Region := memory.regions[id.index]?

def file? (memory : Memory) (index : Nat) : Option BackingFile := memory.files[index]?

def findFile? (memory : Memory) (path : String) : Option Nat :=
  memory.files.findIdx? fun file => file.linked && file.path == path

def keyOfPath (path : String) : String := String.ofList
  (path.toList.reverse.takeWhile (· ≠ '/')).reverse

def putFile (path : String) (bytes : ByteArray) (memory : Memory) : Memory :=
  match memory.findFile? path with
  | some file => { memory with files := memory.files.modify file fun f => { f with bytes := bytes } }
  | none => { memory with files := memory.files.push ⟨path, bytes, true⟩ }

def addRegion (region : Region) : Access RegionId := fun memory =>
  .ok ⟨memory.regions.size⟩ { memory with regions := memory.regions.push region }

-- Makes a file of zeros and maps it for its owner. What is left of a file that proves too large is not kept
-- here: no region shows it, and nothing opens it.
def create (key path : String) (size : Nat) : Access RegionId := fun memory =>
  if size = 0 then .error .invalidSize memory
  else if min maxFileSize memory.room ≤ size ∨ (memory.findFile? path).isSome then .error .io memory
  else
    let file := memory.files.size
    addRegion ⟨key, file, size, true, .readWrite⟩
      { memory with files := memory.files.push ⟨path, zeros size, true⟩ }

def openPath (path : String) (mapping : Mapping) : Access RegionId := fun memory =>
  match memory.findFile? path with
  | none => .error .io memory
  | some file =>
    let size := ((memory.file? file).map fun f => f.bytes.size).getD 0
    if size = 0 then .error .invalidSize memory
    else addRegion ⟨keyOfPath path, file, size, false, mapping⟩ memory

def attach (path : String) : Access RegionId := openPath path .readWrite

def openReadOnly (path : String) : Access RegionId := openPath path .readOnly

def overwrite (file : BackingFile) (offset : Nat) (bytes : ByteArray) : BackingFile :=
  { file with bytes := bytes.copySlice 0 file.bytes offset bytes.size }

def write (id : RegionId) (offset : Nat) (bytes : ByteArray) : Access Unit := fun memory =>
  match memory.region? id with
  | none => .error (.notFound "") memory
  | some region =>
    match region.mapping with
    | .unmapped => .error (.destroyed region.key) memory
    | .readOnly => .error (.readOnly region.key) memory
    | _ =>
      if offset + bytes.size ≤ region.size then
        .ok () { memory with files := memory.files.modify region.file fun file => overwrite file offset bytes }
      else .error (.writeOutOfBounds offset bytes.size region.size) memory

def read (id : RegionId) (offset length : Nat) : Access ByteArray := fun memory =>
  match memory.region? id with
  | none => .error (.notFound "") memory
  | some region =>
    if region.mapping = .unmapped then .error (.destroyed region.key) memory
    else if offset + length ≤ region.size then
      let bytes := ((memory.file? region.file).map BackingFile.bytes).getD .empty
      .ok (bytes.extract offset (offset + length)) memory
    else .error (.readOutOfBounds offset length region.size) memory

def readAll (id : RegionId) : Access ByteArray := fun memory =>
  read id 0 (((memory.region? id).map Region.size).getD 0) memory

def readU32 (id : RegionId) (offset : Nat) : Access UInt32 := do
  return UInt32.ofNat (Bytes.number (← read id offset 4))

def writeU32 (id : RegionId) (offset : Nat) (value : UInt32) : Access Unit :=
  write id offset (Bytes.u32 value)

def flush (region : Region) (offset length : Nat) : Except RegionError Unit :=
  match region.mapping with
  | .unmapped => .error (.destroyed region.key)
  | .faulty positions =>
    if positions.any fun position => offset ≤ position && position < offset + length then .error .io
    else .ok ()
  | _ => .ok ()

-- Both sides map the same file, so the other side sees what was written also when that fails.
def syncRange (id : RegionId) (offset length : Nat) : Access Unit := fun memory =>
  match memory.region? id with
  | none => .error (.notFound "") memory
  | some region =>
    if region.size < offset + length then
      .error (.readOutOfBounds offset length region.size) memory
    else
      match flush region offset length with
      | .ok _ => .ok () memory
      | .error e => .error e memory

def sync (id : RegionId) : Access Unit := fun memory =>
  syncRange id 0 (((memory.region? id).map Region.size).getD 0) memory

def unlinkFile (memory : Memory) (index : Nat) : Memory :=
  { memory with files := memory.files.modify index fun file => { file with linked := false } }

def unlinkAll (memory : Memory) : Memory :=
  { memory with files := memory.files.map fun file => { file with linked := false } }

-- Ends one region. The owner's last act is to remove the file; other regions of that
-- file keep their view of it.
def unmap (id : RegionId) : Memory → Memory := fun memory =>
  match memory.region? id with
  | none => memory
  | some region =>
    if region.mapping = .unmapped then memory
    else
      let memory := { memory with
        regions := memory.regions.setIfInBounds id.index { region with mapping := .unmapped } }
      if region.owned then memory.unlinkFile region.file else memory

end Memory
end PluginBridge
