import PluginBridge.Region.Memory
namespace PluginBridge

-- The regions that one side created or opened, by key. Created regions count against
-- the capacity, if there is one. They live in a directory of their own, which is made
-- when it is first needed; `directory` is its number while it exists.
structure RegionManager where
  tracked : List (String × RegionId)
  capacity : Option Nat
  nextKey : Nat
  directory : Option Nat
  nextDirectory : Nat
deriving Inhabited, Repr

structure Store where
  memory : Memory
  manager : RegionManager
deriving Inhabited

abbrev StoreAccess := EStateM RegionError Store

namespace Store

def new (capacity : Option Nat) : Store := ⟨.empty, ⟨[], capacity, 0, none, 0⟩⟩

def regionCount (store : Store) : Nat := store.manager.tracked.length

def onMemory {α : Type} (access : Access α) : StoreAccess α := fun store =>
  match access store.memory with
  | .ok a memory => .ok a { store with memory := memory }
  | .error e memory => .error e { store with memory := memory }

def lookup? (store : Store) (key : String) : Option RegionId :=
  (store.manager.tracked.find? fun entry => entry.1 == key).map Prod.snd

def track (key : String) (id : RegionId) (manager : RegionManager) : RegionManager :=
  { manager with tracked := (manager.tracked.filter fun entry => entry.1 != key) ++ [(key, id)] }

def usedBytes (store : Store) : Nat :=
  store.manager.tracked.foldl (fun used entry =>
    match store.memory.region? entry.2 with
    | some region => if region.owned then used + region.size else used
    | none => used) 0

def ensureDirectory (manager : RegionManager) : RegionManager :=
  match manager.directory with
  | some _ => manager
  | none => { manager with
      directory := some manager.nextDirectory
      nextDirectory := manager.nextDirectory + 1 }

def keyText (n : Nat) : String := "k" ++ n.repr

def createUnchecked (size : Nat) : StoreAccess RegionId := fun store =>
  let manager := ensureDirectory store.manager
  let key := keyText manager.nextKey
  match Memory.create key key size store.memory with
  | .ok id memory =>
    .ok id ⟨memory, { track key id manager with nextKey := manager.nextKey + 1 }⟩
  | .error e memory => .error e ⟨memory, manager⟩

def create (size : Nat) : StoreAccess RegionId := fun store =>
  match store.manager.capacity with
  | none => createUnchecked size store
  | some limit =>
    let available := limit - store.usedBytes
    if available < size then .error (.capacityExceeded size available) store
    else createUnchecked size store

-- Maps an existing file to read from it. Its region is tracked under the file's name.
def openTracked (path : String) : StoreAccess RegionId := fun store =>
  match Memory.openReadOnly path store.memory with
  | .ok id memory => .ok id ⟨memory, track (Memory.keyOfPath path) id store.manager⟩
  | .error e memory => .error e ⟨memory, store.manager⟩

def require (key : String) : StoreAccess RegionId := fun store =>
  match store.lookup? key with
  | some id => .ok id store
  | none => .error (.notFound key) store

def writeKey (key : String) (offset : Nat) (bytes : ByteArray) : StoreAccess Unit := do
  onMemory (Memory.write (← require key) offset bytes)

def readKey (key : String) (offset length : Nat) : StoreAccess ByteArray := do
  onMemory (Memory.read (← require key) offset length)

def destroy (key : String) : StoreAccess Unit := do
  let id ← require key
  modify fun store => ⟨store.memory.unmap id,
    { store.manager with tracked := store.manager.tracked.filter fun entry => entry.1 != key }⟩

def destroyAll (store : Store) : Store :=
  let memory := store.manager.tracked.foldl (fun memory entry => memory.unmap entry.2) store.memory
  let memory := if store.manager.directory.isSome then memory.unlinkAll else memory
  ⟨memory, { store.manager with tracked := [], directory := none }⟩

end Store
end PluginBridge
