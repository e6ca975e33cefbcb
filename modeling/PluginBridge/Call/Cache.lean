import PluginBridge.Call.Argument
import PluginBridge.Scope.Hierarchy
namespace PluginBridge

-- A result is kept for a function as one scope registered it and for the text of the
-- arguments.
structure CacheKey where
  function : String
  scope : ScopeKey
  args : String
deriving DecidableEq, Inhabited, Repr

def CacheKey.ofCall (function : String) (scope : ScopeKey) (args : List CallArg) : CacheKey :=
  ⟨function, scope, CallArg.listKey args⟩

structure ResultCache where
  entries : List (CacheKey × ResultNode)
  hits : Nat
  misses : Nat
deriving Inhabited

namespace ResultCache

def empty : ResultCache := ⟨[], 0, 0⟩

def size (cache : ResultCache) : Nat := cache.entries.length

def find? (cache : ResultCache) (key : CacheKey) : Option ResultNode :=
  (cache.entries.find? fun entry => entry.1 == key).map Prod.snd

def get (cache : ResultCache) (key : CacheKey) : Option ResultNode × ResultCache :=
  match cache.find? key with
  | some result => (some result, { cache with hits := cache.hits + 1 })
  | none => (none, { cache with misses := cache.misses + 1 })

def insert (cache : ResultCache) (key : CacheKey) (result : ResultNode) : ResultCache :=
  { cache with entries := cache.entries.filter (fun entry => entry.1 != key) ++ [(key, result)] }

def invalidate (cache : ResultCache) (function : String) : Nat × ResultCache :=
  let kept := cache.entries.filter fun entry => entry.1.function != function
  (cache.entries.length - kept.length, { cache with entries := kept })

def clear (cache : ResultCache) : ResultCache := { cache with entries := [] }

end ResultCache
end PluginBridge
