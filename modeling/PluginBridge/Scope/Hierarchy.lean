import PluginBridge.Call.Function
import PluginBridge.Members
import PluginBridge.Scope.Entry
namespace PluginBridge

-- How deep a scope is nested and how many scopes were made before it.
structure ScopeKey where
  depth : Nat
  sequence : Nat
deriving DecidableEq, Inhabited, Repr

structure Registrations where
  functions : Members FunctionSpec
  visitors : List Visitor
  preProcessors : List Processor
  postProcessors : List Processor
  fileManagers : List FileManager
deriving Inhabited, Repr

def Registrations.empty : Registrations := ⟨[], [], [], [], []⟩

-- A scope knows its path, its own number first and that of the root last.
structure Scope where
  path : List Nat
  entries : Registrations
deriving Inhabited, Repr

-- All scopes that grew from one root, each numbered in the order in which they were made.
structure Hierarchy where
  scopes : Array Scope
deriving Inhabited, Repr

structure BoundFunction where
  spec : FunctionSpec
  origin : ScopeKey
deriving DecidableEq, Inhabited, Repr

namespace Hierarchy

def root : Hierarchy := ⟨#[⟨[0], .empty⟩]⟩

def path (tree : Hierarchy) (scope : Nat) : List Nat :=
  ((tree.scopes[scope]?).map Scope.path).getD []

def key (tree : Hierarchy) (scope : Nat) : ScopeKey := ⟨(tree.path scope).length - 1, scope⟩

def parent? (tree : Hierarchy) (scope : Nat) : Option Nat := (tree.path scope)[1]?

def createChild (tree : Hierarchy) (parent : Nat) : Nat × Hierarchy :=
  let child := tree.scopes.size
  (child, ⟨tree.scopes.push ⟨child :: tree.path parent, .empty⟩⟩)

def entries (tree : Hierarchy) (scope : Nat) : Registrations :=
  ((tree.scopes[scope]?).map Scope.entries).getD .empty

def modify (tree : Hierarchy) (scope : Nat) (change : Registrations → Registrations) : Hierarchy :=
  ⟨tree.scopes.modify scope fun s => { s with entries := change s.entries }⟩

def getLocal? (tree : Hierarchy) (scope : Nat) (name : String) : Option FunctionSpec :=
  Members.get? name (tree.entries scope).functions

def addFunction (tree : Hierarchy) (scope : Nat) (spec : FunctionSpec) :
    Option FunctionSpec × Hierarchy :=
  (tree.getLocal? scope spec.name, tree.modify scope fun entries =>
    { entries with functions := Members.insert spec.name spec entries.functions })

def lookupFunction? (tree : Hierarchy) (scope : Nat) (name : String) : Option BoundFunction :=
  (tree.path scope).findSome? fun s =>
    (tree.getLocal? s name).map fun spec => ⟨spec, tree.key s⟩

def functionNames (tree : Hierarchy) (scope : Nat) : List String :=
  let names := (tree.path scope).flatMap fun s => (tree.entries s).functions.map Prod.fst
  (Members.ofList (names.map fun name => (name, ()))).map Prod.fst

def addVisitor (tree : Hierarchy) (scope : Nat) (visitor : Visitor) : Hierarchy :=
  tree.modify scope fun entries => { entries with visitors := entries.visitors ++ [visitor] }

def addPreProcessor (tree : Hierarchy) (scope : Nat) (processor : Processor) : Hierarchy :=
  tree.modify scope fun entries =>
    { entries with preProcessors := entries.preProcessors ++ [processor] }

def addPostProcessor (tree : Hierarchy) (scope : Nat) (processor : Processor) : Hierarchy :=
  tree.modify scope fun entries =>
    { entries with postProcessors := entries.postProcessors ++ [processor] }

def addFileManager (tree : Hierarchy) (scope : Nat) (manager : FileManager) : Hierarchy :=
  tree.modify scope fun entries =>
    { entries with fileManagers := entries.fileManagers ++ [manager] }

def outermostFirst {α : Type} (tree : Hierarchy) (scope : Nat) (list : Registrations → List α) :
    List α :=
  (tree.path scope).reverse.flatMap fun s => list (tree.entries s)

-- Processors of the same priority keep their order.
def byPriority (processors : List Processor) : List Processor :=
  processors.mergeSort fun a b => decide (a.priority ≤ b.priority)

def visitors (tree : Hierarchy) (scope : Nat) : List Visitor :=
  tree.outermostFirst scope Registrations.visitors

def preProcessors (tree : Hierarchy) (scope : Nat) : List Processor :=
  byPriority (tree.outermostFirst scope Registrations.preProcessors)

def postProcessors (tree : Hierarchy) (scope : Nat) : List Processor :=
  byPriority (tree.outermostFirst scope Registrations.postProcessors)

-- The innermost file managers come first, so that they are asked first.
def fileManagers (tree : Hierarchy) (scope : Nat) : List FileManager :=
  (tree.path scope).flatMap fun s => (tree.entries s).fileManagers

def reset (tree : Hierarchy) (scope : Nat) : Hierarchy := tree.modify scope fun _ => .empty

end Hierarchy
end PluginBridge
