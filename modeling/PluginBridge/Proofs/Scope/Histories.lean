import Mathlib.Data.List.DropRight
import Mathlib.Data.List.Induction
import Mathlib.Tactic.Common
import PluginBridge.Scope.Hierarchy
namespace PluginBridge

inductive ScopeEntry where
  | function (spec : FunctionSpec)
  | visitor (visitor : Visitor)
  | preProcessor (processor : Processor)
  | postProcessor (processor : Processor)
  | fileManager (manager : FileManager)
deriving DecidableEq

inductive ScopeStep where
  | createChild (parent : Nat)
  | register (scope : Nat) (entry : ScopeEntry)
  | reset (scope : Nat)
deriving DecidableEq

namespace ScopeStep

def scope : ScopeStep → Nat
  | .createChild scope | .register scope _ | .reset scope => scope

def parent? : ScopeStep → Option Nat
  | .createChild parent => some parent
  | .register _ _ | .reset _ => none

def entryIn? (scope : Nat) : ScopeStep → Option ScopeEntry
  | .register other entry => if other = scope then some entry else none
  | .createChild _ | .reset _ => none

end ScopeStep

def placed : Nat → List ScopeStep → Bool
  | _, [] => true
  | count, step :: rest => decide (step.scope < count) && placed (count + step.parent?.toList.length) rest

def registered (scope : Nat) (steps : List ScopeStep) : List ScopeEntry :=
  (steps.rtakeWhile fun step => step ≠ .reset scope).filterMap (ScopeStep.entryIn? scope)

def parents (steps : List ScopeStep) : List Nat := steps.filterMap ScopeStep.parent?

-- The way from a scope to the root, as the children were made. The first child has the number 1.
inductive Lineage (steps : List ScopeStep) : Nat → List Nat → Prop where
  | root : Lineage steps 0 [0]
  | child {n parent : Nat} {path : List Nat} (made : (parents steps)[n]? = some parent)
      (above : Lineage steps parent path) : Lineage steps (n + 1) ((n + 1) :: path)

namespace Registrations

def add (entries : Registrations) : ScopeEntry → Registrations
  | .function spec => { entries with functions := Members.insert spec.name spec entries.functions }
  | .visitor visitor => { entries with visitors := entries.visitors ++ [visitor] }
  | .preProcessor processor => { entries with preProcessors := entries.preProcessors ++ [processor] }
  | .postProcessor processor => { entries with postProcessors := entries.postProcessors ++ [processor] }
  | .fileManager manager => { entries with fileManagers := entries.fileManagers ++ [manager] }

def ofList (entries : List ScopeEntry) : Registrations := entries.foldl add .empty

theorem ofList_snoc (entries : List ScopeEntry) (entry : ScopeEntry) :
    ofList (entries ++ [entry]) = (ofList entries).add entry := List.foldl_append ..

end Registrations

namespace Hierarchy
variable {tree : Hierarchy} {steps : List ScopeStep} {step : ScopeStep} {scope other : Nat} {path : List Nat}

def register (tree : Hierarchy) (scope : Nat) : ScopeEntry → Hierarchy
  | .function spec => (tree.addFunction scope spec).2
  | .visitor visitor => tree.addVisitor scope visitor
  | .preProcessor processor => tree.addPreProcessor scope processor
  | .postProcessor processor => tree.addPostProcessor scope processor
  | .fileManager manager => tree.addFileManager scope manager

def apply (tree : Hierarchy) : ScopeStep → Hierarchy
  | .createChild parent => (tree.createChild parent).2
  | .register scope entry => tree.register scope entry
  | .reset scope => tree.reset scope

inductive Grown : List ScopeStep → Hierarchy → Prop where
  | root : Grown [] .root
  | step {steps : List ScopeStep} {tree : Hierarchy} {step : ScopeStep} (grown : Grown steps tree)
      (present : step.scope < tree.scopes.size) : Grown (steps ++ [step]) (tree.apply step)

theorem apply_register (tree : Hierarchy) (scope : Nat) (entry : ScopeEntry) :
    tree.apply (.register scope entry) = tree.modify scope fun entries => entries.add entry := by
  cases entry <;> rfl

@[simp] theorem modify_size (tree : Hierarchy) (scope : Nat) (change : Registrations → Registrations) :
    (tree.modify scope change).scopes.size = tree.scopes.size := Array.size_modify

@[simp] theorem modify_path (tree : Hierarchy) (scope other : Nat) (change : Registrations → Registrations) :
    (tree.modify scope change).path other = tree.path other := by
  simp only [path, modify, Array.getElem?_modify]
  split
  · rw [Option.map_map]
    rfl
  · rfl

theorem modify_entries_apart {change : Registrations → Registrations} (apart : scope ≠ other) :
    (tree.modify scope change).entries other = tree.entries other := by
  rw [entries, modify, Array.getElem?_modify, if_neg apart, entries]

theorem modify_entries_here {change : Registrations → Registrations} (present : scope < tree.scopes.size) :
    (tree.modify scope change).entries scope = change (tree.entries scope) := by
  simp [entries, modify, Array.getElem?_modify, Array.getElem?_eq_getElem present]

theorem createChild_path_new (tree : Hierarchy) (parent : Nat) :
    (tree.createChild parent).2.path tree.scopes.size = tree.scopes.size :: tree.path parent := by
  simp [path, createChild]

theorem createChild_path_old (parent : Nat) (present : scope < tree.scopes.size) :
    (tree.createChild parent).2.path scope = tree.path scope := by
  simp [path, createChild, Array.getElem?_push, Nat.ne_of_lt present]

@[simp] theorem createChild_entries (tree : Hierarchy) (parent scope : Nat) :
    (tree.createChild parent).2.entries scope = tree.entries scope := by
  simp only [entries, createChild, Array.getElem?_push]
  split
  · rename_i new
    rw [new, Array.getElem?_eq_none (Nat.le_refl _)]
    rfl
  · rfl

theorem apply_size (tree : Hierarchy) (step : ScopeStep) :
    (tree.apply step).scopes.size = tree.scopes.size + step.parent?.toList.length := by
  cases step with
  | createChild parent => exact Array.size_push _
  | register scope entry =>
    rw [apply_register, modify_size]
    rfl
  | reset scope => exact modify_size ..

theorem Grown.run {more : List ScopeStep} (grown : Grown steps tree) (allowed : placed tree.scopes.size more = true) :
    Grown (steps ++ more) (more.foldl apply tree) := by
  induction more generalizing steps tree with
  | nil => exact (List.append_nil steps).symm ▸ grown
  | cons step more ih =>
    rw [placed, Bool.and_eq_true, decide_eq_true_eq, ← apply_size] at allowed
    rw [List.append_cons]
    exact ih (grown.step allowed.1) allowed.2

theorem apply_path (step : ScopeStep) (present : scope < tree.scopes.size) :
    (tree.apply step).path scope = tree.path scope := by
  cases step with
  | createChild parent => exact createChild_path_old parent present
  | register other entry => rw [apply_register, modify_path]
  | reset other => exact modify_path ..

theorem apply_entries_apart (apart : step.scope ≠ scope) : (tree.apply step).entries scope = tree.entries scope := by
  cases step with
  | createChild parent => exact createChild_entries ..
  | register other entry =>
    rw [apply_register]
    exact modify_entries_apart apart
  | reset other => exact modify_entries_apart apart

theorem registered_apart (apart : step.scope ≠ scope) : registered scope (steps ++ [step]) = registered scope steps := by
  have kept : step ≠ .reset scope := fun same => apart (same ▸ rfl)
  have silent : step.entryIn? scope = none := by
    cases step with
    | createChild parent => rfl
    | register other entry => exact if_neg apart
    | reset other => rfl
  simp [registered, kept, silent]

theorem registered_here (entry : ScopeEntry) :
    registered scope (steps ++ [.register scope entry]) = registered scope steps ++ [entry] := by
  simp [registered, ScopeStep.entryIn?]

theorem registered_reset : registered scope (steps ++ [.reset scope]) = [] := by
  simp [registered]

theorem registered_createChild (parent : Nat) :
    registered scope (steps ++ [.createChild parent]) = registered scope steps := by
  simp [registered, ScopeStep.entryIn?]

theorem apply_entries (present : step.scope < tree.scopes.size)
    (known : tree.entries scope = .ofList (registered scope steps)) :
    (tree.apply step).entries scope = .ofList (registered scope (steps ++ [step])) := by
  by_cases apart : step.scope ≠ scope
  · rw [apply_entries_apart apart, registered_apart apart, known]
  · cases step with
    | createChild parent => rw [registered_createChild, ← known, apply, createChild_entries]
    | register other entry =>
      obtain rfl : other = scope := not_not.mp apart
      have there : other < tree.scopes.size := present
      rw [apply_register, modify_entries_here there, registered_here, Registrations.ofList_snoc, known]
    | reset other =>
      obtain rfl : other = scope := not_not.mp apart
      rw [registered_reset]
      exact modify_entries_here present

theorem Grown.entries (grown : Grown steps tree) (scope : Nat) :
    tree.entries scope = .ofList (registered scope steps) := by
  induction grown with
  | root =>
    cases scope with
    | zero => rfl
    | succ n => rfl
  | step _ present ih => exact apply_entries present ih

theorem parents_snoc (steps : List ScopeStep) (step : ScopeStep) :
    parents (steps ++ [step]) = parents steps ++ step.parent?.toList := by
  rw [parents, List.filterMap_append, parents]
  cases step <;> rfl

theorem Grown.size (grown : Grown steps tree) : tree.scopes.size = (parents steps).length + 1 := by
  induction grown with
  | root => rfl
  | step _ _ ih => rw [apply_size, ih, parents_snoc, List.length_append, Nat.add_right_comm]

end Hierarchy

namespace Lineage
open Hierarchy
variable {tree : Hierarchy} {steps : List ScopeStep} {scope other : Nat} {path near far : List Nat}

theorem snoc (line : Lineage steps scope path) (step : ScopeStep) : Lineage (steps ++ [step]) scope path := by
  induction line with
  | root => exact .root
  | child made _ ih =>
    refine .child ?_ ih
    rw [parents_snoc, List.getElem?_append_left (List.getElem?_eq_some_iff.mp made).1, made]

theorem unique (line : Lineage steps scope path) {rival : List Nat} (same : Lineage steps scope rival) : rival = path := by
  induction line generalizing rival with
  | root =>
    cases same with
    | root => rfl
  | child made _ ih =>
    cases same with
    | child again above =>
      cases made.symm.trans again
      rw [ih above]

theorem rest (line : Lineage steps scope path) (split : path = near ++ other :: far) :
    Lineage steps other (other :: far) := by
  induction line generalizing near with
  | root =>
    cases near with
    | nil =>
      cases split
      exact .root
    | cons _ near => simp at split
  | child made above ih =>
    cases near with
    | nil =>
      cases split
      exact .child made above
    | cons _ near => exact ih (List.cons_eq_cons.mp split).2

theorem within (line : Lineage steps scope path) : scope < (parents steps).length + 1 := by
  cases line with
  | root => exact Nat.succ_pos _
  | child made _ => exact Nat.succ_lt_succ (List.getElem?_eq_some_iff.mp made).1

end Lineage

namespace Hierarchy
variable {tree : Hierarchy} {steps : List ScopeStep} {step : ScopeStep} {scope other : Nat}

theorem Grown.line (grown : Grown steps tree) (present : scope < tree.scopes.size) :
    Lineage steps scope (tree.path scope) := by
  induction grown generalizing scope with
  | root =>
    obtain rfl := Nat.lt_one_iff.mp present
    exact .root
  | @step steps tree step grown there ih =>
    by_cases old : scope < tree.scopes.size
    · rw [apply_path step old]
      exact (ih old).snoc step
    · rw [apply_size] at present
      cases step with
      | createChild parent =>
        obtain rfl : scope = tree.scopes.size := by
          simp only [ScopeStep.parent?, Option.toList_some, List.length_singleton] at present
          omega
        have number : (parents (steps ++ [.createChild parent]))[(parents steps).length]? = some parent := by
          simp [parents_snoc, ScopeStep.parent?]
        rw [apply, createChild_path_new, grown.size]
        exact .child number ((ih there).snoc _)
      | register other entry => exact absurd present old
      | reset other => exact absurd present old

theorem Grown.present (grown : Grown steps tree) (made : scope < tree.scopes.size)
    (among : other ∈ tree.path scope) : other < tree.scopes.size := by
  obtain ⟨near, far, split⟩ := List.append_of_mem among
  exact grown.size ▸ ((grown.line made).rest split).within

theorem Grown.key (grown : Grown steps tree) (made : scope < tree.scopes.size) {near far : List Nat}
    (split : tree.path scope = near ++ other :: far) : tree.key other = ⟨far.length, other⟩ := by
  have line := (grown.line made).rest split
  have there : other < tree.scopes.size := grown.size ▸ line.within
  rw [Hierarchy.key, line.unique (grown.line there)]
  rfl

theorem Grown.unseen (grown : Grown steps tree) (made : scope < tree.scopes.size)
    (outside : step.scope ∉ tree.path scope) : (tree.apply step).path scope = tree.path scope ∧
      ∀ s ∈ tree.path scope, (tree.apply step).entries s = tree.entries s ∧ (tree.apply step).key s = tree.key s := by
  refine ⟨apply_path step made, fun s among => ⟨?_, ?_⟩⟩
  · exact apply_entries_apart fun same => outside (same ▸ among)
  · rw [Hierarchy.key, apply_path step (grown.present made among), Hierarchy.key]

end Hierarchy
end PluginBridge
