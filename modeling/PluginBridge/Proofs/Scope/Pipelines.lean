import Mathlib.Data.List.Sort
import PluginBridge.Proofs.Scope.Histories
namespace PluginBridge

namespace ScopeEntry

def visitor? : ScopeEntry → Option Visitor
  | .visitor held => some held
  | _ => none

def preProcessor? : ScopeEntry → Option Processor
  | .preProcessor held => some held
  | _ => none

def postProcessor? : ScopeEntry → Option Processor
  | .postProcessor held => some held
  | _ => none

def fileManager? : ScopeEntry → Option FileManager
  | .fileManager held => some held
  | _ => none

end ScopeEntry

def gathered {α : Type} (kind : ScopeEntry → Option α) (steps : List ScopeStep) (scopes : List Nat) : List α :=
  scopes.flatMap fun s => (registered s steps).filterMap kind

-- All processors that are there, those of lower priority first; those of one priority stand as they did.
structure Prioritized (processors live : List Processor) : Prop where
  all : processors.Perm live
  ascending : processors.Pairwise fun a b => a.priority ≤ b.priority
  stable : ∀ priority, processors.filter (·.priority = priority) = live.filter (·.priority = priority)

theorem eq_of_levels {one two : List Processor} (same : one.Perm two)
    (first : one.Pairwise fun a b => a.priority ≤ b.priority)
    (second : two.Pairwise fun a b => a.priority ≤ b.priority)
    (levels : ∀ priority, one.filter (·.priority = priority) = two.filter (·.priority = priority)) : one = two := by
  induction one generalizing two with
  | nil => exact same.nil_eq
  | cons a rest ih =>
    cases two with
    | nil => exact same.eq_nil
    | cons b others =>
      obtain ⟨below, first⟩ := List.pairwise_cons.mp first
      obtain ⟨under, later⟩ := List.pairwise_cons.mp second
      have lowest : b.priority ≤ a.priority := by
        rcases List.mem_cons.mp (same.subset List.mem_cons_self) with rfl | among
        · exact Int.le_refl _
        · exact under a among
      have level : a.priority = b.priority := by
        rcases List.mem_cons.mp (same.symm.subset List.mem_cons_self) with rfl | among
        · rfl
        · exact Int.le_antisymm (below b among) lowest
      have here := levels a.priority
      rw [List.filter_cons_of_pos (by simp), List.filter_cons_of_pos (by simp [level])] at here
      obtain rfl := (List.cons_eq_cons.mp here).1
      refine congrArg (a :: ·) (ih same.cons_inv first later fun priority => ?_)
      have both := levels priority
      rw [List.filter_cons, List.filter_cons] at both
      split at both
      · exact (List.cons_eq_cons.mp both).2
      · exact both

theorem Prioritized.unique {one two live : List Processor} (first : Prioritized one live)
    (second : Prioritized two live) : one = two :=
  eq_of_levels (first.all.trans second.all.symm) first.ascending second.ascending fun priority =>
    (first.stable priority).trans (second.stable priority).symm

namespace Registrations
variable {α : Type}

theorem ofList_kind {list : Registrations → List α} {kind : ScopeEntry → Option α} (empty : list .empty = [])
    (grows : ∀ holder entry, list (add holder entry) = list holder ++ (kind entry).toList)
    (entries : List ScopeEntry) : list (ofList entries) = entries.filterMap kind := by
  induction entries using List.reverseRecOn with
  | nil => exact empty
  | append_singleton entries last ih =>
    rw [ofList_snoc, grows, ih, List.filterMap_append]
    cases found : kind last <;> simp [found]

theorem ofList_visitors (entries : List ScopeEntry) :
    (ofList entries).visitors = entries.filterMap ScopeEntry.visitor? :=
  ofList_kind rfl (fun _ entry => by cases entry <;> simp [add, ScopeEntry.visitor?]) entries

theorem ofList_preProcessors (entries : List ScopeEntry) :
    (ofList entries).preProcessors = entries.filterMap ScopeEntry.preProcessor? :=
  ofList_kind rfl (fun _ entry => by cases entry <;> simp [add, ScopeEntry.preProcessor?]) entries

theorem ofList_postProcessors (entries : List ScopeEntry) :
    (ofList entries).postProcessors = entries.filterMap ScopeEntry.postProcessor? :=
  ofList_kind rfl (fun _ entry => by cases entry <;> simp [add, ScopeEntry.postProcessor?]) entries

theorem ofList_fileManagers (entries : List ScopeEntry) :
    (ofList entries).fileManagers = entries.filterMap ScopeEntry.fileManager? :=
  ofList_kind rfl (fun _ entry => by cases entry <;> simp [add, ScopeEntry.fileManager?]) entries

end Registrations

namespace Hierarchy
variable {α : Type} {tree : Hierarchy} {steps : List ScopeStep} {step : ScopeStep} {scope : Nat}

theorem byPriority_prioritized (processors : List Processor) : Prioritized (byPriority processors) processors := by
  have transitive : ∀ a b c : Processor, decide (a.priority ≤ b.priority) = true →
      decide (b.priority ≤ c.priority) = true → decide (a.priority ≤ c.priority) = true := by
    simp only [decide_eq_true_eq]
    exact fun a b c => Int.le_trans
  have total : ∀ a b : Processor, (decide (a.priority ≤ b.priority) || decide (b.priority ≤ a.priority)) = true := by
    simp only [Bool.or_eq_true, decide_eq_true_eq]
    exact fun a b => Int.le_total a.priority b.priority
  have perm : (byPriority processors).Perm processors := List.mergeSort_perm ..
  refine ⟨perm, ?_, fun priority => ?_⟩
  · exact (List.pairwise_mergeSort transitive total processors).imp of_decide_eq_true
  · -- Those of one priority are in order already, so that sorting keeps them as a sublist.
    have level : (processors.filter (·.priority = priority)).Pairwise fun a b => decide (a.priority ≤ b.priority) = true := by
      refine List.pairwise_of_forall_mem_list fun a first b second => ?_
      rw [List.mem_filter] at first second
      simp_all
    have inside : (processors.filter (·.priority = priority)).Sublist (byPriority processors) :=
      List.sublist_mergeSort transitive total level List.filter_sublist
    have among := inside.filter (·.priority = priority)
    simp only [List.filter_filter, Bool.and_self] at among
    exact (among.eq_of_length (perm.filter _).length_eq.symm).symm

theorem Grown.outermostFirst (grown : Grown steps tree) {list : Registrations → List α}
    {kind : ScopeEntry → Option α} (holds : ∀ entries, list (.ofList entries) = entries.filterMap kind) :
    tree.outermostFirst scope list = gathered kind steps (tree.path scope).reverse := by
  simp only [Hierarchy.outermostFirst, grown.entries, holds, gathered]

theorem Grown.fileManagers (grown : Grown steps tree) :
    tree.fileManagers scope = gathered ScopeEntry.fileManager? steps (tree.path scope) := by
  simp only [Hierarchy.fileManagers, grown.entries, Registrations.ofList_fileManagers, gathered]

theorem Grown.outermostFirst_unseen (grown : Grown steps tree) (made : scope < tree.scopes.size)
    (outside : step.scope ∉ tree.path scope) (list : Registrations → List α) :
    (tree.apply step).outermostFirst scope list = tree.outermostFirst scope list := by
  obtain ⟨path, kept⟩ := grown.unseen made outside
  rw [Hierarchy.outermostFirst, path, Hierarchy.outermostFirst]
  exact List.flatMap_congr fun s among => congrArg list (kept s (List.mem_reverse.mp among)).1

theorem Grown.fileManagers_unseen (grown : Grown steps tree) (made : scope < tree.scopes.size)
    (outside : step.scope ∉ tree.path scope) : (tree.apply step).fileManagers scope = tree.fileManagers scope := by
  obtain ⟨path, kept⟩ := grown.unseen made outside
  rw [Hierarchy.fileManagers, path, Hierarchy.fileManagers]
  exact List.flatMap_congr fun s among => congrArg Registrations.fileManagers (kept s among).1

-- Processors come by priority and otherwise as visitors do, those of the outermost scope first; the innermost
-- file managers come first. What is registered elsewhere than on the way to the root stays out.
theorem pipelines_gathered (grown : Grown steps tree) (made : scope < tree.scopes.size) :
    Lineage steps scope (tree.path scope) ∧
    Prioritized (tree.preProcessors scope) (gathered ScopeEntry.preProcessor? steps (tree.path scope).reverse) ∧
    Prioritized (tree.postProcessors scope) (gathered ScopeEntry.postProcessor? steps (tree.path scope).reverse) ∧
    tree.visitors scope = gathered ScopeEntry.visitor? steps (tree.path scope).reverse ∧
    tree.fileManagers scope = gathered ScopeEntry.fileManager? steps (tree.path scope) ∧
    ∀ step : ScopeStep, step.scope ∉ tree.path scope →
      (tree.apply step).preProcessors scope = tree.preProcessors scope ∧
      (tree.apply step).postProcessors scope = tree.postProcessors scope ∧
      (tree.apply step).visitors scope = tree.visitors scope ∧
      (tree.apply step).fileManagers scope = tree.fileManagers scope := by
  refine ⟨grown.line made, ?_, ?_, grown.outermostFirst Registrations.ofList_visitors, grown.fileManagers,
    fun step outside => ?_⟩
  · rw [← grown.outermostFirst Registrations.ofList_preProcessors]
    exact byPriority_prioritized _
  · rw [← grown.outermostFirst Registrations.ofList_postProcessors]
    exact byPriority_prioritized _
  · exact ⟨congrArg byPriority (grown.outermostFirst_unseen made outside _),
      congrArg byPriority (grown.outermostFirst_unseen made outside _),
      grown.outermostFirst_unseen made outside _, grown.fileManagers_unseen made outside⟩

def piped : List ScopeStep :=
  [.createChild 0, .createChild 0, .register 1 (.preProcessor ⟨"inner", 5⟩), .register 0 (.preProcessor ⟨"outer", 5⟩),
    .register 1 (.preProcessor ⟨"early", -1⟩), .register 2 (.preProcessor ⟨"aside", 0⟩),
    .register 0 (.fileManager ⟨"disk", []⟩), .register 1 (.fileManager ⟨"memory", ["less"]⟩)]

theorem piped_grown : Grown piped (piped.foldl apply root) := Grown.root.run (by decide)

theorem pipelines_gathered_piped :
    (piped.foldl apply root).preProcessors 1 = [⟨"early", -1⟩, ⟨"outer", 5⟩, ⟨"inner", 5⟩] ∧
      (piped.foldl apply root).fileManagers 1 = [⟨"memory", ["less"]⟩, ⟨"disk", []⟩] := by
  have made : 1 < (piped.foldl apply root).scopes.size := piped_grown.size ▸ by decide
  obtain ⟨_, pre, _, _, managers, _⟩ := pipelines_gathered piped_grown made
  refine ⟨pre.unique ⟨by decide, by decide, fun priority => ?_⟩, managers⟩
  have live : gathered ScopeEntry.preProcessor? piped ((piped.foldl apply root).path 1).reverse =
      [⟨"outer", 5⟩, ⟨"inner", 5⟩, ⟨"early", -1⟩] := rfl
  by_cases early : priority = -1
  · simp [live, early]
  · simp [live, List.filter_cons, Ne.symm early]

end Hierarchy
end PluginBridge
