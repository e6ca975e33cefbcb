import PluginBridge.Call.Cache
import PluginBridge.Proofs.Scope.Histories
namespace PluginBridge

def ScopeKey.words (key : ScopeKey) : UInt32 × UInt64 := (UInt32.ofNat key.depth, UInt64.ofNat key.sequence)

def ScopeKey.ofWords (words : UInt32 × UInt64) : ScopeKey := ⟨words.1.toNat, words.2.toNat⟩

theorem ScopeKey.ofWords_words {key : ScopeKey} (shallow : key.depth < UInt32.size) (early : key.sequence < UInt64.size) :
    ofWords key.words = key := by
  simp only [ofWords, words, UInt32.toNat_ofNat_of_lt' shallow, UInt64.toNat_ofNat_of_lt' early]

-- How the scopes of one root come by their keys: all of them share a counter, and a child takes the next number
-- and a depth of one more than its parent. Both are machine words, so that they start again at their end.
structure KeyCounter where
  last : UInt64
  given : List (UInt32 × UInt64)

namespace KeyCounter

def first : KeyCounter := ⟨0, [(0, 0)]⟩

def child (counter : KeyCounter) (parent : Nat) : KeyCounter :=
  ⟨counter.last + 1, counter.given ++ [((counter.given.getD parent (0, 0)).1 + 1, counter.last + 1)]⟩

def after (steps : List ScopeStep) : KeyCounter := (parents steps).foldl child first

theorem after_snoc (steps : List ScopeStep) (step : ScopeStep) :
    after (steps ++ [step]) = step.parent?.toList.foldl child (after steps) := by
  rw [after, Hierarchy.parents_snoc, List.foldl_append, after]

end KeyCounter

-- What happens to a hierarchy and to the results that are kept for its functions. A result is kept for a function
-- as one scope, its owner, holds it.
inductive CacheStep where
  | scope (step : ScopeStep)
  | keep (owner : Nat) (function : String) (args : List CallArg) (result : ResultNode)
  | look (owner : Nat) (function : String) (args : List CallArg)
  | invalidate (function : String)
  | clear

namespace CacheStep

def scope? : CacheStep → Option ScopeStep
  | .scope step => some step
  | _ => none

def needs? : CacheStep → Option Nat
  | .scope step => some step.scope
  | .keep owner _ _ _ | .look owner _ _ => some owner
  | .invalidate _ | .clear => none

def keeps (owner : Nat) (function : String) (args : List CallArg) (kept : Option ResultNode) :
    CacheStep → Option ResultNode
  | .keep other name values result =>
    if other = owner ∧ name = function ∧ CallArg.listKey values = CallArg.listKey args then some result else kept
  | .invalidate name => if name = function then none else kept
  | .clear => none
  | .scope _ | .look _ _ _ => kept

end CacheStep

def latest (owner : Nat) (function : String) (args : List CallArg) (steps : List CacheStep) : Option ResultNode :=
  steps.foldl (CacheStep.keeps owner function args) none

namespace ResultCache
variable {cache : ResultCache} {key other : CacheKey}

theorem get_found (cache : ResultCache) (key : CacheKey) : (cache.get key).1 = cache.find? key := by
  unfold get
  split
  · rename_i found
    exact found.symm
  · rename_i absent
    exact absent.symm

theorem find?_get (cache : ResultCache) (key other : CacheKey) : (cache.get key).2.find? other = cache.find? other := by
  unfold get
  split <;> rfl

theorem find?_filter (keep : CacheKey × ResultNode → Bool) (kept : Bool) (entries : List (CacheKey × ResultNode))
    (all : ∀ entry, entry.1 = key → keep entry = kept) :
    ((entries.filter keep).find? fun entry => entry.1 == key) =
      if kept then entries.find? fun entry => entry.1 == key else none := by
  induction entries with
  | nil => exact (ite_self _).symm
  | cons entry rest ih =>
    by_cases here : entry.1 = key
    · have found := all entry here
      cases kept with
      | true => simp [found, here]
      | false => simpa [found] using ih
    · cases dropped : keep entry with
      | true => simpa [dropped, here] using ih
      | false => simpa [dropped, here] using ih

theorem find?_insert (cache : ResultCache) (key other : CacheKey) (result : ResultNode) :
    (cache.insert key result).find? other = if key = other then some result else cache.find? other := by
  have rest := find?_filter (fun entry => entry.1 != key) (decide (key ≠ other)) cache.entries
    (fun entry (here : entry.1 = other) => by simp [here, bne, Bool.beq_eq_decide_eq, eq_comm])
  rw [find?, insert, List.find?_append, rest]
  by_cases same : key = other
  · simp [same]
  · simp [same, find?]

theorem find?_invalidate (cache : ResultCache) (function : String) (key : CacheKey) :
    (cache.invalidate function).2.find? key = if function = key.function then none else cache.find? key := by
  have rest := find?_filter (fun entry => entry.1.function != function) (decide (function ≠ key.function)) cache.entries
    (fun entry (here : entry.1 = key) => by simp [here, bne, Bool.beq_eq_decide_eq, eq_comm])
  rw [find?, invalidate, rest]
  by_cases same : function = key.function
  · simp [same]
  · simp [same, find?]

end ResultCache

namespace Hierarchy
variable {tree : Hierarchy} {steps : List ScopeStep} {one other parent scope : Nat}

theorem key_injective (same : tree.key one = tree.key other) : one = other := congrArg ScopeKey.sequence same

theorem apply_key (step : ScopeStep) (present : scope < tree.scopes.size) :
    (tree.apply step).key scope = tree.key scope := by
  rw [key, apply_path step present, key]

theorem Grown.parent_before (grown : Grown steps tree) {n : Nat} (made : (parents steps)[n]? = some parent) :
    parent ≤ n := by
  induction grown with
  | root => cases made
  | @step steps tree step grown present ih =>
    rw [parents_snoc] at made
    by_cases old : n < (parents steps).length
    · rw [List.getElem?_append_left old] at made
      exact ih made
    · cases step with
      | createChild other =>
        have there : other < tree.scopes.size := present
        rw [grown.size] at there
        rw [List.getElem?_append_right (Nat.not_lt.mp old)] at made
        obtain rfl := List.mem_singleton.mp (List.mem_of_getElem? made)
        omega
      | register other entry => simp [ScopeStep.parent?, old] at made
      | reset other => simp [ScopeStep.parent?, old] at made

theorem Grown.child_key (grown : Grown steps tree) (present : parent < tree.scopes.size) :
    (tree.createChild parent).2.key tree.scopes.size = ⟨(tree.key parent).depth + 1, tree.scopes.size⟩ := by
  have line : 0 < (tree.path parent).length := by
    have line := grown.line present
    generalize tree.path parent = path at line
    cases line <;> exact Nat.succ_pos _
  rw [Hierarchy.key, createChild_path_new, List.length_cons, Hierarchy.key, Nat.add_sub_cancel, Nat.sub_add_cancel line]

theorem Grown.parent_key (grown : Grown steps tree) (present : scope < tree.scopes.size)
    (above : tree.parent? scope = some parent) : parent < scope ∧
      (tree.key scope).depth = (tree.key parent).depth + 1 := by
  have line := grown.line present
  have depth : (tree.key scope).depth = (tree.path scope).length - 1 := rfl
  rw [parent?] at above
  rw [depth]
  generalize tree.path scope = path at line above
  cases line with
  | root => cases above
  | @child n owner path made line =>
    have before := grown.parent_before made
    have there : owner < tree.scopes.size := by omega
    obtain rfl := line.unique (grown.line there)
    have first : (tree.path owner)[0]? = some owner := by
      generalize tree.path owner = path at line
      cases line <;> rfl
    obtain rfl : owner = parent := Option.some.inj (first.symm.trans above)
    refine ⟨Nat.lt_succ_of_le before, ?_⟩
    have some : 0 < (tree.path owner).length := (List.getElem?_eq_some_iff.mp first).1
    rw [List.length_cons, Hierarchy.key, Nat.add_sub_cancel, Nat.sub_add_cancel some]

theorem Grown.counted (grown : Grown steps tree) :
    (KeyCounter.after steps).last = UInt64.ofNat (parents steps).length ∧
      (KeyCounter.after steps).given = (List.range tree.scopes.size).map fun scope => (tree.key scope).words := by
  induction grown with
  | root => exact ⟨rfl, rfl⟩
  | @step steps tree step grown present ih =>
    obtain ⟨last, given⟩ := ih
    have old : ((List.range tree.scopes.size).map fun scope => ((tree.apply step).key scope).words) =
        (List.range tree.scopes.size).map fun scope => (tree.key scope).words :=
      List.map_congr_left fun scope among => by rw [apply_key step (List.mem_range.mp among)]
    -- Only a new child takes a number.
    have same : step.parent? = none → (KeyCounter.after (steps ++ [step])).last =
          UInt64.ofNat (parents (steps ++ [step])).length ∧ (KeyCounter.after (steps ++ [step])).given =
        (List.range (tree.apply step).scopes.size).map fun scope => ((tree.apply step).key scope).words := by
      intro none
      rw [KeyCounter.after_snoc, parents_snoc, apply_size, none]
      exact ⟨by simpa using last, given.trans old.symm⟩
    cases step with
    | createChild parent =>
      have above : (KeyCounter.after steps).given.getD parent (0, 0) = (tree.key parent).words := by
        have there : parent < tree.scopes.size := present
        simp [given, there]
      have child : (tree.apply (.createChild parent)).key tree.scopes.size = _ := grown.child_key present
      have next : KeyCounter.after (steps ++ [.createChild parent]) = ⟨UInt64.ofNat tree.scopes.size,
          (KeyCounter.after steps).given ++ [(⟨(tree.key parent).depth + 1, tree.scopes.size⟩ : ScopeKey).words]⟩ := by
        rw [KeyCounter.after_snoc, ScopeStep.parent?, Option.toList_some, List.foldl_cons, List.foldl_nil,
          KeyCounter.child, above, last, grown.size]
        simp [ScopeKey.words]
      rw [next, parents_snoc, apply_size]
      constructor
      · simp [ScopeStep.parent?, grown.size]
      · rw [ScopeStep.parent?, Option.toList_some, List.length_singleton, List.range_succ, List.map_append, old,
          List.map_singleton, child, given]
    | register other entry => exact same rfl
    | reset other => exact same rfl

end Hierarchy

structure Keeping where
  tree : Hierarchy
  cache : ResultCache

namespace Keeping
open Hierarchy
variable {steps : List CacheStep} {state : Keeping} {step : CacheStep} {owner : Nat} {function : String}
  {args : List CallArg}

def apply (state : Keeping) : CacheStep → Keeping
  | .scope step => { state with tree := state.tree.apply step }
  | .keep owner function args result =>
    { state with cache := state.cache.insert (.ofCall function (state.tree.key owner) args) result }
  | .look owner function args =>
    { state with cache := (state.cache.get (.ofCall function (state.tree.key owner) args)).2 }
  | .invalidate function => { state with cache := (state.cache.invalidate function).2 }
  | .clear => { state with cache := state.cache.clear }

inductive Reached : List CacheStep → Keeping → Prop where
  | root : Reached [] ⟨.root, .empty⟩
  | step {steps : List CacheStep} {state : Keeping} (step : CacheStep) (reached : Reached steps state)
      (present : ∀ scope ∈ step.needs?, scope < state.tree.scopes.size) :
      Reached (steps ++ [step]) (state.apply step)

theorem latest_snoc (owner : Nat) (function : String) (args : List CallArg) (steps : List CacheStep) (step : CacheStep) :
    latest owner function args (steps ++ [step]) = step.keeps owner function args (latest owner function args steps) :=
  List.foldl_append ..

theorem Reached.grown (reached : Reached steps state) : Grown (steps.filterMap CacheStep.scope?) state.tree := by
  induction reached with
  | root => exact .root
  | @step steps state step reached present ih =>
    rw [List.filterMap_append]
    cases step with
    | scope step => exact ih.step (present _ rfl)
    | keep | look | invalidate | clear => exact (List.append_nil _).symm ▸ ih

-- The cache holds what is kept last for each scope, and nothing for a scope that was not made yet.
structure Tallies (steps : List CacheStep) (state : Keeping) : Prop where
  found : ∀ owner function args, owner < state.tree.scopes.size →
    state.cache.find? (.ofCall function (state.tree.key owner) args) = latest owner function args steps
  unmade : ∀ key : CacheKey, state.tree.scopes.size ≤ key.scope.sequence → state.cache.find? key = none
  unkept : ∀ owner function args, state.tree.scopes.size ≤ owner → latest owner function args steps = none

theorem Tallies.grow (tallies : Tallies steps state) (step : ScopeStep) :
    Tallies (steps ++ [.scope step]) (state.apply (.scope step)) where
  found owner function args made := by
    rw [latest_snoc]
    by_cases old : owner < state.tree.scopes.size
    · exact (apply_key step old).symm ▸ tallies.found owner function args old
    · have none := tallies.unkept owner function args (Nat.not_lt.mp old)
      exact (tallies.unmade _ (Nat.not_lt.mp old)).trans none.symm
  unmade key unmade := by
    refine tallies.unmade key (Nat.le_trans ?_ unmade)
    exact apply_size state.tree step ▸ Nat.le_add_right ..
  unkept owner function args unmade := by
    rw [latest_snoc]
    refine tallies.unkept owner function args (Nat.le_trans ?_ unmade)
    exact apply_size state.tree step ▸ Nat.le_add_right ..

theorem Tallies.keep (tallies : Tallies steps state) (made : owner < state.tree.scopes.size) (function : String)
    (args : List CallArg) (result : ResultNode) :
    Tallies (steps ++ [.keep owner function args result]) (state.apply (.keep owner function args result)) where
  found other name values there := by
    have same : CacheKey.ofCall function (state.tree.key owner) args = .ofCall name (state.tree.key other) values ↔
        owner = other ∧ function = name ∧ CallArg.listKey args = CallArg.listKey values := by
      rw [CacheKey.ofCall, CacheKey.ofCall, CacheKey.mk.injEq]
      constructor
      · rintro ⟨rfl, key, args⟩
        exact ⟨key_injective key, rfl, args⟩
      · rintro ⟨rfl, rfl, args⟩
        exact ⟨rfl, rfl, args⟩
    rw [latest_snoc, apply, ResultCache.find?_insert, tallies.found other name values there, CacheStep.keeps]
    simp only [same]
  unmade key unmade := by
    rw [apply, ResultCache.find?_insert, if_neg, tallies.unmade key unmade]
    rintro rfl
    exact absurd made (Nat.not_lt.mpr unmade)
  unkept other name values unmade := by
    rw [latest_snoc, CacheStep.keeps, if_neg, tallies.unkept other name values unmade]
    rintro ⟨rfl, -⟩
    exact absurd made (Nat.not_lt.mpr unmade)

theorem Reached.tallies (reached : Reached steps state) : Tallies steps state := by
  induction reached with
  | root => exact ⟨fun _ _ _ _ => rfl, fun _ _ => rfl, fun _ _ _ _ => rfl⟩
  | @step steps state step reached present ih =>
    cases step with
    | scope step => exact ih.grow step
    | keep owner function args result => exact ih.keep (present owner rfl) function args result
    | look owner function args =>
      refine ⟨fun other name values made => ?_, fun key unmade => ?_, fun other name values unmade => ?_⟩
      · rw [latest_snoc, apply, ResultCache.find?_get]
        exact ih.found other name values made
      · rw [apply, ResultCache.find?_get]
        exact ih.unmade key unmade
      · rw [latest_snoc]
        exact ih.unkept other name values unmade
    | invalidate dropped =>
      refine ⟨fun other name values made => ?_, fun key unmade => ?_, fun other name values unmade => ?_⟩
      · rw [latest_snoc, apply, ResultCache.find?_invalidate, ih.found other name values made]
        rfl
      · rw [apply, ResultCache.find?_invalidate, ih.unmade key unmade, ite_self]
      · rw [latest_snoc, CacheStep.keeps, ih.unkept other name values unmade, ite_self]
    | clear =>
      refine ⟨fun other name values made => ?_, fun _ _ => rfl, fun other name values _ => ?_⟩
      · rw [latest_snoc]
        rfl
      · rw [latest_snoc]
        rfl

theorem Reached.looked (reached : Reached steps state) (made : owner < state.tree.scopes.size) (function : String)
    (args : List CallArg) : (state.cache.get (.ofCall function (state.tree.key owner) args)).1 =
      latest owner function args steps := by
  rw [ResultCache.get_found, reached.tallies.found owner function args made]

theorem Reached.counted (reached : Reached steps state)
    (levels : ∀ scope < state.tree.scopes.size, (state.tree.key scope).depth < UInt32.size)
    (few : state.tree.scopes.size ≤ UInt64.size) :
    (KeyCounter.after (steps.filterMap CacheStep.scope?)).given.map ScopeKey.ofWords =
      (List.range state.tree.scopes.size).map state.tree.key := by
  rw [reached.grown.counted.2, List.map_map]
  refine List.map_congr_left fun scope among => ?_
  have made := List.mem_range.mp among
  exact ScopeKey.ofWords_words (levels scope made) (Nat.lt_of_lt_of_le made few)

-- Keys tell the scopes of a hierarchy apart, and with them what is kept for the functions of each: a child lies one
-- level below its parent and has a higher number than all scopes before it, and under the key of a scope the cache
-- finds what was kept last for that scope, whatever is kept for the others.
theorem keys_identify (reached : Reached steps state) :
    let tree := state.tree
    let made := fun scope => scope < tree.scopes.size
    ((∀ scope, made scope → (tree.key scope).depth < UInt32.size) → tree.scopes.size ≤ UInt64.size →
      (KeyCounter.after (steps.filterMap CacheStep.scope?)).given.map ScopeKey.ofWords =
        (List.range tree.scopes.size).map tree.key) ∧
    (∀ one other, made one → made other → one ≠ other → tree.key one ≠ tree.key other) ∧
    (∀ scope parent, made scope → tree.parent? scope = some parent →
      (tree.key scope).depth = (tree.key parent).depth + 1 ∧
        (tree.key parent).sequence < (tree.key scope).sequence) ∧
    (∀ parent, made parent →
      let (child, later) := tree.createChild parent
      (later.key child).depth = (tree.key parent).depth + 1 ∧
        ∀ scope, made scope → later.key scope = tree.key scope ∧
          (later.key scope).sequence < (later.key child).sequence) ∧
    (∀ scope name bound, made scope → tree.lookupFunction? scope name = some bound →
      ∃ owner, made owner ∧ bound.origin = tree.key owner ∧ tree.getLocal? owner name = some bound.spec) ∧
    (∀ owner function args, made owner →
      (state.cache.get (.ofCall function (tree.key owner) args)).1 = latest owner function args steps) ∧
    ∀ owner other function name args values result, made owner → made other → owner ≠ other →
      ((state.cache.insert (.ofCall function (tree.key owner) args) result).get
          (.ofCall name (tree.key other) values)).1 =
        (state.cache.get (.ofCall name (tree.key other) values)).1 := by
  refine ⟨reached.counted, fun one other _ _ apart same => apart (key_injective same), ?_, ?_, ?_,
    fun owner function args made => reached.looked made function args, ?_⟩
  · intro scope parent made above
    obtain ⟨before, depth⟩ := reached.grown.parent_key made above
    exact ⟨depth, before⟩
  · intro parent present
    have child := reached.grown.child_key present
    refine ⟨congrArg ScopeKey.depth child, fun scope made => ⟨?_, made⟩⟩
    exact apply_key (.createChild parent) made
  · intro scope name bound made found
    obtain ⟨owner, among, here⟩ := List.exists_of_findSome?_eq_some found
    obtain ⟨spec, there, rfl⟩ := Option.map_eq_some_iff.mp here
    exact ⟨owner, reached.grown.present made among, rfl, there⟩
  · intro owner other function name args values result _ _ apart
    rw [ResultCache.get_found, ResultCache.find?_insert, if_neg, ResultCache.get_found]
    exact fun same => apart (key_injective (congrArg CacheKey.scope same))

-- A function is shadowed in a scope and not in its sibling. What both calls of it came to is kept side by side.
def shelved : List CacheStep :=
  [.scope (.register 0 (.function ⟨"tint", none, false, true⟩)), .scope (.createChild 0), .scope (.createChild 0),
    .scope (.register 1 (.function ⟨"tint", none, false, true⟩)), .scope (.createChild 1),
    .keep 0 "tint" [] (.keyword "red"), .keep 1 "tint" [] (.keyword "teal")]

theorem shelved_reached : Reached shelved (shelved.foldl apply ⟨.root, .empty⟩) := by
  have one := Reached.root.step (.scope (.register 0 (.function ⟨"tint", none, false, true⟩))) (by decide)
  have two := one.step (.scope (.createChild 0)) (by decide)
  have three := two.step (.scope (.createChild 0)) (by decide)
  have four := three.step (.scope (.register 1 (.function ⟨"tint", none, false, true⟩))) (by decide)
  have five := four.step (.scope (.createChild 1)) (by decide)
  have six := five.step (.keep 0 "tint" [] (.keyword "red")) (by decide)
  exact six.step (.keep 1 "tint" [] (.keyword "teal")) (by decide)

theorem keys_identify_shelved :
    let state := shelved.foldl apply ⟨.root, .empty⟩
    (state.tree.key 3 = ⟨2, 3⟩ ∧ state.tree.key 1 ≠ state.tree.key 2) ∧
      (state.cache.get (.ofCall "tint" (state.tree.key 0) [])).1 = some (.keyword "red") ∧
      (state.cache.get (.ofCall "tint" (state.tree.key 1) [])).1 = some (.keyword "teal") ∧
      (state.cache.get (.ofCall "tint" (state.tree.key 2) [])).1 = none := by
  intro state
  obtain ⟨-, apart, -, -, -, looked, -⟩ := keys_identify shelved_reached
  refine ⟨⟨rfl, apart 1 2 (by decide) (by decide) (by decide)⟩, ?_, ?_, ?_⟩
  · exact (looked 0 "tint" [] (by decide)).trans rfl
  · exact (looked 1 "tint" [] (by decide)).trans rfl
  · exact (looked 2 "tint" [] (by decide)).trans rfl

end Keeping
end PluginBridge
