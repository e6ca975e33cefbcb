import PluginBridge.Proofs.Members
import PluginBridge.Proofs.Scope.Histories
namespace PluginBridge

def Missing (entries : List ScopeEntry) (name : String) : Prop :=
  ∀ spec, .function spec ∈ entries → spec.name ≠ name

def Latest (entries : List ScopeEntry) (name : String) (spec : FunctionSpec) : Prop :=
  spec.name = name ∧ ∃ earlier later, entries = earlier ++ .function spec :: later ∧ Missing later name

def Nearest (steps : List ScopeStep) (path : List Nat) (name : String) (spec : FunctionSpec) (owner : Nat) : Prop :=
  ∃ near far, path = near ++ owner :: far ∧ Latest (registered owner steps) name spec ∧
    ∀ inner ∈ near, Missing (registered inner steps) name

namespace Members
variable {α : Type}

theorem insert_names (name key : String) (value : α) (members : Members α) :
    name ∈ (insert key value members).map Prod.fst ↔ name = key ∨ name ∈ members.map Prod.fst := by
  induction members with
  | nil => simp [insert]
  | cons entry rest ih =>
    obtain ⟨first, old⟩ := entry
    rw [insert]
    split
    · rename_i same
      simp [same]
    · split
      · simp
      · rw [List.map_cons, List.mem_cons, ih, List.map_cons, List.mem_cons, or_left_comm]

theorem ofList_names (name : String) (entries : List (String × α)) :
    name ∈ (ofList entries).map Prod.fst ↔ name ∈ entries.map Prod.fst := by
  induction entries using List.reverseRecOn with
  | nil => rfl
  | append_singleton entries last ih =>
    rw [ofList_snoc, insert_names, ih, List.map_append, List.mem_append, List.map_singleton, List.mem_singleton,
      or_comm]

theorem get?_isSome (name : String) (members : Members α) :
    (get? name members).isSome ↔ name ∈ members.map Prod.fst := by
  induction members with
  | nil => simp [get?]
  | cons entry rest ih =>
    obtain ⟨key, value⟩ := entry
    rw [get?, List.map_cons, List.mem_cons, ← ih]
    split
    · rename_i same
      simp [same]
    · rename_i other
      simp [Ne.symm other]

end Members

namespace Registrations
variable {entries earlier later : List ScopeEntry} {entry : ScopeEntry} {name : String} {spec : FunctionSpec}

theorem get?_add_function (holder : Registrations) (spec : FunctionSpec) (name : String) :
    (holder.add (.function spec)).functions.get? name =
      if spec.name = name then some spec else holder.functions.get? name := Members.get?_insert ..

theorem get?_add_other (holder : Registrations) (other : Missing [entry] name) :
    (holder.add entry).functions.get? name = holder.functions.get? name := by
  cases entry with
  | function spec => rw [get?_add_function, if_neg (other spec (List.mem_singleton_self _))]
  | visitor | preProcessor | postProcessor | fileManager => rfl

theorem get?_later (missing : Missing later name) :
    (ofList (earlier ++ later)).functions.get? name = (ofList earlier).functions.get? name := by
  induction later using List.reverseRecOn with
  | nil => rw [List.append_nil]
  | append_singleton later last ih =>
    have before : Missing later name := fun spec among => missing spec (List.mem_append_left _ among)
    have here : Missing [last] name := fun spec among => missing spec (List.mem_append_right _ among)
    rw [← List.append_assoc, ofList_snoc, get?_add_other _ here, ih before]

theorem get?_missing (missing : Missing entries name) : (ofList entries).functions.get? name = none := by
  rw [← List.nil_append entries, get?_later missing]
  rfl

theorem get?_latest (latest : Latest entries name spec) : (ofList entries).functions.get? name = some spec := by
  obtain ⟨named, earlier, later, rfl, missing⟩ := latest
  rw [List.append_cons, get?_later missing, ofList_snoc, get?_add_function, if_pos named]

theorem missing_or_latest (entries : List ScopeEntry) (name : String) :
    Missing entries name ∨ ∃ spec, Latest entries name spec := by
  induction entries using List.reverseRecOn with
  | nil => exact .inl fun _ among => by cases among
  | append_singleton entries last ih =>
    by_cases here : Missing [last] name
    · rcases ih with missing | ⟨spec, named, earlier, later, rfl, missing⟩
      · refine .inl fun spec among => ?_
        exact (List.mem_append.mp among).elim (missing spec) (here spec)
      · refine .inr ⟨spec, named, earlier, later ++ [last], by simp, fun other among => ?_⟩
        exact (List.mem_append.mp among).elim (missing other) (here other)
    · simp only [Missing, not_forall, not_not, List.mem_singleton, exists_prop] at here
      obtain ⟨spec, rfl, named⟩ := here
      exact .inr ⟨spec, named, entries, [], rfl, fun _ among => by cases among⟩

theorem get?_none_iff : (ofList entries).functions.get? name = none ↔ Missing entries name := by
  refine ⟨fun absent => ?_, get?_missing⟩
  rcases missing_or_latest entries name with missing | ⟨spec, latest⟩
  · exact missing
  · cases absent.symm.trans (get?_latest latest)

theorem get?_some_iff : (ofList entries).functions.get? name = some spec ↔ Latest entries name spec := by
  refine ⟨fun found => ?_, get?_latest⟩
  rcases missing_or_latest entries name with missing | ⟨other, latest⟩
  · cases found.symm.trans (get?_missing missing)
  · cases found.symm.trans (get?_latest latest)
    exact latest

end Registrations

namespace Hierarchy
variable {tree : Hierarchy} {steps : List ScopeStep} {step : ScopeStep} {scope owner : Nat} {name : String}
  {spec : FunctionSpec} {bound : BoundFunction}

theorem Grown.getLocal?_some (grown : Grown steps tree) :
    tree.getLocal? scope name = some spec ↔ Latest (registered scope steps) name spec := by
  rw [getLocal?, grown.entries, Registrations.get?_some_iff]

theorem Grown.getLocal?_none (grown : Grown steps tree) :
    tree.getLocal? scope name = none ↔ Missing (registered scope steps) name := by
  rw [getLocal?, grown.entries, Registrations.get?_none_iff]

theorem Grown.lookup_some (grown : Grown steps tree) : tree.lookupFunction? scope name = some bound ↔
    ∃ owner, Nearest steps (tree.path scope) name bound.spec owner ∧ bound.origin = tree.key owner := by
  rw [lookupFunction?, List.findSome?_eq_some_iff]
  constructor
  · rintro ⟨near, owner, far, split, found, absent⟩
    obtain ⟨spec, here, rfl⟩ := Option.map_eq_some_iff.mp found
    refine ⟨owner, ⟨near, far, split, grown.getLocal?_some.mp here, fun inner among => ?_⟩, rfl⟩
    exact grown.getLocal?_none.mp (Option.map_eq_none_iff.mp (absent inner among))
  · rintro ⟨owner, ⟨near, far, split, latest, missing⟩, origin⟩
    refine ⟨near, owner, far, split, ?_, fun inner among => ?_⟩
    · rw [grown.getLocal?_some.mpr latest, Option.map_some, ← origin]
    · rw [grown.getLocal?_none.mpr (missing inner among), Option.map_none]

theorem Grown.lookup_none (grown : Grown steps tree) : tree.lookupFunction? scope name = none ↔
    ∀ s ∈ tree.path scope, Missing (registered s steps) name := by
  simp only [lookupFunction?, List.findSome?_eq_none_iff, Option.map_eq_none_iff, grown.getLocal?_none]

theorem Grown.lookup_unseen (grown : Grown steps tree) (made : scope < tree.scopes.size)
    (outside : step.scope ∉ tree.path scope) :
    (tree.apply step).lookupFunction? scope name = tree.lookupFunction? scope name := by
  obtain ⟨path, kept⟩ := grown.unseen made outside
  rw [lookupFunction?, path, lookupFunction?, ← List.head?_filterMap, ← List.head?_filterMap]
  refine congrArg List.head? (List.filterMap_congr fun s among => ?_)
  obtain ⟨entries, key⟩ := kept s among
  rw [getLocal?, entries, key, getLocal?]

theorem functionNames_ascend (tree : Hierarchy) (scope : Nat) : (tree.functionNames scope).Pairwise (· < ·) :=
  List.pairwise_map.mpr (Members.ofList_ascending _)

theorem mem_functionNames (tree : Hierarchy) (scope : Nat) (name : String) :
    name ∈ tree.functionNames scope ↔ (tree.lookupFunction? scope name).isSome := by
  have names : ∀ held : List String, (held.map fun name => (name, ())).map Prod.fst = held := fun held => by
    rw [List.map_map]
    exact List.map_id held
  simp only [functionNames, Members.ofList_names, names, List.mem_flatMap, lookupFunction?,
    List.isSome_findSome?, List.any_eq_true, Option.isSome_map, getLocal?, Members.get?_isSome]

-- A look-up finds the function registered last under the name in the nearest scope that has one since it was
-- reset, and is left alone by whatever is done with a scope that does not surround its own.
theorem lookup_shadowed (grown : Grown steps tree) (made : scope < tree.scopes.size) :
    Lineage steps scope (tree.path scope) ∧
    (∀ name spec origin, tree.lookupFunction? scope name = some ⟨spec, origin⟩ ↔
      ∃ owner, Nearest steps (tree.path scope) name spec owner ∧ origin = tree.key owner) ∧
    (∀ name, tree.lookupFunction? scope name = none ↔
      ∀ s ∈ tree.path scope, Missing (registered s steps) name) ∧
    ((tree.functionNames scope).Pairwise (· < ·) ∧
      ∀ name, name ∈ tree.functionNames scope ↔ (tree.lookupFunction? scope name).isSome) ∧
    ∀ step : ScopeStep,
      (step.scope ∉ tree.path scope →
        ∀ name, (tree.apply step).lookupFunction? scope name = tree.lookupFunction? scope name) ∧
      (step.scope ≠ scope → ∀ name, (tree.apply step).getLocal? scope name = tree.getLocal? scope name) := by
  refine ⟨grown.line made, fun name spec origin => grown.lookup_some, fun name => grown.lookup_none,
    ⟨functionNames_ascend tree scope, mem_functionNames tree scope⟩, fun step => ⟨?_, ?_⟩⟩
  · exact fun outside name => grown.lookup_unseen made outside
  · intro apart name
    rw [getLocal?, apply_entries_apart apart, getLocal?]

-- A function is shadowed for the scopes inside of the one that has another of its name, for as long as that
-- one is not reset.
def overlaid : List ScopeStep :=
  [.createChild 0, .register 0 (.function (.new "tint")), .register 1 (.function ⟨"tint", some .json, false, false⟩),
    .createChild 1, .createChild 0, .reset 1, .register 1 (.function ⟨"tint", none, true, false⟩)]

theorem overlaid_grown : Grown overlaid (overlaid.foldl apply root) := Grown.root.run (by decide)

theorem lookup_shadowed_overlaid :
    (overlaid.foldl apply root).lookupFunction? 2 "tint" = some ⟨⟨"tint", none, true, false⟩, 1, 1⟩ ∧
      (overlaid.foldl apply root).lookupFunction? 3 "tint" = some ⟨.new "tint", 0, 0⟩ ∧
      (overlaid.foldl apply root).lookupFunction? 2 "shade" = none := by
  have made : (overlaid.foldl apply root).scopes.size = 4 := overlaid_grown.size
  have inner := lookup_shadowed overlaid_grown (made ▸ by decide : 2 < (overlaid.foldl apply root).scopes.size)
  have outer := lookup_shadowed overlaid_grown (made ▸ by decide : 3 < (overlaid.foldl apply root).scopes.size)
  have bare : ∀ name, Missing [] name := fun _ _ among => by cases among
  have path : (overlaid.foldl apply root).path 2 = [2, 1, 0] := rfl
  have atRoot : registered 0 overlaid = [.function (.new "tint")] := rfl
  have within : registered 1 overlaid = [.function ⟨"tint", none, true, false⟩] := rfl
  refine ⟨(inner.2.1 _ _ _).mpr ⟨1, ⟨[2], [0], rfl, ⟨rfl, [], [], within, bare _⟩, ?_⟩, rfl⟩,
    (outer.2.1 _ _ _).mpr ⟨0, ⟨[3], [], rfl, ⟨rfl, [], [], atRoot, bare _⟩, ?_⟩, rfl⟩, (inner.2.2.1 _).mpr ?_⟩
  · exact List.forall_mem_singleton.mpr (bare _)
  · exact List.forall_mem_singleton.mpr (bare _)
  · rw [path]
    refine List.forall_mem_cons.mpr ⟨bare _, List.forall_mem_cons.mpr ⟨?_, List.forall_mem_singleton.mpr ?_⟩⟩
    · rw [within]
      simp [Missing]
    · rw [atRoot]
      simp [Missing, FunctionSpec.new]

end Hierarchy
end PluginBridge
