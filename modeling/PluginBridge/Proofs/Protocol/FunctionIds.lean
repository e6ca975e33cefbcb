import Mathlib.Data.List.Induction
import Mathlib.Data.List.Infix
import Mathlib.Data.List.Nodup
import Mathlib.Data.List.Range
import Mathlib.Tactic.Common
import PluginBridge.Proofs.Bytes.Words
import PluginBridge.Protocol.Host
namespace PluginBridge

inductive Registration where
  | register (name : String)
  | unregister (name : String)
deriving DecidableEq, Repr

theorem ProtocolHost.registerFunction_new {host : ProtocolHost} {name : String} (new : host.functionId? name = none) :
    ∃ id later, host.registerFunction name = ((id, true), later) ∧ later.block = host.block ∧
      later.functionId? name = some id := by
  refine ⟨UInt32.ofNat (host.functions.length + 1), { host with
    functions := host.functions ++ [(name, UInt32.ofNat (host.functions.length + 1))] }, ?_, rfl, ?_⟩
  · simp only [registerFunction, new]
  · rw [functionId?, Option.map_eq_none_iff] at new
    simp [functionId?, List.find?_append, new]

structure IdLedger where
  host : ProtocolHost
  handed : List UInt32

namespace IdLedger
variable {start : ProtocolHost} {steps : List Registration} {name : String}

def apply (ledger : IdLedger) : Registration → IdLedger
  | .register name =>
    let ((id, new), host) := ledger.host.registerFunction name
    ⟨host, if new then ledger.handed ++ [id] else ledger.handed⟩
  | .unregister name => ⟨(ledger.host.unregisterFunction name).2, ledger.handed⟩

def run (start : ProtocolHost) (steps : List Registration) : IdLedger :=
  steps.foldl apply ⟨start, []⟩

def Knows (start : ProtocolHost) (steps : List Registration) (name : String) : Prop :=
  ((run start steps).host.functionId? name).isSome

-- At every point two registered names have different ids, and no id is given to a new name
-- that was given to one before.
structure Unambiguous (start : ProtocolHost) (steps : List Registration) : Prop where
  apart : ∀ before, before <+: steps → ∀ first second id,
    (run start before).host.functionId? first = some id →
      (run start before).host.functionId? second = some id → first = second
  fresh : (run start steps).handed.Nodup

def Removed (start : ProtocolHost) (steps : List Registration) : Prop :=
  ∃ before name after, steps = before ++ .unregister name :: after ∧ Knows start before name

def RemovalsLast (start : ProtocolHost) (steps : List Registration) : Prop :=
  ∀ before name after, steps = before ++ .register name :: after → ¬ Knows start before name →
    ¬ Removed start before

theorem run_snoc (start : ProtocolHost) (steps : List Registration) (step : Registration) :
    run start (steps ++ [step]) = (run start steps).apply step := by
  simp [run]

theorem apply_known (known : Knows start steps name) :
    (run start steps).apply (.register name) = run start steps := by
  obtain ⟨id, found⟩ := Option.isSome_iff_exists.mp known
  simp [apply, ProtocolHost.registerFunction, found]

theorem apply_new (new : ¬ Knows start steps name) :
    (run start steps).apply (.register name) =
      let id := UInt32.ofNat ((run start steps).host.functions.length + 1)
      ⟨{ (run start steps).host with functions := (run start steps).host.functions ++ [(name, id)] },
        (run start steps).handed ++ [id]⟩ := by
  have found : (run start steps).host.functionId? name = none := by
    simpa [Knows] using new
  simp [apply, ProtocolHost.registerFunction, found]

theorem append_singleton_split {α : Type} {items before after : List α} {last item : α}
    (same : items ++ [last] = before ++ item :: after) :
    (items = before ∧ last = item) ∨ ∃ rest, items = before ++ item :: rest := by
  induction after using List.reverseRecOn with
  | nil =>
    obtain ⟨one, two⟩ := List.append_inj' same rfl
    exact .inl ⟨one, by simpa using two⟩
  | append_singleton after final _ =>
    rw [← List.cons_append, ← List.append_assoc] at same
    exact .inr ⟨after, (List.append_inj' same rfl).1⟩

theorem removed_snoc (step : Registration) : Removed start (steps ++ [step]) ↔
    Removed start steps ∨ ∃ name, step = .unregister name ∧ Knows start steps name := by
  constructor
  · rintro ⟨before, name, after, same, known⟩
    rcases append_singleton_split same with ⟨rfl, rfl⟩ | ⟨rest, rfl⟩
    · exact .inr ⟨name, rfl, known⟩
    · exact .inl ⟨before, name, rest, rfl, known⟩
  · rintro (⟨before, name, after, rfl, known⟩ | ⟨name, rfl, known⟩)
    · exact ⟨before, name, after ++ [step], by simp, known⟩
    · exact ⟨steps, name, [], rfl, known⟩

theorem removalsLast_snoc (step : Registration) : RemovalsLast start (steps ++ [step]) ↔
    RemovalsLast start steps ∧
      ∀ name, step = .register name → ¬ Knows start steps name → ¬ Removed start steps := by
  constructor
  · intro last
    refine ⟨fun before name after same => last before name (after ++ [step]) (by simp [same]), ?_⟩
    rintro name rfl
    exact last steps name [] rfl
  · rintro ⟨earlier, here⟩ before name after same
    rcases append_singleton_split same with ⟨rfl, rfl⟩ | ⟨rest, same⟩
    · exact here name rfl
    · exact earlier before name rest same

theorem unregister_shorter (host : ProtocolHost) (name : String) :
    (host.functionId? name).isSome ↔
      (host.unregisterFunction name).2.functions.length < host.functions.length := by
  rw [ProtocolHost.unregisterFunction, List.length_filter_lt_length_iff_exists]
  simp [ProtocolHost.functionId?]

theorem unregister_length (host : ProtocolHost) (name : String) :
    (host.unregisterFunction name).2.functions.length ≤ host.functions.length :=
  List.length_filter_le _ _

theorem ids_handed (fresh : start.functions = []) (steps : List Registration) :
    ((run start steps).host.functions.map Prod.snd).Sublist (run start steps).handed := by
  induction steps using List.reverseRecOn with
  | nil => simp [run, fresh]
  | append_singleton steps step ih =>
    rw [run_snoc]
    cases step with
    | register name =>
      by_cases known : Knows start steps name
      · rwa [apply_known known]
      · rw [apply_new known, List.map_append]
        exact ih.append (List.Sublist.refl _)
    | unregister name => exact (List.filter_sublist.map Prod.snd).trans ih

theorem handed_grows (step : Registration) :
    (run start steps).handed <+: (run start (steps ++ [step])).handed := by
  rw [run_snoc]
  cases step with
  | register name =>
    by_cases known : Knows start steps name
    · rw [apply_known known]
    · rw [apply_new known]
      exact List.prefix_append _ _
  | unregister name => exact List.prefix_refl _

theorem handed_earlier {before : List Registration} (earlier : before <+: steps) :
    (run start before).handed <+: (run start steps).handed := by
  obtain ⟨after, rfl⟩ := earlier
  induction after using List.reverseRecOn with
  | nil => rw [List.append_nil]
  | append_singleton after step ih =>
    rw [← List.append_assoc]
    exact ih.trans (handed_grows step)

theorem functionId_mem {host : ProtocolHost} {id : UInt32} (found : host.functionId? name = some id) :
    (name, id) ∈ host.functions := by
  obtain ⟨entry, first, rfl⟩ := Option.map_eq_some_iff.mp found
  have named : entry.1 = name := by simpa using List.find?_some first
  exact named ▸ List.mem_of_find?_eq_some first

theorem ids_apart (fresh : start.functions = []) (unique : (run start steps).handed.Nodup)
    {first second : String} {id : UInt32} (one : (run start steps).host.functionId? first = some id)
    (two : (run start steps).host.functionId? second = some id) : first = second := by
  have ids := (ids_handed fresh steps).nodup unique
  have same := List.inj_on_of_nodup_map ids (functionId_mem one) (functionId_mem two) rfl
  exact congrArg Prod.fst same

-- As long as removals come last, ids count the new names from one, and a name was removed
-- exactly if fewer are left than there were.
structure Counted (start : ProtocolHost) (steps : List Registration) : Prop where
  handed : (run start steps).handed =
    (List.range' 1 (run start steps).handed.length).map UInt32.ofNat
  least : (run start steps).host.functions.length ≤ (run start steps).handed.length
  removed : Removed start steps ↔
    (run start steps).host.functions.length < (run start steps).handed.length

theorem counted (fresh : start.functions = []) (last : RemovalsLast start steps) :
    Counted start steps := by
  induction steps using List.reverseRecOn with
  | nil =>
    refine ⟨rfl, by simp [run, fresh], ?_⟩
    simp [Removed, run, fresh]
  | append_singleton steps step ih =>
    obtain ⟨earlier, here⟩ := (removalsLast_snoc step).mp last
    obtain ⟨handed, least, removed⟩ := ih earlier
    cases step with
    | register name =>
      by_cases known : Knows start steps name
      · refine ⟨?_, ?_, ?_⟩
        · rwa [run_snoc, apply_known known]
        · rwa [run_snoc, apply_known known]
        · rw [run_snoc, apply_known known, removed_snoc, ← removed]
          simp
      · -- A new name is registered before any removal, so no name is missing.
        have full : ¬ (run start steps).host.functions.length < (run start steps).handed.length :=
          fun less => here name rfl known (removed.mpr less)
        refine ⟨?_, ?_, ?_⟩
        · rw [run_snoc, apply_new known]
          simp only [List.length_append, List.length_singleton, List.range'_concat, List.map_append]
          rw [← handed, List.map_singleton, Nat.one_mul, Nat.add_comm 1]
          congr 4
          omega
        · rw [run_snoc, apply_new known]
          simp only [List.length_append, List.length_singleton]
          omega
        · rw [run_snoc, apply_new known, removed_snoc, removed]
          simp only [List.length_append, List.length_singleton]
          simp
    | unregister name =>
      have shorter := unregister_shorter (run start steps).host name
      have bound := unregister_length (run start steps).host name
      refine ⟨?_, ?_, ?_⟩
      · rw [run_snoc]
        exact handed
      · rw [run_snoc]
        exact Nat.le_trans bound least
      · rw [run_snoc, removed_snoc, removed]
        simp only [Registration.unregister.injEq, exists_eq_left', Knows, apply, shorter]
        omega

theorem counting_nodup (count : Nat) :
    ((List.range' 1 count).map UInt32.ofNat).Nodup ↔ count ≤ 0x100000000 := by
  constructor
  · intro unique
    by_contra beyond
    have same : UInt32.ofNat 1 = UInt32.ofNat (1 + 0x100000000) := by decide
    have equal := List.inj_on_of_nodup_map unique (List.mem_range'_1.mpr (by omega))
      (List.mem_range'_1.mpr (by omega)) same
    omega
  · intro fits
    refine List.Nodup.map_on ?_ List.nodup_range'
    intro first one second two same
    have number := congrArg UInt32.toNat same
    simp only [UInt32.toNat_ofNat', List.mem_range'_1] at number one two
    omega

theorem fresh_removalsLast (fresh : start.functions = []) (unique : (run start steps).handed.Nodup) :
    RemovalsLast start steps := by
  induction steps using List.reverseRecOn with
  | nil =>
    intro before name after same
    simp at same
  | append_singleton steps step ih =>
    have earlier := ih ((handed_grows step).sublist.nodup unique)
    refine (removalsLast_snoc step).mpr ⟨earlier, ?_⟩
    rintro name rfl new removed
    have before := counted fresh earlier
    have fewer := before.removed.mp removed
    rw [run_snoc, apply_new new, before.handed] at unique
    have again : UInt32.ofNat ((run start steps).host.functions.length + 1) ∈
        (List.range' 1 (run start steps).handed.length).map UInt32.ofNat :=
      List.mem_map.mpr ⟨_, List.mem_range'_1.mpr (by omega), rfl⟩
    exact (List.nodup_append.mp unique).2.2 _ again _ List.mem_cons_self rfl

-- Ids stay unambiguous exactly in the runs that register no new name after a removal and no
-- more names than there are ids.
theorem unambiguous_iff (block : ProtocolRegion) (timeout : Duration) (steps : List Registration) :
    Unambiguous (.new block timeout) steps ↔ RemovalsLast (.new block timeout) steps ∧
      (run (.new block timeout) steps).handed.length ≤ 0x100000000 := by
  have fresh : (ProtocolHost.new block timeout).functions = [] := rfl
  constructor
  · intro unambiguous
    have last := fresh_removalsLast fresh unambiguous.fresh
    have unique := unambiguous.fresh
    rw [(counted fresh last).handed, counting_nodup] at unique
    exact ⟨last, unique⟩
  · rintro ⟨last, few⟩
    have unique : (run (.new block timeout) steps).handed.Nodup := by
      rw [(counted fresh last).handed]
      exact (counting_nodup _).mpr few
    refine ⟨fun before earlier first second id one two => ?_, unique⟩
    exact ids_apart fresh ((handed_earlier earlier).sublist.nodup unique) one two

-- After a removal the next new name takes the id that another name still has.
theorem id_given_twice : ¬ Unambiguous (.new ⟨⟨0⟩, .standard⟩ ⟨1⟩)
    [.register "a", .register "b", .unregister "a", .register "c"] := by
  intro unambiguous
  have same := unambiguous.apart _ (List.prefix_refl _) "b" "c" 2 (by decide) (by decide)
  exact absurd same (by decide)

end IdLedger
end PluginBridge
