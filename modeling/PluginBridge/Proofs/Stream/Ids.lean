import PluginBridge.Proofs.Stream.Waits
namespace PluginBridge

theorem getElem?_set_cases {α : Type} {items : List α} {index place : Nat} {next item : α}
    (found : (items.set index next)[place]? = some item) :
    place = index ∧ item = next ∨ place ≠ index ∧ items[place]? = some item := by
  rw [List.getElem?_set] at found
  split at found
  · split at found
    · exact .inl ⟨Eq.symm ‹_›, (Option.some.inj found).symm⟩
    · cases found
  · exact .inr ⟨Ne.symm ‹_›, found⟩

namespace SendStage
variable {id : Nat} {stage : SendStage}

theorem Awaits.enlisted (awaits : stage.Awaits id) : stage.Enlisted id := by
  cases stage with
  | enrolled own | written own => exact awaits
  | entered | numbered | returned => exact awaits.elim

theorem Enlisted.id? (enlisted : stage.Enlisted id) : stage.id? = some id := by
  cases stage with
  | enrolled own | written own | returned own => exact congrArg some enlisted
  | entered | numbered => exact enlisted.elim

end SendStage

namespace StreamCall
variable {id : Nat} {call : StreamCall}

theorem Awaits.enlisted (awaits : call.Awaits id) : call.Enlisted id := by
  cases call with
  | send command data timeout stage => exact SendStage.Awaits.enlisted awaits
  | notify command data stage => exact awaits

theorem Enlisted.id? (enlisted : call.Enlisted id) : call.id? = some id := by
  cases call with
  | send command data timeout stage => exact SendStage.Enlisted.id? enlisted
  | notify command data stage => exact enlisted.elim

namespace Proceeds
variable {next : StreamCall} {before after : Multiplexer} (does : call.Proceeds before next after)
include does

theorem lastId_le : before.lastId ≤ after.lastId := by
  rcases does.ids with ⟨-, same⟩ | ⟨-, -, more⟩ <;> omega

theorem own (mine : next.id? = some id) : call.id? = some id ∨ id = before.lastId + 1 ∧ after.lastId = id := by
  rcases does.ids with ⟨same, -⟩ | ⟨-, new, more⟩
  · exact .inl (same ▸ mine)
  · cases new.symm.trans mine
    exact .inr ⟨rfl, more⟩

theorem taken_after {taken : List Nat} (ordered : taken = List.range' 1 before.lastId) :
    (if call.id? = none then taken ++ next.id?.toList else taken) = List.range' 1 after.lastId := by
  rcases does.ids with ⟨same, last⟩ | ⟨none, new, last⟩
  · have nothing : (if call.id? = none then taken ++ next.id?.toList else taken) = taken := by
      split
      · rename_i none
        rw [same, none, Option.toList_none, List.append_nil]
      · rfl
    rw [nothing, ordered, last]
  · rw [if_pos none, new, ordered, last, List.range'_1_concat, Nat.add_comm 1]
    rfl

end Proceeds
end StreamCall

namespace Traffic
open StreamCall
variable {traffic : Traffic} {after : Multiplexer} {index place id : Nat} {call : StreamCall}

-- Ids are taken one after the other and no call shares its id. Whoever waits is a call whose wait is not over.
structure Sound (traffic : Traffic) : Prop where
  tidy : traffic.mux.Tidy
  taken : traffic.taken = List.range' 1 traffic.mux.lastId
  ids : ∀ (index : Nat) call id, traffic.calls[index]? = some call → call.id? = some id → id ≤ traffic.mux.lastId
  apart : ∀ (index other : Nat) one two id, traffic.calls[index]? = some one → traffic.calls[other]? = some two →
    one.id? = some id → two.id? = some id → index = other
  waits : ∀ id ∈ traffic.mux.waiting, ∃ (index : Nat) (call : StreamCall), traffic.calls[index]? = some call ∧ call.Awaits id
  told : ∀ entry ∈ traffic.mux.delivered, ∃ (index : Nat) (call : StreamCall),
    traffic.calls[index]? = some call ∧ call.Enlisted entry.1

namespace Sound

theorem new : Sound new := ⟨⟨nofun, nofun⟩, rfl, nofun, nofun, nofun, nofun⟩

theorem same (sound : Sound traffic) (found : traffic.calls[index]? = some call) (mine : call.id? = some id)
    {other : StreamCall} (there : traffic.calls[place]? = some other) (theirs : other.id? = some id) : other = call := by
  obtain rfl := sound.apart index place call other id found there mine theirs
  exact Option.some.inj (there.symm.trans found)

theorem onMux (sound : Sound traffic) (tidy : after.Tidy) (lastId : after.lastId = traffic.mux.lastId)
    (waiting : ∀ id ∈ after.waiting, id ∈ traffic.mux.waiting)
    (delivered : ∀ entry ∈ after.delivered, entry ∈ traffic.mux.delivered ∨ entry.1 ∈ traffic.mux.waiting) :
    Sound { traffic with mux := after } where
  tidy := tidy
  taken := sound.taken.trans (by rw [lastId])
  ids := fun index call id found mine => lastId ▸ sound.ids index call id found mine
  apart := sound.apart
  waits := fun id among => sound.waits id (waiting id among)
  told := fun entry among => by
    rcases delivered entry among with old | waited
    · exact sound.told entry old
    · obtain ⟨index, call, found, awaits⟩ := sound.waits entry.1 waited
      exact ⟨index, call, found, awaits.enlisted⟩

theorem beside (sound : Sound traffic) (beside : Multiplexer.Beside traffic.mux after) :
    Sound { traffic with mux := after } := by
  refine sound.onMux ⟨fun entry among => ?_, fun closed => ?_⟩ beside.lastId (fun id among => beside.waiting ▸ among)
    fun entry among => .inl (beside.delivered ▸ among)
  · rw [beside.delivered] at among
    rw [beside.waiting]
    exact sound.tidy.1 entry among
  · rw [beside.waiting]
    exact sound.tidy.2 (beside.closed ▸ closed)

theorem complete (sound : Sound traffic) (id : Nat) (outcome : Except StreamError Json) :
    Sound { traffic with mux := traffic.mux.complete id outcome } := by
  by_cases waits : id ∈ traffic.mux.waiting
  · rw [Multiplexer.complete, if_pos (List.contains_iff_mem.mpr waits)]
    refine sound.onMux ⟨fun entry among inside => ?_, fun closed => ?_⟩ rfl (fun id among => (List.mem_filter.mp among).1)
      fun entry among => ?_
    · obtain ⟨still, other⟩ := List.mem_filter.mp inside
      rcases List.mem_append.mp among with old | new
      · exact sound.tidy.1 entry old still
      · cases List.mem_singleton.mp new
        simp at other
    · rw [sound.tidy.2 closed] at waits
      cases waits
    · rcases List.mem_append.mp among with old | new
      · exact .inl old
      · cases List.mem_singleton.mp new
        exact .inr waits
  · rw [Multiplexer.complete, if_neg (waits ∘ List.contains_iff_mem.mp)]
    exact sound

theorem called (sound : Sound traffic) (fresh : call.id? = none) :
    Sound { traffic with calls := traffic.calls ++ [call] } := by
  have cases : ∀ {index : Nat} {other : StreamCall}, (traffic.calls ++ [call])[index]? = some other →
      traffic.calls[index]? = some other ∨ other = call := by
    intro index other found
    rw [List.getElem?_append] at found
    split at found
    · exact .inl found
    · exact .inr (List.mem_singleton.mp (List.mem_of_getElem? found))
  have kept : ∀ {index : Nat} {other : StreamCall}, traffic.calls[index]? = some other →
      (traffic.calls ++ [call])[index]? = some other := by
    intro index other found
    rw [List.getElem?_append_left (List.getElem?_eq_some_iff.mp found).1, found]
  have numbered : ∀ {index : Nat} {other : StreamCall} {id : Nat}, (traffic.calls ++ [call])[index]? = some other →
      other.id? = some id → traffic.calls[index]? = some other := by
    intro index other id found mine
    rcases cases found with old | rfl
    · exact old
    · rw [fresh] at mine
      cases mine
  exact {
    tidy := sound.tidy
    taken := sound.taken
    ids := fun index other id found mine => sound.ids index other id (numbered found mine) mine
    apart := fun index other one two id here there mine theirs =>
      sound.apart index other one two id (numbered here mine) (numbered there theirs) mine theirs
    waits := fun id among => by
      obtain ⟨index, other, found, awaits⟩ := sound.waits id among
      exact ⟨index, other, kept found, awaits⟩
    told := fun entry among => by
      obtain ⟨index, other, found, enlisted⟩ := sound.told entry among
      exact ⟨index, other, kept found, enlisted⟩ }

section Stepping
variable {next : StreamCall} (sound : Sound traffic) (found : traffic.calls[index]? = some call)
  (does : call.Proceeds traffic.mux next after)
include sound found does

theorem tidy_after : after.Tidy := by
  refine ⟨fun entry among waits => ?_, fun closed => ?_⟩
  · have old := does.delivered entry among
    rcases does.enrols entry.1 waits with before | ⟨mine, late, -⟩
    · exact sound.tidy.1 entry old before
    · obtain ⟨place, other, there, enlisted⟩ := sound.told entry old
      exact late (sound.same found mine there enlisted.id? ▸ enlisted)
  · refine List.eq_nil_iff_forall_not_mem.mpr fun id among => ?_
    have ended : traffic.mux.closed = true := does.closed ▸ closed
    rcases does.enrols id among with before | ⟨-, -, opened⟩
    · rw [sound.tidy.2 ended] at before
      cases before
    · rw [ended] at opened
      cases opened

theorem alone {place : Nat} {other : StreamCall} (apart : place ≠ index) (there : traffic.calls[place]? = some other)
    (mine : next.id? = some id) : other.id? ≠ some id := by
  intro theirs
  rcases does.own mine with old | new
  · exact apart (sound.apart place index other call id there found theirs old)
  · have := sound.ids place other _ there theirs
    omega

theorem stepped : Sound ⟨after, traffic.calls.set index next,
    if call.id? = none then traffic.taken ++ next.id?.toList else traffic.taken⟩ := by
  have here : (traffic.calls.set index next)[index]? = some next :=
    List.getElem?_set_self (List.getElem?_eq_some_iff.mp found).1
  have elsewhere : ∀ {place : Nat} {other : StreamCall}, place ≠ index → traffic.calls[place]? = some other →
      (traffic.calls.set index next)[place]? = some other := fun apart there =>
    (List.getElem?_set_ne apart.symm).trans there
  refine ⟨sound.tidy_after found does, does.taken_after sound.taken, fun place other id there mine => ?_,
    fun place other one two id there theirs mine also => ?_, fun id among => ?_, fun entry among => ?_⟩
  · rcases getElem?_set_cases there with ⟨rfl, rfl⟩ | ⟨apart, before⟩
    · -- A call keeps its id or takes the next one, which nobody has.
      rcases does.own mine with old | new
      · exact Nat.le_trans (sound.ids place call id found old) does.lastId_le
      · exact Nat.le_of_eq new.2.symm
    · exact Nat.le_trans (sound.ids place other id before mine) does.lastId_le
  · rcases getElem?_set_cases there with ⟨rfl, rfl⟩ | ⟨far, before⟩ <;>
      rcases getElem?_set_cases theirs with ⟨rfl, rfl⟩ | ⟨away, prior⟩
    · rfl
    · exact absurd also (sound.alone found does away prior mine)
    · exact absurd mine (sound.alone found does far before also)
    · exact sound.apart place other one two id before prior mine also
  · rcases does.waiting id among with awaits | ⟨before, out⟩
    · exact ⟨index, next, here, awaits⟩
    · obtain ⟨place, other, there, awaits⟩ := sound.waits id before
      have apart : place ≠ index := by
        rintro rfl
        exact out (Option.some.inj (there.symm.trans found) ▸ awaits)
      exact ⟨place, other, elsewhere apart there, awaits⟩
  · obtain ⟨place, other, there, enlisted⟩ := sound.told entry (does.delivered entry among)
    by_cases apart : place = index
    · subst apart
      cases there.symm.trans found
      exact ⟨place, next, here, does.enlisted entry.1 enlisted⟩
    · exact ⟨place, other, elsewhere apart there, enlisted⟩

end Stepping

theorem proceed (sound : Sound traffic) (index : Nat) : Sound (traffic.proceed index) := by
  unfold Traffic.proceed
  split
  · exact sound
  · rename_i call found
    exact sound.stepped found (proceed_proceeds call sound.tidy)

theorem advance (sound : Sound traffic) (event : StreamEvent) : Sound (traffic.advance event) := by
  cases event with
  | send command data timeout => exact sound.called rfl
  | notify command data => exact sound.called rfl
  | proceed index => exact sound.proceed index
  | line text =>
    rcases Multiplexer.receive_answer text traffic.mux with ⟨-, id, outcome, -, same⟩ | ⟨-, beside⟩
    · rw [Traffic.advance, same]
      exact sound.complete id outcome
    · exact sound.beside beside
  | answer id outcome => exact sound.beside (Multiplexer.writeLine_beside _ _)
  | closeWriter => exact sound.beside ⟨rfl, rfl, rfl, rfl⟩
  | breakWriter => exact sound.beside (Multiplexer.breakWriter_beside _)
  | close => exact sound.onMux ⟨nofun, fun _ => rfl⟩ rfl nofun fun entry among => .inl among

theorem resumed (sound : Sound traffic) (events : List StreamEvent) : Sound (events.foldl Traffic.advance traffic) := by
  induction events generalizing traffic with
  | nil => exact sound
  | cons event rest ih => exact ih (sound.advance event)

end Sound

theorem run_sound (events : List StreamEvent) : Sound (run events) := Sound.new.resumed events

end Traffic
end PluginBridge
