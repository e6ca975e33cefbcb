import Mathlib.Tactic.Common
import PluginBridge.Proofs.Dispatch.Turns
import PluginBridge.Proofs.Stream.Lines
import PluginBridge.Proofs.Stream.Traffic
namespace PluginBridge

namespace Message
variable {id : Nat} {line : String}

theorem answer_result {result : Json} (small : id < wordLimit) (readable : result.Readable)
    (shallow : result.levels < Json.maxLevels) :
    answer? (Response.ok id result).line = some (id, .ok result) := by
  obtain ⟨reply, parsed, rfl, outcome⟩ := parse_result small readable shallow
  have shown : Text.isBlank (Response.ok reply.id result).line = false := Json.isBlank_renderFields _
  rw [answer?, shown, parsed]
  simp only [Bool.false_eq_true, if_false, outcome]
  rfl

theorem answer_broken (shown : Text.isBlank line = false) (broken : (parse? line).isNone = true)
    (found : responseId? line = some id) : answer? line = some (id, .error .malformed) := by
  rw [answer?, shown, Option.isNone_iff_eq_none.mp broken, found]
  rfl

end Message

namespace Multiplexer
variable {id other : Nat} {mux after : Multiplexer} {outcome : Except StreamError Json}

structure Beside (before after : Multiplexer) : Prop where
  lastId : after.lastId = before.lastId
  waiting : after.waiting = before.waiting
  delivered : after.delivered = before.delivered
  closed : after.closed = before.closed

theorem Beside.same : Beside mux mux := ⟨rfl, rfl, rfl, rfl⟩

theorem Beside.fate (beside : Beside mux after) (id : Nat) : after.fate id = mux.fate id := by
  rw [Multiplexer.fate, Multiplexer.fate, arrived?, arrived?, beside.waiting, beside.delivered]

theorem writeLine_beside (line : String) (mux : Multiplexer) : Beside mux (mux.writeLine line).2 := by
  unfold writeLine
  split <;> exact ⟨rfl, rfl, rfl, rfl⟩

theorem breakWriter_beside (mux : Multiplexer) : Beside mux mux.breakWriter := by
  unfold breakWriter
  split <;> exact ⟨rfl, rfl, rfl, rfl⟩

theorem receive_answer (line : String) (mux : Multiplexer) :
    (mux.closed = false ∧ ∃ id outcome, Message.answer? line = some (id, outcome) ∧
      (mux.receive line).2 = mux.complete id outcome) ∨
    (mux.closed = true ∨ Message.answer? line = none) ∧ Beside mux (mux.receive line).2 := by
  unfold receive Message.answer?
  cases closed : mux.closed with
  | true => exact .inr ⟨.inl rfl, by simpa using Beside.same⟩
  | false =>
    cases blank : Text.isBlank line with
    | true => exact .inr ⟨.inr rfl, by simpa using Beside.same⟩
    | false =>
      cases parsed : Message.parse? line with
      | some message =>
        cases message with
        | response reply => exact .inl ⟨rfl, reply.id, _, rfl, rfl⟩
        | callback callback => exact .inr ⟨.inr rfl, .same⟩
        | request request => exact .inr ⟨.inr rfl, writeLine_beside _ mux⟩
      | none =>
        cases broken : Message.responseId? line with
        | some id => exact .inl ⟨rfl, id, .error .malformed, rfl, rfl⟩
        | none => exact .inr ⟨.inr rfl, .same⟩

def Tidy (mux : Multiplexer) : Prop :=
  (∀ entry ∈ mux.delivered, entry.1 ∉ mux.waiting) ∧ (mux.closed = true → mux.waiting = [])

theorem Tidy.arrived (tidy : mux.Tidy) (waits : id ∈ mux.waiting) :
    mux.delivered.find? (fun entry => entry.1 == id) = none := by
  refine List.find?_eq_none.mpr fun entry among same => ?_
  exact tidy.1 entry among (beq_iff_eq.mp same ▸ waits)

theorem complete_fate (tidy : mux.Tidy) (id other : Nat) (outcome : Except StreamError Json) :
    (mux.complete other outcome).fate id = (mux.fate id).or (if other = id then some outcome else none) := by
  by_cases waits : other ∈ mux.waiting
  · rw [complete, if_pos (List.contains_iff_mem.mpr waits)]
    by_cases same : other = id
    · subst same
      simp [fate, forget, arrived?, waits, List.find?_append, tidy.arrived waits]
    · simp [fate, forget, arrived?, same, Ne.symm same, List.find?_append]
  · rw [complete, if_neg (waits ∘ List.contains_iff_mem.mp)]
    by_cases same : other = id
    · subst same
      simp [fate, waits]
    · simp [same]

theorem close_fate (tidy : mux.Tidy) (id : Nat) : mux.close.fate id = (mux.fate id).or (some (.error .disconnected)) := by
  by_cases waits : id ∈ mux.waiting
  · simp [fate, close, waits, arrived?, tidy.arrived waits]
  · simp [fate, close, waits, arrived?]

theorem finish_fate (tidy : mux.Tidy) (id : Nat) (command : String) (timeout : Duration) :
    (mux.finish id command timeout).1 = (mux.fate id).getD (.error (.timeout command timeout)) := by
  unfold finish
  by_cases waits : id ∈ mux.waiting
  · simp [fate, waits, tidy.arrived waits]
  · cases came : mux.delivered.find? fun entry => entry.1 == id with
    | some entry => simp [fate, waits, arrived?, came]
    | none => simp [fate, waits, arrived?, came]

end Multiplexer

def SendStage.Awaits (id : Nat) : SendStage → Prop
  | .enrolled own | .written own => own = id
  | _ => False

def SendStage.Enlisted (id : Nat) : SendStage → Prop
  | .enrolled own | .written own | .returned own _ => own = id
  | _ => False

namespace StreamCall
open Multiplexer (Tidy)
variable {id : Nat} {call next : StreamCall} {mux after : Multiplexer}

def Awaits (id : Nat) : StreamCall → Prop
  | .send _ _ _ stage => stage.Awaits id
  | .notify .. => False

def Enlisted (id : Nat) : StreamCall → Prop
  | .send _ _ _ stage => stage.Enlisted id
  | .notify .. => False

-- What one step of a call does. It takes the next id if it takes one, and touches no wait but its own.
structure Proceeds (call : StreamCall) (before : Multiplexer) (next : StreamCall) (after : Multiplexer) : Prop where
  closed : after.closed = before.closed
  ids : next.id? = call.id? ∧ after.lastId = before.lastId ∨
    call.id? = none ∧ next.id? = some (before.lastId + 1) ∧ after.lastId = before.lastId + 1
  delivered : ∀ entry ∈ after.delivered, entry ∈ before.delivered
  waiting : ∀ id ∈ after.waiting, next.Awaits id ∨ id ∈ before.waiting ∧ ¬ call.Awaits id
  enrols : ∀ id ∈ after.waiting, id ∈ before.waiting ∨ call.id? = some id ∧ ¬ call.Enlisted id ∧ before.closed = false
  enlisted : ∀ id, call.Enlisted id → next.Enlisted id
  others : ∀ id, call.id? ≠ some id → after.fate id = before.fate id

theorem Proceeds.beside (beside : Multiplexer.Beside mux after) (same : next.id? = call.id?)
    (waits : ∀ id, call.Awaits id → next.Awaits id) (enlisted : ∀ id, call.Enlisted id → next.Enlisted id) :
    call.Proceeds mux next after where
  closed := beside.closed
  ids := .inl ⟨same, beside.lastId⟩
  delivered := fun _ among => beside.delivered ▸ among
  waiting := fun id among => by
    rw [beside.waiting] at among
    exact (em (call.Awaits id)).imp (waits id) fun none => ⟨among, none⟩
  enrols := fun _ among => .inl (beside.waiting ▸ among)
  enlisted := enlisted
  others := fun id _ => beside.fate id

theorem Proceeds.numbers (none : call.id? = none) (numbered : next.id? = some (mux.lastId + 1))
    (early : ∀ id, ¬ call.Awaits id) (enlisted : ∀ id, ¬ call.Enlisted id) :
    call.Proceeds mux next mux.nextId.2 where
  closed := rfl
  ids := .inr ⟨none, numbered, rfl⟩
  delivered := fun _ among => among
  waiting := fun id among => .inr ⟨among, early id⟩
  enrols := fun _ among => .inl among
  enlisted := fun id already => absurd already (enlisted id)
  others := fun _ _ => rfl

theorem Proceeds.ends {own : Nat} (awaits : ∀ id, call.Awaits id ↔ own = id) (same : next.id? = call.id?)
    (mine : call.id? = some own) (enlisted : ∀ id, call.Enlisted id → next.Enlisted id)
    (lastId : after.lastId = mux.lastId) (closed : after.closed = mux.closed)
    (waiting : ∀ id, id ∈ after.waiting ↔ id ∈ mux.waiting ∧ id ≠ own)
    (delivered : ∀ entry ∈ after.delivered, entry ∈ mux.delivered)
    (arrived : ∀ id, id ≠ own → after.arrived? id = mux.arrived? id) : call.Proceeds mux next after where
  closed := closed
  ids := .inl ⟨same, lastId⟩
  delivered := delivered
  waiting := fun id among => .inr ⟨((waiting id).mp among).1, fun mine => ((waiting id).mp among).2 ((awaits id).mp mine).symm⟩
  enrols := fun id among => .inl ((waiting id).mp among).1
  enlisted := enlisted
  others := fun id other => by
    have apart : id ≠ own := fun same => other (same ▸ mine)
    rw [Multiplexer.fate, Multiplexer.fate, arrived id apart]
    simp only [waiting id, ne_eq, apart, not_false_iff, and_true]

section Sending
variable (command : String) (data : Json) (timeout : Duration) (own : Nat)

theorem numbered_proceeds : (send command data timeout (.numbered own)).Proceeds mux
    (send command data timeout (SendStage.proceed command data timeout (.numbered own) mux).1)
    (SendStage.proceed command data timeout (.numbered own) mux).2 := by
  rw [SendStage.proceed, Multiplexer.enrol]
  cases closed : mux.closed with
  | true => exact .beside .same rfl (fun _ => False.elim) fun _ => False.elim
  | false =>
    refine ⟨closed.symm, .inl ⟨rfl, rfl⟩, fun entry among => among, fun id among => ?_, fun id among => ?_,
      fun id => False.elim, fun id other => ?_⟩
    · rcases List.mem_append.mp among with old | new
      · exact .inr ⟨old, fun none => none⟩
      · exact .inl (List.mem_singleton.mp new).symm
    · rcases List.mem_append.mp among with old | new
      · exact .inl old
      · exact .inr ⟨congrArg some (List.mem_singleton.mp new).symm, fun none => none, closed⟩
    · have apart : id ≠ own := fun same => other (congrArg some same.symm)
      simp [Multiplexer.fate, Multiplexer.arrived?, apart]

theorem enrolled_proceeds : (send command data timeout (.enrolled own)).Proceeds mux
    (send command data timeout (SendStage.proceed command data timeout (.enrolled own) mux).1)
    (SendStage.proceed command data timeout (.enrolled own) mux).2 := by
  have wrote := Multiplexer.writeLine_beside (Request.line ⟨own, command, data⟩) mux
  rw [SendStage.proceed, Multiplexer.submit]
  cases written : mux.writeLine (Request.line ⟨own, command, data⟩) with
  | mk outcome after =>
    rw [written] at wrote
    cases outcome with
    | ok => exact .beside wrote rfl (fun _ same => same) fun _ same => same
    | error e =>
      refine .ends (fun _ => Iff.rfl) rfl rfl (fun _ same => same) wrote.lastId wrote.closed (fun id => ?_)
        (fun entry among => wrote.delivered ▸ among) fun id _ => ?_
      · rw [← show after.waiting = mux.waiting from wrote.waiting]
        simp [Multiplexer.forget]
      · exact congrArg (fun entries => (entries.find? fun entry => entry.1 == id).map Prod.snd) wrote.delivered

theorem written_proceeds (tidy : mux.Tidy) : (send command data timeout (.written own)).Proceeds mux
    (send command data timeout (SendStage.proceed command data timeout (.written own) mux).1)
    (SendStage.proceed command data timeout (.written own) mux).2 := by
  rw [SendStage.proceed, Multiplexer.finish]
  cases came : mux.delivered.find? fun entry => entry.1 == own with
  | some entry =>
    have out : own ∉ mux.waiting := by
      have among := List.mem_of_find?_eq_some came
      have same : entry.1 = own := by simpa using List.find?_some came
      exact same ▸ tidy.1 entry among
    refine .ends (fun _ => Iff.rfl) rfl rfl (fun _ same => same) rfl rfl (fun id => ?_)
      (fun entry among => (List.mem_filter.mp among).1) fun id apart => ?_
    · exact ⟨fun among => ⟨among, fun same => out (same ▸ among)⟩, And.left⟩
    · simp only [Multiplexer.arrived?, List.find?_filter]
      congr 2
      funext entry
      by_cases same : entry.1 = id <;> simp [same, apart]
  | none =>
    by_cases waits : own ∈ mux.waiting
    · simp only [List.contains_iff_mem.mpr waits, if_true]
      refine .ends (fun _ => Iff.rfl) rfl rfl (fun _ same => same) rfl rfl (fun id => ?_) (fun entry among => among)
        fun id _ => rfl
      simp [Multiplexer.forget]
    · rw [if_neg (waits ∘ List.contains_iff_mem.mp)]
      refine .ends (fun _ => Iff.rfl) rfl rfl (fun _ same => same) rfl rfl (fun id => ?_) (fun entry among => among)
        fun id _ => rfl
      exact ⟨fun among => ⟨among, fun same => waits (same ▸ among)⟩, And.left⟩

theorem send_proceeds (stage : SendStage) (tidy : mux.Tidy) :
    (send command data timeout stage).Proceeds mux (send command data timeout (stage.proceed command data timeout mux).1)
      (stage.proceed command data timeout mux).2 := by
  cases stage with
  | entered => exact .numbers rfl rfl (fun _ => id) fun _ => id
  | numbered own => exact numbered_proceeds command data timeout own
  | enrolled own => exact enrolled_proceeds command data timeout own
  | written own => exact written_proceeds command data timeout own tidy
  | returned own outcome => exact .beside .same rfl (fun _ => False.elim) fun _ same => same

end Sending

theorem notify_proceeds (command : String) (data : Json) (stage : NoticeStage) (mux : Multiplexer) :
    (notify command data stage).Proceeds mux (notify command data (stage.proceed command data mux).1)
      (stage.proceed command data mux).2 := by
  cases stage with
  | entered =>
    rw [NoticeStage.proceed]
    split <;> exact .beside .same rfl (fun _ => False.elim) fun _ => False.elim
  | admitted => exact .numbers rfl rfl (fun _ => id) fun _ => id
  | numbered own =>
    have wrote := Multiplexer.writeLine_beside (Request.line ⟨own, command, data⟩) mux
    rw [NoticeStage.proceed]
    cases written : mux.writeLine (Request.line ⟨own, command, data⟩) with
    | mk outcome after =>
      rw [written] at wrote
      cases outcome <;> exact .beside wrote rfl (fun _ => False.elim) fun _ => False.elim
  | returned own outcome => exact .beside .same rfl (fun _ => False.elim) fun _ => False.elim

theorem proceed_proceeds (call : StreamCall) (tidy : mux.Tidy) : call.Proceeds mux (call.proceed mux).1 (call.proceed mux).2 := by
  cases call with
  | send command data timeout stage => exact send_proceeds command data timeout stage tidy
  | notify command data stage => exact notify_proceeds command data stage mux

end StreamCall
end PluginBridge
