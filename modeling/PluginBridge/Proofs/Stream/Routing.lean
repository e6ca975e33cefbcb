import PluginBridge.Proofs.Stream.Ids
namespace PluginBridge

namespace Traffic
open StreamCall
variable {traffic : Traffic} {index id : Nat} {call : StreamCall}

theorem advance_call (found : traffic.calls[index]? = some call) (event : StreamEvent) :
    (traffic.advance event).calls[index]? = some call ∨
      event = .proceed index ∧ (traffic.advance event).calls[index]? = some (call.proceed traffic.mux).1 := by
  have inside := (List.getElem?_eq_some_iff.mp found).1
  cases event with
  | proceed place =>
    simp only [advance, proceed]
    by_cases apart : place = index
    · subst apart
      rw [found]
      exact .inr ⟨rfl, List.getElem?_set_self inside⟩
    · split
      · exact .inl found
      · exact .inl ((List.getElem?_set_ne apart).trans found)
  | send | notify => exact .inl ((List.getElem?_append_left inside).trans found)
  | _ => exact .inl found

theorem advance_entered (fresh : traffic.calls.length ≤ index) {event : StreamEvent}
    (found : (traffic.advance event).calls[index]? = some call) :
    (∃ command data timeout, call = .send command data timeout .entered) ∨
      ∃ command data, call = .notify command data .entered := by
  have beyond : ∀ {calls : List StreamCall}, calls.length = traffic.calls.length → calls[index]? ≠ some call := by
    intro calls same there
    have := (List.getElem?_eq_some_iff.mp there).1
    omega
  have last : ∀ {made : StreamCall}, (traffic.calls ++ [made])[index]? = some call → call = made := by
    intro made there
    rw [List.getElem?_append_right fresh] at there
    exact List.mem_singleton.mp (List.mem_of_getElem? there)
  cases event with
  | send command data timeout => exact .inl ⟨command, data, timeout, last found⟩
  | notify command data => exact .inr ⟨command, data, last found⟩
  | proceed place =>
    simp only [advance, proceed] at found
    split at found
    · exact absurd found (beyond rfl)
    · exact absurd found (beyond List.length_set)
  | _ => exact absurd found (beyond rfl)

section OneCommand
variable {command : String} {data : Json} {timeout : Duration} {stage later : SendStage} {event : StreamEvent}
  {events : List StreamEvent}

theorem advance_stage (found : traffic.calls[index]? = some (.send command data timeout stage)) (event : StreamEvent) :
    (traffic.advance event).calls[index]? = some (.send command data timeout stage) ∨
      event = .proceed index ∧ (traffic.advance event).calls[index]? =
        some (.send command data timeout (stage.proceed command data timeout traffic.mux).1) := advance_call found event

theorem advance_waited (found : traffic.calls[index]? = some (.send command data timeout stage))
    (enlisted : stage.Enlisted id) (event : StreamEvent) : ∃ next,
    (traffic.advance event).calls[index]? = some (.send command data timeout next) ∧ next.Enlisted id ∧
      (next.Awaits id → stage.Awaits id) := by
  rcases advance_stage found event with same | ⟨-, moved⟩
  · exact ⟨stage, same, enlisted, fun awaits => awaits⟩
  · refine ⟨_, moved, ?_⟩
    cases stage with
    | entered | numbered => exact enlisted.elim
    | enrolled own =>
      refine ⟨?_, fun _ => enlisted⟩
      rw [SendStage.proceed]
      split <;> exact enlisted
    | written own => exact ⟨enlisted, fun _ => enlisted⟩
    | returned own outcome => exact ⟨enlisted, False.elim⟩

theorem resumed_waited (found : traffic.calls[index]? = some (.send command data timeout stage))
    (enlisted : stage.Enlisted id) (reached : (events.foldl advance traffic).calls[index]? =
      some (.send command data timeout later)) (awaits : later.Awaits id) : stage.Awaits id := by
  induction events generalizing traffic stage with
  | nil =>
    cases found.symm.trans reached
    exact awaits
  | cons event rest ih =>
    obtain ⟨next, moved, still, back⟩ := advance_waited found enlisted event
    exact back (ih moved still reached)

theorem advance_fate (sound : Sound traffic) (found : traffic.calls[index]? = some (.send command data timeout stage))
    (awaits : stage.Awaits id) (moved : (traffic.advance event).calls[index]? = some (.send command data timeout later))
    (still : later.Awaits id) : (traffic.advance event).mux.fate id = (traffic.mux.fate id).or (event.settles id) := by
  have mine : (StreamCall.send command data timeout stage).id? = some id := awaits.enlisted.id?
  -- While the call still waits only a line with its id or the end of the stream decides its fate.
  cases event with
  | proceed place =>
    simp only [StreamEvent.settles, Option.or_none]
    simp only [advance, proceed] at moved ⊢
    split
    · rfl
    · rename_i call there
      by_cases apart : place = index
      · subst apart
        cases there.symm.trans found
        rw [there, List.getElem?_set_self (List.getElem?_eq_some_iff.mp found).1] at moved
        cases stage with
        | enrolled own =>
          simp only [StreamCall.proceed, SendStage.proceed, Multiplexer.submit] at moved ⊢
          have wrote := Multiplexer.writeLine_beside (Request.line ⟨own, command, data⟩) traffic.mux
          cases written : traffic.mux.writeLine (Request.line ⟨own, command, data⟩) with
          | mk outcome after =>
            rw [written] at wrote moved
            cases outcome with
            | ok => exact wrote.fate id
            | error e =>
              cases moved
              exact still.elim
        | written own =>
          cases moved
          exact still.elim
        | entered | numbered | returned => exact awaits.elim
      · refine (proceed_proceeds call sound.tidy).others id fun theirs => ?_
        exact apart (sound.apart place index call _ id there found theirs mine)
  | line text =>
    rcases Multiplexer.receive_answer text traffic.mux with ⟨-, own, outcome, answers, same⟩ | ⟨quiet, beside⟩
    · rw [advance, same, StreamEvent.settles, answers]
      exact Multiplexer.complete_fate sound.tidy id own outcome
    · rw [advance, beside.fate]
      rcases quiet with closed | nothing
      · simp [Multiplexer.fate, sound.tidy.2 closed]
      · rw [StreamEvent.settles, nothing, Option.bind_none, Option.or_none]
  | close => exact Multiplexer.close_fate sound.tidy id
  | answer own outcome =>
    simp only [StreamEvent.settles, Option.or_none]
    exact (Multiplexer.writeLine_beside _ traffic.mux).fate id
  | breakWriter =>
    simp only [StreamEvent.settles, Option.or_none]
    exact (Multiplexer.breakWriter_beside traffic.mux).fate id
  | send | notify | closeWriter => simp only [StreamEvent.settles, Option.or_none]; rfl

theorem resumed_fate (sound : Sound traffic) (found : traffic.calls[index]? = some (.send command data timeout stage))
    (awaits : stage.Awaits id) (reached : (events.foldl advance traffic).calls[index]? =
      some (.send command data timeout later)) (still : later.Awaits id) :
    (events.foldl advance traffic).mux.fate id = (traffic.mux.fate id).or (events.findSome? (StreamEvent.settles id)) := by
  induction events generalizing traffic stage with
  | nil => exact (Option.or_none).symm
  | cons event rest ih =>
    obtain ⟨next, moved, begun, -⟩ := advance_waited found awaits.enlisted event
    have waits := resumed_waited moved begun reached still
    rw [List.foldl_cons, ih (sound.advance event) moved waits reached, advance_fate sound found awaits moved waits,
      Option.or_assoc, List.findSome?_cons]
    cases event.settles id <;> simp

end OneCommand

section Ended
variable {mux : Multiplexer}

theorem advance_closed (closed : traffic.mux.closed = true) (sound : Sound traffic) (event : StreamEvent) :
    (traffic.advance event).mux.closed = true := by
  cases event with
  | proceed place =>
    simp only [advance, proceed]
    split
    · exact closed
    · rename_i call there
      exact (proceed_proceeds call sound.tidy).closed.trans closed
  | line text =>
    rcases Multiplexer.receive_answer text traffic.mux with ⟨opened, -⟩ | ⟨-, beside⟩
    · rw [closed] at opened
      cases opened
    · exact beside.closed.trans closed
  | answer id outcome => exact (Multiplexer.writeLine_beside _ _).closed.trans closed
  | breakWriter => exact (Multiplexer.breakWriter_beside _).closed.trans closed
  | close => rfl
  | send | notify | closeWriter => exact closed

-- A call that was made after the end of the stream is on its way to fail, or has failed.
def Refused : StreamCall → Prop
  | .send _ _ _ .entered | .send _ _ _ (.numbered _) | .notify _ _ .entered => True
  | .send _ _ _ (.returned _ outcome) => outcome = .error .disconnected
  | .notify _ _ (.returned _ outcome) => outcome = .error .disconnected
  | _ => False

theorem proceed_refused (closed : mux.closed = true) (refused : Refused call) : Refused (call.proceed mux).1 := by
  rcases call with ⟨_, _, _, stage⟩ | ⟨_, _, stage⟩ <;> cases stage <;>
    simp_all [StreamCall.proceed, SendStage.proceed, NoticeStage.proceed, Multiplexer.enrol, Refused]

theorem proceed_fails (closed : mux.closed = true) (refused : Refused call) {after : Multiplexer}
    (still : after.closed = true) : ((call.proceed mux).1.proceed after).1.FailedWith .disconnected := by
  rcases call with ⟨_, _, _, stage⟩ | ⟨_, _, stage⟩ <;> cases stage <;>
    simp_all [StreamCall.proceed, SendStage.proceed, NoticeStage.proceed, Multiplexer.enrol, Refused, StreamCall.FailedWith]

theorem advance_refused (closed : traffic.mux.closed = true) (found : traffic.calls[index]? = some call)
    (refused : Refused call) (event : StreamEvent) :
    ∃ next, (traffic.advance event).calls[index]? = some next ∧ Refused next := by
  rcases advance_call found event with same | ⟨-, moved⟩
  · exact ⟨call, same, refused⟩
  · exact ⟨_, moved, proceed_refused closed refused⟩

theorem resumed_closed (closed : traffic.mux.closed = true) (sound : Sound traffic) (events : List StreamEvent) :
    (events.foldl advance traffic).mux.closed = true := by
  induction events generalizing traffic with
  | nil => exact closed
  | cons event rest ih => exact ih (advance_closed closed sound event) (sound.advance event)

theorem resumed_refused (closed : traffic.mux.closed = true) (sound : Sound traffic)
    (late : ∀ call, traffic.calls[index]? = some call → Refused call) {events : List StreamEvent}
    (found : (events.foldl advance traffic).calls[index]? = some call) : Refused call := by
  induction events generalizing traffic with
  | nil => exact late call found
  | cons event rest ih =>
    refine ih (advance_closed closed sound event) (sound.advance event) (fun next there => ?_) found
    cases before : traffic.calls[index]? with
    | some call =>
      obtain ⟨moved, same, refused⟩ := advance_refused closed before (late call before) event
      cases same.symm.trans there
      exact refused
    | none =>
      rcases advance_entered (List.getElem?_eq_none_iff.mp before) there with ⟨_, _, _, rfl⟩ | ⟨_, _, rfl⟩ <;> trivial

theorem run_append (before after : List StreamEvent) : run (before ++ after) = after.foldl advance (run before) :=
  List.foldl_append

end Ended

section OneCommand
variable {command : String} {data : Json} {timeout : Duration} {before middle : List StreamEvent}

-- A command that was written since it started to wait gets what came first of all that ends its wait, and else it is told
-- that its time is over.
theorem proceed_outcome (numbered : (run before).calls[index]? = some (.send command data timeout (.numbered id)))
    (written : (run (before ++ .proceed index :: middle)).calls[index]? = some (.send command data timeout (.written id))) :
    ((run (before ++ .proceed index :: middle)).advance (.proceed index)).calls[index]? =
      some (.send command data timeout (.returned id
        ((middle.findSome? (StreamEvent.settles id)).getD (.error (.timeout command timeout))))) := by
  have sound := run_sound before
  have inside := (List.getElem?_eq_some_iff.mp numbered).1
  rw [run_append, List.foldl_cons] at written ⊢
  have enrolled : ((run before).advance (.proceed index)).calls[index]? =
      some (.send command data timeout (SendStage.proceed command data timeout (.numbered id) (run before).mux).1) := by
    simp only [advance, proceed, numbered]
    exact List.getElem?_set_self inside
  have entered : ((run before).advance (.proceed index)).mux = ((run before).mux.enrol id).2 := by
    simp only [advance, proceed, numbered, StreamCall.proceed, SendStage.proceed]
    split <;> simp_all
  cases closed : (run before).mux.closed with
  | true =>
    -- On a closed stream the command would have returned without being written.
    simp only [SendStage.proceed, Multiplexer.enrol, closed, if_true] at enrolled
    have ended : (SendStage.returned id (.error .disconnected)).Enlisted id := rfl
    exact (resumed_waited enrolled ended written rfl).elim
  | false =>
    simp only [SendStage.proceed, Multiplexer.enrol, closed] at enrolled
    have waits : ((run before).advance (.proceed index)).mux.fate id = none := by
      simp [entered, Multiplexer.enrol, closed, Multiplexer.fate]
    have fate := resumed_fate (sound.advance _) enrolled rfl written rfl
    rw [waits, Option.none_or] at fate
    have reached := (sound.advance (.proceed index)).resumed middle
    have there := (List.getElem?_eq_some_iff.mp written).1
    generalize middle.foldl advance ((run before).advance (.proceed index)) = traffic at *
    simp only [advance, proceed, written, StreamCall.proceed, SendStage.proceed]
    rw [List.getElem?_set_self there, Multiplexer.finish_fate reached.tidy, fate]

end OneCommand

theorem line_aside {line : String} (nobody : ∀ id outcome, Message.answer? line = some (id, outcome) →
    id ∉ traffic.mux.waiting) : ((traffic.advance (.line line)).mux.waiting = traffic.mux.waiting ∧
      (traffic.advance (.line line)).mux.delivered = traffic.mux.delivered) := by
  rcases Multiplexer.receive_answer line traffic.mux with ⟨-, id, outcome, answers, same⟩ | ⟨-, beside⟩
  · rw [advance, same, Multiplexer.complete, if_neg (nobody id outcome answers ∘ List.contains_iff_mem.mp)]
    exact ⟨rfl, rfl⟩
  · exact ⟨beside.waiting, beside.delivered⟩

theorem answer_asked {line : String} (asked : (∃ callback, Message.parse? line = some (.callback callback)) ∨
    ∃ request, Message.parse? line = some (.request request)) : Message.answer? line = none := by
  unfold Message.answer?
  rcases asked with ⟨message, parsed⟩ | ⟨message, parsed⟩ <;> rw [parsed] <;> exact ite_self none

-- Whatever comes on a stream, and however the calls on it take turns: ids are taken in order from 1. A command that waits
-- returns with the first later line that carries its id, told that the stream ended if that came first, and told that its
-- time is over otherwise. Lines for others complete nobody. After the end of the stream nobody waits and every call fails.
-- Nobody waits any more under the id of a command that returned.
theorem commands_routed (events : List StreamEvent) :
    (run events).taken = List.range' 1 (run events).taken.length ∧
    (∀ before middle index id command data timeout, events = before ++ .proceed index :: middle →
      (run before).calls[index]? = some (.send command data timeout (.numbered id)) →
      (run events).calls[index]? = some (.send command data timeout (.written id)) →
      ((run events).advance (.proceed index)).calls[index]? = some (.send command data timeout (.returned id
        ((middle.findSome? (StreamEvent.settles id)).getD (.error (.timeout command timeout)))))) ∧
    (∀ line, (∃ callback, Message.parse? line = some (.callback callback)) ∨
        (∃ request, Message.parse? line = some (.request request)) ∨
        (∀ id outcome, Message.answer? line = some (id, outcome) → id ∉ (run events).mux.waiting) →
      ((run events).advance (.line line)).mux.waiting = (run events).mux.waiting ∧
      ((run events).advance (.line line)).mux.delivered = (run events).mux.delivered) ∧
    (∀ before after, events = before ++ .close :: after → (run events).mux.waiting = [] ∧
      ∀ (index : Nat) call, (run before).calls.length ≤ index → (run events).calls[index]? = some call →
        ∃ failed, (((run events).advance (.proceed index)).advance (.proceed index)).calls[index]? = some failed ∧
          failed.FailedWith .disconnected) ∧
    (∀ (index : Nat) command data timeout id outcome,
      (run events).calls[index]? = some (.send command data timeout (.returned id outcome)) →
      id ∉ (run events).mux.waiting) := by
  have sound := run_sound events
  refine ⟨?_, ?_, fun line aside => ?_, ?_, fun index command data timeout id outcome returned waits => ?_⟩
  · rw [sound.taken, List.length_range']
  · rintro before middle index id command data timeout rfl numbered written
    exact proceed_outcome numbered written
  · refine line_aside ?_
    rcases aside with asked | asked | nobody
    · rw [answer_asked (.inl asked)]
      nofun
    · rw [answer_asked (.inr asked)]
      nofun
    · exact nobody
  · rintro before after rfl
    rw [run_append, List.foldl_cons] at sound ⊢
    have closed := resumed_closed rfl ((run_sound before).advance .close) after
    refine ⟨sound.tidy.2 closed, fun index call late found => ?_⟩
    have none : (run before).calls[index]? = none := List.getElem?_eq_none_iff.mpr late
    -- A call that comes after the end fails in its next step or in the one after.
    have refused := resumed_refused rfl ((run_sound before).advance .close)
      (fun call there => by cases none.symm.trans there) found
    have inside := (List.getElem?_eq_some_iff.mp found).1
    generalize after.foldl advance ((run before).advance .close) = traffic at *
    have once : (traffic.advance (.proceed index)).calls[index]? = some (call.proceed traffic.mux).1 := by
      simp only [advance, proceed, found]
      exact List.getElem?_set_self inside
    have still := advance_closed closed sound (.proceed index)
    refine ⟨_, ?_, proceed_fails closed refused still⟩
    generalize traffic.advance (.proceed index) = next at *
    simp only [advance, proceed, once]
    exact List.getElem?_set_self (List.getElem?_eq_some_iff.mp once).1
  · obtain ⟨place, call, there, awaits⟩ := sound.waits id waits
    cases sound.same returned rfl there awaits.enlisted.id?
    exact awaits

-- Two commands that cross. The first gets a broken answer after a line for nobody, and a good one too late.
theorem commands_routed_crossed :
    let before : List StreamEvent := [.send "a" .null ⟨5000⟩, .proceed 0, .send "b" .null ⟨5000⟩, .proceed 1, .proceed 1]
    let middle : List StreamEvent := [.proceed 1, .proceed 0, .line (Response.ok 9 (.natural 3)).line,
      .line "\x7b\"id\":1,\"success\":7", .line (Response.ok 1 (.natural 7)).line, .close]
    let reached := run (before ++ .proceed 0 :: middle)
    reached.taken = [1, 2] ∧
      (run before).calls[0]? = some (.send "a" .null ⟨5000⟩ (.numbered 1)) ∧
      reached.calls[0]? = some (.send "a" .null ⟨5000⟩ (.written 1)) ∧
      (reached.advance (.proceed 0)).calls[0]? =
        some (.send "a" .null ⟨5000⟩ (.returned 1 (.error .malformed))) ∧
      reached.mux.waiting = [] := by
  intro before middle reached
  obtain ⟨taken, outcome, -, ended, -⟩ := commands_routed (before ++ .proceed 0 :: middle)
  have numbered : (run before).calls[0]? = some (.send "a" .null ⟨5000⟩ (.numbered 1)) := rfl
  have written : reached.calls[0]? = some (.send "a" .null ⟨5000⟩ (.written 1)) := rfl
  have stray : Message.answer? (Response.ok 9 (.natural 3)).line = some (9, .ok (.natural 3)) :=
    Message.answer_result (by decide) (Json.natural_readable (by decide)) (by decide)
  have broken : Message.answer? "\x7b\"id\":1,\"success\":7" = some (1, .error .malformed) :=
    Message.answer_broken (by decide +kernel) (by decide +kernel) (by decide +kernel)
  have first : middle.findSome? (StreamEvent.settles 1) = some (.error .malformed) := by
    simp [middle, List.findSome?, StreamEvent.settles, stray, broken]
  have returned := outcome before middle 0 1 "a" .null ⟨5000⟩ rfl numbered written
  rw [first] at returned
  exact ⟨taken, numbered, written, returned, (ended (before ++ .proceed 0 :: middle.dropLast) [] rfl).1⟩

end Traffic
end PluginBridge
