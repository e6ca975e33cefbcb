import PluginBridge.Stream.Multiplexer
namespace PluginBridge

namespace Message

-- What a line answers, and with what: a line that was meant as a response has an id, also when it is broken.
def answer? (line : String) : Option (Nat × Except StreamError Json) :=
  if Text.isBlank line then none
  else
    match parse? line with
    | some (.response reply) => some (reply.id, reply.outcome.mapError StreamError.remote)
    | some _ => none
    | none => (responseId? line).map fun id => (id, .error .malformed)

end Message

namespace Multiplexer
variable {id other : Nat} {mux : Multiplexer}

def enrol (id : Nat) (mux : Multiplexer) : Except StreamError Unit × Multiplexer :=
  if mux.closed then (.error .disconnected, mux) else (.ok (), { mux with waiting := mux.waiting ++ [id] })

def submit (id : Nat) (command : String) (data : Json) (mux : Multiplexer) : Except StreamError Unit × Multiplexer :=
  match mux.writeLine (Request.line ⟨id, command, data⟩) with
  | (.ok _, mux) => (.ok (), mux)
  | (.error e, mux) => (.error e, mux.forget id)

theorem start_parts (command : String) (data : Json) (mux : Multiplexer) :
    mux.start command data =
      match mux.nextId.2.enrol mux.nextId.1 with
      | (.error e, enrolled) => (.error e, enrolled)
      | (.ok _, enrolled) => ((enrolled.submit mux.nextId.1 command data).1.map fun _ => mux.nextId.1,
          (enrolled.submit mux.nextId.1 command data).2) := by
  unfold start enrol submit nextId
  cases mux.closed with
  | true => rfl
  | false => cases half : mux.write <;> simp [writeLine, Except.map]

theorem notify_parts (command : String) (data : Json) (mux : Multiplexer) :
    mux.notify command data =
      if mux.closed then (.error .disconnected, mux)
      else ((mux.nextId.2.writeLine (Request.line ⟨mux.nextId.1, command, data⟩)).1.map fun _ => mux.nextId.1,
        (mux.nextId.2.writeLine (Request.line ⟨mux.nextId.1, command, data⟩)).2) := by
  unfold notify nextId
  cases mux.closed with
  | true => rfl
  | false => cases half : mux.write <;> simp [writeLine, Except.map]

def arrived? (id : Nat) (mux : Multiplexer) : Option (Except StreamError Json) :=
  (mux.delivered.find? fun entry => entry.1 == id).map Prod.snd

def fate (id : Nat) (mux : Multiplexer) : Option (Except StreamError Json) :=
  if id ∈ mux.waiting then none else some ((mux.arrived? id).getD (.error .disconnected))

end Multiplexer

inductive SendStage where
  | entered
  | numbered (id : Nat)
  | enrolled (id : Nat)
  | written (id : Nat)
  | returned (id : Nat) (outcome : Except StreamError Json)

inductive NoticeStage where
  | entered
  | admitted
  | numbered (id : Nat)
  | returned (id : Option Nat) (outcome : Except StreamError Nat)

inductive StreamCall where
  | send (command : String) (data : Json) (timeout : Duration) (stage : SendStage)
  | notify (command : String) (data : Json) (stage : NoticeStage)

namespace SendStage

def id? : SendStage → Option Nat
  | .entered => none
  | .numbered id | .enrolled id | .written id | .returned id _ => some id

-- The next thing that a command does. It gives up its wait when it has to proceed and nothing has come.
def proceed (command : String) (data : Json) (timeout : Duration) (stage : SendStage) (mux : Multiplexer) :
    SendStage × Multiplexer :=
  match stage with
  | .entered => (.numbered mux.nextId.1, mux.nextId.2)
  | .numbered id =>
    match mux.enrol id with
    | (.ok _, mux) => (.enrolled id, mux)
    | (.error e, mux) => (.returned id (.error e), mux)
  | .enrolled id =>
    match mux.submit id command data with
    | (.ok _, mux) => (.written id, mux)
    | (.error e, mux) => (.returned id (.error e), mux)
  | .written id => (.returned id (mux.finish id command timeout).1, (mux.finish id command timeout).2)
  | .returned id outcome => (.returned id outcome, mux)

end SendStage

namespace NoticeStage

def id? : NoticeStage → Option Nat
  | .entered | .admitted => none
  | .numbered id => some id
  | .returned id _ => id

def proceed (command : String) (data : Json) (stage : NoticeStage) (mux : Multiplexer) : NoticeStage × Multiplexer :=
  match stage with
  | .entered => if mux.closed then (.returned none (.error .disconnected), mux) else (.admitted, mux)
  | .admitted => (.numbered mux.nextId.1, mux.nextId.2)
  | .numbered id =>
    match mux.writeLine (Request.line ⟨id, command, data⟩) with
    | (.ok _, mux) => (.returned (some id) (.ok id), mux)
    | (.error e, mux) => (.returned (some id) (.error e), mux)
  | .returned id outcome => (.returned id outcome, mux)

end NoticeStage

namespace StreamCall

def id? : StreamCall → Option Nat
  | .send _ _ _ stage => stage.id?
  | .notify _ _ stage => stage.id?

def proceed (call : StreamCall) (mux : Multiplexer) : StreamCall × Multiplexer :=
  match call with
  | .send command data timeout stage =>
    (.send command data timeout (stage.proceed command data timeout mux).1, (stage.proceed command data timeout mux).2)
  | .notify command data stage => (.notify command data (stage.proceed command data mux).1, (stage.proceed command data mux).2)

def FailedWith (failure : StreamError) : StreamCall → Prop
  | .send _ _ _ stage => ∃ id, stage = .returned id (.error failure)
  | .notify _ _ stage => ∃ id, stage = .returned id (.error failure)

end StreamCall

-- What can happen on a stream. Calls are made at any time, and each goes on by one step when it is its turn.
-- Callbacks are answered at any time and with anything.
inductive StreamEvent where
  | send (command : String) (data : Json) (timeout : Duration)
  | notify (command : String) (data : Json)
  | proceed (index : Nat)
  | line (text : String)
  | answer (id : Nat) (outcome : Except String Json)
  | closeWriter
  | breakWriter
  | close

-- How an event ends the wait under an id: a line by what it answers, the end of the stream without anything.
def StreamEvent.settles (id : Nat) : StreamEvent → Option (Except StreamError Json)
  | .line text => (Message.answer? text).bind fun entry => if entry.1 = id then some entry.2 else none
  | .close => some (.error .disconnected)
  | _ => none

-- A stream with the calls on it in the order in which they were made, and the ids in the order in which they were taken.
structure Traffic where
  mux : Multiplexer
  calls : List StreamCall
  taken : List Nat

namespace Traffic

def new : Traffic := ⟨.new, [], []⟩

def proceed (index : Nat) (traffic : Traffic) : Traffic :=
  match traffic.calls[index]? with
  | none => traffic
  | some call =>
    ⟨(call.proceed traffic.mux).2, traffic.calls.set index (call.proceed traffic.mux).1,
      if call.id? = none then traffic.taken ++ (call.proceed traffic.mux).1.id?.toList else traffic.taken⟩

def advance (traffic : Traffic) : StreamEvent → Traffic
  | .send command data timeout => { traffic with calls := traffic.calls ++ [.send command data timeout .entered] }
  | .notify command data => { traffic with calls := traffic.calls ++ [.notify command data .entered] }
  | .proceed index => traffic.proceed index
  | .line text => { traffic with mux := (traffic.mux.receive text).2 }
  | .answer id outcome => { traffic with mux := traffic.mux.answer id outcome }
  | .closeWriter => { traffic with mux := traffic.mux.closeWriter }
  | .breakWriter => { traffic with mux := traffic.mux.breakWriter }
  | .close => { traffic with mux := traffic.mux.close }

def run (events : List StreamEvent) : Traffic := events.foldl advance new

end Traffic
end PluginBridge
