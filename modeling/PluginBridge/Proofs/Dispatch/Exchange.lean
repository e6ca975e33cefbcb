import PluginBridge.Dispatch.Exchange
import PluginBridge.Proofs.Outcome
import PluginBridge.Proofs.Peer.Service
import PluginBridge.Proofs.Region.Keeping
namespace PluginBridge

namespace CallCounts

def moreJson (counts : CallCounts) : CallCounts := { counts with json := counts.json + 1 }

def moreRegion (counts : CallCounts) : CallCounts := { counts with region := counts.region + 1 }

def moreProtocol (counts : CallCounts) : CallCounts := { counts with protocol := counts.protocol + 1 }

def moreFallbacks (counts : CallCounts) : CallCounts := { counts with fallbacks := counts.fallbacks + 1 }

end CallCounts

namespace Session
section talk
variable {σ : Type} {session : Session σ} {state : σ} {memory : Memory} {command : String} {data result : Json}

structure Clear (session : Session σ) : Prop where
  working : session.stream.write = .working
  going : session.stream.closed = false
  taken : session.stream.delivered = []
  passed : session.passedOn = session.stream.sent.size
  read : session.inbox = []
  served : session.serving = none

def spoken (session : Session σ) (state : σ) (memory : Memory) (stream : Multiplexer) : Session σ :=
  { session with
    peer := state
    store := { session.store with memory := memory }
    stream := stream
    passedOn := stream.sent.size }

def commanded (stream : Multiplexer) (command : String) (data : Json) : Multiplexer :=
  { stream with
    lastId := stream.lastId + 1
    waiting := stream.waiting ++ [stream.lastId + 1]
    sent := stream.sent.push (Request.line ⟨stream.lastId + 1, command, data⟩) }

theorem Clear.start (clear : session.Clear) (command : String) (data : Json) :
    session.stream.start command data =
      (.ok (session.stream.lastId + 1), commanded session.stream command data) := by
  rw [Multiplexer.start]
  simp [Multiplexer.nextId, clear.going, Multiplexer.writeLine, clear.working, commanded]

theorem Clear.written (clear : session.Clear) (command : String) (data : Json) :
    (commanded session.stream command data).sent[session.passedOn]? =
        some (Request.line ⟨session.stream.lastId + 1, command, data⟩) ∧
      (commanded session.stream command data).sent[session.passedOn + 1]? = none := by
  rw [clear.passed]
  exact ⟨Array.getElem?_push_size, Array.getElem?_eq_none (by simp [commanded])⟩

def delivered (stream : Multiplexer) (command : String) (data result : Json) : Multiplexer :=
  { commanded stream command data with
    waiting := (stream.waiting ++ [stream.lastId + 1]).filter (· != stream.lastId + 1)
    delivered := [(stream.lastId + 1, .ok result)] }

theorem Clear.receive (clear : session.Clear) (command : String) (data : Json)
    (small : session.stream.lastId + 1 < wordLimit)
    (readable : result.Readable) (shallow : result.levels < Json.maxLevels) :
    (commanded session.stream command data).receive (Response.ok (session.stream.lastId + 1) result).line =
      (none, delivered session.stream command data result) := by
  obtain ⟨response, parsed, answered, outcome⟩ := Message.parse_result small readable shallow
  have shown : Text.isBlank (Response.ok (session.stream.lastId + 1) result).line = false :=
    Json.isBlank_renderFields _
  have going : (commanded session.stream command data).closed = false := clear.going
  rw [Multiplexer.receive, going, shown]
  simp [parsed, answered, outcome, Except.mapError, Multiplexer.complete, Multiplexer.forget, delivered,
    commanded, clear.taken]

theorem Clear.exchange {peer : Peer σ} (clear : session.Clear) (small : session.stream.lastId + 1 < wordLimit)
    (heard : peer.hear session.peer (.line (Request.line ⟨session.stream.lastId + 1, command, data⟩))
        session.store.memory = ⟨state, [.line (Response.ok (session.stream.lastId + 1) result).line], memory⟩)
    (readable : result.Readable) (shallow : result.levels < Json.maxLevels) (steps : Nat) :
    Session.exchange peer (steps + 3) { session with stream := commanded session.stream command data } =
      session.spoken state memory (delivered session.stream command data result) := by
  obtain ⟨line, last⟩ := clear.written command data
  have stays : (delivered session.stream command data result).sent[session.passedOn + 1]? = none := last
  have received := clear.receive command data small readable shallow
  have passed : session.passedOn + 1 = (delivered session.stream command data result).sent.size := by
    simp [delivered, commanded, clear.passed]
  rw [Session.exchange]
  simp only [clear.served, line]
  rw [Session.exchange]
  simp only [hear, heard, last, clear.read, List.nil_append]
  rw [Session.exchange]
  simp only [take, received, stays]
  simp only [spoken, passed, clear.read, clear.served]

theorem Clear.send {peer : Peer σ} (clear : session.Clear) (small : session.stream.lastId + 1 < wordLimit)
    (heard : peer.hear session.peer (.line (Request.line ⟨session.stream.lastId + 1, command, data⟩))
        session.store.memory = ⟨state, [.line (Response.ok (session.stream.lastId + 1) result).line], memory⟩)
    (readable : result.Readable) (shallow : result.levels < Json.maxLevels) {steps : Nat} (pace : peer.pace = steps + 3)
    (timeout : Duration) :
    ∃ stream, Session.send peer command data timeout session = .ok result (session.spoken state memory stream) ∧
      stream.lastId = session.stream.lastId + 1 ∧
      stream.sent = session.stream.sent.push (Request.line ⟨session.stream.lastId + 1, command, data⟩) ∧
      (session.spoken state memory stream).Clear := by
  refine ⟨{ delivered session.stream command data result with delivered := [] }, ?_, rfl, rfl,
    clear.working, clear.going, rfl, rfl, clear.read, clear.served⟩
  rw [Session.send]
  simp only [clear.start, pace, clear.exchange small heard readable shallow]
  simp [spoken, delivered, Multiplexer.finish]

theorem Clear.sendCall {peer : Peer σ} (clear : session.Clear) (small : session.stream.lastId + 1 < wordLimit)
    (heard : peer.hear session.peer (.line (Request.line ⟨session.stream.lastId + 1, command, data⟩))
        session.store.memory = ⟨state, [.line (Response.ok (session.stream.lastId + 1) result).line], memory⟩)
    (readable : result.Readable) (shallow : result.levels < Json.maxLevels) {steps : Nat} (pace : peer.pace = steps + 3) :
    ∃ stream, Session.sendCall peer command data session = .ok result (session.spoken state memory stream) ∧
      stream.lastId = session.stream.lastId + 1 ∧
      stream.sent = session.stream.sent.push (Request.line ⟨session.stream.lastId + 1, command, data⟩) ∧
      (session.spoken state memory stream).Clear := by
  obtain ⟨stream, sent, rest⟩ := clear.send small heard readable shallow pace session.settings.callTimeout
  refine ⟨stream, ?_, rest⟩
  rw [Session.sendCall, EStateM.adaptExcept]
  simp only [sent]

theorem Clear.send_unanswered {peer : Peer σ} (clear : session.Clear)
    (heard : peer.hear session.peer (.line (Request.line ⟨session.stream.lastId + 1, command, data⟩))
        session.store.memory = ⟨state, [], memory⟩) {steps : Nat} (pace : peer.pace = steps + 2)
    (timeout : Duration) :
    ∃ stream, Session.send peer command data timeout session =
        .error (.timeout command timeout) (session.spoken state memory stream) ∧
      stream.lastId = session.stream.lastId + 1 ∧
      stream.sent = session.stream.sent.push (Request.line ⟨session.stream.lastId + 1, command, data⟩) ∧
      (session.spoken state memory stream).Clear := by
  obtain ⟨line, last⟩ := clear.written command data
  have passed : session.passedOn + 1 = (commanded session.stream command data).sent.size := by
    simp [commanded, clear.passed]
  have exchanged : Session.exchange peer peer.pace { session with stream := commanded session.stream command data } =
      session.spoken state memory (commanded session.stream command data) := by
    rw [pace, Session.exchange]
    simp only [clear.served, line]
    rw [Session.exchange]
    simp only [hear, heard, last, clear.read, List.append_nil]
    simp only [spoken, passed, clear.read, clear.served]
  refine ⟨(commanded session.stream command data).forget (session.stream.lastId + 1), ?_, rfl, rfl,
    clear.working, clear.going, clear.taken, rfl, clear.read, clear.served⟩
  rw [Session.send]
  simp only [clear.start, exchanged]
  simp [spoken, commanded, Multiplexer.finish, Multiplexer.forget, clear.taken]

end talk

variable {σ : Type} {service : Service σ} {session : Session (Conversation σ)} {command : String}
  {data result : Json} {after : σ} {later : Memory}

structure Idle (session : Session (Conversation σ)) : Prop where
  peer : session.peer.Idle
  working : session.stream.write = .working
  going : session.stream.closed = false
  taken : session.stream.delivered = []
  passed : session.passedOn = session.stream.sent.size
  read : session.inbox = []
  served : session.serving = none

theorem start_idle (settings : Settings) (state : σ) : (start settings (Conversation.start state)).Idle :=
  ⟨Conversation.start_idle state, rfl, rfl, rfl, rfl, rfl, rfl⟩

def talked (session : Session (Conversation σ)) (peer : Conversation σ) (memory : Memory)
    (stream : Multiplexer) : Session (Conversation σ) :=
  { session with
    peer := peer
    store := { session.store with memory := memory }
    stream := stream
    passedOn := stream.sent.size }

theorem Idle.sameTalk {other : Session (Conversation σ)} (idle : session.Idle) (peer : other.peer = session.peer)
    (stream : other.stream = session.stream) (passed : other.passedOn = session.passedOn)
    (inbox : other.inbox = session.inbox) (serving : other.serving = session.serving) : other.Idle where
  peer := peer ▸ idle.peer
  working := stream ▸ idle.working
  going := stream ▸ idle.going
  taken := stream ▸ idle.taken
  passed := by rw [passed, stream, idle.passed]
  read := inbox.trans idle.read
  served := serving.trans idle.served

theorem Idle.count (idle : session.Idle) (change : CallCounts → CallCounts) : (session.count change).Idle :=
  idle.sameTalk rfl rfl rfl rfl rfl

theorem Idle.onStore (idle : session.Idle) (store : Store) : Idle { session with store := store } :=
  idle.sameTalk rfl rfl rfl rfl rfl

-- So many commands later nothing is under way again, and what stood in memory stands there still.
structure Continues (before after : Session (Conversation σ)) (commands : Nat) : Prop where
  idle : after.Idle
  state : after.peer.state = before.peer.state
  memory : before.store.memory.Keeps after.store.memory
  protocol : after.protocol = before.protocol
  settings : after.settings = before.settings
  keys : after.variableKeys = before.variableKeys
  ids : after.stream.lastId = before.stream.lastId + commands

theorem Continues.trans {first last : Session (Conversation σ)} {m n : Nat}
    (one : Continues session first m) (two : Continues first last n) : Continues session last (m + n) where
  idle := two.idle
  state := two.state.trans one.state
  memory := one.memory.trans two.memory
  protocol := two.protocol.trans one.protocol
  settings := two.settings.trans one.settings
  keys := two.keys.trans one.keys
  ids := by rw [two.ids, one.ids, Nat.add_assoc]

theorem Idle.sameMemory (idle : session.Idle) {store : Store} (same : store.memory = session.store.memory) :
    session.Continues { session with store := store } 0 :=
  ⟨idle.onStore store, rfl, same ▸ .refl _, rfl, rfl, rfl, rfl⟩

theorem Idle.clear (idle : session.Idle) : session.Clear :=
  ⟨idle.working, idle.going, idle.taken, idle.passed, idle.read, idle.served⟩

section talk
variable {request : Request}

theorem send_heard (service : Service σ) (command : String) (idle : session.Idle)
    (small : session.stream.lastId + 1 < wordLimit) (number : request.id = session.stream.lastId + 1)
    (parsed : Message.parse? (Request.line ⟨session.stream.lastId + 1, command, data⟩) = some (.request request))
    (answers : (service.handle request).Answers request.id session.peer.state session.store.memory result after later)
    (readable : result.Readable) (shallow : result.levels < Json.maxLevels) (timeout : Duration) :
    ∃ next stream, send service.peer command data timeout session =
        .ok result (session.talked next later stream) ∧
      next.state = after ∧ stream.lastId = session.stream.lastId + 1 ∧
        stream.sent = session.stream.sent.push (Request.line ⟨session.stream.lastId + 1, command, data⟩) ∧
        (session.talked next later stream).Idle := by
  obtain ⟨next, nextIdle, same, advanced⟩ := idle.peer.hears (Json.trim_renderFields _) parsed answers
  have heard : service.peer.hear session.peer (.line (Request.line ⟨session.stream.lastId + 1, command, data⟩))
      session.store.memory =
        ⟨next, [.line (Response.ok (session.stream.lastId + 1) result).line], later⟩ := by
    rw [← number, ← advanced]
    simp [Service.peer, Service.linesOf, Service.isEnd, idle.peer.going, number, Request.line]
  have pace : service.peer.pace = 9997 + 3 := rfl
  obtain ⟨stream, sent, ids, lines, clear⟩ := idle.clear.send small heard readable shallow pace timeout
  exact ⟨next, stream, sent, same, ids, lines, nextIdle, clear.working, clear.going, clear.taken, clear.passed, clear.read, clear.served⟩

theorem sendCall_heard (service : Service σ) (command : String) (idle : session.Idle)
    (small : session.stream.lastId + 1 < wordLimit) (number : request.id = session.stream.lastId + 1)
    (parsed : Message.parse? (Request.line ⟨session.stream.lastId + 1, command, data⟩) = some (.request request))
    (answers : (service.handle request).Answers request.id session.peer.state session.store.memory result after later)
    (readable : result.Readable) (shallow : result.levels < Json.maxLevels) :
    ∃ next stream, sendCall service.peer command data session =
        .ok result (session.talked next later stream) ∧
      next.state = after ∧ stream.lastId = session.stream.lastId + 1 ∧
        stream.sent = session.stream.sent.push (Request.line ⟨session.stream.lastId + 1, command, data⟩) ∧
        (session.talked next later stream).Idle := by
  obtain ⟨next, stream, sent, rest⟩ := send_heard service command idle small number parsed answers readable shallow
    session.settings.callTimeout
  refine ⟨next, stream, ?_, rest⟩
  rw [sendCall, EStateM.adaptExcept]
  simp only [sent]

theorem send_answered (service : Service σ) (command : String) (idle : session.Idle)
    (small : session.stream.lastId + 1 < wordLimit)
    (readable : data.Readable) (shallow : data.levels < Json.maxLevels)
    (answers : (service.handle ⟨session.stream.lastId + 1, command, data⟩).Answers
      (session.stream.lastId + 1) session.peer.state session.store.memory result after later)
    (resultReadable : result.Readable) (resultShallow : result.levels < Json.maxLevels) (timeout : Duration) :
    ∃ next stream, send service.peer command data timeout session =
        .ok result (session.talked next later stream) ∧
      next.state = after ∧ stream.lastId = session.stream.lastId + 1 ∧
        stream.sent = session.stream.sent.push (Request.line ⟨session.stream.lastId + 1, command, data⟩) ∧
        (session.talked next later stream).Idle :=
  send_heard service command idle small rfl (Message.parse_request small readable shallow) answers resultReadable
    resultShallow timeout

theorem sendCall_answered (service : Service σ) (command : String) (idle : session.Idle)
    (small : session.stream.lastId + 1 < wordLimit)
    (readable : data.Readable) (shallow : data.levels < Json.maxLevels)
    (answers : (service.handle ⟨session.stream.lastId + 1, command, data⟩).Answers
      (session.stream.lastId + 1) session.peer.state session.store.memory result after later)
    (resultReadable : result.Readable) (resultShallow : result.levels < Json.maxLevels) :
    ∃ next stream, sendCall service.peer command data session =
        .ok result (session.talked next later stream) ∧
      next.state = after ∧ stream.lastId = session.stream.lastId + 1 ∧
        stream.sent = session.stream.sent.push (Request.line ⟨session.stream.lastId + 1, command, data⟩) ∧
        (session.talked next later stream).Idle :=
  sendCall_heard service command idle small rfl (Message.parse_request small readable shallow) answers resultReadable
    resultShallow

-- A command whose line the service cannot read runs out of time, and the service has not moved.
theorem sendCall_unread (service : Service σ) (command : String) (idle : session.Idle)
    (unread : Message.parse? (Request.line ⟨session.stream.lastId + 1, command, data⟩) = none) :
    ∃ next stream, sendCall service.peer command data session =
        .error (.stream (.timeout command session.settings.callTimeout))
          (session.talked next session.store.memory stream) ∧
      next.state = session.peer.state ∧ stream.lastId = session.stream.lastId + 1 ∧
      stream.sent = session.stream.sent.push (Request.line ⟨session.stream.lastId + 1, command, data⟩) ∧
      (session.talked next session.store.memory stream).Idle := by
  obtain ⟨next, nextIdle, same, passed⟩ := idle.peer.passes service (Json.trim_renderFields _) unread
  have heard : service.peer.hear session.peer (.line (Request.line ⟨session.stream.lastId + 1, command, data⟩))
      session.store.memory = ⟨next, [], session.store.memory⟩ := by
    rw [← passed]
    simp [Service.peer, Service.linesOf, Service.isEnd, idle.peer.going, Request.line]
  have pace : service.peer.pace = 9998 + 2 := rfl
  obtain ⟨stream, sent, ids, lines, clear⟩ := idle.clear.send_unanswered heard pace session.settings.callTimeout
  refine ⟨next, stream, ?_, same, ids, lines, nextIdle, clear.working, clear.going, clear.taken, clear.passed,
    clear.read, clear.served⟩
  rw [sendCall, EStateM.adaptExcept]
  simp only [sent]
  rfl

end talk

end Session
end PluginBridge
