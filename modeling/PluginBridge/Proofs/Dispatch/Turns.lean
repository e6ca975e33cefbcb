import PluginBridge.Dispatch.Routes
import PluginBridge.Proofs.Outcome
namespace PluginBridge

namespace Multiplexer
variable {mux : Multiplexer}

theorem writeLine_lastId (line : String) (mux : Multiplexer) : (mux.writeLine line).2.lastId = mux.lastId := by
  unfold writeLine
  split <;> rfl

theorem answer_lastId (id : Nat) (outcome : Except String Json) (mux : Multiplexer) :
    (mux.answer id outcome).lastId = mux.lastId := writeLine_lastId _ mux

theorem complete_lastId (id : Nat) (outcome : Except StreamError Json) (mux : Multiplexer) :
    (mux.complete id outcome).lastId = mux.lastId := by
  unfold complete
  split <;> rfl

theorem receive_lastId (line : String) (mux : Multiplexer) : (mux.receive line).2.lastId = mux.lastId := by
  unfold receive
  split
  · rfl
  · split
    · exact complete_lastId _ _ mux
    · rfl
    · exact answer_lastId _ _ mux
    · split
      · exact complete_lastId _ _ mux
      · rfl

theorem start_lastId (command : String) (data : Json) (mux : Multiplexer) :
    (mux.start command data).2.lastId = mux.lastId + 1 := by
  cases ended : mux.closed with
  | true => simp [start, nextId, ended]
  | false => cases half : mux.write <;> simp [start, nextId, ended, writeLine, half, forget]

theorem finish_lastId (id : Nat) (command : String) (timeout : Duration) (mux : Multiplexer) :
    (mux.finish id command timeout).2.lastId = mux.lastId := by
  unfold finish
  split
  · rfl
  · split <;> rfl

end Multiplexer

namespace Session
variable {σ : Type} {peer : Peer σ} {session : Session σ}

theorem exchange_keeps {P : Session σ → Prop} (served : ∀ session, P session → P session.proceed)
    (heard : ∀ session line, P session → P ({ session with passedOn := session.passedOn + 1 }.hear peer (.line line)))
    (taken : ∀ session output rest, session.serving = none → session.inbox = output :: rest → P session →
      P ({ session with inbox := rest }.take output))
    (steps : Nat) (first : P session) : P (exchange peer steps session) := by
  induction steps generalizing session with
  | zero => exact first
  | succ steps ih =>
    rw [exchange]
    split
    · exact ih (served session first)
    · rename_i idle
      split
      · exact ih (heard session _ first)
      · split
        · exact first
        · rename_i waiting
          exact ih (taken session _ _ idle waiting first)

structure Aside (before after : Session σ) : Prop where
  settings : after.settings = before.settings
  protocol : after.protocol = before.protocol
  cache : after.cache = before.cache
  active : after.active = before.active
  lastContext : after.lastContext = before.lastContext
  inFlight : after.inFlight = before.inFlight
  preloaded : after.preloaded = before.preloaded
  servesVariables : after.servesVariables = before.servesVariables
  counts : after.counts = before.counts
  commands : after.stream.lastId = before.stream.lastId

structure Stored (before after : Session σ) : Prop extends Aside before after where
  stream : after.stream = before.stream
  peer : after.peer = before.peer
  passedOn : after.passedOn = before.passedOn
  inbox : after.inbox = before.inbox
  serving : after.serving = before.serving
  variableKeys : after.variableKeys = before.variableKeys

theorem Aside.refl (session : Session σ) : Aside session session :=
  ⟨rfl, rfl, rfl, rfl, rfl, rfl, rfl, rfl, rfl, rfl⟩

theorem Aside.trans {before middle after : Session σ} (one : Aside before middle) (two : Aside middle after) :
    Aside before after where
  settings := two.settings.trans one.settings
  protocol := two.protocol.trans one.protocol
  cache := two.cache.trans one.cache
  active := two.active.trans one.active
  lastContext := two.lastContext.trans one.lastContext
  inFlight := two.inFlight.trans one.inFlight
  preloaded := two.preloaded.trans one.preloaded
  servesVariables := two.servesVariables.trans one.servesVariables
  counts := two.counts.trans one.counts
  commands := two.commands.trans one.commands

theorem Stored.refl (session : Session σ) : Stored session session := ⟨.refl session, rfl, rfl, rfl, rfl, rfl, rfl⟩

theorem Stored.trans {before middle after : Session σ} (one : Stored before middle) (two : Stored middle after) :
    Stored before after where
  toAside := one.toAside.trans two.toAside
  stream := two.stream.trans one.stream
  peer := two.peer.trans one.peer
  passedOn := two.passedOn.trans one.passedOn
  inbox := two.inbox.trans one.inbox
  serving := two.serving.trans one.serving
  variableKeys := two.variableKeys.trans one.variableKeys

theorem Stored.same {before after : Session σ} (stored : Stored before after) :
    after = { before with store := after.store } := by
  obtain ⟨⟨h1, h2, h3, h4, h5, h6, h7, h8, h9, -⟩, h10, h11, h12, h13, h14, h15⟩ := stored
  cases after
  simp only at h1 h2 h3 h4 h5 h6 h7 h8 h9 h10 h11 h12 h13 h14 h15
  subst h1 h2 h3 h4 h5 h6 h7 h8 h9 h10 h11 h12 h13 h14 h15
  rfl

theorem store_stored (session : Session σ) (store : Store) : Stored session { session with store := store } :=
  ⟨{ Aside.refl session with }, rfl, rfl, rfl, rfl, rfl, rfl⟩

theorem onStore_stored {α : Type} (action : StoreAccess α) (session : Session σ) :
    Stored session (session.onStore action).2 := by
  unfold onStore
  split <;> exact store_stored session _

theorem onMemory_stored {ε α : Type} (action : EStateM ε Memory α) (session : Session σ) :
    Stored session (session.onMemory action).2 := by
  unfold onMemory
  split <;> exact store_stored session _

theorem destroyRegions_stored (keys : List String) (session : Session σ) :
    Stored session (session.destroyRegions keys) := by
  induction keys generalizing session with
  | nil => exact .refl session
  | cons key rest ih => exact (onStore_stored (Store.destroy key) session).trans (ih (session.destroyRegion key))

theorem createFilled_stored (size : Nat) (bytes : ByteArray) (session : Session σ) :
    Stored session (session.createFilled size bytes).2 := by
  have made := onStore_stored (Store.create size) session
  unfold createFilled
  split
  · rename_i answer
    rwa [answer] at made
  · rename_i id middle answer
    rw [answer] at made
    have written := made.trans (onMemory_stored (do Memory.write id 0 bytes; Memory.sync id) middle)
    split
    · rename_i filled
      rwa [filled] at written
    · rename_i filled
      rw [filled] at written
      exact written.trans (onStore_stored _ _)

theorem writeCallRegion_stored (args : List CallArg) (session : Session σ) :
    Stored session (session.writeCallRegion args).2 := by
  unfold writeCallRegion
  split
  · exact .refl session
  · rename_i bytes _
    have made := createFilled_stored (max (bytes.size * 2) minCallRegion) bytes session
    split <;> rename_i answer <;> rwa [answer] at made

theorem placeVariable_stored (definition : Variable) (session : Session σ) :
    Stored session (session.placeVariable definition).2 := by
  unfold placeVariable
  split
  · exact .refl session
  · rename_i bytes _
    have made := createFilled_stored bytes.size bytes session
    split <;> rename_i answer <;> rwa [answer] at made

theorem answerCallback_aside (id : Nat) (outcome : Except String Json) (session : Session σ) :
    Aside session (session.answerCallback id outcome) :=
  { Aside.refl session with commands := Multiplexer.answer_lastId id outcome session.stream }

theorem serveCallback_cases (callback : Callback) (session : Session σ) :
    (∃ outcome, session.serveCallback callback = session.answerCallback callback.id outcome) ∨
      ∃ definition, session.serveCallback callback =
        { session with serving := some (.found callback.id definition) } := by
  unfold serveCallback
  split
  · split
    · exact .inl ⟨_, rfl⟩
    · exact .inl ⟨_, rfl⟩
    · exact .inr ⟨_, rfl⟩
  · exact .inl ⟨_, rfl⟩

theorem placeSupported_stored (definition : Variable) (session : Session σ) :
    Stored session (session.placeSupported definition).2 := by
  unfold placeSupported
  split
  · exact placeVariable_stored definition session
  · exact .refl session

theorem proceed_cases (session : Session σ) :
    (session.serving = none ∧ session.proceed = session) ∨
    (∃ callback definition key answer later, session.serving = some (.found callback definition) ∧
      session.placeSupported definition = (some (key, answer), later) ∧
      session.proceed = { later with serving := some (.placed callback key answer) }) ∨
    (∃ callback definition later, session.serving = some (.found callback definition) ∧
      session.placeSupported definition = (none, later) ∧
      session.proceed = { later with serving := none }.answerCallback callback
        (.ok (.ofEntries [("json", definition.toJson)]))) ∨
    ∃ callback key answer, session.serving = some (.placed callback key answer) ∧
      session.proceed = { session with serving := none, variableKeys := session.variableKeys ++ [key] }.answerCallback
        callback (.ok answer) := by
  unfold proceed
  cases session.serving with
  | none => exact .inl ⟨rfl, rfl⟩
  | some serving =>
    cases serving with
    | placed callback key answer => exact .inr (.inr (.inr ⟨callback, key, answer, rfl, rfl⟩))
    | found callback definition =>
      cases placed : session.placeSupported definition with
      | mk place later =>
        cases place with
        | none => exact .inr (.inr (.inl ⟨callback, definition, later, rfl, placed, by simp only [placed]⟩))
        | some place =>
          exact .inr (.inl ⟨callback, definition, place.1, place.2, later, rfl, placed, by simp only [placed]⟩)

theorem proceed_aside (session : Session σ) : Aside session session.proceed := by
  rcases proceed_cases session with ⟨-, same⟩ | ⟨_, definition, _, _, later, -, placed, same⟩ |
    ⟨_, definition, later, -, placed, same⟩ | ⟨_, key, _, -, same⟩
  · rw [same]
    exact .refl session
  · have stored := placeSupported_stored definition session
    rw [placed] at stored
    rw [same]
    exact stored.toAside.trans { Aside.refl later with }
  · have stored := placeSupported_stored definition session
    rw [placed] at stored
    rw [same]
    have idle : Aside later { later with serving := none } := { Aside.refl later with }
    exact (stored.toAside.trans idle).trans (answerCallback_aside _ _ _)
  · rw [same]
    have noted : Aside session { session with serving := none, variableKeys := session.variableKeys ++ [key] } :=
      { Aside.refl session with }
    exact noted.trans (answerCallback_aside _ _ _)

theorem take_aside (output : PeerOutput) (session : Session σ) : Aside session (session.take output) := by
  unfold take
  split
  · rename_i text
    have kept := Multiplexer.receive_lastId text session.stream
    split
    · rename_i received
      rw [received] at kept
      exact { Aside.refl session with commands := kept }
    · rename_i callback stream received
      rw [received] at kept
      have read : Aside session { session with stream := stream } := { Aside.refl session with commands := kept }
      rcases serveCallback_cases callback { session with stream := stream } with ⟨outcome, same⟩ | ⟨definition, same⟩
      · rw [same]
        exact read.trans (answerCallback_aside _ _ _)
      · rw [same]
        exact read.trans { Aside.refl _ with }
  · exact { Aside.refl session with }
  · exact { Aside.refl session with }

theorem exchange_aside (peer : Peer σ) (steps : Nat) (session : Session σ) :
    Aside session (exchange peer steps session) := by
  refine exchange_keeps (P := Aside session) (fun before kept => kept.trans (proceed_aside before))
    (fun before _ kept => ?_) (fun before output rest _ _ kept => ?_) steps (.refl session)
  · exact kept.trans { Aside.refl before with }
  · have begun : Aside before { before with inbox := rest } := { Aside.refl before with }
    exact kept.trans (begun.trans (take_aside output _))

theorem sendCall_left (peer : Peer σ) (command : String) (data : Json) (session : Session σ) :
    left (sendCall peer command data session) =
      match session.stream.start command data with
      | (.error _, stream) => { session with stream := stream }
      | (.ok id, stream) =>
        let later := exchange peer peer.pace { session with stream := stream }
        { later with stream := (later.stream.finish id command session.settings.callTimeout).2 } := by
  unfold sendCall EStateM.adaptExcept send
  cases session.stream.start command data with
  | mk result stream =>
    cases result with
    | error e => rfl
    | ok id =>
      simp only
      generalize exchange peer peer.pace { session with stream := stream } = later
      cases later.stream.finish id command session.settings.callTimeout with
      | mk result stream => cases result <;> rfl

theorem sendCall_keeps {P : Session σ → Prop} (talks : ∀ session stream, P session → P { session with stream := stream })
    (served : ∀ session, P session → P session.proceed)
    (heard : ∀ session line, P session → P ({ session with passedOn := session.passedOn + 1 }.hear peer (.line line)))
    (taken : ∀ session output rest, session.serving = none → session.inbox = output :: rest → P session →
      P ({ session with inbox := rest }.take output))
    (command : String) (data : Json) (first : P session) : P (left (sendCall peer command data session)) := by
  rw [sendCall_left]
  split
  · exact talks session _ first
  · exact talks _ _ (exchange_keeps served heard taken peer.pace (talks session _ first))

theorem sendCall_aside (peer : Peer σ) (command : String) (data : Json) (session : Session σ) :
    Aside { session with stream := { session.stream with lastId := session.stream.lastId + 1 } }
      (left (sendCall peer command data session)) := by
  have used := Multiplexer.start_lastId command data session.stream
  rw [sendCall_left]
  cases started : session.stream.start command data with
  | mk result stream =>
    rw [started] at used
    cases result with
    | error e => exact { Aside.refl session with commands := used }
    | ok id =>
      have talked := exchange_aside peer peer.pace { session with stream := stream }
      exact { talked with commands := (Multiplexer.finish_lastId _ _ _ _).trans (talked.commands.trans used) }

end Session
end PluginBridge
