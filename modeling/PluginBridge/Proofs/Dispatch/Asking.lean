import PluginBridge.Proofs.Dispatch.Channels
import PluginBridge.Proofs.Dispatch.Contexts
namespace PluginBridge

-- What an answer tells the peer of a definition: all of it, or where the peer can read it, with a
-- value that it makes the same tree of.
def Variable.Conveyed (definition : Variable) (answer : Json) (memory : Memory) : Prop :=
  answer = .ofEntries [("json", definition.toJson)] ∨
    ∃ place var size later, PeerVariable.placeOf? answer = some place ∧
      PeerVariable.read place memory = .ok (var, size) later ∧ var.name = definition.name ∧
      var.important = definition.important ∧ (ResultNode.ofWire var.value).toNode = definition.tree

theorem Multiplexer.receive_callback {mux : Multiplexer} {line : String} {callback : Callback}
    (taken : (mux.receive line).1 = some callback) : mux.receive line = (some callback, mux) := by
  unfold receive at taken ⊢
  split
  · rename_i passed
    rw [if_pos passed] at taken
    cases taken
  · rename_i going
    rw [if_neg going] at taken
    cases parsed : Message.parse? line with
    | none =>
      rw [parsed] at taken
      simp only at taken
      split at taken <;> cases taken
    | some message =>
      rw [parsed] at taken
      cases message with
      | callback other =>
        cases taken
        rfl
      | response _ => cases taken
      | request _ => cases taken

namespace Session
variable {σ : Type} {session : Session σ} {callback : Callback} {definition : Variable} {text : String} {id : Nat}

theorem take_callback (taken : (session.stream.receive text).1 = some callback) :
    session.take (.line text) = session.serveCallback callback := by
  simp only [take, Multiplexer.receive_callback taken]

theorem found_conveyed (found : session.serving = some (.found id definition)) :
    ∃ answer, answer ≠ .null ∧ definition.Conveyed answer session.proceed.store.memory ∧
      (session.proceed = { session with
          store := session.proceed.store, serving := none, stream := session.stream.answer id (.ok answer) } ∨
        ∃ key, session.proceed = { session with
          store := session.proceed.store, serving := some (.placed id key answer) }) := by
  rcases proceed_found found with ⟨region, store, content, bytes, made, -, supported, encoded, filled⟩ | ⟨store, made, -⟩
  · rw [made]
    have placed := PeerVariable.placeOf_place (Store.keyText session.store.manager.nextKey) bytes.size
    obtain ⟨size, memory, read⟩ := PeerVariable.read_done filled.owned filled.something filled.held encoded
      (WireValue.ofNode_depth supported)
    refine ⟨variablePlace (Store.keyText session.store.manager.nextKey) bytes.size, by simp [variablePlace, Json.ofEntries],
      .inr ⟨_, _, size, memory, placed, read, rfl, rfl, ResultNode.ofWire_agrees supported⟩, .inr ⟨_, rfl⟩⟩
  · rw [made]
    exact ⟨.ofEntries [("json", definition.toJson)], by simp [Json.ofEntries], .inl rfl, .inl rfl⟩

end Session

namespace Moment
open Session
variable {σ : Type} {peer : Peer σ} {session : Session σ} {history : List Moment} {named : Option Nat}
  {stack : EvalContext}

def Means (history : List Moment) (named : Option Nat) (stack : EvalContext) : Prop :=
  match named with
  | some id => UnderWay history id stack
  | none => ∃ id, UnderWay history id stack ∧ ∀ other context, UnderWay history other context → other = id

theorem Registered.contextFor (registered : Registered history session) :
    session.contextFor? named = some stack ↔ Means history named stack := by
  cases named with
  | some id =>
    rw [Means, ← registered.known, contextFor?, Option.map_eq_some_iff]
    constructor
    · rintro ⟨⟨other, _⟩, found, rfl⟩
      obtain rfl : other = id := by simpa using List.find?_some found
      exact List.mem_of_find?_eq_some found
    · -- Whichever entry is found under the id, it is the only one there.
      intro among
      cases found : session.active.find? fun entry => entry.1 == id with
      | none => simpa using List.find?_eq_none.mp found _ among
      | some entry =>
        have under : entry.1 = id := by simpa using List.find?_some found
        have same := List.inj_on_of_nodup_map registered.apart (List.mem_of_find?_eq_some found) among under
        exact ⟨entry, rfl, congrArg Prod.snd same⟩
  | none =>
    have apart := registered.apart
    simp only [Means, contextFor?, ← registered.known]
    generalize session.active = active at apart ⊢
    rcases active with - | ⟨⟨id, context⟩, - | ⟨⟨next, other⟩, rest⟩⟩
    · simp
    · simp [eq_comm]
    · -- Two calls under way have two ids, so neither is the only one.
      have two : id ≠ next := fun same => by simp [same] at apart
      constructor
      · intro found
        cases found
      · rintro ⟨_, -, only⟩
        exact absurd ((only id context (by simp)).trans (only next other (by simp)).symm) two

-- Once a variable was found for a callback the reader goes on with nothing else. Whatever the calls do meanwhile,
-- it answers next with all of the variable, or makes a region that the peer can read it in; and then, whatever the
-- calls do, it notes the region and answers where that lies.
structure Conveys (peer : Peer σ) (id : Nat) (definition : Variable) (session : Session σ) : Prop where
  begun : session.serving = some (.found id definition)
  goes : ∀ between : List Moment, (∀ moment ∈ between, moment.isReader = false) →
    let before := run peer between session
    let next := Moment.apply peer .proceed before
    ∃ answer, answer ≠ .null ∧ definition.Conveyed answer next.store.memory ∧
      (next = { before with store := next.store, serving := none, stream := before.stream.answer id (.ok answer) } ∨
        ∃ key, next = { before with store := next.store, serving := some (.placed id key answer) } ∧
          ∀ more : List Moment, (∀ moment ∈ more, moment.isReader = false) →
            let last := run peer more next
            Moment.apply peer .proceed last = { last with
              serving := none, variableKeys := last.variableKeys ++ [key], stream := last.stream.answer id (.ok answer) })

theorem found_conveys {definition : Variable} {id : Nat} (peer : Peer σ)
    (found : session.serving = some (.found id definition)) : Conveys peer id definition session := by
  refine ⟨found, fun between beside => ?_⟩
  intro before next
  have still : before.serving = some (.found id definition) := (run_serving peer session beside).trans found
  obtain ⟨answer, something, conveyed, outcome⟩ := found_conveyed still
  refine ⟨answer, something, conveyed, outcome.imp_right fun ⟨key, placed⟩ => ⟨key, placed, fun more others => ?_⟩⟩
  intro last
  have lies : next.serving = some (.placed id key answer) := congrArg Session.serving placed
  exact proceed_placed ((run_serving peer next others).trans lies)

-- What a request comes to, as far as the calls that have begun and ended say it. Where it is answered with nothing
-- nothing else happens.
structure Replied (peer : Peer σ) (history : List Moment) (request : VariableRequest) (id : Nat)
    (before next : Session σ) : Prop where
  found : ∀ stack definition, Means history request.contextId stack →
    stack.resolve? request.depth request.name = some definition →
      next = { before with serving := some (.found id definition) } ∧ Conveys peer id definition next
  undefined : ∀ stack, Means history request.contextId stack → stack.resolve? request.depth request.name = none →
    next = { before with stream := before.stream.answer id (.ok .null) }
  unknown : (∀ stack, ¬ Means history request.contextId stack) →
    next = { before with stream := before.stream.answer id (.ok .null) }

theorem Registered.replied {callback : Callback} {request : VariableRequest} (peer : Peer σ)
    (registered : Registered history session) (named : callback.name = variableCallback)
    (read : VariableRequest.ofJson callback.data = .ok request) :
    Replied peer history request callback.id session (session.serveCallback callback) := by
  have about := fun stack => @Registered.contextFor σ session history request.contextId stack registered
  have sought := @findVariable_read σ session callback.data request read
  cases known : session.contextFor? request.contextId with
  | none =>
    rw [known, Option.bind_none] at sought
    -- No call is meant, or several could be.
    have nowhere : ∀ stack, ¬ Means history request.contextId stack := fun stack means => by
      cases known.symm.trans ((about stack).mpr means)
    have served := serveCallback_absent named registered.serves sought
    exact ⟨fun stack _ means => absurd means (nowhere stack), fun _ _ _ => served, fun _ => served⟩
  | some stack =>
    have means := (about stack).mp known
    have only : ∀ other, Means history request.contextId other → other = stack := fun other also =>
      (Option.some.inj (known.symm.trans ((about other).mpr also))).symm
    rw [known, Option.bind_some] at sought
    cases resolved : stack.resolve? request.depth request.name with
    | none =>
      have served := serveCallback_absent named registered.serves (resolved ▸ sought)
      refine ⟨fun other definition also defined => ?_, fun _ _ _ => served, fun _ => served⟩
      rw [only other also, resolved] at defined
      cases defined
    | some definition =>
      have served := serveCallback_found named registered.serves (resolved ▸ sought)
      refine ⟨fun other sought also defined => ?_, fun other also absent => ?_, fun nowhere => absurd means (nowhere stack)⟩
      · rw [only other also, resolved] at defined
        cases defined
        exact ⟨served, found_conveys peer (by rw [served])⟩
      · rw [only other also, resolved] at absent
        cases absent

-- The dispatcher is never in a session that these histories do not reach, and a request that is read in a session
-- that they reach is answered from the context of the call that it is about and from no other.
theorem requests_answered (peer : Peer σ) (settings : Settings) (state : σ) :
    (∀ operations, ∃ history, (contexts history).Sublist (operations.filterMap Operation.context?) ∧
      after peer operations (Session.start settings state) = run peer history (Session.start settings state)) ∧
    ∀ history, let session := run peer history (Session.start settings state)
      (idsGiven peer history (Session.start settings state)).Nodup ∧
      (∀ stack, (session.enter (some stack)).1 = some ((contexts history).length + 1, stack)) ∧
      (∀ id stack, (id, stack) ∈ session.active ↔ UnderWay history id stack) ∧
      ∀ text unread callback, session.serving = none → (session.stream.receive text).1 = some callback →
        callback.name = variableCallback →
          let before : Session σ := { session with inbox := unread }
          let next := Moment.apply peer (.take (.line text) unread) session
          (∀ fault, VariableRequest.ofJson callback.data = .error fault →
            next = { before with stream := before.stream.answer callback.id (.error fault.message) }) ∧
          ∀ request, VariableRequest.ofJson callback.data = .ok request →
            Replied peer history request callback.id before next := by
  refine ⟨fun operations => after_history peer operations _, fun history => ?_⟩
  intro session
  have registered : Registered history session := (Registered.start settings state).run peer history
  refine ⟨?_, fun stack => ?_, registered.known, fun text unread callback idle taken named => ?_⟩
  · rw [idsGiven_range]
    exact List.nodup_range'
  · rw [← registered.begun]
    rfl
  · intro before next
    have reading : Registered history before := ⟨registered.begun, registered.known, registered.apart, registered.serves⟩
    have free : ¬ session.serving.isSome = true := by simp [idle]
    have took : before.take (.line text) = before.serveCallback callback := take_callback taken
    have served : next = before.serveCallback callback := (if_neg free).trans took
    rw [served]
    refine ⟨fun fault read => ?_, fun request read => reading.replied peer named read⟩
    exact serveCallback_faulty named reading.serves (by simp only [findVariable, read])

-- Of two calls under way one ends. A request that names it is answered with nothing, and one that names
-- no call with what the other call's context defines.
theorem requests_answered_overlapping :
    let wide : Variable := ⟨"@gap", ⟨.plain, .keyword "wide"⟩, false⟩
    let narrow : Variable := ⟨"@gap", ⟨.plain, .keyword "narrow"⟩, false⟩
    let one : EvalContext := FrameStack.context ⟨[⟨1, [wide]⟩]⟩
    let two : EvalContext := FrameStack.context ⟨[⟨2, [narrow]⟩]⟩
    let session := run Peer.mute [.enter one, .enter two, .finish 1] (Session.start .standard ())
    let asked := fun named : Option Nat => Moment.apply Peer.mute
      (.take (.line (Callback.line ⟨7, variableCallback, PeerVariable.question "@gap" named⟩)) []) session
    asked (some 1) = { session with stream := session.stream.answer 7 (.ok .null) } ∧
      asked none = { session with serving := some (.found 7 narrow) } ∧ Conveys Peer.mute 7 narrow (asked none) := by
  intro wide narrow one two session asked
  let history : List Moment := [.enter one, .enter two, .finish 1]
  obtain ⟨-, -, known, answers⟩ := (requests_answered Peer.mute .standard ()).2 history
  have comes : ∀ named : Option Nat, (∀ id ∈ named, id < wordLimit) →
      Replied Peer.mute history ⟨"@gap", 0, named⟩ 7 session (asked named) := by
    intro named small
    have heard := @Multiplexer.receive_line session.stream
      ⟨7, variableCallback, PeerVariable.question "@gap" named⟩ rfl (by decide : 7 < wordLimit)
      (PeerVariable.question_readable small) (Nat.lt_of_le_of_lt (PeerVariable.question_levels _ _) (by decide))
    obtain ⟨-, replied⟩ := answers _ [] _ rfl (congrArg Prod.fst heard) rfl
    exact replied _ (PeerVariable.question_request "@gap" named)
  have going : ∀ id stack, UnderWay history id stack ↔ id = 2 ∧ stack = two := by
    intro id stack
    rw [← known]
    exact List.mem_singleton.trans (Prod.mk.injEq .. ▸ Iff.rfl)
  constructor
  · exact (comes (some 1) (by simp [wordLimit])).unknown fun stack means => absurd ((going 1 stack).mp means).1 (by decide)
  · have means : Means history none two :=
      ⟨2, (going _ _).mpr ⟨rfl, rfl⟩, fun other context also => ((going other context).mp also).1⟩
    exact (comes none (by simp)).found _ narrow means rfl

end Moment
end PluginBridge
