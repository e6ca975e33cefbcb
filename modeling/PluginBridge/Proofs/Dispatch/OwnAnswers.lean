import PluginBridge.Proofs.Dispatch.Answering
import PluginBridge.Proofs.Dispatch.Clerk
namespace PluginBridge

namespace Session
open PluginBridge.Action
open Docket (Quiet Busy Collected Rests Lies Only)
variable {σ : Type} {peer : Peer σ} {fine : σ → Prop} {docketOf : σ → Docket} {guards : RegionId → Prop}
  {origin : Nat} {id : RegionId} {held : List String} {session later : Session σ} {link : ProtocolLink}
  {spec : FunctionSpec} {args : List CallArg} {context : CallContext} {standing next last : Standing}
  {action : Action} {actions : List Action}

theorem Step.uncounted (step : Step peer spec args context standing session action next) (idle : next.request? = none) :
    standing.request? = none ∧ (action.apply peer session).counts.protocol = session.counts.protocol := by
  have kept : (∀ change, action ≠ .count change) →
      (action.apply peer session).counts.protocol = session.counts.protocol :=
    fun other => congrArg CallCounts.protocol (apply_counts peer action session other)
  cases step with
  | count change same => exact ⟨idle, same session.counts⟩
  | _ => first | exact ⟨rfl, kept nofun⟩ | cases idle

theorem Course.uncounted (course : Course peer spec args context standing session actions last later)
    (idle : last.request? = none) : standing.request? = none ∧ later.counts.protocol = session.counts.protocol := by
  induction course with
  | nil => exact ⟨idle, rfl⟩
  | cons step _ ih =>
    obtain ⟨between, same⟩ := ih idle
    obtain ⟨before, first⟩ := step.uncounted between
    exact ⟨before, same.trans first⟩

theorem Course.unlinked (course : Course peer spec args context standing session actions last later)
    (unlinked : session.protocol = none) (idle : standing.request? = none) : last.request? = none := by
  induction course with
  | nil => exact idle
  | @cons standing session action next _ _ _ step _ ih =>
    refine ih ?_ ?_
    · cases linked : (action.apply peer session).protocol with
      | none => rfl
      | some link =>
        obtain ⟨before, there, -⟩ := apply_link peer action session link linked
        cases unlinked.symm.trans there
    · cases step with
      | stage linked _ _ _ => cases unlinked.symm.trans linked
      | offer told => split <;> rfl
      | _ => exact idle

structure Resting (docketOf : σ → Docket) (guards : RegionId → Prop) (fine : σ → Prop) (session : Session σ) :
    Prop where
  sound : Guarded fine (fun _ => False) (fun state memory => Docket.Sound 0 (docketOf state) memory) [] session
  linked : ∀ link, session.protocol = some link → link.host.block.layout = .standard ∧ guards link.host.block.region ∧
    Guarded fine (· = link.host.block.region)
      (fun state memory => Rests link.host.block.region (docketOf state) memory) [] session

namespace Resting

theorem laidOut (resting : Resting docketOf guards fine session) : session.LaidOut :=
  fun link linked => (resting.linked link linked).1

theorem kept (resting : Resting docketOf guards fine session) (memory : later.store.memory = session.store.memory)
    (tracked : later.store.manager.tracked = session.store.manager.tracked)
    (keys : later.lentKeys = session.lentKeys) (peer : later.peer = session.peer)
    (protocol : later.protocol = session.protocol) : Resting docketOf guards fine later :=
  ⟨resting.sound.same memory tracked keys peer, fun link linked => by
    obtain ⟨standard, chosen, rests⟩ := resting.linked link (protocol ▸ linked)
    exact ⟨standard, chosen, rests.same memory tracked keys peer⟩⟩

theorem attended (resting : Resting docketOf guards fine session) (spec : FunctionSpec) (args : List CallArg)
    (context : Option EvalContext) :
    Attended docketOf guards fine (docketOf session.peer).taken.length spec args .unseen
      (session.prepared spec context) := by
  refine ⟨fun link linked => ?_, nofun, nofun⟩
  obtain ⟨memory, preloaded, only⟩ := prepared_kept spec context session
  have there : session.protocol = some link := by
    rw [only] at linked
    exact linked
  obtain ⟨standard, chosen, rests⟩ := resting.linked link there
  have begun : Showing docketOf fine (docketOf session.peer).taken.length link.host.block.region .unseen session :=
    rests.widen id
  refine ⟨standard, chosen, Guarded.prepared begun spec context fun other vars also => ?_⟩
  obtain rfl := Option.some.inj (there.symm.trans also)
  exact quiet_preserved (ProtocolHost.preload_through standard vars) (ProtocolHost.preload_silent standard vars)

end Resting

theorem Concluded.rests {answer : Except DispatchError ResultNode} {docket : Docket} {memory : Memory}
    (concluded : Concluded answer later last) (linked : later.protocol = some link)
    (shows : last.Shows origin id docket memory) : Rests id docket memory := by
  cases last with
  | told lent =>
    obtain ⟨number, data, quiet⟩ := shows
    exact quiet.renewed
  | struck request => exact shows.elim
  | answered request outcome =>
    rcases shows with ⟨waited, late⟩ | ⟨number, data, collected⟩
    · cases (concluded.2 waited late).symm.trans linked
    · exact collected.renewed
  | _ => exact concluded.elim

theorem collected_steady {request : ProtocolRequest} {outcome : Except ProtocolError WireValue} :
    Steady (fun _ _ _ _ => False) (· = id)
      fun state memory => ∃ number data, Collected origin number id request outcome (docketOf state) memory data where
  there := fun ⟨_, _, collected⟩ _ same => same ▸ collected.there
  beside stands := fun ⟨number, data, collected⟩ => ⟨number, data, collected.stands stands⟩
  turn := nofun
  grows := nofun

-- The request of a call is the only one that was taken from the region of the protocol since the call began, and the
-- call is answered with the reply to it, unless the host fails to read that.
def AnsweredOwn (spec : FunctionSpec) (args : List CallArg) (origin : Nat) (link : ProtocolLink) (docket : Docket)
    (memory : Memory) (answer : Except DispatchError ResultNode) : Prop :=
  ∃ number index taker request reply,
    link.host.functionId? spec.name = some request.functionId ∧ args.mapM CallArg.toWire? = some request.args ∧
    memory.fileOf? link.host.block.region = some number ∧
    Only origin number docket memory index ⟨taker, request, some reply⟩ ∧
    (answer = rendered reply.shown ∨
      ∃ e, answer = .error (.protocol e) ∧ ¬ e.FromPeer ∧ ∀ waited, e ≠ .timeout waited)

theorem collected_own {request : ProtocolRequest} {outcome : Except ProtocolError WireValue} {docket : Docket}
    {memory : Memory} {number : Nat} {data : ByteArray} (known : link.host.functionId? spec.name = some request.functionId)
    (wired : args.mapM CallArg.toWire? = some request.args) (timely : ∀ waited, outcome ≠ .error (.timeout waited))
    (collected : Collected origin number link.host.block.region request outcome docket memory data) :
    AnsweredOwn spec args origin link docket memory (rendered outcome) := by
  obtain ⟨box, low, index, taker, reply, only, came⟩ := collected
  refine ⟨number, index, taker, request, reply, known, wired, box.views.fileOf, only, ?_⟩
  rcases came with rfl | ⟨e, rfl, own⟩
  · exact .inl rfl
  · refine .inr ⟨e, ?_, own, fun waited late => timely waited (congrArg _ late)⟩
    cases e with
    | peer text => exact absurd trivial own
    | _ => rfl

namespace Attended
variable {request : ProtocolRequest}

theorem struck (attended : Attended docketOf guards fine origin spec args (.struck request) session) :
    ¬ fine session.peer := by
  intro good
  cases there : session.protocol with
  | none =>
    obtain ⟨waited, other⟩ := attended.there request rfl there
    cases other
  | some link => exact ((attended.linked link there).2.2 good).holds

theorem own {outcome : Except ProtocolError WireValue} {answer : Except DispatchError ResultNode}
    (attended : Attended docketOf guards fine origin spec args (.answered request outcome) session)
    (concluded : Concluded answer session (.answered request outcome)) (context : CallContext)
    (good : fine (session.leave context).peer) :
    (∃ waited, answer = .error (.protocol (.timeout waited))) ∧ session.protocol = none ∨
      ∃ link, session.protocol = some link ∧ AnsweredOwn spec args origin link (docketOf (session.leave context).peer)
        (session.leave context).store.memory answer := by
  cases there : session.protocol with
  | none =>
    obtain ⟨waited, late⟩ := attended.there request rfl there
    cases late
    exact .inl ⟨⟨waited, concluded.1⟩, rfl⟩
  | some link =>
    have timely : ∀ waited, outcome ≠ .error (.timeout waited) :=
      fun waited late => nomatch (concluded.2 waited late).symm.trans there
    obtain ⟨-, -, showing⟩ := attended.linked link there
    have collected : Guarded fine (· = link.host.block.region) (fun state memory => ∃ number data,
        Collected origin number link.host.block.region request outcome (docketOf state) memory data) [] session :=
      showing.widen fun shows => shows.resolve_left fun ⟨waited, late⟩ => timely waited late
    obtain ⟨number, data, collected⟩ := (collected.leave collected_steady context good).holds
    obtain ⟨wired, host⟩ := attended.asks request rfl
    rw [concluded.1]
    exact .inr ⟨link, rfl, collected_own (host link there).1 wired timely collected⟩

end Attended

section call
variable (watched : peer.Watched fine (Attends docketOf guards)) (resting : Resting docketOf guards fine session)
include watched resting

theorem Resting.course (spec : FunctionSpec) (scope : ScopeKey) (args : List CallArg) (context : Option EvalContext) :
    (∃ hit cache, call peer spec scope args context session = .ok hit { session with cache := cache }) ∨
    ∃ last middle entered cache,
      Attended docketOf guards fine (docketOf session.peer).taken.length spec args last middle ∧
      Concluded (answered (call peer spec scope args context session)) middle last ∧
      left (call peer spec scope args context session) = { middle.leave entered with cache := cache } ∧
      (last.request? = none → middle.counts.protocol = session.counts.protocol) ∧
      (session.protocol = none → last.request? = none) ∧ SameLink session middle := by
  rcases call_parts peer spec scope args context session with
    hit | ⟨first, cache, before, actions, last, middle, -, -, course, concluded, same, -⟩
  · exact .inl hit
  · let begun : Session σ := { session with cache := first }
    have begins : Resting docketOf guards fine begun := resting.kept rfl rfl rfl rfl rfl
    obtain ⟨memory, preloaded, only⟩ := prepared_kept spec context begun
    have attended := course.attended watched (begins.attended spec args context)
    refine .inr ⟨last, middle, _, cache, attended, concluded, same, ?_, ?_, ?_⟩
    · intro idle
      exact (course.uncounted idle).2.trans (by rw [only])
    · exact fun unlinked => course.unlinked (by rw [only]; exact unlinked) rfl
    · have through : SameLink (begun.prepared spec context) middle := course.runs ▸ run_link peer actions _
      exact SameLink.trans (.of_same (by rw [only])) through

theorem Resting.call (spec : FunctionSpec) (scope : ScopeKey) (args : List CallArg) (context : Option EvalContext) :
    Resting docketOf guards fine (left (Session.call peer spec scope args context session)) := by
  have sound := operate_firm sound_firm watched resting.laidOut resting.sound (.call spec scope args context)
  refine ⟨sound, fun link linked => ?_⟩
  rcases resting.course watched spec scope args context with
    ⟨hit, cache, ran⟩ | ⟨last, middle, entered, cache, attended, concluded, same, -⟩
  · rw [ran] at linked ⊢
    have cached : Resting docketOf guards fine ({ session with cache := cache } : Session σ) :=
      resting.kept rfl rfl rfl rfl rfl
    exact cached.linked link linked
  · rw [same] at linked ⊢
    have there : middle.protocol = some link :=
      (leave_kept entered middle).2.2.2.symm.trans linked
    obtain ⟨standard, chosen, showing⟩ := attended.linked link there
    have rests : Guarded fine (· = link.host.block.region)
        (fun state memory => Rests link.host.block.region (docketOf state) memory) last.keys middle :=
      showing.widen (concluded.rests there)
    rw [concluded.keys] at rests
    exact ⟨standard, chosen, (rests.leave (rests_steady chosen) entered).same rfl rfl rfl rfl⟩

theorem Resting.answered (spec : FunctionSpec) (scope : ScopeKey) (args : List CallArg) (context : Option EvalContext)
    (good : fine (left (Session.call peer spec scope args context session)).peer) :
    let ran := Session.call peer spec scope args context session
    (left ran).counts.protocol = session.counts.protocol ∧ (∀ e, PluginBridge.answered ran ≠ .error (.protocol e)) ∨
      ∃ link, session.protocol = some link ∧
        ((∃ waited, PluginBridge.answered ran = .error (.protocol (.timeout waited))) ∧ (left ran).protocol = none ∨
          ∃ knowing, (left ran).protocol = some knowing ∧ knowing.place = link.place ∧
            AnsweredOwn spec args (docketOf session.peer).taken.length knowing (docketOf (left ran).peer)
              (left ran).store.memory (PluginBridge.answered ran)) := by
  intro ran
  -- The call was cached, or it was told on another way, or raised as a request.
  rcases resting.course watched spec scope args context with
    ⟨hit, cache, cached⟩ | ⟨last, middle, entered, cache, attended, concluded, same, idle, unlinked, through⟩
  · have hits : ran = .ok hit { session with cache := cache } := cached
    rw [hits]
    exact .inl ⟨rfl, nofun⟩
  have state : left ran = { middle.leave entered with cache := cache } := same
  have good : fine (middle.leave entered).peer := by
    rw [same] at good
    exact good
  obtain ⟨counts, -, -, protocol⟩ := leave_kept entered middle
  rw [state]
  cases last with
  | told lent =>
    refine .inl ⟨(congrArg CallCounts.protocol counts).trans (idle rfl), fun e failed => ?_⟩
    exact concluded.2 _ failed trivial
  | struck request => exact (attended.struck (leave_peer entered middle ▸ good)).elim
  | answered request outcome =>
    cases linked : session.protocol with
    | none => cases unlinked linked
    | some link =>
      refine .inr ⟨link, rfl, ?_⟩
      rcases attended.own concluded entered good with ⟨late, gone⟩ | ⟨knowing, there, own⟩
      · exact .inl ⟨late, protocol.trans gone⟩
      · obtain ⟨before, first, place⟩ := through knowing there
        obtain rfl := Option.some.inj (linked.symm.trans first)
        exact .inr ⟨knowing, protocol.trans there, place, own⟩
  | _ => exact concluded.elim

theorem Resting.init (settled : session.Settled)
    (chosen : ∀ link, (left (initProtocol peer session)).protocol = some link → guards link.host.block.region) :
    Resting docketOf guards fine (left (initProtocol peer session)) := by
  have sound := Guarded.init watched sound_firm.steady resting.sound
  have beside : (left (initProtocol peer session)).protocol = session.protocol →
      Resting docketOf guards fine (left (initProtocol peer session)) := by
    refine fun same => ⟨sound, fun link linked => ?_⟩
    obtain ⟨standard, guard, rests⟩ := resting.linked link (same ▸ linked)
    exact ⟨standard, guard, Guarded.init watched (rests_steady guard) rests⟩
  rcases initProtocol_cases peer session with
    ⟨e, store, ran, -⟩ | ⟨id, store, data, owned, numbered, ⟨-, ran⟩ | ⟨-, ran⟩⟩
  · exact beside (by rw [ran]; rfl)
  · refine ⟨sound, fun link linked => ?_⟩
    have guard := chosen link linked
    rw [ran] at linked ⊢
    cases linked
    let made : Session σ := { session with store := store }
    have begun : Guarded fine (· = id) (fun state memory => Rests id (docketOf state) memory) [] made :=
      Guarded.found resting.sound (fun _ => settled.given) owned numbered
        fun good => .fresh (resting.sound good).holds owned
    have sent := begun.sendCall (rests_steady guard) watched "initProtocol" data
    exact ⟨rfl, guard, sent.same rfl rfl rfl rfl⟩
  · refine beside ?_
    rw [ran]
    exact (onStore_stored _ _).protocol.trans (sendCall_aside peer "initProtocol" data _).protocol

theorem Resting.operate (settled : session.Settled) (operation : Operation)
    (chosen : ∀ link, (Session.operate peer session operation).protocol = some link → guards link.host.block.region) :
    Resting docketOf guards fine (Session.operate peer session operation) := by
  cases operation with
  | initProtocol => exact resting.init watched settled chosen
  | shutdownProtocol =>
    refine ⟨operate_firm sound_firm watched resting.laidOut resting.sound .shutdownProtocol, fun link linked => ?_⟩
    exact absurd ((shutdownProtocol_none session).symm.trans linked) nofun
  | beginCompilation => exact resting.kept rfl rfl rfl rfl rfl
  | invalidate function => exact resting.kept rfl rfl rfl rfl rfl
  | call spec scope args context => exact resting.call watched spec scope args context

end call

-- A fault in the control section is met when the wait for the response begins. The call fails by it and the protocol
-- stays, whether or not the request was taken; so the faults that the moves of a peer allow lie in other regions.
theorem finishProtocol_faulty {host : ProtocolHost} {state : σ} {signalled seen : Memory} {region : Region}
    {positions : List Nat} {position : Nat} (rang : host.signalRequest session.store.memory = .ok () signalled)
    (looked : peer.poll session.peer signalled = (state, seen))
    (found : seen.region? host.block.region = some region) (mapped : region.mapping = .faulty positions)
    (among : position ∈ positions) (low : host.block.layout.controlOffset ≤ position)
    (high : position < host.block.layout.controlOffset + host.block.layout.controlSize)
    (fits : host.block.layout.controlOffset + host.block.layout.controlSize ≤ region.size) :
    answered (finishProtocol peer host session) = .error (.protocol (.region .io)) ∧
      (left (finishProtocol peer host session)).protocol = session.protocol := by
  have flushed := Memory.syncRange_faulty found mapped among low high fits
  have synced : host.block.syncControl seen = .error (.region .io) seen := by
    simp only [ProtocolRegion.syncControl, ProtocolRegion.access, EStateM.adaptExcept, flushed]
  have took : answered (host.takeResponse seen) = .error (.region .io) := by
    have waits : host.waitForResponse none seen = .error (.region .io) seen := bind_failed synced
    rw [ProtocolHost.takeResponse_answered, bind_failed waits]
    rfl
  obtain ⟨answer, after⟩ := finishProtocol_timely rang looked fun waited late => by cases took.symm.trans late
  rw [answer, after, took]
  exact ⟨rfl, rfl⟩

end Session
end PluginBridge
