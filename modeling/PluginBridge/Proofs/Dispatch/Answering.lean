import PluginBridge.Proofs.Call.WireRebuilding
import PluginBridge.Proofs.Dispatch.Following
import PluginBridge.Proofs.Protocol.Answering
import PluginBridge.Proofs.Protocol.StageWrites
namespace PluginBridge
open Docket (Quiet Busy Collected Rests Lies Only)

namespace Standing

def request? : Standing → Option ProtocolRequest
  | staged request | struck request | raised request | looked request | answered request _ => some request
  | _ => none

def Shows (start : Nat) (id : RegionId) (docket : Docket) (memory : Memory) : Standing → Prop
  | staged request => ∃ number data, Quiet start number id docket memory data ∧ Lies request data
  | struck _ => False
  | raised request | looked request => ∃ number data, Busy start number id request docket memory data
  | answered request outcome => (∃ waited, outcome = .error (.timeout waited)) ∨
      ∃ number data, Collected start number id request outcome docket memory data
  | _ => ∃ number data, Quiet start number id docket memory data

end Standing

namespace Session
open PluginBridge.Action
variable {σ : Type} {peer : Peer σ} {fine : σ → Prop} {docketOf : σ → Docket} {guards : RegionId → Prop}
  {start : Nat} {id : RegionId} {held : List String} {session later : Session σ} {link : ProtocolLink}
  {spec : FunctionSpec} {args : List CallArg} {context : CallContext} {standing next last : Standing}
  {action : Action} {actions : List Action}

def Attends (docketOf : σ → Docket) (guards : RegionId → Prop) (state : σ) (memory : Memory) (next : σ)
    (later : Memory) : Prop :=
  Relation.ReflTransGen (Docket.Move guards) (docketOf state, memory) (docketOf next, later)

theorem docket_steady (holds : Docket → Memory → Prop)
    (there : ∀ {docket memory}, holds docket memory → ∃ region, memory.region? id = some region)
    (beside : ∀ {docket memory later}, memory.Stands (· = id) later → holds docket memory → holds docket later)
    (sound : ∀ {docket memory}, holds docket memory → ∃ start, Docket.Sound start docket memory)
    (each : ∀ {docket memory next later}, Docket.Move guards (docket, memory) (next, later) →
      holds docket memory → holds next later) :
    Steady (Attends docketOf guards) (· = id) fun state memory => holds (docketOf state) memory :=
  ⟨fun begun _ same => same ▸ there begun, beside, Docket.Move.run holds each, fun moves begun =>
    (sound begun).elim fun _ sound => Docket.Move.grown sound moves⟩

section steady
variable (chosen : guards id)
include chosen

theorem quiet_steady (start : Nat) : Steady (Attends docketOf guards) (· = id)
    fun state memory => ∃ number data, Quiet start number id (docketOf state) memory data :=
  docket_steady (fun docket memory => ∃ number data, Quiet start number id docket memory data)
    (fun ⟨_, _, quiet⟩ => quiet.there) (fun stands ⟨number, data, quiet⟩ => ⟨number, data, quiet.stands stands⟩)
    (fun ⟨_, _, quiet⟩ => ⟨start, quiet.toSound⟩) fun move ⟨number, _, quiet⟩ => ⟨number, quiet.move chosen move⟩

theorem rests_steady : Steady (Attends docketOf guards) (· = id) fun state memory => Rests id (docketOf state) memory :=
  docket_steady (Rests id)
    (fun ⟨_, _, quiet⟩ => quiet.there) (fun stands ⟨number, data, quiet⟩ => ⟨number, data, quiet.stands stands⟩)
    (fun ⟨_, _, quiet⟩ => ⟨_, quiet.toSound⟩) fun move ⟨_, _, quiet⟩ =>
      (quiet.move chosen move).elim fun _ => Quiet.renewed

theorem busy_steady (start : Nat) (request : ProtocolRequest) : Steady (Attends docketOf guards) (· = id)
    fun state memory => ∃ number data, Busy start number id request (docketOf state) memory data :=
  docket_steady (fun docket memory => ∃ number data, Busy start number id request docket memory data)
    (fun ⟨_, _, busy⟩ => busy.there) (fun stands ⟨number, data, busy⟩ => ⟨number, data, busy.stands stands⟩)
    (fun ⟨_, _, busy⟩ => ⟨start, busy.toSound⟩) fun move ⟨number, _, busy⟩ => ⟨number, busy.move chosen move⟩

end steady

theorem sound_firm : Firm (Attends docketOf guards) fun state memory => Docket.Sound 0 (docketOf state) memory where
  turn moves begun := Docket.Move.run (Docket.Sound 0) (fun move sound => move.sound sound) moves begun
  follows follows sound := sound.follows follows
  grows moves sound := Docket.Move.grown sound moves

abbrev Showing (docketOf : σ → Docket) (fine : σ → Prop) (start : Nat) (id : RegionId) (standing : Standing)
    (session : Session σ) : Prop :=
  Guarded fine (· = id) (fun state memory => standing.Shows start id (docketOf state) memory) standing.keys session

theorem quiet_preserved {ε α : Type} {action : EStateM ε Memory α} {touched : Nat → Prop}
    (through : Along (Memory.Through id touched) action) (silent : Along Memory.Silent action) :
    Along (Preserves fun state memory => ∃ number data, Quiet start number id (docketOf state) memory data) action :=
  fun memory => ⟨(through memory).follows.regions, fun _ ⟨number, _, quiet⟩ =>
    ⟨number, quiet.written (through memory) (silent memory)⟩⟩

theorem onMemory_answer {ε α : Type} (action : EStateM ε Memory α) (session : Session σ) :
    (session.onMemory action).1 = answered (action session.store.memory) := by
  cases ran : session.onMemory action with
  | mk answer later => exact (onMemory_answered ran).1.symm

namespace Showing
variable {request : ProtocolRequest} (standard : link.host.block.layout = .standard)
  (linked : session.protocol = some link)
include standard linked

theorem misstage (request : ProtocolRequest)
    (showing : Showing docketOf fine start link.host.block.region .unseen session) :
    Showing docketOf fine start link.host.block.region .unseen (session.onLink (Session.stage request)) := by
  refine Guarded.stage showing request fun other also => ?_
  obtain rfl := Option.some.inj (linked.symm.trans also)
  exact quiet_preserved (ProtocolHost.stageCall_along (HostWrites.apart _) standard _ _)
    (ProtocolHost.stageCall_silent standard _ _)

theorem stage {host : ProtocolHost} (shallow : ∀ value ∈ request.args, value.depth ≤ WireValue.maxDepth)
    (staged : (session.onMemory (link.host.stageCall request.functionId request.args)).1 = .ok (host, .ok ()))
    (showing : Showing docketOf fine start link.host.block.region .unseen session) :
    Showing docketOf fine start link.host.block.region (.staged request) (session.onLink (Session.stage request)) := by
  have ran := answered_done ((onMemory_answer _ _).symm.trans staged)
  have moved : Showing docketOf fine start link.host.block.region (.staged request)
      (session.onMemory (link.host.stageCall request.functionId request.args)).2 :=
    Guarded.advance showing
      (ProtocolHost.stageCall_along (fun _ _ _ => Memory.write_follows _ _ _) standard _ _ _).regions
      fun _ ⟨number, _, quiet⟩ => ⟨number, quiet.staged standard shallow ran⟩
  rw [onLink_some linked, Session.stage]
  split <;> rename_i answer <;> rw [answer] at moved
  · exact Guarded.same moved rfl rfl rfl rfl
  · exact moved

theorem raise (fits : link.host.argCursor ≤ Layout.standard.argsSize)
    (showing : Showing docketOf fine start link.host.block.region (.staged request) session) :
    Showing docketOf fine start link.host.block.region (.raised request) (Action.apply peer .raise session) := by
  rw [Action.apply, onLink_some linked]
  refine Guarded.advance showing (ProtocolHost.signalRequest_along standard (Memory.write_follows _ _ _) _).regions
    fun _ holds => ?_
  obtain ⟨number, data, quiet, lies⟩ := holds
  obtain ⟨later, after, ran, busy⟩ := quiet.raised standard fits lies
  rw [ran]
  exact ⟨number, after, busy⟩

theorem strike {e : ProtocolError} (fits : link.host.argCursor ≤ Layout.standard.argsSize)
    (failed : (session.onMemory link.host.signalRequest).1 = .error e)
    (showing : Showing docketOf fine start link.host.block.region (.staged request) session) :
    Showing docketOf fine start link.host.block.region (.struck request) (Action.apply peer .raise session) := by
  rw [Action.apply, onLink_some linked]
  refine Guarded.advance showing (ProtocolHost.signalRequest_along standard (Memory.write_follows _ _ _) _).regions
    fun _ holds => ?_
  obtain ⟨number, data, quiet, lies⟩ := holds
  obtain ⟨later, after, ran, -⟩ := quiet.raised standard fits lies
  rw [onMemory_answer, ran] at failed
  cases failed

theorem collect (showing : Showing docketOf fine start link.host.block.region (.looked request) session) :
    Showing docketOf fine start link.host.block.region (.answered request (session.onMemory link.host.takeResponse).1)
      (Action.apply peer .collect session) := by
  rw [Action.apply, onLink_some linked, onMemory_answer]
  refine Guarded.advance showing
    (ProtocolHost.takeResponse_along (fun _ _ _ => Memory.write_follows _ _ _) standard _).regions fun _ holds => ?_
  obtain ⟨number, data, busy⟩ := holds
  rcases busy.collected standard with late | ⟨after, collected⟩
  · exact .inl ⟨_, late⟩
  · exact .inr ⟨number, after, collected⟩

end Showing

structure Asks (spec : FunctionSpec) (args : List CallArg) (request : ProtocolRequest) (session : Session σ) :
    Prop where
  wired : args.mapM CallArg.toWire? = some request.args
  host : ∀ link, session.protocol = some link → link.host.functionId? spec.name = some request.functionId ∧
    link.host.argCursor ≤ Layout.standard.argsSize

structure Attended (docketOf : σ → Docket) (guards : RegionId → Prop) (fine : σ → Prop) (start : Nat)
    (spec : FunctionSpec) (args : List CallArg) (standing : Standing) (session : Session σ) : Prop where
  linked : ∀ link, session.protocol = some link → link.host.block.layout = .standard ∧ guards link.host.block.region ∧
    Showing docketOf fine start link.host.block.region standing session
  asks : ∀ request, standing.request? = some request → Asks spec args request session
  there : ∀ request, standing.request? = some request → session.protocol = none →
    ∃ waited, standing = .answered request (.error (.timeout waited))

theorem Asks.kept {request : ProtocolRequest} (asks : Asks spec args request session)
    (same : later.protocol = session.protocol) : Asks spec args request later :=
  ⟨asks.wired, fun link linked => asks.host link (same ▸ linked)⟩

theorem Asks.staged {host : ProtocolHost} {request : ProtocolRequest} (standard : link.host.block.layout = .standard)
    (linked : session.protocol = some link) (known : link.host.functionId? spec.name = some request.functionId)
    (wired : args.mapM CallArg.toWire? = some request.args)
    (staged : (session.onMemory (link.host.stageCall request.functionId request.args)).1 = .ok (host, .ok ())) :
    Asks spec args request (session.onLink (Session.stage request)) := by
  have ran := answered_done ((onMemory_answer _ _).symm.trans staged)
  have stays := @ProtocolHost.stageCall_stays link.host request.functionId request.args _ _ _ ran
  have cursor := (ProtocolHost.stageCall_writes ran).2.2.2.2
  have still := (onMemory_stored (link.host.stageCall request.functionId request.args) session).protocol.trans linked
  have answer : session.onMemory (link.host.stageCall request.functionId request.args) = (.ok (host, .ok ()), _) :=
    Prod.ext staged rfl
  refine ⟨wired, fun other there => ?_⟩
  rw [onLink_some linked, Session.stage, answer] at there
  obtain rfl := Option.some.inj ((setHost_linked still host).symm.trans there)
  refine ⟨?_, standard ▸ cursor⟩
  rw [ProtocolHost.functionId?, stays.functions]
  exact known

namespace Attended

theorem laidOut (attended : Attended docketOf guards fine start spec args standing session) : session.LaidOut :=
  fun link linked => (attended.linked link linked).1

end Attended

section step
variable (watched : peer.Watched fine (Attends docketOf guards))
  (heeded : Attended docketOf guards fine start spec args standing session)
  (step : Step peer spec args context standing session action next)
include heeded step

theorem Step.asks : ∀ request, next.request? = some request → Asks spec args request (action.apply peer session) := by
  intro request stands
  have memory : ∀ {ε α : Type} (act : ProtocolLink → EStateM ε Memory α),
      (session.onLink fun link session => (session.onMemory (act link)).2).protocol = session.protocol := by
    intro ε α act
    unfold Session.onLink
    split
    · rfl
    · exact (onMemory_stored _ session).protocol
  cases step with
  | count change => exact (heeded.asks request stands).kept rfl
  | tally => exact (heeded.asks request stands).kept rfl
  | stage linked known wired staged =>
    cases stands
    exact .staged (heeded.laidOut _ linked) linked known wired staged
  | raise _ _ => exact (heeded.asks request stands).kept (memory _)
  | strike _ _ => exact (heeded.asks request stands).kept (memory _)
  | look => exact (heeded.asks request stands).kept rfl
  | collect _ _ => exact (heeded.asks request stands).kept (memory _)
  | expire =>
    refine ⟨(heeded.asks request stands).wired, fun _ linked => ?_⟩
    exact absurd ((shutdownProtocol_none session).symm.trans linked) nofun
  | offer told => split at stands <;> cases stands
  | _ => cases stands

theorem Step.there : ∀ request, next.request? = some request → (action.apply peer session).protocol = none →
    ∃ waited, next = .answered request (.error (.timeout waited)) := by
  intro request stands gone
  have before : action ≠ .drop → session.protocol = none := by
    intro stays
    have place := apply_place peer action session stays
    rw [gone] at place
    exact Option.map_eq_none_iff.mp place.symm
  cases step with
  | count change => exact heeded.there request stands (before nofun)
  | tally => exact heeded.there request stands (before nofun)
  | stage linked _ _ _ => exact absurd (linked.symm.trans (before nofun)) nofun
  | raise linked _ => exact absurd (linked.symm.trans (before nofun)) nofun
  | strike linked _ => exact absurd (linked.symm.trans (before nofun)) nofun
  | look =>
    obtain ⟨waited, other⟩ := heeded.there request stands (before nofun)
    cases other
  | collect linked _ => exact absurd (linked.symm.trans (before nofun)) nofun
  | @expire _ _ waited =>
    cases stands
    exact ⟨waited, rfl⟩
  | offer told => split at stands <;> cases stands
  | _ => cases stands

include watched

theorem Step.shows (stays : action ≠ .drop) (linked : session.protocol = some link) :
    Showing docketOf fine start link.host.block.region next (action.apply peer session) := by
  obtain ⟨standard, chosen, showing⟩ := heeded.linked link linked
  have fits : ∀ request, standing.request? = some request → link.host.argCursor ≤ Layout.standard.argsSize :=
    fun request stands => ((heeded.asks request stands).host link linked).2
  have beside := @Step.guarded_beside _ peer fine _ _ _ session spec args context standing next action watched
    (@quiet_steady σ docketOf guards link.host.block.region chosen start) step
  cases step with
  | count change => exact Guarded.same showing rfl rfl rfl rfl
  | tally => exact Guarded.same showing rfl rfl rfl rfl
  | stage there known wired staged =>
    obtain rfl := Option.some.inj (linked.symm.trans there)
    exact Showing.stage standard linked (CallArg.wires_depth wired) staged showing
  | misstage request => exact Showing.misstage standard linked request showing
  | abandon => exact absurd rfl stays
  | expire => exact absurd rfl stays
  | raise there _ => exact Showing.raise standard linked (fits _ rfl) showing
  | strike there failed =>
    obtain rfl := Option.some.inj (linked.symm.trans there)
    exact Showing.strike standard linked (fits _ rfl) failed showing
  | look => exact Guarded.look (busy_steady chosen start _) watched showing
  | collect there took =>
    obtain rfl := Option.some.inj (linked.symm.trans there)
    exact took ▸ Showing.collect standard linked showing
  | offer told =>
    split <;> rename_i declined
    · rw [if_pos declined] at beside
      exact beside rfl showing
    · rw [if_neg declined] at beside
      exact beside rfl showing
  | _ => exact beside rfl showing

theorem Step.attended : Attended docketOf guards fine start spec args next (action.apply peer session) := by
  refine ⟨fun link linked => ?_, step.asks heeded, step.there heeded⟩
  by_cases ends : action = .drop
  · subst ends
    exact absurd ((shutdownProtocol_none session).symm.trans linked) nofun
  · obtain ⟨before, there, same⟩ := apply_link peer action session link linked
    obtain ⟨standard, chosen, -⟩ := heeded.linked before there
    have shows := step.shows watched heeded ends there
    have block : link.host.block = before.host.block := congrArg Prod.snd same
    rw [block]
    exact ⟨standard, chosen, shows⟩

end step

theorem Course.attended (watched : peer.Watched fine (Attends docketOf guards))
    (course : Course peer spec args context standing session actions last later)
    (attended : Attended docketOf guards fine start spec args standing session) :
    Attended docketOf guards fine start spec args last later := by
  induction course with
  | nil => exact attended
  | cons step _ ih => exact ih (step.attended watched attended)

end Session
end PluginBridge
