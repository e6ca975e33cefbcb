import PluginBridge.Proofs.Dispatch.Delivery
import PluginBridge.Proofs.Dispatch.Runs
import PluginBridge.Proofs.Region.Keeping
namespace PluginBridge

structure PeerAct (σ : Type) where
  state : σ
  memory : Memory
  next : σ
  later : Memory

namespace Peer
variable {σ : Type}

def recorded (peer : Peer σ) : Peer (σ × List (PeerAct σ)) where
  hear state input memory :=
    let step := peer.hear state.1 input memory
    ⟨(step.state, state.2 ++ [⟨state.1, memory, step.state, step.memory⟩]), step.output, step.memory⟩
  poll state memory :=
    let (next, later) := peer.poll state.1 memory
    ((next, state.2 ++ [⟨state.1, memory, next, later⟩]), later)
  pace := peer.pace

-- A peer whose state tells what it did so far: where it is fine, the peer did only what it may.
structure Watched (peer : Peer σ) (fine : σ → Prop) (may : σ → Memory → σ → Memory → Prop) : Prop where
  hear : ∀ state input memory, fine (peer.hear state input memory).state →
    fine state ∧ may state memory (peer.hear state input memory).state (peer.hear state input memory).memory
  poll : ∀ state memory, fine (peer.poll state memory).1 →
    fine state ∧ may state memory (peer.poll state memory).1 (peer.poll state memory).2

theorem recorded_watched (peer : Peer σ) (may : σ → Memory → σ → Memory → Prop) :
    peer.recorded.Watched (fun state => ∀ act ∈ state.2, may act.state act.memory act.next act.later)
      fun state memory next later => may state.1 memory next.1 later where
  hear state input memory fine := by
    obtain ⟨before, last⟩ := List.forall_mem_append.mp fine
    exact ⟨before, last _ (List.mem_singleton_self _)⟩
  poll state memory fine := by
    obtain ⟨before, last⟩ := List.forall_mem_append.mp fine
    exact ⟨before, last _ (List.mem_singleton_self _)⟩

end Peer

structure Steady {σ : Type} (may : σ → Memory → σ → Memory → Prop) (kept : RegionId → Prop)
    (holds : σ → Memory → Prop) : Prop where
  there : ∀ {state memory}, holds state memory → ∀ id, kept id → ∃ region, memory.region? id = some region
  beside : ∀ {state memory later}, memory.Stands kept later → holds state memory → holds state later
  turn : ∀ {state memory next later}, may state memory next later → holds state memory → holds next later
  grows : ∀ {state memory next later}, may state memory next later → holds state memory →
    memory.regions.size ≤ later.regions.size

def Action.isInside : Action → Bool
  | .stage _ | .raise | .collect | .drop => true
  | _ => false

namespace Session
variable {σ : Type} {peer : Peer σ} {fine : σ → Prop} {may : σ → Memory → σ → Memory → Prop}
  {kept : RegionId → Prop} {holds : σ → Memory → Prop} {held more : List String} {session later : Session σ}

-- Something holds, and the regions that are to be given back are none of the kept ones.
structure Guards (kept : RegionId → Prop) (holds : σ → Memory → Prop) (held : List String)
    (session : Session σ) : Prop where
  holds : holds session.peer session.store.memory
  ranged : ∀ entry ∈ session.store.manager.tracked, entry.2.index < session.store.memory.regions.size
  apart : ∀ entry ∈ session.store.manager.tracked, entry.1 ∈ session.lentKeys ++ held → ¬ kept entry.2

def Guarded (fine : σ → Prop) (kept : RegionId → Prop) (holds : σ → Memory → Prop) (held : List String)
    (session : Session σ) : Prop :=
  fine session.peer → Guards kept holds held session

structure Preserves (holds : σ → Memory → Prop) (before after : Memory) : Prop where
  regions : before.regions.size ≤ after.regions.size
  holds : ∀ state, holds state before → holds state after

instance : IsPreorder Memory (Preserves holds) where
  refl _ := ⟨Nat.le_refl _, fun _ held => held⟩
  trans _ _ _ first second :=
    ⟨Nat.le_trans first.regions second.regions, fun state held => second.holds state (first.holds state held)⟩

namespace Guarded

theorem same (guarded : Guarded fine kept holds held session) (memory : later.store.memory = session.store.memory)
    (tracked : later.store.manager.tracked = session.store.manager.tracked)
    (keys : later.lentKeys = session.lentKeys) (peer : later.peer = session.peer) :
    Guarded fine kept holds held later := by
  intro good
  obtain ⟨holds, ranged, apart⟩ := guarded (peer ▸ good)
  refine ⟨?_, fun entry among => ?_, fun entry among lent => ?_⟩
  · rw [peer, memory]
    exact holds
  · rw [tracked] at among
    rw [memory]
    exact ranged entry among
  · rw [tracked] at among
    rw [keys] at lent
    exact apart entry among lent

theorem fewer (guarded : Guarded fine kept holds held session) (sub : ∀ key ∈ more, key ∈ held) :
    Guarded fine kept holds more session := by
  intro good
  obtain ⟨before, ranged, apart⟩ := guarded good
  refine ⟨before, ranged, fun entry among lent => apart entry among ?_⟩
  rcases List.mem_append.mp lent with variable_ | lent
  · exact List.mem_append_left _ variable_
  · exact List.mem_append_right _ (sub entry.1 lent)

section steady
variable (steady : Steady may kept holds)
include steady

theorem lend {id : RegionId} (guarded : Guarded fine kept holds held session)
    (keeps : session.store.memory.Keeps later.store.memory)
    (recent : session.store.memory.regions.size ≤ id.index) (there : id.index < later.store.memory.regions.size)
    (made : Numbered session.store.manager later.store.manager id)
    (keys : ∀ key, key ∈ later.lentKeys ++ more →
      key ∈ session.lentKeys ++ held ∨ key = Store.keyText session.store.manager.nextKey)
    (peer : later.peer = session.peer) : Guarded fine kept holds more later := by
  intro good
  obtain ⟨before, ranged, apart⟩ := guarded (peer ▸ good)
  refine ⟨?_, fun entry among => ?_, fun entry among lent => ?_⟩
  · rw [peer]
    exact steady.beside (keeps.stands kept) before
  · rw [made.tracked] at among
    rcases List.mem_append.mp among with old | new
    · exact Nat.lt_of_lt_of_le (ranged entry (List.mem_of_mem_filter old)) keeps.follows.regions
    · cases List.mem_singleton.mp new
      exact there
  · rw [made.tracked] at among
    rcases List.mem_append.mp among with old | new
    · obtain ⟨inside, other⟩ := List.mem_filter.mp old
      rcases keys entry.1 lent with before | same
      · exact apart entry inside before
      · exact absurd same (by simpa using other)
    · cases List.mem_singleton.mp new
      intro chosen
      obtain ⟨region, found⟩ := steady.there before id chosen
      exact absurd (Array.getElem?_eq_some_iff.mp found).1 (Nat.not_lt.mpr recent)

theorem giveBack {key : String} (guarded : Guarded fine kept holds held session)
    (lent : key ∈ session.lentKeys ++ held) :
    Guarded fine kept holds held (session.destroyRegion key) := by
  rcases destroyRegion_cases key session with ⟨id, found, same⟩ | ⟨-, same⟩
  · rw [same]
    intro good
    obtain ⟨before, ranged, apart⟩ := guarded good
    refine ⟨?_, fun entry among => ?_, fun entry among => apart entry (List.mem_of_mem_filter among)⟩
    · rw [Store.lookup?, Option.map_eq_some_iff] at found
      obtain ⟨entry, first, rfl⟩ := found
      have named : entry.1 = key := by simpa using List.find?_some first
      exact steady.beside (Memory.unmap_stands _ (apart entry (List.mem_of_find?_eq_some first) (named ▸ lent))) before
    · exact Nat.lt_of_lt_of_le (ranged entry (List.mem_of_mem_filter among)) (Memory.unmap_follows _ _).regions
  · rwa [same]

theorem giveAllBack {keys : List String} (guarded : Guarded fine kept holds held session)
    (lent : ∀ key ∈ keys, key ∈ session.lentKeys ++ held) :
    Guarded fine kept holds held (session.destroyRegions keys) := by
  induction keys generalizing session with
  | nil => exact guarded
  | cons key rest ih =>
    obtain ⟨first, others⟩ := List.forall_mem_cons.mp lent
    refine ih (guarded.giveBack steady first) fun other among => ?_
    rw [(destroyRegion_stored key session).lentKeys]
    exact others other among

theorem leave (guarded : Guarded fine kept holds [] session) (context : CallContext) :
    Guarded fine kept holds [] (session.leave context) := by
  obtain ⟨keys, gone, fewer, given, same⟩ := leave_left context session
  let ended : Session σ := { session with
    active := session.remaining context, inFlight := session.inFlight - 1, variableKeys := keys }
  have lent : Guarded fine kept holds gone ended := by
    intro good
    obtain ⟨before, ranged, apart⟩ := guarded good
    refine ⟨before, ranged, fun entry among lent => apart entry among ?_⟩
    simp only [ended, lentKeys, List.mem_append] at lent ⊢
    exact .inl (lent.elim (Or.imp_left (fewer _)) fun inside => .inl (given _ inside))
  rw [same]
  exact (lent.giveAllBack steady fun key among => List.mem_append_right _ among).fewer (List.forall_mem_nil _)

theorem advances {next : Session σ} (guarded : Guarded fine kept holds held session) (step : Advances session next) :
    Guarded fine kept holds held next := by
  cases step with
  | idle => exact guarded
  | placed serving filled numbered =>
    refine guarded.lend steady filled.owned.keeps filled.owned.recent filled.owned.ranged numbered (fun key => ?_) rfl
    simp only [lentKeys, serving, Option.bind_some, PendingVariable.key?, Option.toList_some, Option.toList_none,
      List.append_nil, List.mem_append, List.mem_singleton]
    exact or_right_comm.mp
  | inline serving memory tracked _ =>
    refine guarded.same memory tracked ?_ rfl
    simp [answerCallback, lentKeys, serving, PendingVariable.key?]
  | noted serving =>
    refine guarded.same rfl rfl ?_ rfl
    simp [answerCallback, lentKeys, serving, PendingVariable.key?]

theorem proceed (guarded : Guarded fine kept holds held session) : Guarded fine kept holds held session.proceed :=
  guarded.advances steady (proceed_advances session)

omit steady in
theorem take (guarded : Guarded fine kept holds held session) (idle : session.serving = none) (output : PeerOutput) :
    Guarded fine kept holds held (session.take output) := by
  have store := take_store output session
  exact guarded.same (by rw [store]) (by rw [store]) (take_lentKeys idle output) (take_peer output session)

theorem place (guarded : Guarded fine kept holds [] session) (args : List CallArg) :
    Guarded fine kept holds ((session.writeCallRegion args).1.map CallRegion.key).toList
      (session.writeCallRegion args).2 := by
  unfold writeCallRegion
  split
  · exact guarded
  · rename_i bytes _
    rcases createFilled_made session (Nat.le_trans (Nat.le_mul_of_pos_right bytes.size Nat.two_pos)
      (Nat.le_max_left _ minCallRegion)) with
      ⟨e, store, refused, memory, -, tracked, -⟩ | ⟨id, store, content, made, filled, numbered⟩
    · rw [refused]
      exact guarded.same memory tracked rfl rfl
    · rw [made]
      have named := (place_said { session with store := store } filled.owned).2.2
      have same : lentKeys { session with store := store } = session.lentKeys := rfl
      refine guarded.lend steady filled.owned.keeps filled.owned.recent filled.owned.ranged numbered (fun key => ?_) rfl
      simp [named, same]

variable (watched : peer.Watched fine may)
include watched

theorem look (guarded : Guarded fine kept holds held session) :
    Guarded fine kept holds held (session.pollPeer peer) := by
  intro good
  obtain ⟨before, did⟩ := watched.poll session.peer session.store.memory good
  obtain ⟨first, ranged, apart⟩ := guarded before
  have grown := steady.grows did first
  exact ⟨steady.turn did first, fun entry among => Nat.lt_of_lt_of_le (ranged entry among) grown, apart⟩

theorem sendCall (guarded : Guarded fine kept holds held session) (command : String) (data : Json) :
    Guarded fine kept holds held (left (sendCall peer command data session)) := by
  refine sendCall_keeps (P := Guarded fine kept holds held) (fun _ _ guarded => guarded.same rfl rfl rfl rfl)
    (fun _ guarded => guarded.proceed steady) (fun before line guarded => ?_)
    (fun before output rest idle _ guarded => ?_) command data guarded
  · intro good
    obtain ⟨fine, did⟩ := watched.hear before.peer (.line line) before.store.memory good
    obtain ⟨first, ranged, apart⟩ := guarded fine
    have grown := steady.grows did first
    exact ⟨steady.turn did first, fun entry among => Nat.lt_of_lt_of_le (ranged entry among) grown, apart⟩
  · have begun : Guarded fine kept holds held { before with inbox := rest } := guarded.same rfl rfl rfl rfl
    exact begun.take idle output

end steady

theorem advance {ε α : Type} {action : EStateM ε Memory α} {wider : σ → Memory → Prop}
    (guarded : Guarded fine kept holds held session)
    (grows : session.store.memory.regions.size ≤ (left (action session.store.memory)).regions.size)
    (along : ∀ state, holds state session.store.memory → wider state (left (action session.store.memory))) :
    Guarded fine kept wider held (session.onMemory action).2 := by
  cases ran : session.onMemory action with
  | mk answer later =>
    obtain ⟨-, rfl⟩ := onMemory_answered ran
    intro good
    obtain ⟨before, ranged, apart⟩ := guarded good
    exact ⟨along session.peer before, fun entry among => Nat.lt_of_lt_of_le (ranged entry among) grows, apart⟩

theorem onMemory {ε α : Type} {action : EStateM ε Memory α} (guarded : Guarded fine kept holds held session)
    (along : Along (Preserves holds) action) : Guarded fine kept holds held (session.onMemory action).2 :=
  guarded.advance (along session.store.memory).regions (along session.store.memory).holds

theorem onLink {act : ProtocolLink → Session σ → Session σ} (guarded : Guarded fine kept holds held session)
    (each : ∀ link, session.protocol = some link → Guarded fine kept holds held (act link session)) :
    Guarded fine kept holds held (session.onLink act) := by
  unfold Session.onLink
  split
  · exact guarded
  · rename_i link linked
    exact each link linked

theorem stage (guarded : Guarded fine kept holds held session) (request : ProtocolRequest)
    (along : ∀ link, session.protocol = some link →
      Along (Preserves holds) (link.host.stageCall request.functionId request.args)) :
    Guarded fine kept holds held (session.onLink (Session.stage request)) := by
  refine guarded.onLink fun link linked => ?_
  have done := guarded.onMemory (along link linked)
  unfold Session.stage
  split
  · rename_i answer
    rw [answer] at done
    exact done.same rfl rfl rfl rfl
  · rename_i answer
    rwa [answer] at done

end Guarded

structure Writable (holds : σ → Memory → Prop) (link : ProtocolLink) : Prop where
  standard : link.host.block.layout = .standard
  host : Permits (Preserves holds) link.host.block.region HostWrites
  signal : Along (Preserves holds) (Memory.write link.host.block.region 0 (Bytes.u32 1))

variable {spec : FunctionSpec} {args : List CallArg} {context : CallContext} {standing next last : Standing}
  {action : Action} {actions : List Action}

theorem Step.guarded_beside (watched : peer.Watched fine may) (steady : Steady may kept holds)
    (step : Step peer spec args context standing session action next) (beside : action.isInside = false)
    (guarded : Guarded fine kept holds standing.keys session) :
    Guarded fine kept holds next.keys (action.apply peer session) := by
  cases step with
  | count change => exact guarded.same rfl rfl rfl rfl
  | tally => exact guarded.same rfl rfl rfl rfl
  | register => exact guarded.onLink fun _ _ => guarded.same rfl rfl rfl rfl
  | unregister => exact guarded.onLink fun _ _ => guarded.same rfl rfl rfl rfl
  | introduce data => exact guarded.sendCall steady watched "registerFunction" data
  | look => exact guarded.look steady watched
  | refuse none =>
    have placed := Guarded.place steady guarded args
    rwa [none] at placed
  | place made =>
    have placed := Guarded.place steady guarded args
    rwa [made] at placed
  | @offer _ _ data _ =>
    have sent := guarded.sendCall steady watched "callFunctionShm" data
    split <;> exact sent
  | takeBack => exact (guarded.giveBack steady (by simp [Standing.keys])).fewer (by simp [Standing.keys])
  | release => exact (guarded.giveBack steady (by simp [Standing.keys])).fewer (by simp [Standing.keys])
  | tell data => exact guarded.sendCall steady watched "callFunction" data
  | _ => cases beside

theorem Step.guarded (watched : peer.Watched fine may) (steady : Steady may kept holds)
    (writable : ∀ link, session.protocol = some link → Writable holds link)
    (step : Step peer spec args context standing session action next) (stays : action ≠ .drop)
    (guarded : Guarded fine kept holds standing.keys session) :
    Guarded fine kept holds next.keys (action.apply peer session) := by
  have staged : ∀ request, Guarded fine kept holds standing.keys (session.onLink (Session.stage request)) :=
    fun request => guarded.stage request fun link linked =>
      ProtocolHost.stageCall_along (writable link linked).host (writable link linked).standard _ _
  have raised : Guarded fine kept holds standing.keys (Action.apply peer .raise session) := by
    refine guarded.onLink fun link linked => ?_
    obtain ⟨standard, -, signal⟩ := writable link linked
    exact guarded.onMemory (ProtocolHost.signalRequest_along standard signal)
  cases inside : action.isInside with
  | false => exact step.guarded_beside watched steady inside guarded
  | true =>
    cases step with
    | stage _ _ _ _ => exact staged _
    | misstage request => exact staged request
    | abandon => exact absurd rfl stays
    | expire => exact absurd rfl stays
    | raise _ _ => exact raised
    | strike _ _ => exact raised
    | collect _ _ =>
      refine guarded.onLink fun link linked => ?_
      obtain ⟨standard, host, -⟩ := writable link linked
      exact guarded.onMemory (ProtocolHost.takeResponse_along host standard)
    | _ => cases inside

theorem leave_peer (context : CallContext) (session : Session σ) : (session.leave context).peer = session.peer := by
  obtain ⟨_, -, stored⟩ := leave_stored context session
  exact stored.peer

theorem sendCall_fine (watched : peer.Watched fine may) (command : String) (data : Json)
    (good : fine (left (sendCall peer command data session)).peer) : fine session.peer := by
  refine sendCall_keeps (P := fun later => fine later.peer → fine session.peer) (fun _ _ first => first)
    (fun later first good => first (proceed_peer later ▸ good))
    (fun later line first good => first (watched.hear later.peer (.line line) later.store.memory good).1)
    (fun later output rest _ _ first good => first ?_) command data id good
  exact take_peer output { later with inbox := rest } ▸ good

theorem Step.fine_before (watched : peer.Watched fine may)
    (step : Step peer spec args context standing session action next) (good : fine (action.apply peer session).peer) :
    fine session.peer := by
  have ignores : Action.Ignores fun session : Session σ => session.peer :=
    ⟨fun _ _ => rfl, fun _ _ => rfl, fun _ _ => rfl, fun _ _ => rfl⟩
  have plain : action.isPlain = true → action ≠ .look → fine session.peer :=
    fun plain other => ignores.plain plain (fun same => absurd same other) ▸ good
  have drop : fine session.shutdownProtocol.peer → fine session.peer :=
    fun good => ignores.shutdown (fun _ _ => rfl) (fun _ _ => rfl) session ▸ good
  cases step with
  | introduce data => exact sendCall_fine watched "registerFunction" data good
  | @offer _ _ data _ => exact sendCall_fine watched "callFunctionShm" data good
  | tell data => exact sendCall_fine watched "callFunction" data good
  | look => exact (watched.poll session.peer session.store.memory good).1
  | abandon => exact drop good
  | expire => exact drop good
  | refuse _ => exact (writeCallRegion_stored args session).peer ▸ good
  | place _ => exact (writeCallRegion_stored args session).peer ▸ good
  | takeBack => exact (onStore_stored (Store.destroy _) session).peer ▸ good
  | release => exact (onStore_stored (Store.destroy _) session).peer ▸ good
  | _ => exact plain rfl (by simp)

theorem Course.fine_before (watched : peer.Watched fine may)
    (course : Course peer spec args context standing session actions last later) (good : fine later.peer) :
    fine session.peer := by
  induction course with
  | nil => exact good
  | cons step _ ih => exact step.fine_before watched (ih good)

theorem operate_fine_before (watched : peer.Watched fine may) (operation : Operation)
    (good : fine (operate peer session operation).peer) : fine session.peer := by
  have ignores : Action.Ignores fun session : Session σ => session.peer :=
    ⟨fun _ _ => rfl, fun _ _ => rfl, fun _ _ => rfl, fun _ _ => rfl⟩
  -- Read backwards: a peer that is fine after the operation was fine before it.
  cases operation with
  | initProtocol =>
    change fine (left (initProtocol peer session)).peer at good
    rcases initProtocol_cases peer session with
      ⟨e, store, ran, -⟩ | ⟨id, store, data, -, -, ⟨-, ran⟩ | ⟨-, ran⟩⟩
    · rw [ran] at good
      exact good
    · let made : Session σ := { session with store := store }
      have sent : fine (left (sendCall peer "initProtocol" data made)).peer → fine made.peer :=
        sendCall_fine watched "initProtocol" data
      rw [ran] at good
      exact sent good
    · let made : Session σ := { session with store := store }
      have sent : fine (left (sendCall peer "initProtocol" data made)).peer → fine made.peer :=
        sendCall_fine watched "initProtocol" data
      rw [ran] at good
      exact sent ((onStore_stored (Store.destroy _) _).peer ▸ good)
  | shutdownProtocol => exact ignores.shutdown (fun _ _ => rfl) (fun _ _ => rfl) session ▸ good
  | beginCompilation => exact good
  | invalidate function => exact good
  | call spec scope args context =>
    change fine (left (call peer spec scope args context session)).peer at good
    rcases call_parts peer spec scope args context session with
      ⟨hit, cache, ran⟩ | ⟨first, cache, before, actions, last, middle, -, -, course, -, same, -⟩
    · rw [ran] at good
      exact good
    · rw [same] at good
      have begun := course.fine_before watched (leave_peer _ middle ▸ good : fine middle.peer)
      obtain ⟨memory, preloaded, kept⟩ := prepared_kept spec context ({ session with cache := first } : Session σ)
      rwa [kept] at begun

theorem after_fine_before (watched : peer.Watched fine may) (operations : List Operation)
    (good : fine (after peer operations session).peer) : fine session.peer := by
  induction operations generalizing session with
  | nil => exact good
  | cons operation rest ih => exact operate_fine_before watched operation (ih good)

theorem after_peer {holds : σ → Prop}
    (heard : ∀ state input memory, holds state → holds (peer.hear state input memory).state)
    (polled : ∀ state memory, holds state → holds (peer.poll state memory).1) (operations : List Operation)
    (begun : holds session.peer) : holds (after peer operations session).peer := by
  by_contra broken
  have watched : peer.Watched (fun state => ¬ holds state) fun _ _ _ _ => True :=
    ⟨fun state input memory other => ⟨fun still => other (heard state input memory still), trivial⟩,
      fun state memory other => ⟨fun still => other (polled state memory still), trivial⟩⟩
  exact after_fine_before watched operations broken begun

theorem recorded_all {did : PeerAct σ → Prop}
    (heard : ∀ state input memory,
      did ⟨state, memory, (peer.hear state input memory).state, (peer.hear state input memory).memory⟩)
    (polled : ∀ state memory, did ⟨state, memory, (peer.poll state memory).1, (peer.poll state memory).2⟩)
    (settings : Settings) (state : σ) (operations : List Operation) :
    ∀ act ∈ (after peer.recorded operations (start settings (state, []))).peer.2, did act := by
  let holds : σ × List (PeerAct σ) → Prop := fun state => ∀ act ∈ state.2, did act
  have kept : holds (after peer.recorded operations (start settings (state, []))).peer := by
    refine after_peer (fun state input memory kept => ?_) (fun state memory kept => ?_) operations nofun
    · refine List.forall_mem_append.mpr ⟨kept, fun act last => ?_⟩
      cases List.mem_singleton.mp last
      exact heard state.1 input memory
    · refine List.forall_mem_append.mpr ⟨kept, fun act last => ?_⟩
      cases List.mem_singleton.mp last
      exact polled state.1 memory
  exact kept

theorem recorded_still (heard : ∀ state input memory, (peer.hear state input memory).memory = memory)
    (polled : ∀ state memory, (peer.poll state memory).2 = memory) (settings : Settings) (state : σ)
    (operations : List Operation) :
    ∀ act ∈ (after peer.recorded operations (start settings (state, []))).peer.2, act.later = act.memory :=
  recorded_all heard polled settings state operations

end Session
end PluginBridge
