import PluginBridge.Proofs.Dispatch.Lending
namespace PluginBridge

def Standing.keys : Standing → List String
  | .lent key => [key]
  | .told (some key) => [key]
  | _ => []

namespace Session
open PluginBridge.Action
variable {σ : Type} {peer : Peer σ} {spec : FunctionSpec} {args : List CallArg} {context : CallContext}
  {base session later : Session σ} {standing next last : Standing} {action : Action} {actions : List Action}
  {entries : List (String × RegionId)}

def lasting (session : Session σ) : List (String × RegionId) :=
  session.store.manager.tracked.filter fun entry => decide (entry.1 ∉ session.lentKeys)

def Spares (base : Session σ) (entries : List (String × RegionId)) (now : Session σ) : Prop :=
  now.protocol.map ProtocolLink.key = base.protocol.map ProtocolLink.key ∧ entries = base.lasting ∨
    ∃ link, base.protocol = some link ∧ now.protocol = none ∧
      entries = base.lasting.filter fun entry => entry.1 != link.key

theorem Spares.kept (spares : Spares base entries session)
    (same : later.protocol.map ProtocolLink.place = session.protocol.map ProtocolLink.place) :
    Spares base entries later := by
  have keys : later.protocol.map ProtocolLink.key = session.protocol.map ProtocolLink.key := by
    have first := congrArg (Option.map Prod.fst) same
    rw [Option.map_map, Option.map_map] at first
    exact first
  rcases spares with ⟨key, tracked⟩ | ⟨link, linked, gone, tracked⟩
  · exact .inl ⟨keys.trans key, tracked⟩
  · refine .inr ⟨link, linked, ?_, tracked⟩
    rw [gone] at keys
    exact Option.map_eq_none_iff.mp keys

def Borrows (base : Session σ) (standing : Standing) (now : Session σ) : Prop :=
  ∃ entries, Lends entries standing.keys now ∧ Spares base entries now

theorem Borrows.drop (borrows : Borrows base standing session) :
    Borrows base standing session.shutdownProtocol := by
  obtain ⟨entries, lends, spares⟩ := borrows
  cases linked : session.protocol with
  | none =>
    have same : session.shutdownProtocol = session := by
      simp only [shutdownProtocol, linked]
    exact same.symm ▸ ⟨entries, lends, spares⟩
  | some link =>
    refine ⟨_, lends.drop linked, ?_⟩
    rcases spares with ⟨key, rfl⟩ | ⟨_, _, gone, _⟩
    · rw [linked, Option.map_some] at key
      obtain ⟨first, there, same⟩ := Option.map_eq_some_iff.mp key.symm
      exact .inr ⟨first, there, shutdownProtocol_none session, by rw [same]⟩
    · cases gone.symm.trans linked

theorem Borrows.plain (borrows : Borrows base standing session) (same : standing.keys = next.keys)
    (plain : action.isPlain = true) : Borrows base next (action.apply peer session) := by
  obtain ⟨entries, lends, spares⟩ := borrows
  have manager : Ignores fun session : Session σ => session.store.manager :=
    ⟨fun _ _ => rfl, fun _ _ => rfl, fun _ _ => rfl, fun _ _ => rfl⟩
  have keys : Ignores (Session.lentKeys (σ := σ)) :=
    ⟨fun _ _ => rfl, fun _ _ => rfl, fun _ _ => rfl, fun _ _ => rfl⟩
  have place := apply_place peer action session fun ends => by
    rw [ends] at plain
    cases plain
  rw [same] at lends
  have same : (action.apply peer session).store.manager = session.store.manager :=
    manager.plain plain fun _ _ _ => rfl
  exact ⟨entries, lends.kept (congrArg RegionManager.tracked same) (congrArg RegionManager.nextKey same)
    (keys.plain plain fun _ _ _ => rfl) (.of_place place), spares.kept place⟩

theorem Borrows.send (borrows : Borrows base standing session) (same : standing.keys = next.keys) (command : String)
    (data : Json) : Borrows base next (Action.apply peer (.send command data) session) := by
  obtain ⟨entries, lends, spares⟩ := borrows
  rw [same] at lends
  exact ⟨entries, lends.sendCall peer command data,
    spares.kept (apply_place peer (.send command data) session (by simp))⟩

theorem Borrows.place (borrows : Borrows base standing session) (args : List CallArg)
    (placed : ∀ {entries}, Lends entries standing.keys session →
      Lends entries next.keys (Action.apply peer (.place args) session)) :
    Borrows base next (Action.apply peer (.place args) session) := by
  obtain ⟨entries, lends, spares⟩ := borrows
  exact ⟨entries, placed lends, spares.kept (apply_place peer (.place args) session (by simp))⟩

theorem Borrows.release {key : String} (borrows : Borrows base standing session) (one : standing.keys = [key])
    (none : next.keys = []) : Borrows base next (Action.apply peer (.release key) session) := by
  obtain ⟨entries, lends, spares⟩ := borrows
  rw [one] at lends
  refine ⟨entries, none ▸ lends.giveBack (fun other => ?_) nofun,
    spares.kept (apply_place peer (.release key) session (by simp))⟩
  simp

theorem Step.borrows (step : Step peer spec args context standing session action next)
    (borrows : Borrows base standing session) : Borrows base next (action.apply peer session) := by
  cases step with
  | introduce data => exact borrows.send rfl _ data
  | tell data => exact borrows.send rfl _ data
  | offer told =>
    refine borrows.send ?_ _ _
    split <;> rfl
  | takeBack => exact borrows.release rfl rfl
  | release => exact borrows.release rfl rfl
  | abandon => exact borrows.drop
  | expire => exact borrows.drop
  | refuse none =>
    refine borrows.place args fun lends => ?_
    have placed := Lends.place lends args
    rwa [none] at placed
  | place made =>
    refine borrows.place args fun lends => ?_
    have placed := Lends.place lends args
    rwa [made] at placed
  | _ => exact borrows.plain rfl rfl

theorem Course.borrows (course : Course peer spec args context standing session actions last later)
    (borrows : Borrows base standing session) : Borrows base last later := by
  induction course with
  | nil => exact borrows
  | cons step _ ih => exact ih (step.borrows borrows)

theorem Concluded.keys {answer : Except DispatchError ResultNode} (concluded : Concluded answer later last) :
    last.keys = [] := by
  cases last with
  | told lent =>
    obtain rfl : lent = none := concluded.1
    rfl
  | struck request => rfl
  | answered request outcome => rfl
  | _ => exact concluded.elim

-- No call is under way, and whatever is tracked or lent has a key that was given to it. What is lent is never the
-- region of the protocol.
structure Settled (session : Session σ) : Prop where
  idle : session.active = []
  done : session.inFlight = 0
  lends : Lends session.lasting [] session

theorem start_settled (settings : Settings) (state : σ) : (start settings state).Settled :=
  ⟨rfl, rfl, rfl, nofun, nofun, nofun, fun _ linked => absurd linked nofun, List.nodup_nil⟩

theorem Settled.given {key : String} (settled : session.Settled) (lent : key ∈ session.lentKeys) :
    Given session.store.manager key :=
  settled.lends.lent key (List.mem_append_left [] lent)

-- What stood before a call stands after it, but the region of a protocol that was ended. Nothing is noted any more,
-- and at most one region more is there, that of a variable which is being served yet; unless the cache had the answer
-- and nothing happened to the regions. The contexts in use are those of before.
structure Released (before after : Session σ) : Prop where
  regions : Spares before after.lasting after
  noted : (after.variableKeys = [] ∧ after.store.manager.tracked.length ≤ after.lasting.length + 1) ∨
    after.store = before.store ∧ after.lentKeys = before.lentKeys
  contexts : after.active = before.active

theorem ignores_active : Ignores (Session.active (σ := σ)) :=
  ⟨fun _ _ => rfl, fun _ _ => rfl, fun _ _ => rfl, fun _ _ => rfl⟩

theorem shutdownProtocol_active (session : Session σ) : session.shutdownProtocol.active = session.active :=
  ignores_active.shutdown (fun _ _ => rfl) (fun _ _ => rfl) session

theorem Step.aside {α : Type} {f : Session σ → α} (ignores : Ignores f)
    (aside : ∀ before after, Aside before after → f after = f before)
    (stream : ∀ session stream, f { session with stream := stream } = f session)
    (step : Step peer spec args context standing session action next) (stays : action ≠ .drop) :
    f (action.apply peer session) = f session := by
  have sent : ∀ command data, f (left (sendCall peer command data session)) = f session :=
    fun command data => (aside _ _ (sendCall_aside peer command data session)).trans (stream session _)
  cases step with
  | abandon => exact absurd rfl stays
  | expire => exact absurd rfl stays
  | refuse _ => exact aside _ _ (writeCallRegion_stored args session).toAside
  | place _ => exact aside _ _ (writeCallRegion_stored args session).toAside
  | takeBack => exact aside _ _ (onStore_stored _ session).toAside
  | release => exact aside _ _ (onStore_stored _ session).toAside
  | introduce data => exact sent "registerFunction" data
  | offer _ => exact sent "callFunctionShm" _
  | tell data => exact sent "callFunction" data
  | _ => exact ignores.plain rfl fun _ session peer => aside session _ { Aside.refl session with }

theorem shutdownProtocol_inFlight (session : Session σ) : session.shutdownProtocol.inFlight = session.inFlight := by
  have ignores : Ignores (Session.inFlight (σ := σ)) :=
    ⟨fun _ _ => rfl, fun _ _ => rfl, fun _ _ => rfl, fun _ _ => rfl⟩
  exact ignores.shutdown (fun _ _ => rfl) (fun _ _ => rfl) session

theorem Step.active (step : Step peer spec args context standing session action next) :
    (action.apply peer session).active = session.active := by
  by_cases ends : action = .drop
  · subst ends
    exact shutdownProtocol_active session
  · exact step.aside ignores_active (fun _ _ aside => aside.active) (fun _ _ => rfl) ends

theorem Course.active (course : Course peer spec args context standing session actions last later) :
    later.active = session.active := by
  induction course with
  | nil => rfl
  | cons step _ ih => exact ih.trans step.active

theorem Step.inFlight (step : Step peer spec args context standing session action next) :
    (action.apply peer session).inFlight = session.inFlight := by
  by_cases ends : action = .drop
  · subst ends
    exact shutdownProtocol_inFlight session
  · exact step.aside ⟨fun _ _ => rfl, fun _ _ => rfl, fun _ _ => rfl, fun _ _ => rfl⟩
      (fun _ _ aside => aside.inFlight) (fun _ _ => rfl) ends

theorem Course.inFlight (course : Course peer spec args context standing session actions last later) :
    later.inFlight = session.inFlight := by
  induction course with
  | nil => rfl
  | cons step _ ih => exact ih.trans step.inFlight

theorem prepared_kept (spec : FunctionSpec) (context : Option EvalContext) (session : Session σ) :
    ∃ memory preloaded, session.prepared spec context =
      { session with
        store := { session.store with memory := memory }, preloaded := preloaded
        active := (session.enter context).2.active, lastContext := (session.enter context).2.lastContext
        inFlight := session.inFlight + 1 } := by
  have entered : (session.enter context).2 = { session with
      active := (session.enter context).2.active, lastContext := (session.enter context).2.lastContext
      inFlight := session.inFlight + 1 } := by
    cases context <;> rfl
  rcases preloadContext_cases spec (session.enter context).1 (session.enter context).2 with
    same | ⟨id, stack, -, -, pushed⟩
  · exact ⟨session.store.memory, session.preloaded, (congrArg Prod.snd same).trans entered⟩
  · obtain ⟨memory, preloaded, only⟩ := ensurePreloaded_only stack (session.enter context).2
    refine ⟨memory, preloaded, ((congrArg Prod.snd pushed).trans only).trans ?_⟩
    rw [entered]

theorem enter_leave (context : Option EvalContext) (idle : session.active = [])
    (same : later.active = (session.enter context).2.active) :
    (later.leave (session.enter context).1).active = [] := by
  obtain ⟨_, -, stored⟩ := leave_stored (session.enter context).1 later
  refine stored.active.trans ?_
  cases context with
  | none => exact same.trans idle
  | some stack =>
    have used : later.active = [(session.lastContext + 1, stack)] := by
      rw [same, enter, idle, List.nil_append]
    simp [enter, remaining, dismiss, used]

theorem Lends.leave (lends : Lends entries [] session) (last : session.inFlight ≤ 1) (context : CallContext) :
    Lends entries [] (session.leave context) ∧ (session.leave context).variableKeys = [] := by
  rcases leave_cases context session with ⟨-, same⟩ | ⟨more, -⟩
  · rw [same]
    let ended : Session σ := { session with
      active := session.remaining context, inFlight := session.inFlight - 1, variableKeys := [] }
    have manager : (ended.destroyRegions session.variableKeys).store.manager = { session.store.manager with
        tracked := session.store.manager.tracked.filter fun entry => decide (entry.1 ∉ session.variableKeys) } :=
      destroyRegions_tracked session.variableKeys ended
    have stored := destroyRegions_stored session.variableKeys ended
    have lent : ∀ key, key ∈ session.lentKeys ↔ key ∈ session.variableKeys ∨ key ∈ ended.lentKeys := by
      simp [ended, lentKeys]
    have next : ∀ {key}, Given session.store.manager key →
        Given (ended.destroyRegions session.variableKeys).store.manager key :=
      fun given => given.mono (Nat.le_of_eq (congrArg RegionManager.nextKey manager).symm)
    refine ⟨⟨?_, fun key among => ?_, List.forall_mem_nil _, fun entry among => ?_, fun link linked => ?_, ?_⟩,
      stored.variableKeys⟩
    · rw [manager, stored.lentKeys, ← lends.rest, List.filter_filter]
      refine List.filter_congr fun entry _ => ?_
      simp [lent, Bool.and_comm]
    · rw [stored.lentKeys, List.append_nil] at among
      exact next (lends.lent key (by simpa [lent] using .inr among))
    · rw [manager] at among
      exact next (lends.known entry (List.mem_of_mem_filter among))
    · obtain ⟨given, apart⟩ := lends.link link (stored.protocol.symm.trans linked)
      rw [stored.lentKeys]
      exact ⟨next given, fun inside => apart (by simpa [lent] using .inr (by simpa using inside))⟩
    · rw [manager]
      exact lends.single.sublist (List.filter_sublist.map Prod.fst)
  · omega

theorem Lends.lasting (lends : Lends entries [] session) : session.lasting = entries := by
  rw [← lends.rest, List.append_nil]
  rfl

theorem Lends.tracked_length (lends : Lends entries [] session) (noted : session.variableKeys = []) :
    session.store.manager.tracked.length ≤ session.lasting.length + 1 := by
  have keys : session.lentKeys.length ≤ 1 := by
    rw [lentKeys, noted, List.nil_append]
    exact Option.length_toList_le
  let lent := session.store.manager.tracked.filter fun entry => !decide (entry.1 ∉ session.lentKeys)
  have parts : session.store.manager.tracked.length = session.lasting.length + lent.length :=
    (session.store.manager.tracked.length_eq_length_filter_add _)
  have single : (lent.map Prod.fst).Nodup := lends.single.sublist (List.filter_sublist.map Prod.fst)
  have among : lent.map Prod.fst ⊆ session.lentKeys := by
    intro key inside
    obtain ⟨entry, there, rfl⟩ := List.mem_map.mp inside
    simpa using (List.mem_filter.mp there).2
  have few := (List.subperm_of_subset single among).length_le
  rw [List.length_map] at few
  omega

theorem Lends.settled (lends : Lends entries [] session) (idle : session.active = []) (done : session.inFlight = 0) :
    session.Settled :=
  ⟨idle, done, lends.lasting.symm ▸ lends⟩

theorem invoke_released (peer : Peer σ) (spec : FunctionSpec) (args : List CallArg) (context : Option EvalContext)
    (settled : session.Settled) :
    Released session (left (invoke peer spec args context session)) ∧
      (left (invoke peer spec args context session)).Settled := by
  obtain ⟨actions, last, middle, course, ran, concluded⟩ := invoke_course peer spec args context session
  obtain ⟨memory, preloaded, kept⟩ := prepared_kept spec context session
  have begun : Borrows session .unseen (session.prepared spec context) := by
    rw [kept]
    exact ⟨_, settled.lends.kept rfl rfl rfl (.of_same rfl), .inl ⟨rfl, rfl⟩⟩
  obtain ⟨entries, lends, spares⟩ := course.borrows begun
  rw [concluded.keys] at lends
  have entered : (session.prepared spec context).active = (session.enter context).2.active := by rw [kept]
  have only : middle.inFlight = 1 := by rw [course.inFlight, kept, settled.done]
  obtain ⟨keys, -, stored⟩ := leave_stored (session.enter context).1 middle
  obtain ⟨lends, noted⟩ := lends.leave (Nat.le_of_eq only) (session.enter context).1
  have idle := enter_leave context settled.idle (course.active.trans entered)
  have done : (middle.leave (session.enter context).1).inFlight = 0 := by rw [stored.inFlight, only]
  rw [ran]
  refine ⟨⟨?_, .inl ⟨noted, lends.tracked_length noted⟩, idle.trans settled.idle.symm⟩, lends.settled idle done⟩
  rw [lends.lasting]
  exact spares.kept (congrArg _ stored.protocol)

theorem Settled.cached (settled : session.Settled) (cache : ResultCache) :
    ({ session with cache := cache } : Session σ).Settled := by
  have lends : Lends session.lasting [] { session with cache := cache } := settled.lends.kept rfl rfl rfl (.of_same rfl)
  exact lends.settled settled.idle settled.done

theorem call_released (peer : Peer σ) (spec : FunctionSpec) (scope : ScopeKey) (args : List CallArg)
    (context : Option EvalContext) (settled : session.Settled) :
    Released session (left (call peer spec scope args context session)) ∧
      (left (call peer spec scope args context session)).Settled := by
  rcases call_cases peer spec scope args context session with ⟨hit, cache, ran⟩ | ⟨first, last, -, ran⟩
  · rw [ran]
    exact ⟨⟨.inl ⟨rfl, rfl⟩, .inr ⟨rfl, rfl⟩, rfl⟩, settled.cached cache⟩
  · obtain ⟨released, still⟩ := invoke_released peer spec args context (settled.cached first)
    rw [ran]
    exact ⟨⟨released.regions, released.noted, released.contexts⟩, still.cached last⟩

end Session
end PluginBridge
