import PluginBridge.Proofs.Call.WireRebuilding
import PluginBridge.Proofs.Dispatch.Delivery
import PluginBridge.Proofs.Dispatch.Following
import PluginBridge.Proofs.Protocol.Preloading
namespace PluginBridge

namespace Session
open PluginBridge.Action
variable {σ : Type} {peer : Peer σ} {fine : σ → Prop} {guards : RegionId → Prop} {contexts more : List EvalContext}
  {held kept : List String} {session later : Session σ} {id : RegionId} {bytes : ByteArray} {link : ProtocolLink}

def LeavesPreloads (guards : RegionId → Prop) (_ : σ) (before : Memory) (_ : σ) (after : Memory) : Prop :=
  before.Lets guards OutsidePreload after

abbrev Pushed (fine : σ → Prop) (id : RegionId) (bytes : ByteArray) (held : List String) (session : Session σ) : Prop :=
  Guarded fine (· = id) (fun _ => SectionHolds id bytes) held session

theorem section_steady (bytes : ByteArray) (chosen : guards id) :
    Steady (LeavesPreloads (σ := σ) guards) (· = id) fun _ => SectionHolds id bytes where
  there holds _ same := same ▸ holds.there
  beside stands holds := holds.stands stands rfl
  turn lets holds := holds.lets chosen lets
  grows lets _ := lets.1

theorem preload_firm : Firm (LeavesPreloads (σ := σ) guards) fun _ _ => True :=
  ⟨fun _ _ => trivial, fun _ _ => trivial, fun lets _ => lets.1⟩

theorem section_writable (standard : link.host.block.layout = .standard) (bytes : ByteArray) :
    Writable (fun _ : σ => SectionHolds link.host.block.region bytes) link := by
  have preserves : ∀ {before after}, Memory.Through link.host.block.region OutsidePreload before after →
      Preserves (fun _ : σ => SectionHolds link.host.block.region bytes) before after :=
    fun through => ⟨through.follows.regions, fun _ holds => holds.differs through.views⟩
  refine ⟨standard, fun offset content place memory => preserves (HostWrites.apart _ offset content place memory),
    fun memory => preserves (Memory.write_through _ (fun k _ high => .inl ?_) memory)⟩
  exact Nat.lt_of_lt_of_le high (by decide)

-- What counts as preloaded stands in the preload section, pushed for one of the contexts.
structure Known (fine : σ → Prop) (guards : RegionId → Prop) (contexts : List EvalContext) (held : List String)
    (session : Session σ) : Prop where
  unlinked : session.protocol = none → session.preloaded = none
  linked : ∀ link, session.protocol = some link → link.host.block.layout = .standard ∧
    guards link.host.block.region ∧ ∃ bytes, Pushed fine link.host.block.region bytes held session ∧
      ∀ fingerprint, session.preloaded = some fingerprint → ∃ pushed ∈ contexts,
        Fingerprint.ofContext pushed = fingerprint ∧ Preload.encode (session.preloadFor pushed) = .ok bytes

def Current (contexts : List EvalContext) (stack : EvalContext) (session : Session σ) : Prop :=
  ∃ link, session.protocol = some link ∧ ∃ pushed ∈ contexts, Fingerprint.ofContext pushed = Fingerprint.ofContext stack ∧
    answered (link.host.readPreloaded session.store.memory) = .ok (session.preloadFor pushed)

theorem preloadFor_shallow (session : Session σ) (context : EvalContext) :
    ∀ var ∈ session.preloadFor context, var.value.depth ≤ WireValue.maxDepth := by
  intro var among
  obtain ⟨definition, inside, rfl⟩ := List.mem_map.mp among
  exact WireValue.ofNode_depth (List.mem_filter.mp inside).2

namespace Known

theorem current {stack : EvalContext} (known : Known fine guards contexts held session) (good : fine session.peer)
    (told : session.preloaded = some (Fingerprint.ofContext stack)) : Current contexts stack session := by
  cases linked : session.protocol with
  | none => cases (known.unlinked linked).symm.trans told
  | some link =>
    obtain ⟨standard, -, bytes, pushed, sources⟩ := known.linked link linked
    obtain ⟨source, among, same, encoded⟩ := sources _ told
    have read := ProtocolHost.readPreloaded_done standard (pushed good).holds encoded (preloadFor_shallow session source)
    exact ⟨link, linked, source, among, same, congrArg answered read⟩

theorem keeps (known : Known fine guards contexts held session)
    (place : later.protocol.map ProtocolLink.place = session.protocol.map ProtocolLink.place)
    (preloaded : later.preloaded = none ∨ later.preloaded = session.preloaded ∧ contexts ⊆ more)
    (settings : later.settings = session.settings)
    (passes : ∀ link bytes, session.protocol = some link → link.host.block.layout = .standard →
      guards link.host.block.region → Pushed fine link.host.block.region bytes held session →
      Pushed fine link.host.block.region bytes kept later) :
    Known fine guards more kept later := by
  refine ⟨fun unlinked => ?_, fun link linked => ?_⟩
  · rw [unlinked, Option.map_none] at place
    rcases preloaded with none | ⟨same, -⟩
    · exact none
    · exact same.trans (known.unlinked (Option.map_eq_none_iff.mp place.symm))
  · obtain ⟨before, there, same⟩ := SameLink.of_place place link linked
    have block : link.host.block = before.host.block := congrArg Prod.snd same
    obtain ⟨standard, chosen, bytes, pushed, sources⟩ := known.linked before there
    rw [block]
    refine ⟨standard, chosen, bytes, passes before bytes there standard chosen pushed, fun fingerprint told => ?_⟩
    rcases preloaded with none | ⟨still, sub⟩
    · cases none.symm.trans told
    · obtain ⟨source, among, frames, encoded⟩ := sources fingerprint (still.symm.trans told)
      refine ⟨source, sub among, frames, ?_⟩
      rwa [preloadFor, commonVariables, settings]

end Known

-- A call pushes its context where the section is not known to hold the variables of its frames.
def pushes (spec : FunctionSpec) (context : Option EvalContext) (session : Session σ) : List EvalContext :=
  let ready := session.prepared spec context
  if ready.preloaded.isSome ∧ ready.preloaded ≠ session.preloaded then context.toList else []

theorem pushes_context {spec : FunctionSpec} {context : Option EvalContext} {stack : EvalContext}
    (among : stack ∈ session.pushes spec context) : context = some stack := by
  unfold pushes at among
  simp only at among
  split at among
  · exact Option.mem_toList.mp among
  · cases among

theorem ensurePreloaded_cases (stack : EvalContext) (session : Session σ) :
    (session.ensurePreloaded stack).2 = session ∨
    ∃ link memory, session.protocol = some link ∧ session.preloaded ≠ some (Fingerprint.ofContext stack) ∧
      let later : Session σ := { session with store := { session.store with memory := memory } }
      link.host.preload (session.preloadFor stack) session.store.memory = .ok () memory ∧
          (session.ensurePreloaded stack).2 = { later with preloaded := some (Fingerprint.ofContext stack) } ∨
        memory = left (link.host.preload (session.preloadFor stack) session.store.memory) ∧
          (session.ensurePreloaded stack).2 = { later with preloaded := none } := by
  unfold ensurePreloaded
  simp only
  split
  · exact .inl rfl
  · rename_i other
    split
    · exact .inl rfl
    · rename_i link linked
      refine .inr ⟨link, left (link.host.preload (session.preloadFor stack) session.store.memory), linked, other, ?_⟩
      unfold onMemory
      cases ran : link.host.preload (session.preloadFor stack) session.store.memory with
      | ok _ memory => exact .inl ⟨rfl, rfl⟩
      | error e memory => exact .inr ⟨rfl, rfl⟩

theorem Known.pushed {stack : EvalContext} {memory : Memory} (known : Known fine guards contexts held session)
    (linked : session.protocol = some link) (among : stack ∈ contexts)
    (done : link.host.preload (session.preloadFor stack) session.store.memory = .ok () memory) :
    Known fine guards contexts held { session with
      store := { session.store with memory := memory }, preloaded := some (Fingerprint.ofContext stack) } := by
  refine ⟨fun unlinked => absurd (linked.symm.trans unlinked) (Option.some_ne_none link), fun next there => ?_⟩
  obtain rfl : link = next := Option.some.inj (linked.symm.trans there)
  obtain ⟨standard, chosen, bytes, pushed, -⟩ := known.linked link linked
  obtain ⟨encoded, first, coded, -⟩ := bind_parts done
  have written := ProtocolRegion.codec_gives _ _ encoded first coded
  refine ⟨standard, chosen, encoded, fun good => ?_, fun fingerprint told =>
    ⟨stack, among, Option.some.inj told, written⟩⟩
  obtain ⟨holds, ranged, apart⟩ := pushed good
  obtain ⟨other, again, section_⟩ := ProtocolHost.preload_done standard holds done
  obtain rfl : other = encoded := Except.ok.inj (again.symm.trans written)
  have grown := (ProtocolHost.preload_through standard (session.preloadFor stack) session.store.memory).follows.regions
  rw [done] at grown
  exact ⟨section_, fun entry inside => Nat.lt_of_lt_of_le (ranged entry inside) grown, apart⟩

theorem Known.unpushed (known : Known fine guards contexts held session) (linked : session.protocol = some link)
    (vars : List PreloadedVariable) :
    Known fine guards contexts held { session with
      store := { session.store with memory := left (link.host.preload vars session.store.memory) }
      preloaded := none } := by
  refine ⟨fun _ => rfl, fun next there => ?_⟩
  obtain rfl : link = next := Option.some.inj (linked.symm.trans there)
  obtain ⟨standard, chosen, bytes, pushed, -⟩ := known.linked link linked
  refine ⟨standard, chosen, .empty, fun good => ?_, fun fingerprint told => by cases told⟩
  obtain ⟨holds, ranged, apart⟩ := pushed good
  have through := ProtocolHost.preload_through standard vars session.store.memory
  exact ⟨holds.through through,
    fun entry inside => Nat.lt_of_lt_of_le (ranged entry inside) through.follows.regions, apart⟩

theorem Known.prepared (known : Known fine guards contexts held session) (spec : FunctionSpec)
    (context : Option EvalContext) :
    Known fine guards (contexts ++ session.pushes spec context) held (session.prepared spec context) := by
  have entered : Known fine guards (contexts ++ session.pushes spec context) held (session.enter context).2 := by
    refine known.keeps ?_ (.inr ⟨?_, List.subset_append_left _ _⟩) ?_ fun link bytes _ _ _ pushed => ?_
    all_goals cases context
    all_goals first | rfl | exact pushed.same rfl rfl rfl rfl
  rcases preloadContext_cases spec (session.enter context).1 (session.enter context).2 with
    same | ⟨id, stack, given, -, ran⟩
  · rw [Session.prepared, same]
    exact entered
  · rw [Session.prepared, ran]
    have ready : session.prepared spec context = ((session.enter context).2.ensurePreloaded stack).2 :=
      congrArg Prod.snd ran
    obtain rfl : context = some stack := by
      cases context with
      | none => cases given
      | some other =>
        cases given
        rfl
    -- Nothing had to be pushed, it was pushed, or pushing failed: then nothing counts as preloaded.
    rcases ensurePreloaded_cases stack (session.enter (some stack)).2 with
      same | ⟨link, memory, linked, other, ⟨done, same⟩ | ⟨rfl, same⟩⟩
    · rw [same]
      exact entered
    · have new : stack ∈ contexts ++ session.pushes spec (some stack) := by
        have told : (session.prepared spec (some stack)).preloaded = some (Fingerprint.ofContext stack) := by
          rw [ready, same]
        refine List.mem_append_right _ ?_
        simp only [Session.pushes, told]
        rw [if_pos ⟨rfl, fun equal => other equal.symm⟩]
        exact List.mem_singleton_self stack
      rw [same]
      exact entered.pushed linked new done
    · rw [same]
      exact entered.unpushed linked _

theorem Known.shutdown (known : Known fine guards contexts held session) :
    Known fine guards more kept session.shutdownProtocol := by
  have gone := shutdownProtocol_none session
  refine ⟨fun _ => ?_, fun link linked => absurd (gone.symm.trans linked) nofun⟩
  unfold shutdownProtocol
  split
  · rename_i unlinked
    exact known.unlinked unlinked
  · rfl

section course
variable {spec : FunctionSpec} {args : List CallArg} {context : CallContext} {standing next last : Standing}
  {action : Action} {actions : List Action} (watched : peer.Watched fine (LeavesPreloads guards))
include watched

theorem Step.known (step : Step peer spec args context standing session action next)
    (known : Known fine guards contexts standing.keys session) :
    Known fine guards contexts next.keys (action.apply peer session) := by
  by_cases ends : action = .drop
  · subst ends
    exact known.shutdown
  · refine known.keeps (apply_place peer action session ends) (.inr ⟨?_, List.Subset.refl _⟩) ?_
      fun link bytes linked standard chosen pushed => ?_
    · exact step.aside ⟨fun _ _ => rfl, fun _ _ => rfl, fun _ _ => rfl, fun _ _ => rfl⟩
        (fun _ _ aside => aside.preloaded) (fun _ _ => rfl) ends
    · exact step.aside ⟨fun _ _ => rfl, fun _ _ => rfl, fun _ _ => rfl, fun _ _ => rfl⟩
        (fun _ _ aside => aside.settings) (fun _ _ => rfl) ends
    · refine step.guarded watched (section_steady bytes chosen) (fun other also => ?_) ends pushed
      obtain rfl : link = other := Option.some.inj (linked.symm.trans also)
      exact section_writable standard bytes

theorem Course.known (course : Course peer spec args context standing session actions last later)
    (known : Known fine guards contexts standing.keys session) : Known fine guards contexts last.keys later := by
  induction course with
  | nil => exact known
  | cons step _ ih => exact ih (step.known watched known)

def Offers (contexts : List EvalContext) (context : CallContext) (action : Action) (session : Session σ) : Prop :=
  ∀ data, action = .send "callFunctionShm" data → data.get? "preloaded" = some (.bool true) →
    ∃ id stack, context = some (id, stack) ∧ Current contexts stack session

theorem Course.offers (course : Course peer spec args context standing session actions last later)
    (known : Known fine guards contexts standing.keys session) (good : fine later.peer) :
    Throughout peer (Offers contexts context) actions session := by
  induction course with
  | nil => exact fun past action rest same => by simp at same
  | cons step rest ih =>
    refine throughout_cons.mpr ⟨fun data same flag => ?_, ih (step.known watched known) good⟩
    have fineHere := step.fine_before watched (rest.fine_before watched good)
    cases step with
    | offer told =>
      cases same
      obtain ⟨id, stack, given, preloaded⟩ := told flag
      exact ⟨id, stack, given, known.current fineHere preloaded⟩
    | introduce _ => simp at same
    | tell _ => simp at same
    | _ => cases same

end course

theorem Known.leave (known : Known fine guards contexts [] session) (context : CallContext) :
    Known fine guards contexts [] (session.leave context) := by
  obtain ⟨_, _, stored⟩ := leave_stored context session
  refine known.keeps (congrArg _ stored.protocol) (.inr ⟨stored.preloaded, List.Subset.refl _⟩) stored.settings ?_
  exact fun link bytes _ _ chosen pushed => pushed.leave (section_steady bytes chosen) context

theorem Known.cached (known : Known fine guards contexts held session) (cache : ResultCache) :
    Known fine guards contexts held { session with cache := cache } :=
  known.keeps rfl (.inr ⟨rfl, List.Subset.refl _⟩) rfl fun _ _ _ _ _ pushed => pushed.same rfl rfl rfl rfl

theorem pushes_cached (spec : FunctionSpec) (context : Option EvalContext) (session : Session σ) (cache : ResultCache) :
    ({ session with cache := cache } : Session σ).pushes spec context = session.pushes spec context := by
  have same : (({ session with cache := cache } : Session σ).prepared spec context).preloaded =
      (session.prepared spec context).preloaded := by
    cases context with
    | none => rfl
    | some stack =>
      unfold Session.prepared preloadContext enter ensurePreloaded onMemory
      simp only
      split
      · split
        · rfl
        · cases linked : session.protocol with
          | none => rfl
          | some link =>
            simp only [preloadFor, commonVariables]
            split <;> rename_i answer <;> split at answer <;> cases answer <;> rfl
      · rfl
  unfold pushes
  simp only [same]

theorem call_offers (watched : peer.Watched fine (LeavesPreloads guards)) (spec : FunctionSpec) (scope : ScopeKey)
    (args : List CallArg) (context : Option EvalContext) (known : Known fine guards contexts [] session) :
    let now := contexts ++ session.pushes spec context
    Known fine guards now [] (left (call peer spec scope args context session)) ∧
      (fine (left (call peer spec scope args context session)).peer →
        ∃ actions, left (call peer spec scope args context session) = run peer actions session ∧
          Throughout peer (Offers now (session.enter context).1) actions session) := by
  intro now
  have silent : ∀ {actions : List Action} {session : Session σ}, (∀ action ∈ actions, action.reaches = false) →
      ∀ told, Throughout peer (Offers now told) actions session := by
    intro actions session silent told past action rest same data sends
    have among : action ∈ actions := same ▸ List.mem_append_right past List.mem_cons_self
    cases sends ▸ silent action among
  rcases call_parts peer spec scope args context session with
    ⟨hit, cache, ran⟩ | ⟨first, cache, before, actions, last, middle, quiet, ready, course, concluded, same, ran⟩
  · rw [ran]
    refine ⟨known.keeps rfl (.inr ⟨rfl, List.subset_append_left _ _⟩) rfl fun _ _ _ _ _ pushed =>
      pushed.same rfl rfl rfl rfl, fun _ => ⟨[.remember cache], rfl, silent (by simp [reaches]) _⟩⟩
  · have begun := (known.cached first).prepared spec context
    rw [pushes_cached] at begun
    have ended := course.known watched begun
    rw [concluded.keys] at ended
    refine ⟨same ▸ (ended.leave _).cached cache, fun good => ⟨_, ran, throughout_cons.mpr ⟨fun _ sends => (by cases sends), ?_⟩⟩⟩
    have still : fine middle.peer := by
      rw [same] at good
      exact leave_peer _ middle ▸ good
    refine throughout_append.mpr ⟨silent quiet _, throughout_append.mpr ⟨?_, silent (by simp [reaches]) _⟩⟩
    have entered : (session.enter context).1 = (({ session with cache := first } : Session σ).enter context).1 := by
      cases context <;> rfl
    rw [entered, show run peer before (Action.apply peer (.remember first) session) = _ from ready]
    exact course.offers watched begun still

theorem init_accepted (watched : peer.Watched fine (LeavesPreloads guards)) (settled : session.Settled)
    (guarded : Guarded fine (fun _ => False) (fun _ _ => True) [] session) (accepted : answered (initProtocol peer session) = .ok true)
    (chosen : ∀ link, (left (initProtocol peer session)).protocol = some link → guards link.host.block.region) :
    ∃ link, (left (initProtocol peer session)).protocol = some link ∧ link.host.block.layout = .standard ∧
      Pushed fine link.host.block.region (zeros 4) [] (left (initProtocol peer session)) ∧
      (left (initProtocol peer session)).preloaded = session.preloaded := by
  rcases initProtocol_cases peer session with
    ⟨e, store, ran, -⟩ | ⟨id, store, data, owned, numbered, ⟨-, ran⟩ | ⟨other, -⟩⟩
  · rw [ran] at accepted
    cases accepted
  · rw [ran] at chosen ⊢
    let made : Session σ := { session with store := store }
    have guard := chosen _ rfl
    have begun : Pushed fine id (zeros 4) [] made :=
      guarded.found (fun _ => settled.given) owned numbered fun _ => .fresh owned
    have sent := begun.sendCall (section_steady (zeros 4) guard) watched "initProtocol" data
    exact ⟨_, rfl, rfl, sent.same rfl rfl rfl rfl, (sendCall_aside peer "initProtocol" data made).preloaded⟩
  · exact absurd accepted other

theorem Known.declined (watched : peer.Watched fine (LeavesPreloads guards)) (known : Known fine guards contexts [] session)
    (declined : answered (initProtocol peer session) ≠ .ok true) :
    Known fine guards contexts [] (left (initProtocol peer session)) := by
  rcases initProtocol_cases peer session with
    ⟨e, store, ran, memory, tracked, -⟩ | ⟨id, store, data, owned, numbered, ⟨accepted, -⟩ | ⟨-, ran⟩⟩
  · rw [ran]
    exact known.keeps rfl (.inr ⟨rfl, List.Subset.refl _⟩) rfl
      fun _ _ _ _ _ pushed => pushed.same memory tracked rfl rfl
  · exact absurd accepted declined
  · let key := Store.keyText session.store.manager.nextKey
    let made : Session σ := { session with store := store }
    have aside := sendCall_aside peer "initProtocol" data made
    have stored := onStore_stored (Store.destroy key) (left (sendCall peer "initProtocol" data made))
    rw [ran]
    refine known.keeps (congrArg _ (stored.protocol.trans aside.protocol))
      (.inr ⟨stored.preloaded.trans aside.preloaded, List.Subset.refl _⟩) (stored.settings.trans aside.settings)
      fun link bytes _ _ guard pushed => ?_
    have steady := @section_steady σ guards link.host.block.region bytes guard
    have same : made.lentKeys = session.lentKeys := rfl
    have lent : Pushed fine link.host.block.region bytes [key] made :=
      Guarded.lend steady pushed owned.keeps owned.recent owned.ranged numbered (fun other => by simp [same, key]) rfl
    have sent := lent.sendCall steady watched "initProtocol" data
    exact (sent.giveBack steady (List.mem_append_right _ (List.mem_singleton_self key))).fewer nofun

theorem Known.init (watched : peer.Watched fine (LeavesPreloads guards)) (known : Known fine guards contexts [] session)
    (settled : session.Settled) (guarded : Guarded fine (fun _ => False) (fun _ _ => True) [] session)
    (orderly : session.preloaded = none ∨ answered (initProtocol peer session) ≠ .ok true)
    (chosen : ∀ link, (left (initProtocol peer session)).protocol = some link → guards link.host.block.region) :
    Known fine guards contexts [] (left (initProtocol peer session)) := by
  by_cases accepted : answered (initProtocol peer session) = .ok true
  · obtain ⟨link, linked, standard, section_, preloaded⟩ := init_accepted watched settled guarded accepted chosen
    have nothing : session.preloaded = none := orderly.resolve_right fun other => other accepted
    refine ⟨fun _ => preloaded.trans nothing, fun other also => ?_⟩
    obtain rfl : link = other := Option.some.inj (linked.symm.trans also)
    exact ⟨standard, chosen link linked, zeros 4, section_,
      fun fingerprint told => absurd ((preloaded.trans nothing).symm.trans told) nofun⟩
  · exact known.declined watched accepted

section runs

def pushing (session : Session σ) (contexts : List EvalContext) : Operation → List EvalContext
  | .beginCompilation => []
  | .call spec _ _ context => contexts ++ session.pushes spec context
  | _ => contexts

def pushed (peer : Peer σ) : List Operation → Session σ → List EvalContext → List EvalContext
  | [], _, contexts => contexts
  | operation :: rest, session, contexts =>
    pushed peer rest (operate peer session operation) (session.pushing contexts operation)

def Orderly (peer : Peer σ) (operations : List Operation) (session : Session σ) : Prop :=
  ∀ past rest, operations = past ++ .initProtocol :: rest → (after peer past session).preloaded = none ∨
    answered (initProtocol peer (after peer past session)) ≠ .ok true

theorem pushed_append (peer : Peer σ) (first second : List Operation) (session : Session σ) (contexts : List EvalContext) :
    pushed peer (first ++ second) session contexts =
      pushed peer second (after peer first session) (pushed peer first session contexts) := by
  induction first generalizing session contexts with
  | nil => rfl
  | cons operation rest ih => exact ih _ _

theorem start_known (settings : Settings) (state : σ) (contexts : List EvalContext) :
    Known fine guards contexts held (start settings state) :=
  ⟨fun _ => rfl, fun _ linked => absurd linked nofun⟩

theorem operate_known (watched : peer.Watched fine (LeavesPreloads guards)) (known : Known fine guards contexts [] session)
    (settled : session.Settled) (guarded : Guarded fine (fun _ => False) (fun _ _ => True) [] session)
    (operation : Operation)
    (orderly : operation = .initProtocol → session.preloaded = none ∨ answered (initProtocol peer session) ≠ .ok true)
    (chosen : ∀ link, (operate peer session operation).protocol = some link → guards link.host.block.region) :
    Known fine guards (session.pushing contexts operation) [] (operate peer session operation) := by
  cases operation with
  | initProtocol => exact known.init watched settled guarded (orderly rfl) chosen
  | shutdownProtocol => exact known.shutdown
  | beginCompilation => exact known.keeps rfl (.inl rfl) rfl fun _ _ _ _ _ pushed => pushed.same rfl rfl rfl rfl
  | invalidate function => exact known.cached _
  | call spec scope args context => exact (call_offers watched spec scope args context known).1

theorem after_known (watched : peer.Watched fine (LeavesPreloads guards)) (known : Known fine guards contexts [] session)
    (settled : session.Settled) (laid : session.LaidOut)
    (guarded : Guarded fine (fun _ => False) (fun _ _ => True) [] session) (operations : List Operation) (orderly : Orderly peer operations session)
    (chosen : ∀ id, protocolRegions peer operations session id → guards id) :
    Known fine guards (pushed peer operations session contexts) [] (after peer operations session) := by
  induction operations generalizing session contexts with
  | nil => exact known
  | cons operation rest ih =>
    refine ih (operate_known watched known settled guarded operation (fun same => ?_) fun link linked => ?_)
      (operate_settled peer settled operation) (operate_laidOut laid operation)
      (operate_firm preload_firm watched laid guarded operation) (fun past others same => ?_) fun id reached => ?_
    · exact orderly [] rest (by rw [same]; rfl)
    · exact chosen _ ⟨[operation], rest, link, rfl, linked, rfl⟩
    · exact orderly (operation :: past) others (congrArg _ same)
    · obtain ⟨past, others, link, rfl, linked, same⟩ := reached
      exact chosen id ⟨operation :: past, others, link, rfl, linked, same⟩

-- Whenever a call tells the peer to use what is preloaded, the preload section holds the variables of a
-- context with the frames of the call's own one that was pushed since the compilation began: as long as
-- the peer leaves the section alone and no protocol is accepted in place of one that holds such variables.
theorem preloaded_current (peer : Peer σ) (settings : Settings) (state : σ) (operations : List Operation)
    (spec : FunctionSpec) (scope : ScopeKey) (args : List CallArg) (context : Option EvalContext)
    (orderly : Orderly peer.recorded operations (start settings (state, [])))
    (apart : ∀ act ∈ (after peer.recorded (operations ++ [.call spec scope args context])
        (start settings (state, []))).peer.2,
      act.memory.Lets (protocolRegions peer.recorded operations (start settings (state, []))) OutsidePreload act.later) :
    let session := after peer.recorded operations (start settings (state, []))
    let contexts := pushed peer.recorded (operations ++ [.call spec scope args context])
      (start settings (state, [])) []
    ∃ actions, left (call peer.recorded spec scope args context session) = run peer.recorded actions session ∧
      (left (call peer.recorded spec scope args context session)).stream.lastId =
        session.stream.lastId + actions.countP isCommand ∧
      ∀ past data rest, actions = past ++ .send "callFunctionShm" data :: rest →
        data.get? "preloaded" = some (.bool true) →
        ∃ stack, context = some stack ∧ Current contexts stack (run peer.recorded past session) := by
  intro session contexts
  let guards := protocolRegions peer.recorded operations (start settings (state, []))
  have watched : peer.recorded.Watched (fun state => ∀ act ∈ state.2, act.memory.Lets guards OutsidePreload act.later)
      (LeavesPreloads guards) :=
    peer.recorded_watched fun _ before _ after => before.Lets guards OutsidePreload after
  have known := after_known watched (start_known settings (state, []) []) (start_settled settings (state, []))
    (fun _ linked => absurd linked nofun) (fun _ => ⟨trivial, nofun, nofun⟩) operations orderly fun _ reached => reached
  rw [after, List.foldl_append] at apart
  obtain ⟨actions, ran, offers⟩ := (call_offers watched spec scope args context known).2 apart
  refine ⟨actions, ran, ?_, fun past data rest same flag => ?_⟩
  · rw [ran]
    exact run_commands peer.recorded actions session
  · obtain ⟨id, stack, given, current⟩ := offers past _ rest same data rfl flag
    refine ⟨stack, ?_, ?_⟩
    · cases context with
      | none => cases given
      | some other =>
        cases given
        rfl
    · rw [show contexts = _ from pushed_append _ _ _ _ _]
      exact current

-- A peer that agrees to whatever it is asked and leaves memory alone. It counts the commands.
def agreeing : Peer Nat where
  hear count input memory :=
    match input with
    | .line _ =>
      let agreement : Json := .ofEntries [("polling", .bool true), ("json", .null)]
      ⟨count + 1, [.line (Response.ok (count + 1) agreement).line], memory⟩
    | .ended => ⟨count, [.hangUp], memory⟩
  poll count memory := (count, memory)
  pace := 3

def preloading : Settings := { Settings.standard with preloadNames := ["@p"] }

def frames : EvalContext := FrameStack.context ⟨[⟨1, [⟨"@p", .plain (.keyword "ok"), false⟩]⟩]⟩

def asking : FunctionSpec := ⟨"f", none, true, false⟩

theorem fits_standard (size : Nat) :
    ProtocolRegion.fits .standard size = decide (Layout.standard.totalSize ≤ size) := by
  rw [ProtocolRegion.fits, Layout.standard_consistent, Bool.true_and]

-- Two calls of one context, of which the second one is told to use what the first one pushed.
theorem preloaded_current_again :
    let ask : Operation := .call asking default [] (some frames)
    let begun := start preloading ((0, []) : Nat × List (PeerAct Nat))
    let session := after agreeing.recorded [.initProtocol, ask] begun
    (left (call agreeing.recorded asking default [] (some frames) session)).counts.region = 2 ∧
      session.preloaded = some (.ofContext frames) ∧
      ∃ actions, left (call agreeing.recorded asking default [] (some frames) session) =
          run agreeing.recorded actions session ∧
        (left (call agreeing.recorded asking default [] (some frames) session)).stream.lastId =
          session.stream.lastId + actions.countP isCommand ∧
        ∀ past data rest, actions = past ++ .send "callFunctionShm" data :: rest →
          data.get? "preloaded" = some (.bool true) →
          ∃ stack, some frames = some stack ∧ Current
            (pushed agreeing.recorded ([.initProtocol, ask] ++ [ask]) begun []) stack
            (run agreeing.recorded past session) := by
  refine ⟨?_, ?_, preloaded_current agreeing preloading 0 [.initProtocol, .call asking default [] (some frames)] asking
    default [] (some frames) ?_ ?_⟩
  · simp only [after, List.foldl, operate, initProtocol, createLink, ProtocolRegion.ofRegion, fits_standard]
    decide +kernel
  · simp only [after, List.foldl, operate, initProtocol, createLink, ProtocolRegion.ofRegion, fits_standard]
    decide +kernel
  · intro past rest same
    obtain _ | ⟨first, _ | ⟨second, past⟩⟩ := past
    · exact .inl rfl
    · cases same
    · simp at same
  · intro act among
    have heard : ∀ state input memory, (agreeing.hear state input memory).memory = memory :=
      fun _ input _ => by cases input <;> rfl
    rw [recorded_still heard (fun _ _ => rfl) preloading 0 _ act among]
    exact ⟨Nat.le_refl _, fun id _ number data views => ⟨data, views, .refl _ data⟩⟩

theorem call_tells {ready placed : Session σ} {region : CallRegion} {spec : FunctionSpec} {args : List CallArg}
    {stack : EvalContext} (scope : ScopeKey) (needs : spec.needsContext = true)
    (mode : spec.mode.getD ready.settings.mode = .binary)
    (told : (session.enter (some stack)).2.preloadContext spec (session.enter (some stack)).1 = (true, ready))
    (made : ready.writeCallRegion args = (some region, placed)) :
    ∃ past data rest, left (call peer spec scope args (some stack) session) =
        run peer (past ++ .send "callFunctionShm" data :: rest) session ∧
      data.get? "preloaded" = some (.bool true) ∧ run peer past session = placed.count .moreRegion := by
  let context := (session.enter (some stack)).1
  obtain ⟨data, flag, state, -⟩ := callRegion_cases peer spec args.length region true context placed
  have through : left (callThroughRegion peer spec args true context ready) =
      (left (sendCall peer "callFunctionShm" data (placed.count .moreRegion))).destroyRegion region.key := by
    rw [← state]
    simp only [callThroughRegion, made]
    cases callRegion peer spec args.length region true context placed <;> rfl
  have binary : ∃ more, left (callBinary peer spec args true context ready) =
      run peer more (left (callThroughRegion peer spec args true context ready)) := by
    rw [callBinary_declined (by rw [if_pos needs]; rfl)]
    cases went : callThroughRegion peer spec args true context ready with
    | error e later => exact ⟨[], congrArg left (bind_failed went)⟩
    | ok result later =>
      rw [bind_done went]
      cases result with
      | some result => exact ⟨[], rfl⟩
      | none =>
        obtain ⟨actions, course⟩ := callJson_course peer spec args context later.countFallback
        exact ⟨.count .moreFallbacks :: actions, course.runs⟩
  obtain ⟨more, binary⟩ := binary
  have uncached : session.cacheKey? spec scope args = none := by
    simp [cacheKey?, needs]
  have whole : left (call peer spec scope args (some stack) session) =
      (left (callBinary peer spec args true context ready)).leave context := by
    simp only [call, uncached, invoke, route, told, mode, context]
    cases callBinary peer spec args true (session.enter (some stack)).1 ready <;> rfl
  obtain ⟨before, prepares, -⟩ := prepared_runs peer spec (some stack) session
  rw [prepared, told] at prepares
  refine ⟨before ++ [.place args, .count .moreRegion], data, .release region.key :: (more ++ [.leave context]), ?_, flag, ?_⟩
  · rw [whole, binary, through, run_append, run_append, ← prepares]
    change _ = (run peer (more ++ [Action.leave context]) _)
    rw [run_append]
    change _ = Session.leave context (run peer more ((left (sendCall peer "callFunctionShm" data
      (Session.count .moreRegion (ready.writeCallRegion args).2))).destroyRegion region.key))
    rw [made]
  · rw [run_append, ← prepares]
    change Session.count .moreRegion (ready.writeCallRegion args).2 = _
    rw [made]

theorem encode_none : Preload.encode [] = .ok (zeros 4) := by
  have zero : Bytes.concat [Bytes.u32 0] = zeros 4 := by decide +kernel
  rw [← zero]
  rfl

-- A second protocol begins with zeros. But the variables that were pushed to the first one still count as
-- preloaded, and so the next call of their context tells the peer to use them.
theorem preloaded_stale :
    let ask : Operation := .call asking default [] (some frames)
    let session := after agreeing [.initProtocol, ask, .initProtocol] (start preloading 0)
    ∃ past data rest, left (call agreeing asking default [] (some frames) session) =
        run agreeing (past ++ .send "callFunctionShm" data :: rest) session ∧
      data.get? "preloaded" = some (.bool true) ∧
      ¬ Current (pushed agreeing [.initProtocol, ask, .initProtocol, ask] (start preloading 0) []) frames
        (run agreeing past session) := by
  intro ask session
  let middle := after agreeing [.initProtocol, ask] (start preloading 0)
  let entered := (session.enter (some frames)).2
  have settled : session.Settled := after_settled agreeing (start_settled preloading 0) _
  have accepted : answered (initProtocol agreeing middle) = .ok true := by
    have ends : endsWith id (initProtocol agreeing middle) = true := by
      simp only [middle, ask, after, List.foldl, operate, initProtocol, createLink, ProtocolRegion.ofRegion, fits_standard]
      decide +kernel
    obtain ⟨answer, later, ran, yes⟩ := endsWith_done ends
    rw [ran, show answer = true from yes]
    rfl
  have preloaded : session.preloaded = some (.ofContext frames) := by
    simp only [session, ask, after, List.foldl, operate, initProtocol, createLink, ProtocolRegion.ofRegion, fits_standard]
    decide +kernel
  have names : entered.settings = preloading := by
    simp only [entered, session, ask, after, List.foldl, operate, initProtocol, createLink, ProtocolRegion.ofRegion, fits_standard]
    decide +kernel
  have room : (entered.writeCallRegion []).1.isSome = true := by
    simp only [entered, session, ask, after, List.foldl, operate, initProtocol, createLink, ProtocolRegion.ofRegion, fits_standard]
    decide +kernel
  obtain ⟨region, made⟩ := Option.isSome_iff_exists.mp room
  have told : entered.preloadContext asking (session.enter (some frames)).1 = (true, entered) := by
    have one : entered.active = [(session.lastContext + 1, frames)] := by
      simp only [entered, enter, settled.idle, List.nil_append]
    have ensured : entered.ensurePreloaded frames = (true, entered) := if_pos preloaded
    simp only [preloadContext, enter, one, asking, ensured]
    rfl
  have same : ∀ memory : Memory, memory.Lets (fun _ => True) OutsidePreload memory :=
    fun memory => ⟨Nat.le_refl _, fun _ _ _ data views => ⟨data, views, .refl _ data⟩⟩
  have watched : agreeing.Watched (fun _ => True) (LeavesPreloads fun _ => True) := by
    refine ⟨fun state input memory _ => ⟨trivial, ?_⟩, fun state memory _ => ⟨trivial, same memory⟩⟩
    cases input <;> exact same memory
  have laid : (start preloading 0).LaidOut := by
    intro _ linked
    cases linked
  have begun : Guards (fun _ => False) (fun _ _ => True) [] (start preloading 0) :=
    ⟨trivial, List.forall_mem_nil _, List.forall_mem_nil _⟩
  have guarded : Guarded (fun _ => True) (fun _ => False) (fun _ _ => True) [] middle :=
    after_firm watched preload_firm laid (fun _ => begun) _
  obtain ⟨link, linked, standard, section_, -⟩ := init_accepted watched
    (after_settled agreeing (start_settled preloading 0) [.initProtocol, ask]) guarded accepted fun _ _ => trivial
  obtain ⟨past, data, rest, ran, flag, placed⟩ := call_tells default rfl
    (by rw [names]; rfl) told (Prod.ext made rfl)
  refine ⟨past, data, rest, ran, flag, ?_⟩
  rw [placed]
  rintro ⟨other, there, source, among, -, read⟩
  have stored := writeCallRegion_stored [] entered
  obtain rfl : link = other := Option.some.inj (linked.symm.trans (stored.protocol.symm.trans there))
  have zeros_ := (section_ trivial).holds.stands ((writeCallRegion_keeps [] entered).stands (· = link.host.block.region)) rfl
  have empty := ProtocolHost.readPreloaded_done standard zeros_ encode_none (List.forall_mem_nil _)
  have nothing := Except.ok.inj ((congrArg answered empty).symm.trans read)
  have only : source = frames := by
    rcases List.mem_append.mp among with among | among
    · rcases List.mem_append.mp among with among | among
      · cases among
      · exact Option.some.inj (pushes_context among).symm
    · exact Option.some.inj (pushes_context among).symm
  have settings := stored.settings.trans names
  have one : ((preloading.preloadNames.filterMap fun name => frames.resolve? 0 name).filter fun definition =>
      WireValue.supports definition.value).length = 1 := by decide +kernel
  have none := congrArg List.length nothing
  rw [only, preloadFor, commonVariables, List.length_map] at none
  rw [← settings] at one
  exact absurd (none.trans one) (by decide)

end runs
end Session
end PluginBridge
