import PluginBridge.Proofs.Dispatch.Guarding
namespace PluginBridge.Session
open PluginBridge.Action
variable {σ : Type} {peer : Peer σ} {fine : σ → Prop} {may : σ → Memory → σ → Memory → Prop}
  {kept : RegionId → Prop} {holds wider : σ → Memory → Prop} {held : List String} {session later : Session σ}
  {link : ProtocolLink} {spec : FunctionSpec} {args : List CallArg} {context : CallContext}
  {standing next last : Standing} {action : Action} {actions : List Action}

namespace Guarded

theorem widen (guarded : Guarded fine kept holds held session)
    (implies : holds session.peer session.store.memory → wider session.peer session.store.memory) :
    Guarded fine kept wider held session := fun good =>
  ⟨implies (guarded good).holds, (guarded good).ranged, (guarded good).apart⟩

theorem free (guarded : Guarded fine (fun _ => False) holds held session) (more : List String) :
    Guarded fine (fun _ => False) holds more session := fun good =>
  ⟨(guarded good).holds, (guarded good).ranged, fun _ _ _ none => none⟩

theorem prepared (guarded : Guarded fine kept holds held session) (spec : FunctionSpec) (context : Option EvalContext)
    (along : ∀ link vars, session.protocol = some link → Along (Preserves holds) (link.host.preload vars)) :
    Guarded fine kept holds held (session.prepared spec context) := by
  have entered : Guarded fine kept holds held (session.enter context).2 := by
    cases context <;> exact guarded.same rfl rfl rfl rfl
  rcases preloadContext_cases spec (session.enter context).1 (session.enter context).2 with same | ⟨id, stack, -, -, pushed⟩
  · rwa [Session.prepared, same]
  · rw [Session.prepared, pushed]
    unfold ensurePreloaded
    simp only
    split
    · exact entered
    · split
      · exact entered
      · rename_i link linked
        have there : session.protocol = some link := by
          cases context <;> exact linked
        have done := entered.onMemory (along link ((session.enter context).2.preloadFor stack) there)
        split <;> rename_i answer <;> rw [answer] at done <;> exact done.same rfl rfl rfl rfl

theorem found {id : RegionId} {store : Store} (guarded : Guarded fine (fun _ => False) wider [] session)
    (lent : ∀ key ∈ session.lentKeys, Given session.store.manager key)
    (owned : Private session.store.memory store.memory (Store.keyText session.store.manager.nextKey) id id
      (zeros Layout.standard.totalSize)) (numbered : Numbered session.store.manager store.manager id)
    (begun : fine session.peer → holds session.peer store.memory) :
    Guarded fine (· = id) holds [] ({ session with store := store } : Session σ) := by
  intro good
  obtain ⟨-, ranged, -⟩ := guarded good
  have each : ∀ entry ∈ store.manager.tracked, entry.2.index < session.store.memory.regions.size ∨
      entry = (Store.keyText session.store.manager.nextKey, id) := by
    intro entry among
    rw [numbered.tracked] at among
    rcases List.mem_append.mp among with old | new
    · exact .inl (ranged entry (List.mem_of_mem_filter old))
    · exact .inr (List.mem_singleton.mp new)
  refine ⟨begun good, fun entry among => ?_, fun entry among key same => ?_⟩
  · rcases each entry among with old | rfl
    · exact Nat.lt_of_lt_of_le old owned.keeps.follows.regions
    · exact owned.ranged
  · rw [List.append_nil] at key
    rcases each entry among with old | rfl
    · exact absurd (same ▸ owned.recent) (Nat.not_le.mpr old)
    · exact (lent _ key).old rfl

theorem init (watched : peer.Watched fine may) (steady : Steady may kept holds)
    (guarded : Guarded fine kept holds [] session) :
    Guarded fine kept holds [] (left (initProtocol peer session)) := by
  rcases initProtocol_cases peer session with
    ⟨e, store, ran, memory, tracked, -⟩ | ⟨id, store, data, owned, numbered, outcome⟩
  · rw [ran]
    exact guarded.same memory tracked rfl rfl
  · let key := Store.keyText session.store.manager.nextKey
    let made : Session σ := { session with store := store }
    have same : made.lentKeys = session.lentKeys := rfl
    have lent : Guarded fine kept holds [key] made :=
      Guarded.lend steady guarded owned.keeps owned.recent owned.ranged numbered (fun other => by simp [same, key]) rfl
    have sent := lent.sendCall steady watched "initProtocol" data
    rcases outcome with ⟨-, ran⟩ | ⟨-, ran⟩
    · rw [ran]
      have fewer : Guarded fine kept holds [] (left (Session.sendCall peer "initProtocol" data made)) :=
        sent.fewer nofun
      exact fewer.same rfl rfl rfl rfl
    · rw [ran]
      exact (sent.giveBack steady (List.mem_append_right _ (List.mem_singleton_self key))).fewer nofun

end Guarded

theorem Guarded.call (steady : Steady may kept holds) (spec : FunctionSpec) (scope : ScopeKey) (args : List CallArg)
    (context : Option EvalContext) (guarded : Guarded fine kept holds [] session)
    (along : ∀ link vars, session.protocol = some link → Along (Preserves holds) (link.host.preload vars))
    (course : ∀ {context : CallContext} {begun middle : Session σ} {actions last}, SameLink session begun →
      Guarded fine kept holds [] begun → Course peer spec args context .unseen begun actions last middle →
      Guarded fine kept holds last.keys middle) :
    Guarded fine kept holds [] (left (Session.call peer spec scope args context session)) := by
  rcases call_parts peer spec scope args context session with
    ⟨hit, cache, ran⟩ | ⟨first, cache, before, actions, last, middle, -, -, ways, concluded, same, -⟩
  · rw [ran]
    exact guarded.same rfl rfl rfl rfl
  · have cached : Guarded fine kept holds [] ({ session with cache := first } : Session σ) := guarded.same rfl rfl rfl rfl
    obtain ⟨memory, preloaded, only⟩ := prepared_kept spec context ({ session with cache := first } : Session σ)
    have ended := course (.of_same (by rw [only])) (cached.prepared spec context along) ways
    rw [concluded.keys] at ended
    rw [same]
    exact (ended.leave steady _).same rfl rfl rfl rfl

structure Firm (may : σ → Memory → σ → Memory → Prop) (holds : σ → Memory → Prop) : Prop where
  turn : ∀ {state memory next later}, may state memory next later → holds state memory → holds next later
  follows : ∀ {state memory later}, memory.Follows later → holds state memory → holds state later
  grows : ∀ {state memory next later}, may state memory next later → holds state memory →
    memory.regions.size ≤ later.regions.size

section firm
variable (rests : Firm may holds)
include rests

theorem Firm.steady : Steady may (fun _ => False) holds :=
  ⟨fun _ _ none => none.elim, fun stands => rests.follows stands.follows, rests.turn, rests.grows⟩

theorem Firm.preserves {ε α : Type} {action : EStateM ε Memory α} (along : Along Memory.Follows action) :
    Along (Preserves holds) action := fun memory => ⟨(along memory).regions, fun _ => rests.follows (along memory)⟩

theorem Firm.writable (standard : link.host.block.layout = .standard) : Writable holds link :=
  ⟨standard, fun _ _ _ => rests.preserves (Memory.write_follows _ _ _), rests.preserves (Memory.write_follows _ _ _)⟩

theorem Firm.shutdown (laid : session.LaidOut) (guarded : Guarded fine (fun _ => False) holds [] session) :
    Guarded fine (fun _ => False) holds [] session.shutdownProtocol := by
  unfold shutdownProtocol
  split
  · exact guarded
  · rename_i link linked
    have begun : Guarded fine (fun _ => False) holds [] ({ session with protocol := none } : Session σ) :=
      guarded.same rfl rfl rfl rfl
    have asked := (begun.onMemory (ProtocolHost.requestShutdown_along (rests.writable (laid link linked)).host
      (laid link linked))).free [link.key]
    have gone := asked.giveBack rests.steady (List.mem_append_right _ (List.mem_singleton_self link.key))
    exact (gone.free []).same rfl rfl rfl rfl

variable (watched : peer.Watched fine may)
include watched

theorem Step.firm (step : Step peer spec args context standing session action next) (laid : session.LaidOut)
    (guarded : Guarded fine (fun _ => False) holds standing.keys session) :
    Guarded fine (fun _ => False) holds next.keys (action.apply peer session) := by
  by_cases ends : action = .drop
  · subst ends
    exact (rests.shutdown laid (guarded.free [])).free _
  · exact step.guarded watched rests.steady (fun link linked => rests.writable (laid link linked)) ends guarded

theorem Course.firm (course : Course peer spec args context standing session actions last later) (laid : session.LaidOut)
    (guarded : Guarded fine (fun _ => False) holds standing.keys session) :
    Guarded fine (fun _ => False) holds last.keys later := by
  induction course with
  | nil => exact guarded
  | cons step _ ih => exact ih ((apply_link peer _ _).laidOut laid) (step.firm rests watched laid guarded)

theorem operate_firm (laid : session.LaidOut) (guarded : Guarded fine (fun _ => False) holds [] session)
    (operation : Operation) : Guarded fine (fun _ => False) holds [] (operate peer session operation) := by
  cases operation with
  | initProtocol => exact guarded.init watched rests.steady
  | shutdownProtocol => exact rests.shutdown laid guarded
  | beginCompilation => exact guarded.same rfl rfl rfl rfl
  | invalidate function => exact guarded.same rfl rfl rfl rfl
  | call spec scope args context =>
    refine guarded.call rests.steady spec scope args context (fun link vars linked => rests.preserves ?_)
      fun same begun course => course.firm rests watched (same.laidOut laid) begun
    exact ProtocolHost.preload_along (laid link linked) vars fun _ _ _ => Memory.write_follows _ _ _

end firm

theorem operate_link (peer : Peer σ) (operation : Operation) (session : Session σ) :
    ∀ link, (operate peer session operation).protocol = some link →
      (∃ before, session.protocol = some before ∧ link.place = before.place) ∨
        link.host.block.layout = .standard ∧ session.store.memory.regions.size ≤ link.host.block.region.index := by
  cases operation with
  | initProtocol =>
    rcases initProtocol_cases peer session with
      ⟨e, store, ran, -⟩ | ⟨id, store, data, owned, -, ⟨-, ran⟩ | ⟨-, ran⟩⟩
    · exact fun link linked => .inl (SameLink.of_same (by rw [operate, ran]; rfl) link linked)
    · intro link linked
      rw [operate, ran] at linked
      cases linked
      exact .inr ⟨rfl, owned.recent⟩
    · intro link linked
      refine .inl (SameLink.of_same ?_ link linked)
      rw [operate, ran]
      exact (onStore_stored _ _).protocol.trans (sendCall_aside peer "initProtocol" data _).protocol
  | shutdownProtocol => exact fun link linked => absurd ((shutdownProtocol_none session).symm.trans linked) nofun
  | beginCompilation => exact fun link linked => .inl ⟨link, linked, rfl⟩
  | invalidate function => exact fun link linked => .inl ⟨link, linked, rfl⟩
  | call spec scope args context =>
    obtain ⟨actions, ran, -⟩ := call_runs peer spec scope args context session
    intro link linked
    rw [operate, ran] at linked
    exact .inl (run_link peer actions session link linked)

theorem operate_laidOut (laid : session.LaidOut) (operation : Operation) : (operate peer session operation).LaidOut := by
  intro link linked
  rcases operate_link peer operation session link linked with ⟨before, there, place⟩ | ⟨standard, -⟩
  · exact (congrArg (fun place => place.2.layout) place).trans (laid before there)
  · exact standard

theorem after_firm (watched : peer.Watched fine may) (rests : Firm may holds) (laid : session.LaidOut) (guarded : Guarded fine (fun _ => False) holds [] session)
    (operations : List Operation) : Guarded fine (fun _ => False) holds [] (after peer operations session) := by
  induction operations generalizing session with
  | nil => exact guarded
  | cons operation rest ih =>
    exact ih (operate_laidOut laid operation) (operate_firm rests watched laid guarded operation)

end PluginBridge.Session
