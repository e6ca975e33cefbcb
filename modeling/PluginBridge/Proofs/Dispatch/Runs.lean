import PluginBridge.Proofs.Dispatch.Release
namespace PluginBridge

inductive Operation where
  | initProtocol
  | shutdownProtocol
  | beginCompilation
  | invalidate (function : String)
  | call (spec : FunctionSpec) (scope : ScopeKey) (args : List CallArg) (context : Option EvalContext)

namespace Session
variable {σ : Type} {peer : Peer σ} {session : Session σ}

def operate (peer : Peer σ) (session : Session σ) : Operation → Session σ
  | .initProtocol => left (initProtocol peer session)
  | .shutdownProtocol => session.shutdownProtocol
  | .beginCompilation => session.beginCompilation
  | .invalidate function => (session.invalidate function).2
  | .call spec scope args context => left (call peer spec scope args context session)

def after (peer : Peer σ) (operations : List Operation) (session : Session σ) : Session σ :=
  operations.foldl (operate peer) session

def protocolRegions (peer : Peer σ) (operations : List Operation) (session : Session σ) (id : RegionId) : Prop :=
  ∃ past rest link, operations = past ++ rest ∧ (after peer past session).protocol = some link ∧
    link.host.block.region = id

theorem initProtocol_cases (peer : Peer σ) (session : Session σ) :
    (∃ e store, initProtocol peer session = .error (.protocol (.region e)) { session with store := store } ∧
      store.memory = session.store.memory ∧ store.manager.tracked = session.store.manager.tracked ∧
      store.manager.nextKey = session.store.manager.nextKey) ∨
    ∃ id store data,
      Private session.store.memory store.memory (Store.keyText session.store.manager.nextKey) id id
        (zeros Layout.standard.totalSize) ∧ Numbered session.store.manager store.manager id ∧
      let link : ProtocolLink := ⟨Store.keyText session.store.manager.nextKey,
        .new ⟨id, .standard⟩ session.settings.protocolTimeout⟩
      let later := left (sendCall peer "initProtocol" data { session with store := store })
      (answered (initProtocol peer session) = .ok true ∧
          left (initProtocol peer session) = { later with protocol := some link }) ∨
        answered (initProtocol peer session) ≠ .ok true ∧
          left (initProtocol peer session) = later.destroyRegion link.key := by
  rcases createLink_made session with
    ⟨e, store, refused, same, -, tracked, next⟩ | ⟨id, store, made, owned, numbered⟩
  · exact .inl ⟨e, store, by simp only [initProtocol, refused], same, tracked, next⟩
  · let link : ProtocolLink := ⟨Store.keyText session.store.manager.nextKey,
      .new ⟨id, .standard⟩ session.settings.protocolTimeout⟩
    refine .inr ⟨id, store, linkMessage link { session with store := store }, owned, numbered, ?_⟩
    cases sent : sendCall peer "initProtocol" (linkMessage link { session with store := store })
        { session with store := store } with
    | error e later =>
      have ran : initProtocol peer session = .error e (later.destroyRegion link.key) := by
        simp only [initProtocol, made]
        rw [sent]
      rw [ran]
      exact .inr ⟨nofun, rfl⟩
    | ok response later =>
      cases polling : ((response.get? "polling").bind Json.toBool?).getD false with
      | true =>
        have ran : initProtocol peer session = .ok true { later with protocol := some link } := by
          simp only [initProtocol, made]
          rw [sent]
          simp only [polling, if_true, link]
        rw [ran]
        exact .inl ⟨rfl, rfl⟩
      | false =>
        have ran : initProtocol peer session = .ok false (later.destroyRegion link.key) := by
          simp only [initProtocol, made]
          rw [sent]
          simp only [polling, Bool.false_eq_true, if_false, link]
        rw [ran]
        exact .inr ⟨nofun, rfl⟩

theorem Lends.adopt {entries : List (String × RegionId)} {link : ProtocolLink} (lends : Lends entries [link.key] session) :
    Lends session.lasting [] { session with protocol := some link } := by
  refine ⟨?_, fun key among => ?_, nofun, lends.known, fun other linked => ?_, lends.single⟩
  · rw [List.append_nil]
    rfl
  · rw [List.append_nil] at among
    exact lends.lent key (List.mem_append_left _ among)
  · cases linked
    rw [List.append_nil]
    have last := List.mem_singleton_self link.key
    exact ⟨lends.lent _ (List.mem_append_right _ last), lends.apart _ last⟩

theorem initProtocol_settled (peer : Peer σ) (settled : session.Settled) :
    (left (initProtocol peer session)).Settled := by
  rcases initProtocol_cases peer session with
    ⟨e, store, refused, -, tracked, next⟩ | ⟨id, store, data, -, numbered, outcome⟩
  · have lends : Lends session.lasting [] ({ session with store := store } : Session σ) :=
      settled.lends.kept tracked next rfl (.of_same rfl)
    rw [refused]
    exact lends.settled settled.idle settled.done
  · let link : ProtocolLink := ⟨Store.keyText session.store.manager.nextKey,
      .new ⟨id, .standard⟩ session.settings.protocolTimeout⟩
    let made : Session σ := { session with store := store }
    have lent : Lends session.lasting [link.key] made := by
      have same : made.lentKeys = session.lentKeys := rfl
      refine settled.lends.lend numbered (fun other => ?_) (fun key among => ?_) (.of_same rfl)
      · simp [same, link]
      · rw [List.mem_singleton.mp among]
        exact fun inside => (settled.lends.lent _ (List.mem_append_left _ inside)).old rfl
    have sent := lent.sendCall peer "initProtocol" data
    have aside := sendCall_aside peer "initProtocol" data made
    have idle := aside.active.trans settled.idle
    have done := aside.inFlight.trans settled.done
    rcases outcome with ⟨-, same⟩ | ⟨-, same⟩
    · rw [same]
      exact sent.adopt.settled idle done
    · rw [same]
      have returns : Lends session.lasting [] ((left (sendCall peer "initProtocol" data made)).destroyRegion link.key) :=
        sent.giveBack (fun other => by simp) nofun
      have stored := destroyRegion_stored link.key (left (sendCall peer "initProtocol" data made))
      exact returns.settled (stored.active.trans idle) (stored.inFlight.trans done)

theorem shutdownProtocol_settled (settled : session.Settled) : session.shutdownProtocol.Settled := by
  cases linked : session.protocol with
  | none =>
    have same : session.shutdownProtocol = session := by
      simp only [shutdownProtocol, linked]
    exact same.symm ▸ settled
  | some link =>
    exact (settled.lends.drop linked).settled ((shutdownProtocol_active session).trans settled.idle)
      ((shutdownProtocol_inFlight session).trans settled.done)

theorem operate_settled (peer : Peer σ) (settled : session.Settled) (operation : Operation) :
    (operate peer session operation).Settled := by
  cases operation with
  | initProtocol => exact initProtocol_settled peer settled
  | shutdownProtocol => exact shutdownProtocol_settled settled
  | beginCompilation =>
    have lends : Lends session.lasting [] session.beginCompilation := settled.lends.kept rfl rfl rfl (.of_same rfl)
    exact lends.settled settled.idle settled.done
  | invalidate function => exact settled.cached _
  | call spec scope args context => exact (call_released peer spec scope args context settled).2

theorem after_settled (peer : Peer σ) (settled : session.Settled) (operations : List Operation) :
    (after peer operations session).Settled := by
  induction operations generalizing session with
  | nil => exact settled
  | cons operation rest ih => exact ih (operate_settled peer settled operation)

end Session
end PluginBridge
