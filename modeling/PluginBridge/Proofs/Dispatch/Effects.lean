import Mathlib.Logic.Relation
import PluginBridge.Proofs.Dispatch.CallRegion
import PluginBridge.Proofs.Dispatch.Course
import PluginBridge.Proofs.Protocol.Silence
namespace PluginBridge

-- What the peer does to the regions, when it hears something or when it looks at its region.
def Peer.Acts {σ : Type} (peer : Peer σ) (before after : Memory) : Prop :=
  ∃ state, (∃ input, after = (peer.hear state input before).memory) ∨ after = (peer.poll state before).2

-- The regions get from one state to the other with no request raised but by the peer itself.
def Peer.Undisturbed {σ : Type} (peer : Peer σ) : Memory → Memory → Prop :=
  Relation.ReflTransGen fun before after => before.Silent after ∨ peer.Acts before after

def ProtocolLink.place (link : ProtocolLink) : String × ProtocolRegion := (link.key, link.host.block)

namespace Session
open Memory (Silent)
variable {σ : Type} {peer : Peer σ} {session : Session σ}

def SameLink (before after : Session σ) : Prop :=
  ∀ later, after.protocol = some later → ∃ link, before.protocol = some link ∧ later.place = link.place

def LaidOut (session : Session σ) : Prop :=
  ∀ link, session.protocol = some link → link.host.block.layout = .standard

section memory
variable {ε α : Type} {R : Memory → Memory → Prop}

theorem onMemory_along {action : EStateM ε Memory α} (along : Along R action) (session : Session σ) :
    R session.store.memory (session.onMemory action).2.store.memory := by
  have step := along session.store.memory
  unfold onMemory
  cases ran : action session.store.memory with
  | ok a memory | error e memory => simpa [ran, left] using step

theorem destroyRegion_cases (key : String) (session : Session σ) :
    (∃ id, session.store.lookup? key = some id ∧ session.destroyRegion key = { session with
      store := ⟨session.store.memory.unmap id, { session.store.manager with
        tracked := session.store.manager.tracked.filter fun entry => entry.1 != key }⟩ }) ∨
    session.store.lookup? key = none ∧ session.destroyRegion key = session := by
  cases found : session.store.lookup? key with
  | none => exact .inr ⟨rfl, by simp only [destroyRegion, onStore, RegionLedger.destroy_absent found]⟩
  | some id => exact .inl ⟨id, rfl, by simp only [destroyRegion, onStore, RegionLedger.destroy_found found]⟩

theorem destroyRegion_silent (key : String) (session : Session σ) :
    session.store.memory.Silent (session.destroyRegion key).store.memory := by
  rcases destroyRegion_cases key session with ⟨id, -, same⟩ | ⟨-, same⟩
  · rw [same]
    exact Memory.unmap_silent session.store.memory id
  · rw [same]
    exact refl_of Silent _

theorem destroyRegions_silent (keys : List String) (session : Session σ) :
    session.store.memory.Silent (session.destroyRegions keys).store.memory := by
  induction keys generalizing session with
  | nil => exact refl_of Silent _
  | cons key rest ih => exact trans_of Silent (destroyRegion_silent key session) (ih (session.destroyRegion key))

theorem leave_silent (context : CallContext) (session : Session σ) :
    session.store.memory.Silent (session.leave context).store.memory := by
  obtain ⟨keys, gone, -, -, same⟩ := leave_left context session
  rw [same]
  exact destroyRegions_silent gone { session with
    active := session.remaining context, inFlight := session.inFlight - 1, variableKeys := keys }

theorem createFilled_keeps {size : Nat} {bytes : ByteArray} (session : Session σ) (within : bytes.size ≤ size) :
    session.store.memory.Keeps (session.createFilled size bytes).2.store.memory := by
  rcases createFilled_cases session within with ⟨e, store, refused, same, -⟩ | ⟨path, id, store, content, made, filled⟩
  · rw [refused]
    exact same ▸ .refl _
  · rw [made]
    exact filled.owned.keeps

theorem writeCallRegion_keeps (args : List CallArg) (session : Session σ) :
    session.store.memory.Keeps (session.writeCallRegion args).2.store.memory := by
  unfold writeCallRegion
  split
  · exact .refl _
  · rename_i bytes _
    have made := createFilled_keeps session (Nat.le_trans (Nat.le_mul_of_pos_right bytes.size Nat.two_pos)
      (Nat.le_max_left _ minCallRegion))
    split <;> rename_i answer <;> rwa [answer] at made

-- What one step makes of a callback that was begun: a region for the variable, an answer that holds it, or an
-- answer for the region that was made.
inductive Advances (session : Session σ) : Session σ → Prop where
  | idle : session.serving = none → Advances session session
  | placed {callback : Nat} {definition : Variable} {id : RegionId} {store : Store} {content bytes : ByteArray} :
      session.serving = some (.found callback definition) →
      Filled session.store.memory store (Store.keyText session.store.manager.nextKey) id content bytes →
      Numbered session.store.manager store.manager id →
      Advances session { session with
        store := store
        serving := some (.placed callback (Store.keyText session.store.manager.nextKey)
          (variablePlace (Store.keyText session.store.manager.nextKey) bytes.size)) }
  | inline {callback : Nat} {definition : Variable} {store : Store} :
      session.serving = some (.found callback definition) → store.memory = session.store.memory →
      store.manager.tracked = session.store.manager.tracked → store.manager.nextKey = session.store.manager.nextKey →
      Advances session ({ session with store := store, serving := none }.answerCallback callback
        (.ok (.ofEntries [("json", definition.toJson)])))
  | noted {callback : Nat} {key : String} {answer : Json} : session.serving = some (.placed callback key answer) →
      Advances session ({ session with serving := none, variableKeys := session.variableKeys ++ [key] }.answerCallback
        callback (.ok answer))

theorem proceed_advances (session : Session σ) : Advances session session.proceed := by
  rcases proceed_cases session with ⟨idle, same⟩ | ⟨callback, definition, key, answer, later, serving, placed, same⟩ |
    ⟨callback, definition, later, serving, placed, same⟩ | ⟨callback, key, answer, serving, same⟩
  · rw [same]
    exact .idle idle
  · rcases placeSupported_made definition session with ⟨_, none, -⟩ | ⟨id, store, _, _, made, -, -, filled, numbered⟩
    · cases placed.symm.trans none
    · cases placed.symm.trans made
      rw [same]
      exact .placed serving filled numbered
  · rcases placeSupported_made definition session with ⟨store, none, memory, tracked, next⟩ | ⟨_, _, _, _, made, -⟩
    · cases placed.symm.trans none
      rw [same]
      exact .inline serving memory tracked next
    · cases placed.symm.trans made
  · rw [same]
    exact .noted serving

theorem Advances.keeps {next : Session σ} (advances : Advances session next) :
    session.store.memory.Keeps next.store.memory := by
  cases advances with
  | idle => exact .refl _
  | placed _ filled _ => exact filled.owned.keeps
  | inline _ memory _ _ => exact memory ▸ .refl _
  | noted => exact .refl _

theorem proceed_keeps (session : Session σ) : session.store.memory.Keeps session.proceed.store.memory :=
  (proceed_advances session).keeps

theorem serveCallback_store (callback : Callback) (session : Session σ) :
    (session.serveCallback callback).store = session.store := by
  rcases serveCallback_cases callback session with ⟨_, same⟩ | ⟨_, same⟩
  · rw [same]
    rfl
  · rw [same]

theorem take_store (output : PeerOutput) (session : Session σ) : (session.take output).store = session.store := by
  unfold take
  split
  · split
    · rfl
    · rename_i callback stream _
      exact serveCallback_store callback { session with stream := stream }
  · rfl
  · rfl

theorem proceed_peer (session : Session σ) : session.proceed.peer = session.peer := by
  have advances := proceed_advances session
  generalize session.proceed = next at advances ⊢
  cases advances <;> rfl

theorem take_peer (output : PeerOutput) (session : Session σ) : (session.take output).peer = session.peer := by
  unfold take
  split
  · split
    · rfl
    · rename_i callback stream _
      rcases serveCallback_cases callback { session with stream := stream } with ⟨_, same⟩ | ⟨_, same⟩
      · rw [same]
        rfl
      · rw [same]
  · rfl
  · rfl

end memory

theorem sendCall_undisturbed (peer : Peer σ) (command : String) (data : Json) (session : Session σ) :
    peer.Undisturbed session.store.memory (left (sendCall peer command data session)).store.memory := by
  refine sendCall_keeps (P := fun later => peer.Undisturbed session.store.memory later.store.memory)
    (fun _ _ before => before) (fun later before => before.tail (.inl (proceed_keeps later).silent))
    (fun later line before => before.tail (.inr ⟨later.peer, .inl ⟨.line line, rfl⟩⟩))
    (fun later output rest _ _ before => ?_) command data .refl
  rwa [take_store]

theorem retire_silent {link : ProtocolLink} (standard : link.host.block.layout = .standard) (session : Session σ) :
    session.store.memory.Silent (session.retire link).store.memory :=
  trans_of Silent (onMemory_along (ProtocolHost.requestShutdown_silent standard) session)
    (destroyRegion_silent link.key (session.onMemory link.host.requestShutdown).2)

theorem shutdownProtocol_silent (laid : session.LaidOut) :
    session.store.memory.Silent session.shutdownProtocol.store.memory := by
  unfold shutdownProtocol
  split
  · exact refl_of Silent _
  · rename_i link linked
    exact retire_silent (laid link linked) { session with protocol := none }

theorem ensurePreloaded_silent (laid : session.LaidOut) (stack : EvalContext) :
    session.store.memory.Silent (session.ensurePreloaded stack).2.store.memory := by
  unfold ensurePreloaded
  simp only
  split
  · exact refl_of Silent _
  · split
    · exact refl_of Silent _
    · rename_i link linked
      have pushed := onMemory_along (ProtocolHost.preload_silent (laid link linked) (session.preloadFor stack)) session
      split <;> rename_i answer <;> rwa [answer] at pushed

namespace SameLink
variable {before middle after : Session σ}

theorem of_place (same : after.protocol.map ProtocolLink.place = before.protocol.map ProtocolLink.place) :
    SameLink before after := by
  intro later linked
  rw [linked, Option.map_some] at same
  obtain ⟨link, first, place⟩ := Option.map_eq_some_iff.mp same.symm
  exact ⟨link, first, place.symm⟩

theorem of_same (same : after.protocol = before.protocol) : SameLink before after :=
  of_place (congrArg _ same)

theorem trans (one : SameLink before middle) (two : SameLink middle after) : SameLink before after := by
  intro later linked
  obtain ⟨between, there, place⟩ := two later linked
  obtain ⟨link, first, same⟩ := one between there
  exact ⟨link, first, place.trans same⟩

theorem laidOut (same : SameLink before after) (laid : before.LaidOut) : after.LaidOut := by
  intro later linked
  obtain ⟨link, first, place⟩ := same later linked
  exact (congrArg (fun place => place.2.layout) place).trans (laid link first)

end SameLink

theorem onMemory_only {ε α : Type} (action : EStateM ε Memory α) (session : Session σ) :
    ∃ memory, (session.onMemory action).2 =
      { session with store := { session.store with memory := memory } } := by
  unfold onMemory
  split <;> exact ⟨_, rfl⟩

theorem onMemory_answered {ε α : Type} {action : EStateM ε Memory α} {session later : Session σ} {answer : Except ε α}
    (ran : session.onMemory action = (answer, later)) : answered (action session.store.memory) = answer ∧
      later = { session with store := { session.store with memory := left (action session.store.memory) } } := by
  unfold onMemory at ran
  split at ran <;> rename_i acted <;> cases ran <;> rw [acted] <;> exact ⟨rfl, rfl⟩

theorem ensurePreloaded_only (stack : EvalContext) (session : Session σ) :
    ∃ memory preloaded, (session.ensurePreloaded stack).2 =
      { session with store := { session.store with memory := memory }, preloaded := preloaded } := by
  unfold ensurePreloaded
  simp only
  split
  · exact ⟨session.store.memory, session.preloaded, rfl⟩
  · split
    · exact ⟨session.store.memory, session.preloaded, rfl⟩
    · rename_i link _
      obtain ⟨memory, only⟩ := onMemory_only (link.host.preload (session.preloadFor stack)) session
      split
      · rename_i later answer
        rw [answer] at only
        obtain rfl : later = _ := only
        exact ⟨memory, _, rfl⟩
      · rename_i later answer
        rw [answer] at only
        obtain rfl : later = _ := only
        exact ⟨memory, _, rfl⟩

theorem stage_only (request : ProtocolRequest) (link : ProtocolLink) (session : Session σ) :
    ∃ memory, session.stage request link = { session with store := { session.store with memory := memory } } ∨
      ∃ host, link.host.Stays host ∧
        session.stage request link = { session with store := { session.store with memory := memory } }.setHost host := by
  obtain ⟨memory, only⟩ := onMemory_only (link.host.stageCall request.functionId request.args) session
  have stays := @ProtocolHost.stageCall_stays link.host request.functionId request.args session.store.memory
  refine ⟨memory, ?_⟩
  unfold stage
  split
  · rename_i host result written staged
    rw [staged] at only
    refine .inr ⟨host, ?_, by rw [← only]⟩
    unfold onMemory at staged
    split at staged
    · rename_i ran
      cases staged
      exact stays _ _ ran
    · cases staged
  · rename_i staged
    rw [staged] at only
    exact .inl only

theorem setHost_place {link : ProtocolLink} (linked : session.protocol = some link) {host : ProtocolHost}
    (block : host.block = link.host.block) :
    (session.setHost host).protocol.map ProtocolLink.place = session.protocol.map ProtocolLink.place := by
  rw [setHost_linked linked, linked, Option.map_some, Option.map_some, ProtocolLink.place, ProtocolLink.place, block]

theorem stage_place {link : ProtocolLink} (linked : session.protocol = some link) (request : ProtocolRequest) :
    (session.stage request link).protocol.map ProtocolLink.place = session.protocol.map ProtocolLink.place := by
  obtain ⟨memory, same | ⟨host, stays, same⟩⟩ := stage_only request link session
  · rw [same]
  · rw [same]
    exact @setHost_place σ { session with store := { session.store with memory := memory } } link linked host stays.block

theorem registerFunction_block (host : ProtocolHost) (name : String) :
    (host.registerFunction name).2.block = host.block := by
  unfold ProtocolHost.registerFunction
  split <;> rfl

end Session

namespace Action
open Session
open Memory (Silent)
variable {σ : Type} {peer : Peer σ} {session : Session σ} {action : Action}

theorem apply_undisturbed (laid : session.LaidOut) (other : action ≠ .raise) :
    peer.Undisturbed session.store.memory (action.apply peer session).store.memory := by
  have quiet : ∀ {later : Session σ}, session.store.memory.Silent later.store.memory →
      peer.Undisturbed session.store.memory later.store.memory := fun silent => .single (.inl silent)
  have onLink : ∀ {act : ProtocolLink → Session σ → Session σ},
      (∀ link, session.protocol = some link → session.store.memory.Silent (act link session).store.memory) →
      peer.Undisturbed session.store.memory (session.onLink act).store.memory := by
    intro act silent
    unfold Session.onLink
    split
    · exact .refl
    · rename_i link linked
      exact quiet (silent link linked)
  cases action with
  | raise => exact absurd rfl other
  | look => exact .single (.inr ⟨session.peer, .inr rfl⟩)
  | send command data => exact sendCall_undisturbed peer command data session
  | enter context =>
    cases context <;> exact .refl
  | preload stack => exact quiet (ensurePreloaded_silent laid stack)
  | register name => exact onLink fun _ _ => refl_of Silent _
  | unregister name => exact onLink fun _ _ => refl_of Silent _
  | stage request =>
    refine onLink fun link linked => ?_
    have staged := onMemory_along
      (ProtocolHost.stageCall_silent (laid link linked) request.functionId request.args) session
    unfold Session.stage
    split <;> rename_i answer <;> rwa [answer] at staged
  | collect => exact onLink fun link linked => onMemory_along (ProtocolHost.takeResponse_silent (laid link linked)) session
  | drop => exact quiet (shutdownProtocol_silent laid)
  | place args => exact quiet (writeCallRegion_keeps args session).silent
  | release key => exact quiet (destroyRegion_silent key session)
  | count change => exact .refl
  | remember cache => exact .refl
  | leave context => exact quiet (leave_silent context session)

def isPlain : Action → Bool
  | .enter _ | .preload _ | .drop | .place _ | .release _ | .send _ _ | .leave _ => false
  | _ => true

structure Ignores {α : Type} (f : Session σ → α) : Prop where
  memory : ∀ session memory, f { session with store := { session.store with memory := memory } } = f session
  protocol : ∀ session protocol, f { session with protocol := protocol } = f session
  counts : ∀ session counts, f { session with counts := counts } = f session
  cache : ∀ session cache, f { session with cache := cache } = f session

namespace Ignores
variable {α : Type} {f : Session σ → α}

theorem onMemory {ε β : Type} (ignores : Ignores f) (action : EStateM ε Memory β) (session : Session σ) :
    f (session.onMemory action).2 = f session := by
  obtain ⟨memory, only⟩ := onMemory_only action session
  rw [only]
  exact ignores.memory session memory

theorem onLink (f : Session σ → α) {act : ProtocolLink → Session σ → Session σ}
    (kept : ∀ link, f (act link session) = f session) : f (session.onLink act) = f session := by
  unfold Session.onLink
  split
  · rfl
  · exact kept _

theorem plain (ignores : Ignores f) {action : Action} (plain : action.isPlain = true)
    (looked : action = .look → ∀ session peer, f { session with peer := peer } = f session) :
    f (action.apply peer session) = f session := by
  cases action with
  | register name => exact Ignores.onLink f fun _ => ignores.protocol session _
  | unregister name => exact Ignores.onLink f fun _ => ignores.protocol session _
  | stage request =>
    refine Ignores.onLink f fun link => ?_
    obtain ⟨memory, same | ⟨host, -, same⟩⟩ := stage_only request link session
    · rw [same]
      exact ignores.memory session memory
    · rw [same]
      exact (ignores.protocol { session with store := { session.store with memory := memory } } _).trans
        (ignores.memory session memory)
  | raise =>
    rw [Action.apply]
    refine Ignores.onLink f fun link => ?_
    exact ignores.onMemory link.host.signalRequest session
  | look =>
    let moved := peer.poll session.peer session.store.memory
    exact (ignores.memory { session with peer := moved.1 } moved.2).trans (looked rfl session moved.1)
  | collect =>
    rw [Action.apply]
    refine Ignores.onLink f fun link => ?_
    exact ignores.onMemory link.host.takeResponse session
  | count change => exact ignores.counts session _
  | remember cache => exact ignores.cache session _
  | _ => cases plain

theorem stored (store : ∀ session store, f { session with store := store } = f session)
    {later : Session σ} (stored : Stored session later) : f later = f session := by
  rw [stored.same]
  exact store session _

theorem shutdown (ignores : Ignores f)
    (store : ∀ session store, f { session with store := store } = f session)
    (preloaded : ∀ session preloaded, f { session with preloaded := preloaded } = f session)
    (session : Session σ) : f session.shutdownProtocol = f session := by
  unfold shutdownProtocol
  split
  · rfl
  · rename_i link _
    let begun : Session σ := { session with protocol := none }
    have retired := (onMemory_stored link.host.requestShutdown begun).trans (onStore_stored (Store.destroy link.key) _)
    exact (preloaded _ none).trans ((Ignores.stored store retired).trans (ignores.protocol session none))

end Ignores

theorem apply_place (peer : Peer σ) (action : Action) (session : Session σ) (other : action ≠ .drop) :
    (action.apply peer session).protocol.map ProtocolLink.place = session.protocol.map ProtocolLink.place := by
  have onLink : ∀ {act : ProtocolLink → Session σ → Session σ},
      (∀ link, session.protocol = some link →
        (act link session).protocol.map ProtocolLink.place = session.protocol.map ProtocolLink.place) →
      (session.onLink act).protocol.map ProtocolLink.place = session.protocol.map ProtocolLink.place := by
    intro act kept
    unfold Session.onLink
    split
    · rfl
    · rename_i link linked
      exact kept link linked
  have same : ∀ {later : Session σ}, later.protocol = session.protocol →
      later.protocol.map ProtocolLink.place = session.protocol.map ProtocolLink.place := fun same => by rw [same]
  cases action with
  | enter context => cases context <;> rfl
  | preload stack =>
    obtain ⟨memory, preloaded, only⟩ := ensurePreloaded_only stack session
    exact same (by rw [Action.apply, only])
  | register name => exact onLink fun link linked => setHost_place linked (registerFunction_block link.host name)
  | unregister name => exact onLink fun link linked => setHost_place linked rfl
  | stage request => exact onLink fun link linked => stage_place linked request
  | raise => exact onLink fun link _ => same (onMemory_stored _ session).protocol
  | look => rfl
  | collect => exact onLink fun link _ => same (onMemory_stored _ session).protocol
  | drop => exact absurd rfl other
  | place args => exact same (writeCallRegion_stored args session).protocol
  | release key => exact same (onStore_stored _ session).protocol
  | send command data => exact same (sendCall_aside peer command data session).protocol
  | count change => rfl
  | remember cache => rfl
  | leave context => exact same (leave_kept context session).2.2.2

theorem apply_link (peer : Peer σ) (action : Action) (session : Session σ) :
    SameLink session (action.apply peer session) := by
  by_cases ends : action = .drop
  · subst ends
    intro later linked
    cases (shutdownProtocol_none session).symm.trans linked
  · exact .of_place (apply_place peer action session ends)

theorem apply_counts (peer : Peer σ) (action : Action) (session : Session σ) (other : ∀ change, action ≠ .count change) :
    (action.apply peer session).counts = session.counts := by
  have onLink : ∀ {act : ProtocolLink → Session σ → Session σ}, (∀ link, (act link session).counts = session.counts) →
      (session.onLink act).counts = session.counts := fun kept => Ignores.onLink (fun session => session.counts) kept
  cases action with
  | enter context => cases context <;> rfl
  | preload stack =>
    obtain ⟨memory, preloaded, only⟩ := ensurePreloaded_only stack session
    rw [Action.apply, only]
  | register name => exact onLink fun _ => rfl
  | unregister name => exact onLink fun _ => rfl
  | stage request =>
    refine onLink fun link => ?_
    obtain ⟨memory, same | ⟨host, -, same⟩⟩ := stage_only request link session <;> rw [same]
    rfl
  | raise => exact onLink fun link => (onMemory_stored _ session).counts
  | look => rfl
  | collect => exact onLink fun link => (onMemory_stored _ session).counts
  | drop =>
    rw [Action.apply, shutdownProtocol]
    split
    · rfl
    · rename_i link _
      let begun : Session σ := { session with protocol := none }
      exact ((onMemory_stored link.host.requestShutdown begun).trans (onStore_stored (Store.destroy link.key) _)).counts
  | place args => exact (writeCallRegion_stored args session).counts
  | release key => exact (onStore_stored _ session).counts
  | send command data => exact (sendCall_aside peer command data session).counts
  | count change => exact absurd rfl (other change)
  | remember cache => rfl
  | leave context => exact (leave_kept context session).1

theorem run_link (peer : Peer σ) (actions : List Action) (session : Session σ) :
    SameLink session (run peer actions session) := by
  induction actions generalizing session with
  | nil => exact .of_same rfl
  | cons action rest ih => exact (apply_link peer action session).trans (ih _)

end Action
end PluginBridge
