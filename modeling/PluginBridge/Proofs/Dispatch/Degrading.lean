import PluginBridge.Dispatch.Call
import PluginBridge.Proofs.Dispatch.Course
import PluginBridge.Proofs.Dispatch.EchoRoutes
import PluginBridge.Proofs.Region.Ownership
namespace PluginBridge

namespace Store
open RegionLedger (destroy_absent destroy_found)
variable {a b : Store}

def Alike (a b : Store) : Prop :=
  ∃ directory next, b = ⟨a.memory, { a.manager with directory := directory, nextDirectory := next }⟩

theorem ensureDirectory_only (manager : RegionManager) : ∃ directory next,
    ensureDirectory manager = { manager with directory := directory, nextDirectory := next } := by
  unfold ensureDirectory
  split
  · exact ⟨manager.directory, manager.nextDirectory, rfl⟩
  · exact ⟨some manager.nextDirectory, manager.nextDirectory + 1, rfl⟩

-- Regions are known by keys alone, so the directory makes no difference to them.
theorem createUnchecked_alike (alike : Alike a b) (size : Nat) :
    answered (createUnchecked size b) = answered (createUnchecked size a) ∧
      Alike (left (createUnchecked size a)) (left (createUnchecked size b)) := by
  obtain ⟨directory, next, rfl⟩ := alike
  obtain ⟨d1, n1, one⟩ := ensureDirectory_only a.manager
  obtain ⟨d2, n2, two⟩ := ensureDirectory_only { a.manager with directory := directory, nextDirectory := next }
  unfold createUnchecked
  simp only [one, two]
  cases Memory.create (keyText a.manager.nextKey) (keyText a.manager.nextKey) size a.memory <;>
    exact ⟨rfl, d2, n2, rfl⟩

theorem create_alike (alike : Alike a b) (size : Nat) :
    answered (create size b) = answered (create size a) ∧ Alike (left (create size a)) (left (create size b)) := by
  have unchecked := createUnchecked_alike alike size
  obtain ⟨directory, next, rfl⟩ := alike
  unfold create
  cases a.manager.capacity with
  | none => exact unchecked
  | some limit =>
    have used : usedBytes ⟨a.memory, { a.manager with directory := directory, nextDirectory := next }⟩ =
        a.usedBytes := rfl
    by_cases small : limit - a.usedBytes < size
    · simp only [used, if_pos small]
      exact ⟨rfl, directory, next, rfl⟩
    · simp only [used, if_neg small]
      exact unchecked

-- A region that cannot be made leaves the store as it is but for the directory.
theorem create_refused_alike {size : Nat} {e : RegionError} (refused : create size a = .error e b) : Alike a b := by
  have unchecked : createUnchecked size a = .error e b → Alike a b := by
    intro failed
    obtain ⟨directory, next, made⟩ := ensureDirectory_only a.manager
    unfold createUnchecked at failed
    simp only [made] at failed
    split at failed
    · cases failed
    · rename_i error later ran
      have same : later = a.memory := by
        unfold Memory.create at ran
        split at ran
        · cases ran
          rfl
        · split at ran <;> cases ran
          rfl
      cases failed
      exact ⟨directory, next, by rw [same]⟩
  unfold create at refused
  cases limited : a.manager.capacity with
  | none =>
    rw [limited] at refused
    exact unchecked refused
  | some limit =>
    rw [limited] at refused
    simp only at refused
    split at refused
    · cases refused
      exact ⟨a.manager.directory, a.manager.nextDirectory, rfl⟩
    · exact unchecked refused

theorem destroy_alike (alike : Alike a b) (key : String) :
    answered (destroy key b) = answered (destroy key a) ∧ Alike (left (destroy key a)) (left (destroy key b)) := by
  obtain ⟨directory, next, rfl⟩ := alike
  have same : lookup? ⟨a.memory, { a.manager with directory := directory, nextDirectory := next }⟩ key =
      a.lookup? key := rfl
  cases found : a.lookup? key with
  | none =>
    have one := destroy_absent found
    have two := destroy_absent (same.trans found)
    rw [one, two]
    exact ⟨rfl, directory, next, rfl⟩
  | some id =>
    have one := destroy_found found
    have two := destroy_found (same.trans found)
    rw [one, two]
    exact ⟨rfl, directory, next, rfl⟩

end Store

namespace Session
variable {σ : Type} {peer : Peer σ} {a b : Session σ}

-- The same session, whatever is counted and cached and whatever the directory of its regions.
structure Alike (a b : Session σ) : Prop where
  settings : b.settings = a.settings
  store : a.store.Alike b.store
  stream : b.stream = a.stream
  peer : b.peer = a.peer
  passedOn : b.passedOn = a.passedOn
  inbox : b.inbox = a.inbox
  serving : b.serving = a.serving
  protocol : b.protocol = a.protocol
  active : b.active = a.active
  lastContext : b.lastContext = a.lastContext
  inFlight : b.inFlight = a.inFlight
  preloaded : b.preloaded = a.preloaded
  variableKeys : b.variableKeys = a.variableKeys
  servesVariables : b.servesVariables = a.servesVariables

namespace Alike

theorem parts (alike : Alike a b) :
    ∃ store cache counts, a.store.Alike store ∧ b = { a with store := store, cache := cache, counts := counts } := by
  obtain ⟨h1, store, h2, h3, h4, h5, h6, h7, h8, h9, h10, h11, h12, h13⟩ := alike
  refine ⟨b.store, b.cache, b.counts, store, ?_⟩
  cases b
  simp only at h1 h2 h3 h4 h5 h6 h7 h8 h9 h10 h11 h12 h13
  subst h1 h2 h3 h4 h5 h6 h7 h8 h9 h10 h11 h12 h13
  rfl

theorem of_parts {store : Store} (alike : a.store.Alike store) (cache : ResultCache) (counts : CallCounts) :
    Alike a { a with store := store, cache := cache, counts := counts } :=
  ⟨rfl, alike, rfl, rfl, rfl, rfl, rfl, rfl, rfl, rfl, rfl, rfl, rfl, rfl⟩

theorem memory (alike : Alike a b) : b.store.memory = a.store.memory := by
  obtain ⟨directory, next, same⟩ := alike.store
  rw [same]

theorem refl (session : Session σ) : Alike session session := .of_parts ⟨_, _, rfl⟩ session.cache session.counts

def Same {α : Type} (x y : α × Session σ) : Prop :=
  ∃ answer later also, x = (answer, later) ∧ y = (answer, also) ∧ Alike later also

theorem onStore {α : Type} {action : StoreAccess α} (alike : Alike a b)
    (same : answered (action b.store) = answered (action a.store) ∧
      Store.Alike (left (action a.store)) (left (action b.store))) : Same (a.onStore action) (b.onStore action) := by
  obtain ⟨store, cache, counts, -, rfl⟩ := alike.parts
  simp only [Session.onStore]
  cases one : action a.store <;> cases two : action store <;> simp only [one, two, answered, left] at same
  · obtain ⟨rfl⟩ := same.1
    exact ⟨_, _, _, rfl, rfl, .of_parts same.2 cache counts⟩
  · cases same.1
  · cases same.1
  · obtain ⟨rfl⟩ := same.1
    exact ⟨_, _, _, rfl, rfl, .of_parts same.2 cache counts⟩

theorem onMemory {ε α : Type} (alike : Alike a b) (action : EStateM ε Memory α) :
    Same (a.onMemory action) (b.onMemory action) := by
  obtain ⟨store, cache, counts, ⟨directory, next, rfl⟩, rfl⟩ := alike.parts
  simp only [Session.onMemory]
  cases action a.store.memory <;> exact ⟨_, _, _, rfl, rfl, .of_parts ⟨directory, next, rfl⟩ cache counts⟩

theorem keyOf (alike : Alike a b) (id : RegionId) : b.keyOf id = a.keyOf id := by
  rw [Session.keyOf, Session.region?, alike.memory]
  rfl

theorem pathOf (alike : Alike a b) (id : RegionId) : b.pathOf id = a.pathOf id := by
  rw [Session.pathOf, Session.region?, alike.memory]
  rfl

theorem destroyRegion (alike : Alike a b) (key : String) : Alike (a.destroyRegion key) (b.destroyRegion key) := by
  obtain ⟨answer, later, also, one, two, ended⟩ := alike.onStore (Store.destroy_alike alike.store key)
  simp only [Session.destroyRegion, one, two]
  exact ended

theorem destroyRegions (alike : Alike a b) (keys : List String) :
    Alike (a.destroyRegions keys) (b.destroyRegions keys) := by
  induction keys generalizing a b with
  | nil => exact alike
  | cons key rest ih => exact ih (alike.destroyRegion key)

theorem createFilled (alike : Alike a b) (size : Nat) (bytes : ByteArray) :
    Same (a.createFilled size bytes) (b.createFilled size bytes) := by
  obtain ⟨made, later, also, one, two, alike⟩ := alike.onStore (Store.create_alike alike.store size)
  simp only [Session.createFilled, one, two]
  cases made with
  | error e => exact ⟨_, _, _, rfl, rfl, alike⟩
  | ok id =>
    obtain ⟨filled, later, also, one, two, alike⟩ := alike.onMemory (do Memory.write id 0 bytes; Memory.sync id)
    simp only [one, two]
    cases filled with
    | ok _ => exact ⟨_, _, _, rfl, rfl, alike⟩
    | error e => exact ⟨_, _, _, rfl, rfl, alike.keyOf id ▸ alike.destroyRegion _⟩

theorem placeVariable (alike : Alike a b) (definition : Variable) :
    Same (a.placeVariable definition) (b.placeVariable definition) := by
  unfold Session.placeVariable
  cases definition.toPreloaded.encode with
  | error e => exact ⟨_, _, _, rfl, rfl, alike⟩
  | ok bytes =>
    obtain ⟨made, later, also, one, two, alike⟩ := alike.createFilled bytes.size bytes
    simp only [one, two]
    cases made with
    | error e => exact ⟨_, _, _, rfl, rfl, alike⟩
    | ok id =>
      simp only [alike.pathOf, alike.keyOf]
      exact ⟨_, _, _, rfl, rfl, alike⟩

theorem placeSupported (alike : Alike a b) (definition : Variable) :
    Same (a.placeSupported definition) (b.placeSupported definition) := by
  unfold Session.placeSupported
  split
  · exact alike.placeVariable definition
  · exact ⟨_, _, _, rfl, rfl, alike⟩

theorem withStream (alike : Alike a b) (stream : Multiplexer) :
    Alike { a with stream := stream } { b with stream := stream } :=
  { alike with stream := rfl }

theorem answerCallback (alike : Alike a b) (id : Nat) (outcome : Except String Json) :
    Alike (a.answerCallback id outcome) (b.answerCallback id outcome) :=
  { alike with stream := congrArg (Multiplexer.answer id outcome) alike.stream }

theorem serveCallback (alike : Alike a b) (callback : Callback) :
    Alike (a.serveCallback callback) (b.serveCallback callback) := by
  have same : b.findVariable callback.data = a.findVariable callback.data := by
    unfold findVariable contextFor?
    rw [alike.active]
  obtain ⟨store, cache, counts, stored, rfl⟩ := alike.parts
  unfold Session.serveCallback
  rw [same]
  dsimp only
  split
  · split
    · exact alike.answerCallback _ _
    · exact alike.answerCallback _ _
    · exact { alike with serving := rfl }
  · exact alike.answerCallback _ _

theorem proceed (alike : Alike a b) : Alike a.proceed b.proceed := by
  unfold Session.proceed
  rw [alike.serving]
  cases a.serving with
  | none => exact alike
  | some serving =>
    cases serving with
    | found callback definition =>
      obtain ⟨place, later, also, one, two, alike⟩ := alike.placeSupported definition
      simp only [one, two]
      cases place with
      | none =>
        have idle : Alike { later with serving := none } { also with serving := none } := { alike with serving := rfl }
        exact idle.answerCallback _ _
      | some place => exact { alike with serving := rfl }
    | placed callback key answer =>
      have noted : Alike { a with serving := none, variableKeys := a.variableKeys ++ [key] }
          { b with serving := none, variableKeys := b.variableKeys ++ [key] } :=
        { alike with serving := rfl, variableKeys := congrArg (· ++ [key]) alike.variableKeys }
      exact noted.answerCallback _ _

theorem take (alike : Alike a b) (output : PeerOutput) : Alike (a.take output) (b.take output) := by
  cases output with
  | garbled | hangUp => exact { alike with stream := congrArg Multiplexer.close alike.stream }
  | line text =>
    simp only [Session.take, alike.stream]
    split
    · exact alike.withStream _
    · rename_i callback stream _
      exact (alike.withStream stream).serveCallback callback

theorem hear (alike : Alike a b) (input : PeerInput) : Alike (a.hear peer input) (b.hear peer input) := by
  obtain ⟨store, cache, counts, ⟨directory, next, rfl⟩, rfl⟩ := alike.parts
  exact .of_parts ⟨directory, next, rfl⟩ cache counts

theorem exchange (alike : Alike a b) (peer : Peer σ) (steps : Nat) :
    Alike (exchange peer steps a) (exchange peer steps b) := by
  induction steps generalizing a b with
  | zero => exact alike
  | succ steps ih =>
    rw [Session.exchange, Session.exchange, alike.serving]
    cases a.serving with
    | some _ => exact ih alike.proceed
    | none =>
      simp only [alike.stream, alike.passedOn, alike.inbox]
      cases a.stream.sent[a.passedOn]? with
      | some line =>
        have passed : Alike { a with passedOn := a.passedOn + 1, serving := none }
            { b with stream := a.stream, passedOn := a.passedOn + 1, inbox := a.inbox, serving := none } :=
          { alike with passedOn := rfl, stream := rfl, inbox := rfl, serving := rfl }
        exact ih (passed.hear _)
      | none =>
        cases a.inbox with
        | nil => exact alike
        | cons output rest =>
          have read : Alike { a with inbox := rest, serving := none }
              { b with stream := a.stream, passedOn := a.passedOn, inbox := rest, serving := none } :=
            { alike with passedOn := rfl, stream := rfl, inbox := rfl, serving := rfl }
          exact ih (read.take output)

-- Runs that end the same way, in sessions that are the same but for what is left aside.
inductive Runs {ε α : Type} : EStateM.Result ε (Session σ) α → EStateM.Result ε (Session σ) α → Prop
  | done {answer : α} {later also : Session σ} : Alike later also → Runs (.ok answer later) (.ok answer also)
  | failed {e : ε} {later also : Session σ} : Alike later also → Runs (.error e later) (.error e also)

theorem Runs.answered {ε α : Type} {x y : EStateM.Result ε (Session σ) α} (runs : Runs x y) :
    PluginBridge.answered y = PluginBridge.answered x := by
  cases runs <;> rfl

theorem Runs.left {ε α : Type} {x y : EStateM.Result ε (Session σ) α} (runs : Runs x y) :
    Alike (PluginBridge.left x) (PluginBridge.left y) := by
  cases runs <;> assumption

theorem send (alike : Alike a b) (peer : Peer σ) (command : String) (data : Json) (timeout : Duration) :
    Runs (send peer command data timeout a) (send peer command data timeout b) := by
  simp only [Session.send, alike.stream]
  cases a.stream.start command data with
  | mk outcome stream =>
    cases outcome with
    | error e => exact .failed (alike.withStream stream)
    | ok id =>
      have talked := (alike.withStream stream).exchange peer peer.pace
      simp only [talked.stream]
      split
      · exact .done (talked.withStream _)
      · exact .failed (talked.withStream _)

theorem sendCall (alike : Alike a b) (peer : Peer σ) (command : String) (data : Json) :
    Runs (sendCall peer command data a) (sendCall peer command data b) := by
  have sent := alike.send peer command data a.settings.callTimeout
  simp only [Session.sendCall, EStateM.adaptExcept, alike.settings]
  generalize Session.send peer command data a.settings.callTimeout a = one at sent
  generalize Session.send peer command data a.settings.callTimeout b = two at sent
  cases sent with
  | done alike => exact .done alike
  | failed alike => exact .failed alike

theorem callJson (alike : Alike a b) (spec : FunctionSpec) (args : List CallArg) (context : CallContext) :
    Runs (callJson peer spec args context a) (callJson peer spec args context b) := by
  have counted : Alike (a.count .moreJson) (b.count .moreJson) := { alike with }
  have message : b.callMessage spec args context = a.callMessage spec args context := by
    unfold callMessage contextEntries contextJson commonVariables
    rw [alike.settings]
  have sent := counted.sendCall peer "callFunction" (a.callMessage spec args context)
  rw [callJson_sent, callJson_sent, message]
  cases one : Session.sendCall peer "callFunction" (a.callMessage spec args context) (a.count .moreJson) <;>
    cases two : Session.sendCall peer "callFunction" (a.callMessage spec args context) (b.count .moreJson) <;>
    rw [one, two] at sent <;> cases sent <;> rename_i alike
  · rw [bind_done one, bind_done two]
    exact .done alike
  · rw [bind_failed one, bind_failed two]
    exact .failed alike

theorem depart (alike : Alike a b) : Alike a.depart b.depart := by
  obtain ⟨store, cache, counts, stored, rfl⟩ := alike.parts
  unfold Session.depart
  dsimp only
  split
  · refine destroyRegions ?_ a.variableKeys
    exact of_parts (a := { a with inFlight := a.inFlight - 1, variableKeys := [] }) stored cache counts
  · exact of_parts (a := { a with inFlight := a.inFlight - 1 }) stored cache counts

theorem leave (alike : Alike a b) (context : CallContext) : Alike (a.leave context) (b.leave context) := by
  cases context with
  | none => exact alike.depart
  | some entry =>
    have dismissed : Alike (a.dismiss entry.1) (b.dismiss entry.1) :=
      { alike with active := congrArg (List.filter fun other : Nat × EvalContext => other.1 != entry.1) alike.active }
    exact dismissed.depart

end Alike

section degrading
variable {session : Session σ} {spec : FunctionSpec} {args : List CallArg} {context : Option EvalContext}

-- There is no way to put the arguments into a region: they have no flat form, or the region
-- that it would take cannot be made.
def Unplaceable (args : List CallArg) (session : Session σ) : Prop :=
  ∀ bytes, (CallArg.flattenAll args).bind FlatTree.toBytes = .ok bytes →
    ∃ e store, Store.create (max (bytes.size * 2) minCallRegion) session.store = .error e store

def cached? (spec : FunctionSpec) (scope : ScopeKey) (args : List CallArg) (session : Session σ) : Option ResultNode :=
  (session.cacheKey? spec scope args).bind session.cache.find?

theorem unplaceable_small {limit : Nat} (limited : session.store.manager.capacity = some limit)
    (small : limit - session.store.usedBytes < minCallRegion) (args : List CallArg) : Unplaceable args session := by
  intro bytes _
  have larger : limit - session.store.usedBytes < max (bytes.size * 2) minCallRegion :=
    Nat.lt_of_lt_of_le small (Nat.le_max_right _ _)
  exact ⟨.capacityExceeded (max (bytes.size * 2) minCallRegion) (limit - session.store.usedBytes), session.store, by
    simp only [Store.create, limited, if_pos larger]⟩

theorem Unplaceable.write (without : Unplaceable args session) :
    ∃ store, session.store.Alike store ∧ session.writeCallRegion args = (none, { session with store := store }) := by
  have same : session.store.Alike session.store := ⟨_, _, rfl⟩
  unfold writeCallRegion
  cases flat : (CallArg.flattenAll args).bind FlatTree.toBytes with
  | error e => exact ⟨_, same, rfl⟩
  | ok bytes =>
    obtain ⟨e, store, refused⟩ := without bytes flat
    refine ⟨store, Store.create_refused_alike refused, ?_⟩
    simp only [createFilled, onStore, refused]

theorem callProtocol_unlinked (unlinked : session.protocol = none) (peer : Peer σ) (spec : FunctionSpec)
    (args : List CallArg) : callProtocol peer spec args session = .ok none session := by
  unfold callProtocol
  rw [unlinked]

theorem preloadContext_unlinked (unlinked : session.protocol = none) (spec : FunctionSpec) (context : CallContext) :
    (session.preloadContext spec context).2 = session := by
  unfold preloadContext ensurePreloaded
  rw [unlinked]
  split
  · split
    · simp only
      split <;> rfl
    · rfl
  · rfl

theorem callBinary_unplaceable (unlinked : session.protocol = none) (without : Unplaceable args session)
    (peer : Peer σ) (spec : FunctionSpec) (preloaded : Bool) (context : CallContext) :
    ∃ store, session.store.Alike store ∧ callBinary peer spec args preloaded context session =
      callJson peer spec args context { session with store := store, counts := session.counts.moreFallbacks } := by
  obtain ⟨store, alike, written⟩ := without.write
  have through : callThroughRegion peer spec args preloaded context session =
      .ok none { session with store := store } := by
    simp only [callThroughRegion, written]
  refine ⟨store, alike, ?_⟩
  have declined : (if spec.needsContext then pure none else callProtocol peer spec args :
      Dispatch σ (Option ResultNode)) session = .ok none session := by
    split
    · rfl
    · exact callProtocol_unlinked unlinked peer spec args
  rw [callBinary_declined declined]
  exact bind_done through

theorem callJson_aside (peer : Peer σ) (spec : FunctionSpec) (args : List CallArg) (context : CallContext)
    (session : Session σ) :
    Aside { session with
        counts := session.counts.moreJson, stream := { session.stream with lastId := session.stream.lastId + 1 } }
      (left (callJson peer spec args context session)) := by
  have talked := sendCall_aside peer "callFunction" (session.callMessage spec args context) (session.count .moreJson)
  rw [callJson_sent]
  cases sent : sendCall peer "callFunction" (session.callMessage spec args context) (session.count .moreJson) with
  | ok answer later =>
    rw [sent] at talked
    rwa [bind_done sent]
  | error e later =>
    rw [sent] at talked
    rwa [bind_failed sent]

-- A run of a call that has lost its other ways, beside the run of the call over the stream.
structure Degraded (before : CallCounts) (plain degraded : EStateM.Result DispatchError (Session σ) ResultNode) :
    Prop where
  runs : Alike.Runs plain degraded
  counts : (left degraded).counts = before.moreFallbacks.moreJson
  cache : (left degraded).cache = (left plain).cache
  fails : ∀ e, answered degraded = .error e → ∃ failure, e = .ofStream failure

theorem route_unplaceable (unlinked : session.protocol = none) (without : Unplaceable args session)
    (binary : spec.mode.getD session.settings.mode = .binary) (peer : Peer σ) (context : CallContext) :
    Degraded session.counts (route peer { spec with mode := some .json } args context session)
      (route peer spec args context session) := by
  have idle := preloadContext_unlinked unlinked spec context
  have plain : route peer { spec with mode := some .json } args context session =
      callJson peer spec args context session := by
    have ran : route peer { spec with mode := some .json } args context session =
        callJson peer spec args context (session.preloadContext spec context).2 := rfl
    rw [ran, idle]
  obtain ⟨store, alike, degraded⟩ :=
    callBinary_unplaceable unlinked without peer spec (session.preloadContext spec context).1 context
  have ran : route peer spec args context session =
      callBinary peer spec args (session.preloadContext spec context).1 context session := by
    unfold route
    simp only [idle, binary]
  rw [plain, ran, degraded]
  have shaded := Alike.of_parts alike session.cache session.counts.moreFallbacks
  refine ⟨shaded.callJson spec args context, (callJson_aside ..).counts, ?_, ?_⟩
  · rw [(callJson_aside ..).cache, (callJson_aside ..).cache]
  intro e failed
  cases last : callJson peer spec args context
      { session with store := store, counts := session.counts.moreFallbacks } with
  | ok result later => rw [last] at failed; cases failed
  | error fault later =>
    rw [last] at failed
    cases failed
    exact callJson_fails peer spec args context _ _ _ last

theorem invoke_unplaceable (unlinked : session.protocol = none) (without : Unplaceable args session)
    (binary : spec.mode.getD session.settings.mode = .binary) (peer : Peer σ) (context : Option EvalContext) :
    Degraded session.counts (invoke peer { spec with mode := some .json } args context session)
      (invoke peer spec args context session) := by
  have routed : Degraded session.counts
      (route peer { spec with mode := some .json } args (session.enter context).1 (session.enter context).2)
      (route peer spec args (session.enter context).1 (session.enter context).2) := by
    cases context with
    | none =>
      have begun : (session.enter none).2.protocol = none := unlinked
      exact route_unplaceable begun without binary peer none
    | some stack =>
      have begun : (session.enter (some stack)).2.protocol = none := unlinked
      exact route_unplaceable begun without binary peer _
  simp only [invoke]
  generalize route peer { spec with mode := some .json } args (session.enter context).1
    (session.enter context).2 = plain at routed
  generalize route peer spec args (session.enter context).1 (session.enter context).2 = degraded at routed
  obtain ⟨runs, counts, cache, fails⟩ := routed
  have kept {later also : Session σ} (same : also.cache = later.cache) (context : CallContext) :
      (also.leave context).cache = (later.leave context).cache := by
    rw [(leave_kept context also).2.1, (leave_kept context later).2.1, same]
  cases runs with
  | done alike => exact ⟨.done (alike.leave _), (leave_kept _ _).1.trans counts, kept cache _, nofun⟩
  | failed alike => exact ⟨.failed (alike.leave _), (leave_kept _ _).1.trans counts, kept cache _, fails⟩

theorem call_unplaceable (unlinked : session.protocol = none) (without : Unplaceable args session)
    (binary : spec.mode.getD session.settings.mode = .binary) (peer : Peer σ) (scope : ScopeKey)
    (context : Option EvalContext) :
    let plain := call peer { spec with mode := some .json } scope args context session
    let degraded := call peer spec scope args context session
    (session.cached? spec scope args = none ∧ Degraded session.counts plain degraded) ∨
    ∃ hit cache, session.cached? spec scope args = some hit ∧ plain = .ok hit { session with cache := cache } ∧
      degraded = .ok hit { session with cache := cache } := by
  have sameKey : session.cacheKey? { spec with mode := some .json } scope args = session.cacheKey? spec scope args := rfl
  intro plain degraded
  cases kept : session.cacheKey? spec scope args with
  | none =>
    simp only [plain, degraded, cached?, call, sameKey, kept]
    exact .inl ⟨rfl, invoke_unplaceable unlinked without binary peer context⟩
  | some key =>
    cases found : session.cache.find? key with
    | some hit =>
      simp only [plain, degraded, cached?, call, sameKey, kept, ResultCache.get, found]
      exact .inr ⟨hit, _, found, rfl, rfl⟩
    | none =>
      simp only [plain, degraded, cached?, call, sameKey, kept, ResultCache.get, found]
      refine .inl ⟨found, ?_⟩
      let begun : Session σ := { session with cache := { session.cache with misses := session.cache.misses + 1 } }
      have ran := invoke_unplaceable (show begun.protocol = none from unlinked) without binary peer context
      generalize invoke peer { spec with mode := some .json } args context _ = one at ran ⊢
      generalize invoke peer spec args context _ = two at ran ⊢
      obtain ⟨runs, counts, cache, fails⟩ := ran
      cases runs with
      | failed alike => exact ⟨.failed alike, counts, cache, fails⟩
      | done alike =>
        exact ⟨.done { alike with }, counts, congrArg (fun cache : ResultCache => cache.insert key _) cache, fun _ failed => by cases failed⟩

-- A binary call that finds no protocol and no region ends as the same call does as JSON: with
-- the same outcome, the same lines written and the same session but for the counts, which show
-- one fallback and one call as JSON. What it fails with comes from the stream or from the peer.
theorem call_degrades (unlinked : session.protocol = none) (binary : spec.mode.getD session.settings.mode = .binary)
    (without : Unplaceable args session) (peer : Peer σ) (scope : ScopeKey) (context : Option EvalContext) :
    let plain := call peer { spec with mode := some .json } scope args context session
    let degraded := call peer spec scope args context session
    answered degraded = answered plain ∧ (left degraded).stream = (left plain).stream ∧
      (left plain).Alike (left degraded) ∧ (left degraded).cache = (left plain).cache ∧
      (left degraded).counts =
        (if (session.cached? spec scope args).isSome then session.counts else session.counts.moreFallbacks.moreJson) ∧
      ∀ e, answered degraded = .error e → ∃ failure, e = .ofStream failure := by
  rcases call_unplaceable unlinked without binary peer scope context with
    ⟨uncached, runs, counts, cache, fails⟩ | ⟨hit, cache, cached, plain, degraded⟩
  · exact ⟨runs.answered, runs.left.stream, runs.left, cache, by rw [counts, uncached]; rfl, fails⟩
  · dsimp only
    rw [plain, degraded, cached]
    exact ⟨rfl, rfl, .refl _, rfl, rfl, nofun⟩

-- The capacity leaves no room for a call region, so a length goes over the stream and comes back.
theorem call_degrades_cramped :
    let session := start { Settings.standard with capacity := some 100 } (Conversation.start Echo.initial)
    let args := [CallArg.node (.plain (.dimension (.ofNat 10) "px"))]
    let plain := call Echo.service.peer (Echo.spec (some .json)) ⟨0, 0⟩ args none session
    let degraded := call Echo.service.peer (Echo.spec none) ⟨0, 0⟩ args none session
    Unplaceable args session ∧ endsWith (fun result => result.toNode.body.numbers == [.ofNat 10]) degraded ∧
      answered degraded = answered plain ∧ (left degraded).stream = (left plain).stream ∧
      (left plain).Alike (left degraded) ∧ (left degraded).cache = (left plain).cache ∧
      (left degraded).counts = ⟨1, 0, 0, 1⟩ ∧
      ∀ e, answered degraded = .error e → ∃ failure, e = .ofStream failure := by
  intro session args plain degraded
  have without : Unplaceable args session := unplaceable_small rfl (by decide) args
  obtain ⟨outcome, stream, alike, cache, counts, fails⟩ :=
    call_degrades rfl (show (Echo.spec none).mode.getD session.settings.mode = .binary from rfl) without
      Echo.service.peer ⟨0, 0⟩ none
  exact ⟨without, by decide +kernel, outcome, stream, alike, cache, counts, fails⟩

end degrading
end Session
end PluginBridge
