import PluginBridge.Proofs.Dispatch.Degrading
import PluginBridge.Proofs.Dispatch.Runs
namespace PluginBridge

namespace ResultCache

theorem find?_among {key : CacheKey} {result : ResultNode} {cache : ResultCache}
    (found : cache.find? key = some result) : (key, result) ∈ cache.entries := by
  obtain ⟨⟨other, kept⟩, there, same⟩ := Option.map_eq_some_iff.mp found
  have here := List.find?_some there
  cases same
  obtain rfl : other = key := beq_iff_eq.mp here
  exact List.mem_of_find?_eq_some there

def remember (key : Option CacheKey) (outcome : Except DispatchError ResultNode) (cache : ResultCache) : ResultCache :=
  match key, outcome with
  | some key, .ok result => cache.insert key result
  | _, _ => cache

theorem remember_among {key : Option CacheKey} {outcome : Except DispatchError ResultNode} {cache : ResultCache}
    {entry : CacheKey × ResultNode} (among : entry ∈ (cache.remember key outcome).entries) :
    entry ∈ cache.entries ∨ key = some entry.1 ∧ outcome = .ok entry.2 := by
  unfold remember at among
  split at among
  · rcases List.mem_append.mp among with among | among
    · exact .inl (List.mem_filter.mp among).1
    · cases List.mem_singleton.mp among
      exact .inr ⟨rfl, rfl⟩
  · exact .inl among

end ResultCache

def Operation.Modeless : Operation → Prop
  | .call spec _ _ _ => spec.mode = none
  | _ => True

def Operation.arguments? : Operation → Option (List CallArg)
  | .call _ _ args _ => some args
  | _ => none

namespace Session
variable {σ : Type} {peer : Peer σ} {session : Session σ} {spec : FunctionSpec} {scope : ScopeKey}
  {args : List CallArg} {context : Option EvalContext}

namespace Alike
variable {a b : Session σ}

theorem callMessage (alike : Alike a b) (spec : FunctionSpec) (args : List CallArg) (context : CallContext) :
    b.callMessage spec args context = a.callMessage spec args context := by
  unfold Session.callMessage contextEntries contextJson commonVariables
  rw [alike.settings]

theorem enter (alike : Alike a b) (context : Option EvalContext) : Same (a.enter context) (b.enter context) := by
  have more : b.inFlight + 1 = a.inFlight + 1 := congrArg (· + 1) alike.inFlight
  cases context with
  | none => exact ⟨_, _, _, rfl, rfl, { alike with inFlight := more }⟩
  | some stack =>
    simp only [Session.enter, alike.lastContext, alike.active]
    exact ⟨_, _, _, rfl, rfl, { alike with active := rfl, lastContext := rfl, inFlight := more }⟩

theorem ensurePreloaded (alike : Alike a b) (stack : EvalContext) :
    Same (a.ensurePreloaded stack) (b.ensurePreloaded stack) := by
  have same : b.preloadFor stack = a.preloadFor stack := by
    unfold preloadFor commonVariables
    rw [alike.settings]
  simp only [Session.ensurePreloaded, alike.preloaded, alike.protocol, same]
  split
  · exact ⟨_, _, _, rfl, rfl, alike⟩
  · cases a.protocol with
    | none => exact ⟨_, _, _, rfl, rfl, alike⟩
    | some link =>
      obtain ⟨pushed, later, also, one, two, alike⟩ := alike.onMemory (link.host.preload (a.preloadFor stack))
      simp only [one, two]
      cases pushed <;> exact ⟨_, _, _, rfl, rfl, { alike with preloaded := rfl }⟩

theorem prepared (alike : Alike a b) (spec : FunctionSpec) (context : Option EvalContext) :
    Alike (a.prepared spec context) (b.prepared spec context) := by
  obtain ⟨given, later, also, one, two, alike⟩ := alike.enter context
  simp only [Session.prepared, one, two]
  cases given with
  | none => exact alike
  | some entry =>
    simp only [preloadContext, alike.active]
    split
    · obtain ⟨_, _, _, one, two, alike⟩ := alike.ensurePreloaded entry.2
      rw [one, two]
      exact alike
    · exact alike

end Alike

def replied (peer : Peer σ) (spec : FunctionSpec) (args : List CallArg) (context : Option EvalContext)
    (session : Session σ) : Except DispatchError Json :=
  let ready := session.prepared spec context
  answered (sendCall peer "callFunction" (ready.callMessage spec args (session.enter context).1) ready)

theorem Alike.replied {a b : Session σ} (alike : Alike a b) (peer : Peer σ) (spec : FunctionSpec)
    (args : List CallArg) (context : Option EvalContext) :
    b.replied peer spec args context = a.replied peer spec args context := by
  have ready := alike.prepared spec context
  obtain ⟨given, later, also, one, two, -⟩ := alike.enter context
  simp only [Session.replied, ready.callMessage, one, two]
  exact (ready.sendCall peer "callFunction" _).answered

theorem callJson_answered (peer : Peer σ) (spec : FunctionSpec) (args : List CallArg) (context : CallContext)
    (session : Session σ) : answered (callJson peer spec args context session) =
      (answered (sendCall peer "callFunction" (session.callMessage spec args context) session)).map .ofJson := by
  have counted : Alike session (session.count .moreJson) := { Alike.refl session with }
  rw [callJson_sent, ← (counted.sendCall peer "callFunction" (session.callMessage spec args context)).answered]
  cases sent : sendCall peer "callFunction" (session.callMessage spec args context) (session.count .moreJson) with
  | ok answer later => exact congrArg answered (bind_done sent)
  | error e later => exact congrArg answered (bind_failed sent)

theorem invoke_json (json : spec.mode.getD session.settings.mode = .json) (peer : Peer σ) (args : List CallArg)
    (context : Option EvalContext) :
    let ran := invoke peer spec args context session
    answered ran = (session.replied peer spec args context).map .ofJson ∧ (left ran).cache = session.cache ∧
      (left ran).settings = session.settings := by
  obtain ⟨memory, preloaded, ready⟩ := prepared_kept spec context session
  have routed : route peer spec args (session.enter context).1 (session.enter context).2 =
      callJson peer spec args (session.enter context).1 (session.prepared spec context) := by
    have mode : spec.mode.getD (session.prepared spec context).settings.mode = .json := by rw [ready]; exact json
    unfold prepared at mode
    simp only [route, mode]
    rfl
  have aside := callJson_aside peer spec args (session.enter context).1 (session.prepared spec context)
  have answer := callJson_answered peer spec args (session.enter context).1 (session.prepared spec context)
  have cache : (session.prepared spec context).cache = session.cache := by rw [ready]
  have settings : (session.prepared spec context).settings = session.settings := by rw [ready]
  have left (last : Session σ) (kept : last.cache = session.cache ∧ last.settings = session.settings) :
      (last.leave (session.enter context).1).cache = session.cache ∧
        (last.leave (session.enter context).1).settings = session.settings := by
    obtain ⟨-, cache, settings, -⟩ := leave_kept (session.enter context).1 last
    exact ⟨cache.trans kept.1, settings.trans kept.2⟩
  have kept := left _ ⟨aside.cache.trans cache, aside.settings.trans settings⟩
  dsimp only
  simp only [invoke, routed]
  cases ran : callJson peer spec args (session.enter context).1 (session.prepared spec context) <;>
    rw [ran] at answer kept <;> exact ⟨answer, kept⟩

theorem call_json (json : spec.mode.getD session.settings.mode = .json) (peer : Peer σ) (scope : ScopeKey)
    (args : List CallArg) (context : Option EvalContext) :
    let ran := call peer spec scope args context session
    (∃ hit, session.cached? spec scope args = some hit ∧ ran =
      .ok hit { session with cache := { session.cache with hits := session.cache.hits + 1 } }) ∨
    session.cached? spec scope args = none ∧
      answered ran = (session.replied peer spec args context).map .ofJson ∧
      (left ran).settings = session.settings ∧
      (left ran).cache.entries =
        (session.cache.remember (session.cacheKey? spec scope args) (answered ran)).entries := by
  intro ran
  cases kept : session.cacheKey? spec scope args with
  | none =>
    obtain ⟨answer, cache, settings⟩ := invoke_json json peer args context
    have same : ran = invoke peer spec args context session := by simp only [ran, call, kept]
    rw [same]
    exact .inr ⟨by rw [cached?, kept]; rfl, answer, settings, congrArg ResultCache.entries cache⟩
  | some key =>
    have looked : session.cached? spec scope args = session.cache.find? key := by rw [cached?, kept]; rfl
    cases found : session.cache.find? key with
    | some hit =>
      refine .inl ⟨hit, looked.trans found, ?_⟩
      simp only [ran, call, kept, ResultCache.get, found]
    | none =>
      refine .inr ⟨looked.trans found, ?_⟩
      -- A look-up that finds nothing is counted, and the call does not depend on the count.
      let begun : Session σ := { session with cache := { session.cache with misses := session.cache.misses + 1 } }
      have alike : Alike session begun := { Alike.refl session with }
      obtain ⟨answer, cache, settings⟩ := @invoke_json σ begun spec json peer args context
      have entries : (left (invoke peer spec args context begun)).cache.entries = session.cache.entries := by
        rw [cache]
      rw [alike.replied] at answer
      cases last : invoke peer spec args context begun with
      | error e later =>
        rw [last] at answer entries settings
        have whole : ran = .error e later := by
          simp only [begun] at last
          simp only [ran, call, kept, ResultCache.get, found, last]
        rw [whole]
        exact ⟨answer, settings, entries⟩
      | ok result later =>
        rw [last] at answer entries settings
        have whole : ran = .ok result { later with cache := later.cache.insert key result } := by
          simp only [begun] at last
          simp only [ran, call, kept, ResultCache.get, found, last]
        rw [whole]
        refine ⟨answer, settings, ?_⟩
        change later.cache.entries = session.cache.entries at entries
        simp only [left, answered, ResultCache.remember, ResultCache.insert, entries]

theorem failed_forgets (json : spec.mode.getD session.settings.mode = .json) {e : DispatchError}
    (failed : answered (call peer spec scope args context session) = .error e) :
    (left (call peer spec scope args context session)).cache.entries = session.cache.entries ∧
      (left (call peer spec scope args context session)).cached? spec scope args = none := by
  rcases call_json json peer scope args context with ⟨hit, -, ran⟩ | ⟨missing, -, settings, entries⟩
  · rw [ran] at failed
    cases failed
  · have same : (left (call peer spec scope args context session)).cache.entries = session.cache.entries := by
      rw [entries, failed]
      unfold ResultCache.remember
      split
      · rename_i none
        cases none
      · rfl
    refine ⟨same, ?_⟩
    unfold cached? cacheKey? ResultCache.find?
    rw [settings, same]
    exact missing

theorem initProtocol_cache (peer : Peer σ) (session : Session σ) :
    (left (initProtocol peer session)).cache = session.cache ∧
      (left (initProtocol peer session)).settings = session.settings := by
  rcases initProtocol_cases peer session with
    ⟨e, store, refused, -⟩ | ⟨id, store, data, -, -, outcome⟩
  · rw [refused]
    exact ⟨rfl, rfl⟩
  · have talked := sendCall_aside peer "initProtocol" data { session with store := store }
    rcases outcome with ⟨-, same⟩ | ⟨-, same⟩
    · rw [same]
      exact ⟨talked.cache, talked.settings⟩
    · have gone := onStore_stored (Store.destroy (Store.keyText session.store.manager.nextKey))
        (left (sendCall peer "initProtocol" data { session with store := store }))
      rw [same]
      exact ⟨gone.cache.trans talked.cache, gone.settings.trans talked.settings⟩

theorem shutdownProtocol_cache (session : Session σ) :
    session.shutdownProtocol.cache = session.cache ∧ session.shutdownProtocol.settings = session.settings := by
  unfold shutdownProtocol
  split
  · exact ⟨rfl, rfl⟩
  · rename_i link _
    have retired := (onMemory_stored link.host.requestShutdown { session with protocol := none }).trans
      (onStore_stored (Store.destroy link.key) _)
    exact ⟨retired.cache, retired.settings⟩

section histories
variable {first : Session σ} {past operations : List Operation}

theorem after_snoc (peer : Peer σ) (past : List Operation) (operation : Operation) (first : Session σ) :
    after peer (past ++ [operation]) first = operate peer (after peer past first) operation := by
  rw [after, List.foldl_append]
  rfl

theorem operate_settings (peer : Peer σ) (json : session.settings.mode = .json) {operation : Operation}
    (free : operation.Modeless) :
    (operate peer session operation).settings = session.settings := by
  cases operation with
  | initProtocol => exact (initProtocol_cache peer session).2
  | shutdownProtocol => exact (shutdownProtocol_cache session).2
  | beginCompilation => rfl
  | invalidate function => rfl
  | call spec scope args context =>
    have mode : spec.mode.getD session.settings.mode = .json := by
      rw [show spec.mode = none from free]
      exact json
    rcases call_json mode peer scope args context with ⟨hit, -, ran⟩ | ⟨-, -, settings, -⟩
    · rw [operate, ran]
      rfl
    · exact settings

theorem after_settings (peer : Peer σ) (json : first.settings.mode = .json)
    (free : ∀ operation ∈ past, operation.Modeless) :
    (after peer past first).settings = first.settings := by
  induction past generalizing first with
  | nil => rfl
  | cons operation rest ih =>
    have same := operate_settings peer json (free operation List.mem_cons_self)
    exact (ih (by rw [same]; exact json) fun other among => free other (List.mem_cons_of_mem _ among)).trans same

-- The call that a cached result comes from: it was sent and gave this result, and since then neither
-- its function was invalidated nor a compilation begun.
def ComesFrom (peer : Peer σ) (first : Session σ) (past : List Operation) (key : CacheKey) (result : ResultNode) :
    Prop :=
  ∃ before spec scope args context between, past = before ++ .call spec scope args context :: between ∧
    key = .ofCall spec.name scope args ∧
    (after peer before first).cached? spec scope args = none ∧
    answered (call peer spec scope args context (after peer before first)) = .ok result ∧
    .invalidate spec.name ∉ between ∧ .beginCompilation ∉ between

theorem ComesFrom.later {key : CacheKey} {result : ResultNode} (comes : ComesFrom peer first past key result)
    {operation : Operation} (valid : operation ≠ .invalidate key.function) (same : operation ≠ .beginCompilation) :
    ComesFrom peer first (past ++ [operation]) key result := by
  obtain ⟨before, spec, scope, args, context, between, rfl, rfl, sent, answer, kept, compiled⟩ := comes
  refine ⟨before, spec, scope, args, context, between ++ [operation], by simp, rfl, sent, answer, ?_, ?_⟩
  · simpa [kept] using (show .invalidate spec.name ≠ operation from valid.symm)
  · simpa [compiled] using same.symm

theorem after_cached (json : first.settings.mode = .json) (empty : first.cache.entries = [])
    (free : ∀ operation ∈ past, operation.Modeless) :
    ∀ entry ∈ (after peer past first).cache.entries, ComesFrom peer first past entry.1 entry.2 := by
  induction past using List.reverseRecOn with
  | nil =>
    intro entry among
    rw [show after peer [] first = first from rfl, empty] at among
    cases among
  | append_singleton past operation ih =>
    have earlier := ih fun operation among => free operation (List.mem_append_left _ among)
    have here := free operation (List.mem_append_right _ (List.mem_singleton_self operation))
    have settings := after_settings peer json fun operation among =>
      free operation (List.mem_append_left [_] among)
    rw [after_snoc]
    -- Only a call enters anything, so an entry was there before or is that of the last call.
    cases operation with
    | initProtocol =>
      rw [operate, (initProtocol_cache peer _).1]
      exact fun entry among => (earlier entry among).later nofun nofun
    | shutdownProtocol =>
      rw [operate, (shutdownProtocol_cache _).1]
      exact fun entry among => (earlier entry among).later nofun nofun
    | beginCompilation => exact fun entry among => absurd among List.not_mem_nil
    | invalidate function =>
      intro entry among
      obtain ⟨among, other⟩ := List.mem_filter.mp among
      refine (earlier entry among).later ?_ nofun
      intro same
      cases same
      simp at other
    | call spec scope args context =>
      have mode : spec.mode.getD (after peer past first).settings.mode = .json := by
        rw [show spec.mode = none from here, settings]
        exact json
      rcases call_json mode peer scope args context with ⟨hit, -, ran⟩ | ⟨sent, -, -, entries⟩
      · rw [operate, ran]
        exact fun entry among => (earlier entry among).later nofun nofun
      · rw [operate, entries]
        intro entry among
        rcases ResultCache.remember_among among with among | ⟨kept, answer⟩
        · exact (earlier entry among).later nofun nofun
        · refine ⟨past, spec, scope, args, context, [], rfl, ?_, sent, answer, List.not_mem_nil, List.not_mem_nil⟩
          unfold cacheKey? at kept
          split at kept
          · exact (Option.some.inj kept).symm
          · cases kept

end histories

section transparency

-- Each call of a run that is sent is answered as a function of its name and its arguments would have it,
-- with a result or with an error.
def Computes (peer : Peer σ) (function : String → List Json → Except String Json) (operations : List Operation)
    (first : Session σ) : Prop :=
  ∀ past spec scope args context rest, operations = past ++ .call spec scope args context :: rest →
    let session := after peer past first
    session.cached? spec scope args = none →
    session.replied peer spec args context = (function spec.name (args.map CallArg.toJson)).mapError .peer

def Distinct (operations : List Operation) : Prop :=
  ∀ args ∈ operations.filterMap Operation.arguments?, ∀ others ∈ operations.filterMap Operation.arguments?,
    CallArg.listKey args = CallArg.listKey others → args.map CallArg.toJson = others.map CallArg.toJson

def computed (function : String → List Json → Except String Json) (spec : FunctionSpec) (args : List CallArg) :
    Except DispatchError ResultNode :=
  ((function spec.name (args.map CallArg.toJson)).mapError .peer).map .ofJson

def Operation.computed? (function : String → List Json → Except String Json) :
    Operation → Option (Except DispatchError ResultNode)
  | .call spec _ args _ => some (computed function spec args)
  | _ => none

def outcomes (peer : Peer σ) : List Operation → Session σ → List (Except DispatchError ResultNode)
  | [], _ => []
  | .call spec scope args context :: rest, session =>
    answered (call peer spec scope args context session) ::
      outcomes peer rest (operate peer session (.call spec scope args context))
  | operation :: rest, session => outcomes peer rest (operate peer session operation)

variable {function : String → List Json → Except String Json} {first : Session σ}
  {past operations rest : List Operation}

theorem cached_comes (peer : Peer σ) (json : first.settings.mode = .json) (empty : first.cache.entries = [])
    (free : ∀ operation ∈ past, operation.Modeless) {hit : ResultNode}
    (cached : (after peer past first).cached? spec scope args = some hit) :
    spec.cacheable = true ∧ spec.needsContext = false ∧
      ComesFrom peer first past (.ofCall spec.name scope args) hit := by
  obtain ⟨key, kept, found⟩ := Option.bind_eq_some_iff.mp cached
  unfold cacheKey? at kept
  split at kept
  · rename_i may
    simp only [Bool.and_eq_true, Bool.not_eq_true'] at may
    cases kept
    exact ⟨may.1.2, may.2, after_cached json empty free _ (ResultCache.find?_among found)⟩
  · cases kept

theorem arguments_among (placed : operations = past ++ .call spec scope args context :: rest) :
    args ∈ operations.filterMap Operation.arguments? := by
  subst placed
  simp [Operation.arguments?]

theorem mode_json (peer : Peer σ) (json : first.settings.mode = .json)
    (free : ∀ operation ∈ operations, operation.Modeless)
    (placed : operations = past ++ .call spec scope args context :: rest) :
    (∀ operation ∈ past, operation.Modeless) ∧ spec.mode.getD (after peer past first).settings.mode = .json := by
  subst placed
  have before : ∀ operation ∈ past, operation.Modeless := fun operation among =>
    free operation (List.mem_append_left _ among)
  have unforced : spec.mode = none := free (.call spec scope args context) (by simp)
  refine ⟨before, ?_⟩
  rw [unforced, after_settings peer json before]
  exact json

theorem sent_computes (json : first.settings.mode = .json) (free : ∀ operation ∈ operations, operation.Modeless)
    (computes : Computes peer function operations first)
    (placed : operations = past ++ .call spec scope args context :: rest)
    (missing : (after peer past first).cached? spec scope args = none) :
    answered (call peer spec scope args context (after peer past first)) = computed function spec args := by
  have mode := (mode_json peer json free placed).2
  rcases call_json mode peer scope args context with ⟨hit, cached, -⟩ | ⟨-, answer, -⟩
  · rw [missing] at cached
    cases cached
  · rw [answer, computes past spec scope args context rest placed missing]
    rfl

theorem call_computes (json : first.settings.mode = .json) (empty : first.cache.entries = [])
    (free : ∀ operation ∈ operations, operation.Modeless) (distinct : Distinct operations)
    (computes : Computes peer function operations first)
    (placed : operations = past ++ .call spec scope args context :: rest) :
    answered (call peer spec scope args context (after peer past first)) = computed function spec args := by
  obtain ⟨before, mode⟩ := mode_json peer json free placed
  rcases call_json mode peer scope args context with ⟨hit, cached, ran⟩ | ⟨missing, -⟩
  · obtain ⟨-, -, beginning, earlier, within, others, given, between, rfl, same, missing, answer, -⟩ :=
      cached_comes peer json empty before cached
    injection same with name _ key
    have there : operations = beginning ++ .call earlier within others given ::
        (between ++ .call spec scope args context :: rest) := by
      rw [placed, List.append_assoc, List.cons_append]
    have alike := distinct args (arguments_among placed) others (arguments_among there) key
    rw [sent_computes json free computes there missing] at answer
    rw [ran, computed, alike, name]
    exact answer.symm
  · exact sent_computes json free computes placed missing

theorem outcomes_computed (each : ∀ past spec scope args context rest,
      operations = past ++ .call spec scope args context :: rest →
      answered (call peer spec scope args context (after peer past first)) = computed function spec args) :
    outcomes peer operations first = operations.filterMap (Operation.computed? function) := by
  induction operations generalizing first with
  | nil => rfl
  | cons operation operations ih =>
    have later := @ih (operate peer first operation) fun past spec scope args context rest placed =>
      each (operation :: past) spec scope args context rest (congrArg _ placed)
    cases operation with
    | call spec scope args context =>
      have here := each [] spec scope args context operations rfl
      change answered (call peer spec scope args context first) = _ at here
      rw [outcomes, later, here]
      rfl
    | _ => exact later

-- The cache is transparent. With it the calls of a run come to the same as without it. A call that fails leaves
-- no entry. The cache answers a call only with what an earlier call of the same name, scope and arguments
-- came to when it was sent, and only while neither the name was invalidated nor a compilation begun since.
theorem cache_transparent (peer : Peer σ) (function : String → List Json → Except String Json) (settings : Settings)
    (state : σ) (operations : List Operation) (json : settings.mode = .json)
    (free : ∀ operation ∈ operations, operation.Modeless) (distinct : Distinct operations)
    (computes : ∀ caching, Computes peer function operations (start { settings with cacheResults := caching } state)) :
    let first := start { settings with cacheResults := true } state
    outcomes peer operations first =
        outcomes peer operations (start { settings with cacheResults := false } state) ∧
      ∀ past spec scope args context rest, operations = past ++ .call spec scope args context :: rest →
        let session := after peer past first
        let ran := call peer spec scope args context session
        (∀ e, answered ran = .error e →
          (left ran).cache.entries = session.cache.entries ∧ (left ran).cached? spec scope args = none) ∧
        ∀ hit, session.cached? spec scope args = some hit →
          ran = .ok hit { session with cache := { session.cache with hits := session.cache.hits + 1 } } ∧
          spec.cacheable = true ∧ spec.needsContext = false ∧
          ∃ before earlier others past' between, past = before ++ .call earlier scope others past' :: between ∧
            earlier.name = spec.name ∧ others.map CallArg.toJson = args.map CallArg.toJson ∧
            (after peer before first).cached? earlier scope others = none ∧
            answered (call peer earlier scope others past' (after peer before first)) = .ok hit ∧
            .invalidate spec.name ∉ between ∧ .beginCompilation ∉ between := by
  have same (caching : Bool) :
      outcomes peer operations (start { settings with cacheResults := caching } state) =
        operations.filterMap (Operation.computed? function) :=
    outcomes_computed fun past spec scope args context rest placed =>
      call_computes json rfl free distinct (computes caching) placed
  refine ⟨(same true).trans (same false).symm, ?_⟩
  intro past spec scope args context rest placed session ran
  let first := start { settings with cacheResults := true } state
  obtain ⟨before, mode⟩ := mode_json peer (show first.settings.mode = .json from json) free placed
  refine ⟨fun e failed => failed_forgets mode failed, fun hit cached => ?_⟩
  obtain ⟨may, independent, beginning, earlier, within, others, given, between, same, key, missing, answer, valid⟩ :=
    cached_comes peer json rfl before cached
  rcases call_json mode peer scope args context with ⟨found, looked, answers⟩ | ⟨absent, -⟩
  · obtain rfl : hit = found := Option.some.inj (cached.symm.trans looked)
    injection key with name here text
    subst here
    have alike := distinct args (arguments_among placed) others
      (arguments_among (by rw [placed, same, List.append_assoc, List.cons_append])) text
    exact ⟨answers, may, independent, beginning, earlier, others, given, between, same, name.symm, alike.symm, missing,
      answer, name ▸ valid⟩
  · cases absent.symm.trans cached

theorem computes_nil (peer : Peer σ) (function : String → List Json → Except String Json) (first : Session σ) :
    Computes peer function [] first := by
  intro past spec scope args context rest placed
  simp at placed

theorem computes_cons {operation : Operation}
    (here : ∀ spec scope args context, operation = .call spec scope args context →
      first.replied peer spec args context = (function spec.name (args.map CallArg.toJson)).mapError .peer)
    (later : Computes peer function operations (operate peer first operation)) :
    Computes peer function (operation :: operations) first := by
  rintro (_ | ⟨other, past⟩) spec scope args context rest placed _ missing
  · injection placed with same
    exact here spec scope args context same
  · injection placed with same placed
    subst same
    exact later past spec scope args context rest placed missing

def affirming : Peer Nat where
  hear count input memory :=
    match input with
    | .line _ => ⟨count + 1, [.line (Response.ok (count + 1) (.bool true)).line], memory⟩
    | .ended => ⟨count, [.hangUp], memory⟩
  poll count memory := (count, memory)
  pace := 2

def isTrue : Except DispatchError Json → Bool
  | .ok (.bool value) => value
  | _ => false

theorem isTrue_reply {reply : Except DispatchError Json} (checked : isTrue reply = true) :
    reply = .ok (.bool true) := by
  unfold isTrue at checked
  split at checked
  · rw [checked]
  · cases checked

-- The second call is answered from the cache, the third one is not, as the name was invalidated.
theorem cache_transparent_affirming :
    let call : Operation := .call ⟨"f", none, false, true⟩ ⟨0, 0⟩ [.json (.bool true)] none
    let operations := [call, call, .invalidate "f", call]
    let first (caching : Bool) := start { Settings.standard with mode := .json, cacheResults := caching } 0
    outcomes affirming operations (first true) = outcomes affirming operations (first false) ∧
      (after affirming operations (first true)).cache.hits = 1 := by
  intro call operations first
  have free : ∀ operation ∈ operations, operation.Modeless := by
    simp [operations, call, Operation.Modeless]
  have distinct : Distinct operations := by
    intro args among others present _
    simp only [operations, call, List.filterMap, Operation.arguments?, List.mem_cons, List.not_mem_nil, or_false,
      or_self] at among present
    rw [among, present]
  have answers (caching : Bool) : Computes affirming (fun _ _ => .ok (.bool true)) operations (first caching) := by
    refine computes_cons ?_ (computes_cons ?_ (computes_cons nofun (computes_cons ?_ (computes_nil _ _ _))))
    all_goals
      intro spec scope args context same
      injection same with spec scope args context
      subst spec scope args context
      refine isTrue_reply ?_
      cases caching <;> decide +kernel
  exact ⟨(cache_transparent affirming (fun _ _ => .ok (.bool true)) { Settings.standard with mode := .json } 0
    operations rfl free distinct answers).1, by decide +kernel⟩

end transparency
end Session
end PluginBridge
