import PluginBridge.Proofs.Call.BareRoom
import PluginBridge.Proofs.Dispatch.Linking
namespace PluginBridge.Session
variable {session later : Session (Conversation EchoState)} {node : Node} {mode : Option CallMode}

def Direct (session : Session (Conversation EchoState)) (node : Node) : Prop :=
  session.protocol.isSome ∧ WireValue.supports node = true ∧
    ∃ bytes, (WireValue.ofNode node).encode = .ok bytes ∧ bytes.size ≤ Layout.standard.argsSize

def Elsewhere (session : Session (Conversation EchoState)) (node : Node) : Prop :=
  session.protocol = none ∨ WireValue.supports node = false

-- A region takes the tree, and wherever it takes the argument list it takes the bare tree as well.
structure Tabled (node : Node) : Prop where
  flattens : ∃ tree, node.flatten = .ok tree
  returns : ∀ bytes, (Node.plain (.arguments [node])).flatten.bind FlatTree.toBytes = .ok bytes →
    ∃ answer, node.bare.flatten.bind FlatTree.toBytes = .ok answer

theorem Tabled.of_half {tree : FlatTree} (builtin : node.Builtin) (flattened : node.flatten = .ok tree)
    (half : tree.blob.size < 0x80000000) : Tabled node :=
  ⟨⟨tree, flattened⟩, fun _ written => Node.bare_written builtin flattened half written⟩

def Carries (session : Session (Conversation EchoState)) (mode : Option CallMode) (node : Node) : Prop :=
  match mode.getD session.settings.mode with
  | .json => node.EveryNumber Binary64.SurvivesText
  | .binary => session.Direct node ∨ node.EveryNumber Binary64.SurvivesText ∧ Tabled node

structure Took (session : Session (Conversation EchoState)) (mode : Option CallMode) (node : Node)
    (later : Session (Conversation EchoState)) : Prop where
  json : mode.getD session.settings.mode = .json → later.counts = session.counts.moreJson
  direct : mode.getD session.settings.mode = .binary → session.Direct node →
    later.counts = session.counts.moreProtocol
  region : mode.getD session.settings.mode = .binary → session.Elsewhere node →
    (session.writeCallRegion [.node node]).1.isSome → later.counts = session.counts.moreRegion

theorem callProtocol_none (mode : Option CallMode) (ready : session.Ready)
    (small : session.stream.lastId + 1 < wordLimit) (indirect : ¬ session.Direct node) :
    ∃ later, callProtocol Echo.service.peer (Echo.spec mode) [.node node] session = .ok none later ∧
      later.Ready ∧ later.stream.lastId ≤ session.stream.lastId + 1 ∧
      (session.Elsewhere node → later = session) := by
  by_cases apart : session.Elsewhere node
  · exact ⟨session, callProtocol_elsewhere mode apart, ready, Nat.le_succ _, fun _ => rfl⟩
  · obtain ⟨linked, supported⟩ := not_or.mp apart
    obtain ⟨link, linked⟩ := Option.ne_none_iff_exists'.mp linked
    have held : WireValue.supports node = true := by simpa using supported
    have long : ∀ bytes, (WireValue.ofNode node).encode = .ok bytes →
        Layout.standard.argsSize < bytes.size := by
      intro bytes encoded
      refine Nat.lt_of_not_le fun fits => indirect ⟨by rw [linked]; rfl, held, bytes, encoded, fits⟩
    obtain ⟨later, ran, still, ids, _, _⟩ := callProtocol_long mode ready linked small held long
    exact ⟨later, ran, still, ids, fun elsewhere => absurd elsewhere apart⟩

theorem callBinary_ways (mode : Option CallMode) (context : CallContext) :
    callBinary Echo.service.peer (Echo.spec mode) [.node node] false context =
      callProtocol Echo.service.peer (Echo.spec mode) [.node node] >>= fun direct => match direct with
        | some result => pure result
        | none => callThroughRegion Echo.service.peer (Echo.spec mode) [.node node] false context >>=
          fun answer => match answer with
            | some result => pure result
            | none => modify countFallback >>= fun _ =>
              callJson Echo.service.peer (Echo.spec mode) [.node node] context := rfl

theorem Direct.not_elsewhere (direct : session.Direct node) : ¬ session.Elsewhere node := by
  rintro (unlinked | unsupported)
  · rw [Direct, unlinked] at direct
    cases direct.1
  · exact absurd direct.2.1 (by simp [unsupported])

theorem callBinary_direct (mode : Option CallMode) (ready : session.Ready)
    (small : session.stream.lastId + 1 < wordLimit) (finite : node.EveryNumber fun x => x.isFinite = true)
    (direct : session.Direct node) (context : CallContext) :
    ∃ result later, callBinary Echo.service.peer (Echo.spec mode) [.node node] false context session =
        .ok result later ∧ result.toNode = node.bare ∧ later.Ready ∧
      later.stream.lastId ≤ session.stream.lastId + 1 ∧ later.counts = session.counts.moreProtocol := by
  obtain ⟨linked, held, bytes, encoded, fits⟩ := direct
  obtain ⟨link, linked⟩ := Option.isSome_iff_exists.mp linked
  obtain ⟨later, ran, still, ids, counts⟩ := callProtocol_echo mode ready linked small held finite encoded fits
  refine ⟨_, later, ?_, ResultNode.ofWire_toNode held finite, still, ids, counts⟩
  rw [callBinary_ways, bind_done ran]
  rfl

-- Where the protocol does not serve, a region does, or the message itself. The protocol may have been
-- tried and have given up, so that the other ways start from where it left.
theorem callBinary_indirect (mode : Option CallMode) (ready : session.Ready)
    (small : session.stream.lastId + 2 < wordLimit) (builtin : node.Builtin)
    (finite : node.EveryNumber fun x => x.isFinite = true)
    (shallow : (ResultNode.ofNode node).toJson.levels + 3 ≤ Json.maxLevels) (indirect : ¬ session.Direct node)
    (survive : node.EveryNumber Binary64.SurvivesText) (tabled : Tabled node) (context : CallContext) :
    ∃ result later, callBinary Echo.service.peer (Echo.spec mode) [.node node] false context session =
        .ok result later ∧ result.toNode = node.bare ∧ later.Ready ∧
      later.stream.lastId ≤ session.stream.lastId + 2 ∧
      (session.Elsewhere node → (session.writeCallRegion [.node node]).1.isSome →
        later.counts = session.counts.moreRegion) := by
  obtain ⟨tree, flattened⟩ := tabled.flattens
  obtain ⟨tried, ran, still, ids, same⟩ := callProtocol_none mode ready (by omega) indirect
  rcases @callThroughRegion_echo tried node mode still.idle (by omega) builtin survive finite shallow tree
    flattened tabled.returns context with
    ⟨refused, went, absent, on, counts⟩ | ⟨result, last, went, back, on, counts⟩
  · have idle := on.idle.count .moreFallbacks
    have begun := on.ids
    have room : (refused.count .moreFallbacks).stream.lastId + 1 < wordLimit := by
      change refused.stream.lastId + 1 < wordLimit
      omega
    obtain ⟨later, answered, through, _⟩ := callJson_echo mode idle room builtin survive shallow context
    refine ⟨_, later, ?_, ResultNode.toNode_inOrder builtin finite, ?_, ?_, ?_⟩
    · rw [callBinary_ways, bind_done ran]
      exact (bind_done went).trans answered
    · exact ((still.continues on).count .moreFallbacks).continues through
    · have last := through.ids
      change later.stream.lastId = refused.stream.lastId + 1 at last
      omega
    · intro elsewhere possible
      rw [same elsewhere, Option.isNone_iff_eq_none] at absent
      rw [absent] at possible
      cases possible
  · refine ⟨result, last, ?_, back, still.continues on, ?_, ?_⟩
    · rw [callBinary_ways, bind_done ran]
      exact bind_done went
    · have last := on.ids
      omega
    · intro elsewhere _
      rw [counts, same elsewhere]

theorem callBinary_echo (mode : Option CallMode) (ready : session.Ready)
    (small : session.stream.lastId + 2 < wordLimit) (builtin : node.Builtin)
    (finite : node.EveryNumber fun x => x.isFinite = true)
    (shallow : (ResultNode.ofNode node).toJson.levels + 3 ≤ Json.maxLevels)
    (carried : session.Direct node ∨ node.EveryNumber Binary64.SurvivesText ∧ Tabled node)
    (context : CallContext) :
    ∃ result later, callBinary Echo.service.peer (Echo.spec mode) [.node node] false context session =
        .ok result later ∧ result.toNode = node.bare ∧ later.Ready ∧
      later.stream.lastId ≤ session.stream.lastId + 2 ∧
      (session.Direct node → later.counts = session.counts.moreProtocol) ∧
      (session.Elsewhere node → (session.writeCallRegion [.node node]).1.isSome →
        later.counts = session.counts.moreRegion) := by
  by_cases direct : session.Direct node
  · obtain ⟨result, later, ran, back, still, ids, counts⟩ := callBinary_direct mode ready (by omega) finite
      direct context
    exact ⟨result, later, ran, back, still, by omega, fun _ => counts,
      fun elsewhere => absurd elsewhere direct.not_elsewhere⟩
  · obtain ⟨survive, tabled⟩ := carried.resolve_left direct
    obtain ⟨result, later, ran, back, still, ids, region⟩ := callBinary_indirect mode ready small builtin
      finite shallow direct survive tabled context
    exact ⟨result, later, ran, back, still, ids, fun yes => absurd yes direct, region⟩

theorem route_echo (mode : Option CallMode) (ready : session.Ready)
    (small : session.stream.lastId + 2 < wordLimit) (builtin : node.Builtin)
    (finite : node.EveryNumber fun x => x.isFinite = true)
    (shallow : (ResultNode.ofNode node).toJson.levels + 3 ≤ Json.maxLevels)
    (carried : session.Carries mode node) (context : CallContext) :
    ∃ result later, route Echo.service.peer (Echo.spec mode) [.node node] context session =
        .ok result later ∧ result.toNode = node.bare ∧ session.Took mode node later ∧ later.Ready ∧
      later.stream.lastId ≤ session.stream.lastId + 2 := by
  have unloaded : session.preloadContext (Echo.spec mode) context = (false, session) := by
    cases context <;> rfl
  have way : (Echo.spec mode).mode = mode := rfl
  simp only [route, unloaded, way]
  rw [Carries] at carried
  cases chosen : mode.getD session.settings.mode with
  | json =>
    rw [chosen] at carried
    obtain ⟨later, ran, on, counted⟩ := callJson_echo mode ready.idle (by omega) builtin carried shallow
      context
    have last := on.ids
    refine ⟨_, later, ran, ResultNode.toNode_inOrder builtin finite, ⟨fun _ => counted, ?_, ?_⟩,
      ready.continues on, by omega⟩
    · exact fun binary => by cases chosen.symm.trans binary
    · exact fun binary => by cases chosen.symm.trans binary
  | binary =>
    rw [chosen] at carried
    obtain ⟨result, later, ran, back, still, last, direct, region⟩ := callBinary_echo mode ready small
      builtin finite shallow carried context
    refine ⟨result, later, ran, back, ⟨?_, fun _ => direct, fun _ => region⟩, still, last⟩
    exact fun json => by cases chosen.symm.trans json

section enter
variable {context : Option EvalContext}

theorem Ready.enter (ready : session.Ready) (context : Option EvalContext) :
    (session.enter context).2.Ready := by
  cases context <;> exact ⟨ready.idle.sameTalk rfl rfl rfl rfl rfl, ready.keys, ready.linked⟩

theorem Carries.enter (carried : session.Carries mode node) (context : Option EvalContext) :
    (session.enter context).2.Carries mode node := by
  cases context <;> exact carried

theorem writeCallRegion_enter (session : Session (Conversation EchoState)) (args : List CallArg)
    (context : Option EvalContext) :
    ((session.enter context).2.writeCallRegion args).1 = (session.writeCallRegion args).1 := by
  have same : (session.enter context).2.store = session.store := by cases context <;> rfl
  simp only [writeCallRegion, createFilled, onStore, same]
  cases (CallArg.flattenAll args).bind FlatTree.toBytes with
  | error e => rfl
  | ok bytes =>
    simp only
    cases Store.create (max (bytes.size * 2) minCallRegion) session.store with
    | error e store => rfl
    | ok id store =>
      simp only [onMemory]
      cases (do Memory.write id 0 bytes; Memory.sync id) store.memory with
      | error e memory => rfl
      | ok done memory => rfl

theorem Took.entered (took : (session.enter context).2.Took mode node later) :
    session.Took mode node later := by
  have region := took.region
  rw [writeCallRegion_enter] at region
  cases context <;> exact ⟨took.json, took.direct, region⟩

end enter

theorem Ready.leave (ready : session.Ready) (context : CallContext) :
    (session.leave context).Ready ∧ (session.leave context).counts = session.counts ∧
      (session.leave context).stream = session.stream := by
  obtain ⟨keys, gone, fewer, given, same⟩ := leave_left context session
  rw [ready.keys] at fewer given
  obtain rfl : keys = [] := List.eq_nil_iff_forall_not_mem.mpr fun key among => nomatch fewer key among
  obtain rfl : gone = [] := List.eq_nil_iff_forall_not_mem.mpr fun key among => nomatch given key among
  rw [same]
  exact ⟨⟨ready.idle.sameTalk rfl rfl rfl rfl rfl, rfl, ready.linked⟩, rfl, rfl⟩

theorem Took.leave (took : session.Took mode node later) (ready : later.Ready) (context : CallContext) :
    session.Took mode node (later.leave context) := by
  obtain ⟨_, same, _⟩ := ready.leave context
  exact ⟨fun json => same.trans (took.json json), fun binary direct => same.trans (took.direct binary direct),
    fun binary elsewhere possible => same.trans (took.region binary elsewhere possible)⟩

-- What the echoing function returns is its argument with all forgotten but the parentheses, whatever
-- way the call takes, and the session can serve the next call.
theorem call_echo (mode : Option CallMode) (ready : session.Ready)
    (small : session.stream.lastId + 2 < wordLimit) (builtin : node.Builtin)
    (finite : node.EveryNumber fun x => x.isFinite = true)
    (shallow : (ResultNode.ofNode node).toJson.levels + 3 ≤ Json.maxLevels)
    (carried : session.Carries mode node) (scope : ScopeKey) (context : Option EvalContext) :
    ∃ result later, call Echo.service.peer (Echo.spec mode) scope [.node node] context session =
        .ok result later ∧ result.toNode = node.bare ∧ session.Took mode node later ∧
      later.Ready ∧ later.stream.lastId ≤ session.stream.lastId + 2 := by
  -- The function does not let its results be kept, so no call of it is answered from the cache.
  have uncached : session.cacheKey? (Echo.spec mode) scope [.node node] = none := by
    simp [cacheKey?, Echo.spec]
  have ids : (session.enter context).2.stream = session.stream := by cases context <;> rfl
  obtain ⟨result, later, ran, back, took, still, last⟩ := route_echo mode (ready.enter context) (ids ▸ small)
    builtin finite shallow (carried.enter context) (session.enter context).1
  obtain ⟨left, _, stream⟩ := still.leave (session.enter context).1
  refine ⟨result, later.leave (session.enter context).1, ?_, back, took.entered.leave still _, left, ?_⟩
  · simp only [call, uncached, invoke, ran]
  · rw [stream, ← ids]
    exact last

-- A bridge starts and calls the function with an eleventh, which only the protocol hands on as it is,
-- then as JSON with a length that has all to be forgotten. Without a protocol a region takes the length.
theorem call_echo_started :
    let eleventh := Node.plain (.expression [.plain (.dimension ⟨0x3fb745d1745d1746⟩ "em")])
    let length := Node.mk ⟨NodeFlags.parens.union .fileInfo, some "a.less", some 7⟩ (.dimension (.ofNat 10) "px")
    let parenthesized := Node.mk ⟨.parens, none, none⟩ (.dimension (.ofNat 10) "px")
    let unlinked := start Settings.standard (Conversation.start Echo.initial)
    (∃ bridge first second later last,
      Bridge.start Settings.standard Echo.service.peer (some (Conversation.start Echo.initial)) = .ok bridge ∧
      call Echo.service.peer (Echo.spec none) ⟨0, 0⟩ [.node eleventh] none bridge.session = .ok first later ∧
      first.toNode = eleventh ∧ later.counts = bridge.session.counts.moreProtocol ∧
      call Echo.service.peer (Echo.spec (some .json)) ⟨0, 0⟩ [.node length] none later = .ok second last ∧
      second.toNode = parenthesized ∧ last.counts = later.counts.moreJson) ∧
    ∃ third last, call Echo.service.peer (Echo.spec none) ⟨0, 0⟩ [.node length] none unlinked =
        .ok third last ∧ third.toNode = parenthesized ∧ last.counts = unlinked.counts.moreRegion := by
  intro eleventh length parenthesized unlinked
  have builtin : length.Builtin := Node.Within.leaf rfl rfl
  have every : ∀ holds : Binary64 → Prop, holds (.ofNat 10) → length.EveryNumber holds :=
    fun holds ten => Node.Within.leaf rfl fun x among => List.mem_singleton.mp among ▸ ten
  have finite := every (fun x => x.isFinite = true) (by decide +kernel)
  have survive := every Binary64.SurvivesText (Binary64.ofNat_survives (by decide))
  constructor
  · obtain ⟨bridge, started, ready, settings, few, linked⟩ := Bridge.start_ready Settings.standard
    have inner : ∀ child ∈ eleventh.children, child = .plain (.dimension ⟨0x3fb745d1745d1746⟩ "em") :=
      fun child among => List.mem_singleton.mp among
    have eleventhBuiltin : eleventh.Builtin :=
      Node.Within.every rfl fun child among => inner child among ▸ Node.Within.leaf rfl rfl
    have eleventhFinite : eleventh.EveryNumber fun x => x.isFinite = true := by
      refine Node.Within.every (fun x among => absurd among List.not_mem_nil) fun child among => ?_
      rw [inner child among]
      refine Node.Within.leaf rfl fun x among => ?_
      cases List.mem_singleton.mp among
      decide
    have binary : Option.getD none bridge.session.settings.mode = .binary := by
      rw [settings]
      rfl
    have linked : bridge.session.protocol.isSome := linked rfl fun limit given => by cases given
    have direct : bridge.session.Direct eleventh := ⟨linked, rfl, _, rfl, by decide +kernel⟩
    obtain ⟨first, later, ran, back, took, still, count⟩ := call_echo none ready (by rw [wordLimit]; omega)
      eleventhBuiltin eleventhFinite (by decide +kernel) (by rw [Carries, binary]; exact .inl direct) ⟨0, 0⟩ none
    obtain ⟨second, last, again, forgot, tookJson, _⟩ := @call_echo later length (some .json) still
      (by rw [wordLimit]; omega) builtin finite (by decide +kernel) survive ⟨0, 0⟩ none
    exact ⟨bridge, first, second, later, last, started, ran, back, took.direct binary direct, again, forgot,
      tookJson.json rfl⟩
  · have tabled : Tabled length := Tabled.of_half builtin rfl (by decide +kernel)
    have short : ((CallArg.flattenAll [.node length]).bind FlatTree.toBytes).toOption.any
        (·.size < 4096) = true := by
      decide +kernel
    obtain ⟨bytes, written, short⟩ := except_checked short
    simp only [decide_eq_true_eq] at short
    have something : max (bytes.size * 2) minCallRegion ≠ 0 := by
      rw [minCallRegion]
      omega
    have small : max (bytes.size * 2) minCallRegion < maxFileSize := by
      rw [minCallRegion, maxFileSize]
      omega
    obtain ⟨id, store, made⟩ := @Store.create_first _ none something small fun limit given => by cases given
    obtain ⟨third, last, ran, back, took, _⟩ := @call_echo unlinked length none (start_ready _) (by decide)
      builtin finite (by decide +kernel) (.inr ⟨survive, tabled⟩) ⟨0, 0⟩ none
    exact ⟨third, last, ran, back, took.region rfl (.inl rfl) (writeCallRegion_made written made)⟩

-- The text of an eleventh is read as the number above it, so what comes back is another length.
theorem call_echo_eleventh :
    let eleventh := Node.plain (.dimension ⟨0x3fb745d1745d1746⟩ "em")
    let session := start { Settings.standard with mode := .json } (Conversation.start Echo.initial)
    eleventh.Builtin ∧ eleventh.EveryNumber (fun x => x.isFinite = true) ∧
      (ResultNode.ofNode eleventh).toJson.levels + 3 ≤ Json.maxLevels ∧
      ∃ result later, call Echo.service.peer (Echo.spec none) ⟨0, 0⟩ [.node eleventh] none session =
        .ok result later ∧ result.toNode ≠ eleventh.bare := by
  intro eleventh session
  refine ⟨Node.Within.leaf rfl rfl, Node.Within.leaf rfl fun x among => ?_, by decide +kernel, ?_⟩
  · cases List.mem_singleton.mp among
    decide
  · have other : endsWith (fun result => result.toNode.body.numbers != eleventh.bare.body.numbers)
        (call Echo.service.peer (Echo.spec none) ⟨0, 0⟩ [.node eleventh] none session) = true := by
      decide +kernel
    obtain ⟨result, later, ran, other⟩ := endsWith_done other
    refine ⟨result, later, ran, fun same => ?_⟩
    simp [same] at other

end PluginBridge.Session
