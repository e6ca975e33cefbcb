import PluginBridge.Proofs.Call.WireRebuilding
import PluginBridge.Proofs.Dispatch.Linking
import PluginBridge.Proofs.Dispatch.Preloading
import PluginBridge.Proofs.Peer.Echo
namespace PluginBridge

namespace Members
variable {α : Type}

theorem get?_ofList_last (name : String) (entries : List (String × α)) :
    get? name (ofList entries) = (entries.reverse.find? fun entry => entry.1 == name).map Prod.snd := by
  induction entries using List.reverseRecOn with
  | nil => rfl
  | append_singleton entries entry ih =>
    rw [ofList_snoc, get?_insert, ih, List.reverse_append, List.reverse_singleton, List.singleton_append,
      List.find?_cons]
    by_cases same : entry.1 = name
    · simp [same]
    · rw [if_neg same, beq_eq_false_iff_ne.mpr same]

end Members

namespace EvalContext
variable {stack : EvalContext} {name : String} {start : Nat} {definition : Variable}

def Builtin (stack : EvalContext) : Prop :=
  ∀ depth < stack.count, ∀ name definition, stack.lookup? depth name = some definition → definition.value.Builtin

def Named (stack : EvalContext) : Prop :=
  ∀ depth < stack.count, ∀ name definition, stack.lookup? depth name = some definition → definition.name = name

theorem resolve?_found (found : stack.resolve? start name = some definition) :
    ∃ depth < stack.count, stack.lookup? depth name = some definition := by
  obtain ⟨depth, among, here⟩ := List.exists_of_findSome?_eq_some found
  obtain ⟨step, few, rfl⟩ := List.mem_range'.mp among
  exact ⟨start + 1 * step, by omega, here⟩

theorem Named.resolve? (named : stack.Named) (found : stack.resolve? start name = some definition) :
    definition.name = name := by
  obtain ⟨depth, inside, here⟩ := resolve?_found found
  exact named depth inside name definition here

theorem Builtin.resolve? (builtin : stack.Builtin) (found : stack.resolve? start name = some definition) :
    definition.value.Builtin := by
  obtain ⟨depth, inside, here⟩ := resolve?_found found
  exact builtin depth inside name definition here

end EvalContext

theorem FrameStack.lookup?_found {stack : FrameStack} {depth : Nat} {name : String} {definition : Variable}
    (found : stack.lookup? depth name = some definition) :
    definition.name = name ∧ ∃ frame ∈ stack.frames, definition ∈ frame.definitions := by
  obtain ⟨frame, there, here⟩ := Option.bind_eq_some_iff.mp found
  have named := List.find?_some (p := fun other : Variable => other.name == name) here
  exact ⟨beq_iff_eq.mp named, frame, List.mem_of_getElem? there, List.mem_of_find?_eq_some here⟩

theorem FrameStack.named (stack : FrameStack) : stack.context.Named :=
  fun _ _ _ _ found => (lookup?_found found).1

namespace Variable

def tree (definition : Variable) : Node := (ResultNode.ofNode definition.value).toNode

def Survives (definition : Variable) : Prop := definition.value.EveryNumber Binary64.SurvivesText

theorem toJson_value (definition : Variable) :
    definition.toJson.get "value" = (ResultNode.ofNode definition.value).toJson := by
  have apart : (([("name", .string definition.name), ("important", .bool definition.important),
      ("value", (ResultNode.ofNode definition.value).toJson)] : List (String × Json)).map Prod.fst).Nodup :=
    (by decide : (["name", "important", "value"] : List String).Nodup)
  exact Json.get_ofEntries apart rfl

theorem toJson_readable {definition : Variable} (builtin : definition.value.Builtin) (survives : definition.Survives) :
    definition.toJson.Readable := by
  refine Json.ofEntries_readable ?_
  simp [Json.Readable, ResultNode.ofNode_readable builtin survives]

theorem toJson_legible (definition : Variable) : definition.toJson.Legible := by
  refine Json.ofEntries_legible ?_
  simp [Json.Legible, ResultNode.ofNode_legible]

end Variable

namespace PeerVariable
variable {base memory : Memory} {path name : String} {id : RegionId} {content bytes : ByteArray}
  {context : Option Nat}

theorem placeOf_place (path : String) (size : Nat) : placeOf? (variablePlace path size) = some ⟨path, 0, size⟩ := by
  have apart : (([("shmPath", .string path), ("offset", .natural 0), ("size", .natural size)] :
      List (String × Json)).map Prod.fst).Nodup := (by decide : (["shmPath", "offset", "size"] : List String).Nodup)
  have get := Json.get?_ofEntries apart
  simp [placeOf?, variablePlace, Json.get, get, Members.get?, Json.toString?, Json.toWord_natural]

theorem place_readable {size : Nat} (small : size < wordLimit) : (variablePlace path size).Readable := by
  refine Json.ofEntries_readable ?_
  simp [Json.Readable, Json.natural_readable small, Json.natural_readable (show 0 < wordLimit by decide)]

theorem place_levels (path : String) (size : Nat) : (variablePlace path size).levels ≤ 1 :=
  Json.ofEntries_levels (by simp [Json.levels, Json.natural])

theorem question_request (name : String) (context : Option Nat) :
    VariableRequest.ofJson (question name context) = .ok ⟨name, 0, context⟩ := by
  have get := fun (last : Json) key => @Members.get?_collected _ key
    [("name", .string name), ("depth", .natural 0), ("contextId", last)]
    (by decide : (["name", "depth", "contextId"] : List String).Nodup)
  have read : VariableRequest.ofJson? (question name context) = some ⟨name, 0, context⟩ := by
    simp only [VariableRequest.ofJson?, question, Json.record?, Json.ofEntries, Json.required, Json.withDefault,
      Json.optional, Option.bind_eq_bind, Option.bind_some, get]
    cases context <;> simp [Members.get?, Json.toString?, Json.natural, Json.toWord?]
  simp only [VariableRequest.ofJson, Json.Shape.read, read]

theorem question_readable (small : ∀ id ∈ context, id < wordLimit) : (question name context).Readable := by
  refine Json.ofEntries_readable ?_
  cases context with
  | none => simp [Json.Readable, Json.natural_readable (show 0 < wordLimit by decide)]
  | some id =>
    simp [Json.Readable, Json.natural_readable (show 0 < wordLimit by decide), Json.natural_readable (small id rfl)]

theorem question_levels (name : String) (context : Option Nat) : (question name context).levels ≤ 1 := by
  refine Json.ofEntries_levels ?_
  cases context <;> simp [Json.levels, Json.natural]

theorem read_done {var : PreloadedVariable} (owned : Private base memory path id id content)
    (something : content.size ≠ 0) (held : Holds content 0 bytes) (written : var.encode = .ok bytes)
    (shallow : var.value.depth ≤ WireValue.maxDepth) :
    ∃ size later, read ⟨path, 0, bytes.size⟩ memory = .ok (var, size) later := by
  obtain ⟨view, later, opened, reads⟩ := owned.openReadOnly something
  have content := reads 0 bytes.size held.within
  rw [held.exact] at content
  have decoded : Cursor.run (PreloadedVariable.decode bytes) 0 = .ok var :=
    (PreloadedVariable.decode_held written shallow).run (Holds.whole bytes)
  refine ⟨((later.region? view).map Region.size).getD 0, later, ?_⟩
  simp only [read, opened, content, decoded]

end PeerVariable

theorem Multiplexer.receive_line {mux : Multiplexer} {callback : Callback} (going : mux.closed = false)
    (small : callback.id < wordLimit) (readable : callback.data.Readable)
    (shallow : callback.data.levels < Json.maxLevels) : mux.receive callback.line = (some callback, mux) := by
  have parsed := Message.parse_callback small readable shallow
  have shown : Text.isBlank callback.line = false := Json.isBlank_renderFields _
  simp [receive, going, shown, parsed]

namespace Session
variable {σ : Type} {session : Session σ} {stack : EvalContext} {name : String} {definition : Variable}

-- In the message of a call that brings its context the peer reads this under the name. A name that is not
-- there it asks for in the same context.
def InMessage (session : Session σ) (stack : EvalContext) (name : String) (tree? : Option Node) : Prop :=
  ∀ (spec : FunctionSpec) (args : List CallArg) (context number : Nat),
    let data := session.callMessage spec args (some (context, stack))
    spec.needsContext = true → number < wordLimit → context < wordLimit →
    (∀ value, CallArg.json value ∈ args → value.Legible) → data.levels < Json.maxLevels →
    (∀ definition ∈ stack.resolve? 0 name, definition.Survives) →
      ∃ heard, Message.parse? (Request.line ⟨number, "callFunction", data⟩) =
          some (.request ⟨number, "callFunction", heard⟩) ∧
        Echo.treeOf? (Echo.given heard name) = tree? ∧ (heard.get "contextId").toWord? = some context

-- Once the variables of the context were pushed the peer reads this in the preload section.
def InSection (session : Session σ) (stack : EvalContext) (name : String) (tree? : Option Node) : Prop :=
  ∀ (link : ProtocolLink) (peer : ProtocolPeer) (data bytes : ByteArray),
    session.protocol = some link → link.host.block.layout = .standard → peer.block.layout = .standard →
    Shared session.store.memory link.host.block.region peer.block.region data →
    Layout.standard.totalSize ≤ data.size → session.preloaded ≠ some (.ofContext stack) →
    Preload.encode (session.preloadFor stack) = .ok bytes → bytes.size ≤ Layout.standard.preloadSize →
      ∃ later vars, session.ensurePreloaded stack = (true, later) ∧
        answered (peer.preloaded later.store.memory) = .ok vars ∧ Echo.treeOf? (Echo.fromPreloaded vars name) = tree?

-- When the peer asks for the name in the context while the host serves nothing else, it is answered null or reads
-- this, in a region that was made for the variable or else in the answer itself.
def WhenAsked (session : Session σ) (stack : EvalContext) (name : String) (tree? : Option Node) : Prop :=
  ∀ (asked : Nat) (context : Option Nat), asked < wordLimit → (∀ id ∈ context, id < wordLimit) →
    session.servesVariables = true → session.serving = none → session.contextFor? context = some stack →
    session.stream.write = .working → session.stream.closed = false →
      let question : Callback := ⟨asked, PeerVariable.callbackName, PeerVariable.question name context⟩
      let later := (session.take (.line question.line)).proceed.proceed
      ∃ answer, later.stream.sent = session.stream.sent.push (Response.ok asked answer).line ∧
        (answer = .null ↔ stack.resolve? 0 name = none) ∧
        ((PeerVariable.placeOf? answer).isSome ↔ ∃ definition, stack.resolve? 0 name = some definition ∧
          WireValue.supports definition.value = true ∧ (session.placeVariable definition).1.isSome) ∧
        ((PeerVariable.placeOf? answer).isSome ∨ (∀ definition ∈ stack.resolve? 0 name,
            definition.Survives ∧ definition.toJson.levels + 1 < Json.maxLevels) →
          ∃ found, Echo.treeOf? found = tree? ∧
            Echo.Hears asked (Response.ok asked answer).line later.store.memory found)

theorem find_common (called : stack.Named) {list : List Variable} {keep : Variable → Bool}
    (same : ∀ definition, definition ∈ list ↔
      definition ∈ session.commonVariables stack ∧ keep definition = true) (name : String) :
    (list.find? fun definition => definition.name == name) =
      if name ∈ session.settings.preloadNames then (stack.resolve? 0 name).filter keep else none := by
  have common : ∀ definition, definition ∈ session.commonVariables stack ↔
      ∃ other ∈ session.settings.preloadNames, stack.resolve? 0 other = some definition :=
    fun definition => List.mem_filterMap
  cases found : list.find? fun definition => definition.name == name with
  | some definition =>
    obtain ⟨among, kept⟩ := (same definition).mp (List.mem_of_find?_eq_some found)
    obtain ⟨other, configured, resolved⟩ := (common definition).mp among
    have named := List.find?_some (p := fun other : Variable => other.name == name) found
    obtain rfl : name = other := (beq_iff_eq.mp named).symm.trans (called.resolve? resolved)
    rw [if_pos configured, resolved, Option.filter_some, if_pos kept]
  | none =>
    split
    · rename_i configured
      refine (Option.filter_eq_none_iff.mpr fun definition resolved kept => ?_).symm
      have among := (same definition).mpr ⟨(common definition).mpr ⟨name, configured, resolved⟩, kept⟩
      have named := called.resolve? resolved
      exact List.find?_eq_none.mp found definition among (beq_iff_eq.mpr named)
    · rfl

theorem contextJson_get? (called : stack.Named) (session : Session σ) (name : String) :
    ((session.contextJson stack).get "variables").get? name =
      if name ∈ session.settings.preloadNames then (stack.resolve? 0 name).map Variable.toJson else none := by
  let entries := (session.commonVariables stack).map fun definition => (definition.name, definition.toJson)
  have alone : (([("variables", Json.ofEntries entries)] : List (String × Json)).map Prod.fst).Nodup :=
    List.nodup_singleton _
  have inner : (session.contextJson stack).get "variables" = .ofEntries entries := Json.get_ofEntries alone rfl
  have found := @find_common σ session stack called (session.commonVariables stack).reverse (fun _ => true)
    (fun definition => by simp) name
  rw [inner, Json.ofEntries, Json.get?, Members.get?_ofList_last, ← List.map_reverse, List.find?_map]
  change Option.map Prod.snd (Option.map (fun definition => (definition.name, definition.toJson))
    (List.find? (fun definition => definition.name == name) (session.commonVariables stack).reverse)) = _
  rw [found]
  split
  · cases stack.resolve? 0 name <;> rfl
  · rfl

theorem callMessage_context {spec : FunctionSpec} (needs : spec.needsContext = true) (args : List CallArg)
    (context : Nat) (stack : EvalContext) (session : Session σ) :
    let data := session.callMessage spec args (some (context, stack))
    data.get "contextId" = .natural context ∧ data.get "context" = session.contextJson stack := by
  let entries : List (String × Json) := [("name", .string spec.name), ("args", .array (args.map CallArg.toJson)),
    ("needsContext", .bool true), ("contextId", .natural context), ("context", session.contextJson stack)]
  have apart : (entries.map Prod.fst).Nodup :=
    (by decide : (["name", "args", "needsContext", "contextId", "context"] : List String).Nodup)
  have written : session.callMessage spec args (some (context, stack)) = .ofEntries entries := by
    simp only [callMessage, contextEntries, needs, if_true]
    rfl
  intro data
  simp only [data, written]
  exact ⟨Json.get_ofEntries apart rfl, Json.get_ofEntries apart rfl⟩

theorem callMessage_legible {args : List CallArg} {context : CallContext}
    (small : ∀ entry ∈ context, entry.1 < wordLimit) (given : ∀ value, CallArg.json value ∈ args → value.Legible)
    (spec : FunctionSpec) (session : Session σ) : (session.callMessage spec args context).Legible := by
  have items : Json.ItemsLegible (args.map CallArg.toJson) := by
    refine Json.itemsLegible (List.forall_mem_map.mpr fun arg among => ?_)
    cases arg with
    | node tree => exact ResultNode.ofNode_legible tree
    | json value => exact given value among
  refine Json.ofEntries_legible (List.forall_mem_append.mpr ⟨?_, ?_⟩)
  · simp [Json.Legible, items]
  · cases context with
    | none => exact nofun
    | some entry =>
      have number : (Json.natural entry.1).Legible := (Json.natural_readable (small entry rfl)).legible.1
      have inner : (session.contextJson entry.2).Legible := by
        refine Json.ofEntries_legible (List.forall_mem_singleton.mpr (Json.ofEntries_legible fun entry among => ?_))
        obtain ⟨definition, -, rfl⟩ := List.mem_map.mp among
        exact definition.toJson_legible
      simp only [contextEntries]
      split
      · simp [number, inner]
      · exact nofun

theorem in_message (builtin : stack.Builtin) (called : stack.Named) (session : Session σ) (name : String) :
    session.InMessage stack name
      (if name ∈ session.settings.preloadNames then (stack.resolve? 0 name).map Variable.tree else none) := by
  intro spec args context number data needs small few given shallow survive
  have legible : data.Legible := callMessage_legible (fun _ same => Option.some.inj same ▸ few) given spec session
  obtain ⟨id, there⟩ := callMessage_context needs args context stack session
  refine ⟨data.reread, Message.parse_command small legible shallow, ?_, ?_⟩
  · rw [Echo.given, Json.reread_get, Json.reread_get, Json.reread_get?, there, contextJson_get? called]
    split
    · cases found : stack.resolve? 0 name with
      | none => rfl
      | some definition =>
        have known := builtin.resolve? found
        have same := (ResultNode.ofNode_readable known (survive definition found)).legible.2
        simp only [Option.map_some, Echo.treeOf?, Json.reread_get, Variable.toJson_value, same,
          ResultNode.ofJson_agrees known, Variable.tree]
    · rfl
  · rw [Json.reread_get, id]
    exact Json.toWord_natural context

theorem in_section (called : stack.Named) (session : Session σ) (name : String) :
    session.InSection stack name (if name ∈ session.settings.preloadNames then
      ((stack.resolve? 0 name).filter fun definition => WireValue.supports definition.value).map Variable.tree
    else none) := by
  intro link peer data bytes linked hosted taken shared room other encoded short
  have within : link.host.block.layout.preloadOffset + link.host.block.layout.preloadSize ≤ data.size := by
    rw [hosted]
    exact Nat.le_trans (by decide) room
  rcases ProtocolHost.preload_cases shared within (session.preloadFor stack) with
    ⟨written, memory, after, again, _, ran, still, sized, held⟩ | ⟨_, again, large, _⟩ | ⟨_, refused, _⟩
  · obtain rfl : bytes = written := Except.ok.inj (encoded.symm.trans again)
    have same : link.host.block.layout = peer.block.layout := hosted.trans taken.symm
    rw [same] at within held
    have read := ProtocolRegion.preloaded_read still.symm (sized ▸ within) encoded (taken ▸ short)
      (preloadFor_shallow session stack) held
    let later : Session σ := { session with
      store := { session.store with memory := memory }
      preloaded := some (.ofContext stack) }
    refine ⟨later, session.preloadFor stack, ?_, congrArg answered read, ?_⟩
    · simp only [ensurePreloaded, if_neg other, linked, onMemory, ran, later]
    · have found := @find_common σ session stack called ((session.commonVariables stack).filter fun definition =>
        WireValue.supports definition.value) (fun definition => WireValue.supports definition.value)
        (fun definition => List.mem_filter) name
      rw [Echo.treeOf?, Echo.fromPreloaded, preloadFor, List.find?_map]
      change Option.map _ (Option.map _ (Option.map Variable.toPreloaded (List.find?
        (fun definition => definition.name == name) _))) = _
      rw [found]
      split
      · cases resolved : stack.resolve? 0 name with
        | none => rfl
        | some definition =>
          rw [Option.filter_some]
          split
          · rename_i supported
            exact congrArg some (ResultNode.ofWire_agrees supported)
          · rfl
      · rfl
  · cases encoded.symm.trans again
    rw [hosted] at large
    exact absurd short (Nat.not_le.mpr large)
  · cases encoded.symm.trans refused

theorem proceed_found {asked : Nat} (found : session.serving = some (.found asked definition)) :
    (∃ id store content bytes,
      let path := Store.keyText session.store.manager.nextKey
      session.proceed =
        { session with store := store, serving := some (.placed asked path (variablePlace path bytes.size)) } ∧
      (session.placeSupported definition).1.isSome = true ∧ WireValue.supports definition.value = true ∧
      definition.toPreloaded.encode = .ok bytes ∧ Filled session.store.memory store path id content bytes) ∨
    ∃ store, session.proceed = { session with store := store, serving := none }.answerCallback asked
        (.ok (.ofEntries [("json", definition.toJson)])) ∧ (session.placeSupported definition).1.isSome = false := by
  rcases placeSupported_made definition session with
    ⟨store, none, -⟩ | ⟨id, store, content, bytes, made, supported, encoded, filled, -⟩
  · exact .inr ⟨store, by simp only [proceed, found, none], by rw [none]; rfl⟩
  · exact .inl ⟨id, store, content, bytes, by simp only [proceed, found, made], by rw [made]; rfl, supported, encoded,
      filled⟩

theorem proceed_placed {asked : Nat} {key : String} {answer : Json}
    (placed : session.serving = some (.placed asked key answer)) :
    session.proceed = { session with serving := none, variableKeys := session.variableKeys ++ [key] }.answerCallback
      asked (.ok answer) := by
  simp only [proceed, placed]

theorem proceed_idle (idle : session.serving = none) : session.proceed = session := by
  simp only [proceed, idle]

theorem placeVariable_serving (definition : Variable) (session : Session σ) (serving : Option PendingVariable) :
    (({ session with serving := serving } : Session σ).placeVariable definition).1 =
      (session.placeVariable definition).1 := by
  unfold placeVariable
  cases definition.toPreloaded.encode with
  | error e => rfl
  | ok bytes =>
    simp only [createFilled, onStore]
    cases Store.create bytes.size session.store with
    | error e store => rfl
    | ok id store =>
      simp only [onMemory]
      cases (do Memory.write id 0 bytes; Memory.sync id) store.memory <;> rfl

theorem placeSupported_isSome (definition : Variable) (session : Session σ) :
    (session.placeSupported definition).1.isSome = true ↔
      WireValue.supports definition.value = true ∧ (session.placeVariable definition).1.isSome = true := by
  unfold placeSupported
  split <;> simp [*]

theorem findVariable_read {data : Json} {request : VariableRequest} (read : VariableRequest.ofJson data = .ok request) :
    session.findVariable data = .ok ((session.contextFor? request.contextId).bind fun stack =>
      stack.resolve? request.depth request.name) := by
  simp only [findVariable, read]

section served
variable {callback : Callback} (named : callback.name = variableCallback) (serves : session.servesVariables = true)
include named serves

theorem serveCallback_faulty {message : String} (faulty : session.findVariable callback.data = .error message) :
    session.serveCallback callback = session.answerCallback callback.id (.error message) := by
  simp only [serveCallback, named, serves, and_self, if_true, faulty]

theorem serveCallback_absent (absent : session.findVariable callback.data = .ok none) :
    session.serveCallback callback = session.answerCallback callback.id (.ok .null) := by
  simp only [serveCallback, named, serves, and_self, if_true, absent]

theorem serveCallback_found (found : session.findVariable callback.data = .ok (some definition)) :
    session.serveCallback callback = { session with serving := some (.found callback.id definition) } := by
  simp only [serveCallback, named, serves, and_self, if_true, found]

end served

theorem take_question {question : Callback} (small : question.id < wordLimit) (readable : question.data.Readable)
    (shallow : question.data.levels < Json.maxLevels) (going : session.stream.closed = false) :
    session.take (.line question.line) = session.serveCallback question := by
  simp only [take, Multiplexer.receive_line going small readable shallow]

theorem answerCallback_sent (working : session.stream.write = .working) (asked : Nat) (answer : Json) :
    (session.answerCallback asked (.ok answer)).stream.sent = session.stream.sent.push (Response.ok asked answer).line := by
  simp only [answerCallback, Multiplexer.answer, Multiplexer.writeLine, working]
  rfl

theorem placed_heard {asked : Nat} {base : Memory} {store : Store} {path : String} {id : RegionId}
    {content bytes : ByteArray} (small : asked < wordLimit) (filled : Filled base store path id content bytes)
    (supported : WireValue.supports definition.value = true) (encoded : definition.toPreloaded.encode = .ok bytes) :
    ∃ found, Echo.treeOf? found = some definition.tree ∧
      Echo.Hears asked (Response.ok asked (variablePlace path bytes.size)).line store.memory found := by
  obtain ⟨size, middle, read⟩ := PeerVariable.read_done filled.owned filled.something filled.held encoded
    (WireValue.ofNode_depth supported)
  have short : bytes.size < wordLimit := by
    have within := filled.held.within
    have room := filled.small
    rw [maxFileSize] at room
    rw [wordLimit]
    omega
  have takes := Echo.takes_place (PeerVariable.placeOf_place path bytes.size) read
  exact ⟨_, congrArg _ (ResultNode.ofWire_agrees supported), takes.hears small (PeerVariable.place_readable short)
    (Nat.lt_of_le_of_lt (PeerVariable.place_levels path _) (by decide))⟩

theorem inline_heard {asked : Nat} (small : asked < wordLimit) (builtin : definition.value.Builtin)
    (survives : definition.Survives) (shallow : definition.toJson.levels + 1 < Json.maxLevels) (memory : Memory) :
    ∃ found, Echo.treeOf? found = some definition.tree ∧
      Echo.Hears asked (Response.ok asked (.ofEntries [("json", definition.toJson)])).line memory found := by
  refine ⟨_, ?_, (Echo.takes_inline rfl memory).hears small ?_ ?_⟩
  · change some (ResultNode.ofJson (definition.toJson.get "value")).toNode = _
    rw [Variable.toJson_value, ResultNode.ofJson_agrees builtin]
    rfl
  · exact Json.ofEntries_readable (by simp [Variable.toJson_readable builtin survives])
  · exact Nat.lt_of_le_of_lt (Json.ofEntries_levels (by simp)) shallow

theorem when_asked (builtin : stack.Builtin) (session : Session σ) (name : String) :
    session.WhenAsked stack name ((stack.resolve? 0 name).map Variable.tree) := by
  intro asked context small few serves idle known working going question later
  have took : session.take (.line question.line) = session.serveCallback question :=
    take_question small (PeerVariable.question_readable few)
      (Nat.lt_of_le_of_lt (PeerVariable.question_levels name context) (by decide)) going
  have sought : session.findVariable question.data = .ok (stack.resolve? 0 name) := by
    rw [findVariable_read (PeerVariable.question_request name context), known, Option.bind_some]
  have goes : later = (session.serveCallback question).proceed.proceed :=
    congrArg (fun session => session.proceed.proceed) took
  cases found : stack.resolve? 0 name with
  | none =>
    have same : later = session.answerCallback asked (.ok .null) := by
      have still : (session.answerCallback asked (.ok .null)).serving = none := idle
      rw [goes, serveCallback_absent rfl serves (found ▸ sought)]
      exact (congrArg proceed (proceed_idle still)).trans (proceed_idle still)
    have takes : Echo.Takes .null later.store.memory none := Echo.takes_inline rfl _
    exact ⟨.null, same ▸ answerCallback_sent working asked .null, by simp, by simp [PeerVariable.placeOf?, Json.get?],
      fun _ => ⟨none, rfl, takes.hears small trivial (by decide)⟩⟩
  | some definition =>
    let begun : Session σ := { session with serving := some (.found asked definition) }
    rw [serveCallback_found rfl serves (found ▸ sought)] at goes
    have goes : later = begun.proceed.proceed := goes
    -- Whether there is a region does not depend on what the host has begun to serve.
    have lies : (begun.placeSupported definition).1.isSome = true ↔ ∃ other, some definition = some other ∧
        WireValue.supports other.value = true ∧ (session.placeVariable other).1.isSome = true := by
      rw [placeSupported_isSome]
      have same : (begun.placeVariable definition).1 = (session.placeVariable definition).1 :=
        placeVariable_serving definition session _
      simp [same]
    rcases @proceed_found σ begun definition asked rfl with
      ⟨id, store, content, bytes, made, some, supported, encoded, filled⟩ | ⟨store, made, none⟩
    · let path := Store.keyText begun.store.manager.nextKey
      have same : later = { begun with
          store := store, serving := none, variableKeys := begun.variableKeys ++ [path] }.answerCallback asked
            (.ok (variablePlace path bytes.size)) := by
        rw [goes, made]
        exact proceed_placed rfl
      have memory : later.store.memory = store.memory := by rw [same]; rfl
      refine ⟨variablePlace path bytes.size, ?_, ?_, ?_, fun _ => ?_⟩
      · rw [same]
        exact answerCallback_sent working asked _
      · simp [variablePlace, Json.ofEntries]
      · rw [← lies, PeerVariable.placeOf_place, some]
        simp
      · rw [memory]
        exact placed_heard small filled supported encoded
    · have same : later = { begun with store := store, serving := .none }.answerCallback asked
          (.ok (.ofEntries [("json", definition.toJson)])) := by
        rw [goes, made]
        exact proceed_idle rfl
      have inline : PeerVariable.placeOf? (.ofEntries [("json", definition.toJson)]) = .none := rfl
      refine ⟨.ofEntries [("json", definition.toJson)], ?_, ?_, ?_, fun carried => ?_⟩
      · rw [same]
        exact answerCallback_sent working asked _
      · simp [Json.ofEntries]
      · rw [← lies, inline, none]
        simp
      · obtain ⟨survives, shallow⟩ := (carried.resolve_left (by simp [inline])) definition rfl
        exact inline_heard small (builtin.resolve? found) survives shallow _

-- Whichever way a variable comes to the peer, its tree is the same. Only a name that is not defined, and in the
-- section one whose value has no wire form, is not there.
theorem variable_alike (session : Session σ) (builtin : stack.Builtin) (called : stack.Named) (name : String) :
    let common := name ∈ session.settings.preloadNames
    let resolved := stack.resolve? 0 name
    session.InMessage stack name (if common then resolved.map Variable.tree else none) ∧
    session.InSection stack name (if common then
      (resolved.filter fun definition => WireValue.supports definition.value).map Variable.tree else none) ∧
    session.WhenAsked stack name (resolved.map Variable.tree) :=
  ⟨in_message builtin called session name, in_section called session name, when_asked builtin session name⟩

-- A bridge starts. In a context where a length hides a word in parentheses both are read on every way on which
-- they go at all, the word under another name, and a third name is not defined.
theorem variable_alike_started :
    let ten := Node.plain (.dimension (.ofNat 10) "px")
    let word := Node.mk ⟨.parens, none, none⟩ (.keyword "a")
    let stack : EvalContext := FrameStack.context
      ⟨[⟨2, [⟨"@x", ten, false⟩]⟩, ⟨1, [⟨"@x", word, false⟩, ⟨"@y", word, true⟩]⟩]⟩
    let settings := { Settings.standard with preloadNames := ["@x", "@y", "@z"] }
    ∃ bridge link peer,
      Bridge.start settings Echo.service.peer (some (Conversation.start Echo.initial)) = .ok bridge ∧
      let session := { bridge.session with active := [(1, stack)], preloaded := none, servesVariables := true }
      let data := session.callMessage ⟨"var", none, true, false⟩ [] (some (1, stack))
      let question := fun name => (⟨4, PeerVariable.callbackName, PeerVariable.question name (some 1)⟩ : Callback)
      let reads := fun (name : String) (message pushed asked : Option Node) =>
        (∃ heard, Message.parse? (Request.line ⟨3, "callFunction", data⟩) = some (.request ⟨3, "callFunction", heard⟩) ∧
          Echo.treeOf? (Echo.given heard name) = message) ∧
        (∃ later vars, session.ensurePreloaded stack = (true, later) ∧
          answered (ProtocolPeer.preloaded peer later.store.memory) = .ok vars ∧
          Echo.treeOf? (Echo.fromPreloaded vars name) = pushed) ∧
        let served := (session.take (.line (question name).line)).proceed.proceed
        ∃ answer found, served.stream.sent = session.stream.sent.push (Response.ok 4 answer).line ∧
          Echo.Hears 4 (Response.ok 4 answer).line served.store.memory found ∧ Echo.treeOf? found = asked
      session.protocol = some link ∧ reads "@x" (some ten) (some ten) (some ten) ∧
        reads "@y" (some word) none (some word) ∧ reads "@z" none none none := by
  intro ten word stack settings
  obtain ⟨bridge, started, ready, same, -, linked⟩ := Bridge.start_ready settings
  obtain ⟨link, there⟩ := Option.isSome_iff_exists.mp (linked rfl fun limit given => by cases given)
  obtain ⟨protocol, -, serving⟩ := ready.linked link there
  obtain ⟨content, room, shared⟩ := serving.shared
  refine ⟨bridge, link, protocol.peer, started, ?_⟩
  intro session data question reads
  have leaf : ∀ kept : Node → Prop, kept ten → kept word → ∀ node, node = ten ∨ node = word →
      ∀ inner, Node.Within inner node → kept inner := by
    rintro kept one two node (rfl | rfl)
    · exact Node.Within.leaf rfl one
    · exact Node.Within.leaf rfl two
  have defined : ∀ depth name definition, stack.lookup? depth name = some definition →
      definition ∈ [⟨"@x", ten, false⟩, ⟨"@x", word, false⟩, ⟨"@y", word, true⟩] := by
    intro depth name definition found
    obtain ⟨-, frame, inside, here⟩ := FrameStack.lookup?_found found
    have all : ∀ frame ∈ [Frame.mk 2 [⟨"@x", ten, false⟩], ⟨1, [⟨"@x", word, false⟩, ⟨"@y", word, true⟩]⟩],
        ∀ definition ∈ frame.definitions,
          definition ∈ [⟨"@x", ten, false⟩, ⟨"@x", word, false⟩, (⟨"@y", word, true⟩ : Variable)] := by
      simp
    exact all frame inside definition here
  have values : ∀ definition ∈ [⟨"@x", ten, false⟩, ⟨"@x", word, false⟩, (⟨"@y", word, true⟩ : Variable)],
      definition.value = ten ∨ definition.value = word := by
    simp
  have builtin : stack.Builtin := fun depth _ name definition found =>
    leaf (fun inner => inner.kind?.isSome) rfl rfl _ (values definition (defined depth name definition found))
  have survives : ∀ definition ∈ [⟨"@x", ten, false⟩, ⟨"@x", word, false⟩, (⟨"@y", word, true⟩ : Variable)],
      definition.Survives :=
    fun definition among => leaf (fun inner => ∀ x ∈ inner.body.numbers, x.SurvivesText)
      (fun x one => List.mem_singleton.mp one ▸ Binary64.ofNat_survives (by decide)) (List.forall_mem_nil _) _
      (values definition among)
  have names : session.settings = settings := same
  have levels : data.levels < Json.maxLevels := by
    simp only [data, callMessage, contextEntries, contextJson, commonVariables, names]
    decide +kernel
  obtain ⟨bytes, encoded, short⟩ := except_checked (show (Preload.encode (session.preloadFor stack)).toOption.any
      (fun bytes => decide (bytes.size ≤ Layout.standard.preloadSize)) = true by
    simp only [preloadFor, commonVariables, names]
    decide +kernel)
  have all : ∀ (name : String) (message pushed asked : Option Node), session.InMessage stack name message →
      session.InSection stack name pushed → session.WhenAsked stack name asked → reads name message pushed asked := by
    intro name message pushed asked first second third
    have carried : ∀ definition ∈ stack.resolve? 0 name,
        definition.Survives ∧ definition.toJson.levels + 1 < Json.maxLevels := by
      intro definition found
      obtain ⟨depth, -, here⟩ := EvalContext.resolve?_found found
      have among := defined depth name definition here
      refine ⟨survives definition among, ?_⟩
      have flat : ∀ definition ∈ [⟨"@x", ten, false⟩, ⟨"@x", word, false⟩, (⟨"@y", word, true⟩ : Variable)],
          definition.toJson.levels ≤ 9 := by
        decide +kernel
      exact Nat.lt_of_le_of_lt (Nat.succ_le_succ (flat definition among)) (by decide)
    obtain ⟨heard, parsed, tree, -⟩ := first ⟨"var", none, true, false⟩ [] 1 3 rfl (by decide) (by decide)
      (fun _ among => by cases among) levels
      fun definition found => (carried definition found).1
    obtain ⟨later, vars, pushes, read, shown⟩ := second link protocol.peer content bytes there serving.layouts.1
      serving.layouts.2 shared room (fun same => by cases same) encoded (of_decide_eq_true short)
    obtain ⟨answer, sent, -, -, hears⟩ := third 4 (some 1) (by decide) (by decide) rfl ready.idle.served rfl
      ready.idle.working ready.idle.going
    obtain ⟨found, same, hears⟩ := hears (.inr carried)
    exact ⟨⟨heard, parsed, tree⟩, ⟨later, vars, pushes, read, shown⟩, answer, found, sent, hears, same⟩
  have known : ∀ name ∈ settings.preloadNames, ∀ definition?, stack.resolve? 0 name = definition? →
      reads name (definition?.map Variable.tree)
        ((definition?.filter fun definition => WireValue.supports definition.value).map Variable.tree)
        (definition?.map Variable.tree) := by
    rintro name common _ rfl
    obtain ⟨message, pushed, asked⟩ := variable_alike session builtin (FrameStack.named _) name
    rw [names, if_pos common] at message pushed
    exact all name _ _ _ message pushed asked
  have finite : ten.EveryNumber fun x => x.isFinite = true :=
    Node.Within.leaf rfl fun x one => List.mem_singleton.mp one ▸ (by decide +kernel)
  have one : ∀ important, (Variable.mk "@x" ten important).tree = ten := fun _ =>
    ResultNode.toNode_ofNode (Node.Within.leaf rfl rfl) finite
  have two : ∀ important, (Variable.mk "@y" word important).tree = word := fun _ =>
    ResultNode.toNode_ofNode (Node.Within.leaf rfl rfl) (Node.Within.leaf rfl (List.forall_mem_nil _))
  have first := known "@x" (by decide) (some ⟨"@x", ten, false⟩) rfl
  have second := known "@y" (by decide) (some ⟨"@y", word, true⟩) rfl
  have third := known "@z" (by decide) none rfl
  simp only [Option.map_some, Option.filter_some, one, two] at first second
  exact ⟨there, first, second, third⟩

-- An eleventh is read in a region as it is, and in the message of a call as the number above it.
theorem variable_alike_eleventh :
    let eleventh := Node.plain (.dimension ⟨0x3fb745d1745d1746⟩ "em")
    let stack : EvalContext := FrameStack.context ⟨[⟨1, [⟨"@x", eleventh, false⟩]⟩]⟩
    let session : Session Unit :=
      { start { Settings.standard with preloadNames := ["@x"] } () with active := [(1, stack)] }
    let data := session.callMessage ⟨"var", none, true, false⟩ [] (some (1, stack))
    let question : Callback := ⟨4, PeerVariable.callbackName, PeerVariable.question "@x" (some 1)⟩
    let later := (session.take (.line question.line)).proceed.proceed
    stack.Builtin ∧ stack.Named ∧ ∃ heard answer found,
      Message.parse? (Request.line ⟨3, "callFunction", data⟩) = some (.request heard) ∧
      later.stream.sent = session.stream.sent.push (Response.ok 4 answer).line ∧
      Echo.Hears 4 (Response.ok 4 answer).line later.store.memory found ∧
      Echo.treeOf? (Echo.given heard.data "@x") ≠ Echo.treeOf? found := by
  intro eleventh stack session data question later
  have known : eleventh.Builtin := Node.Within.leaf rfl rfl
  have builtin : stack.Builtin := by
    intro depth _ name definition found
    obtain ⟨-, frame, inside, among⟩ := FrameStack.lookup?_found found
    obtain rfl := List.mem_singleton.mp inside
    obtain rfl := List.mem_singleton.mp among
    exact known
  have tree : (Variable.mk "@x" eleventh false).tree = eleventh :=
    ResultNode.toNode_ofNode known (Node.Within.leaf rfl fun x one => List.mem_singleton.mp one ▸ (by decide +kernel))
  have small : ∀ entry ∈ some (1, stack), entry.1 < wordLimit := fun _ same => Option.some.inj same ▸ (by decide)
  have legible : data.Legible := callMessage_legible small (fun _ among => absurd among List.not_mem_nil) _ session
  have parsed : Message.parse? (Request.line ⟨3, "callFunction", data⟩) =
      some (.request ⟨3, "callFunction", data.reread⟩) :=
    Message.parse_command (by decide) legible (by decide +kernel)
  have other : (Echo.treeOf? (Echo.given data.reread "@x")).map (fun node => node.body.numbers) ≠
      some eleventh.body.numbers := by
    decide +kernel
  obtain ⟨answer, sent, -, placed, hears⟩ := when_asked builtin session "@x" 4 (some 1) (by decide) (by decide) rfl rfl rfl
    rfl rfl
  have region := placed.mpr ⟨⟨"@x", eleventh, false⟩, rfl, by decide, by decide +kernel⟩
  obtain ⟨found, same, hears⟩ := hears (.inl region)
  -- The values of the session were needed up to here.
  clear_value session
  refine ⟨builtin, FrameStack.named _, ⟨3, "callFunction", data.reread⟩, answer, found, parsed, sent, hears, fun equal => other ?_⟩
  rw [equal, same]
  exact congrArg (fun node => some node.body.numbers) tree

end Session
end PluginBridge
