import PluginBridge.Proofs.Dispatch.Runs
namespace PluginBridge

def Action.isOwn : Action → Bool
  | .enter _ | .leave _ | .send _ _ => false
  | _ => true

-- What can happen next while any number of calls are under way. A call begins with its context or without
-- one. In the end its context goes out of use, and then the call departs. Commands begin and are concluded, and
-- in between the peer hears lines. The host reads what comes unless it still serves what it read before, and goes
-- on with that. The region of a protocol is made first and adopted once the peer polls it.
inductive Moment where
  | enter (stack : EvalContext)
  | begin
  | finish (id : Nat)
  | depart
  | start (command : String) (data : Json)
  | hear (line : String)
  | take (output : PeerOutput) (unread : List PeerOutput)
  | proceed
  | conclude (id : Nat) (command : String) (timeout : Duration)
  | make
  | adopt (link : ProtocolLink)
  | compile
  | act (action : Action) (own : action.isOwn = true)

namespace Session
variable {σ : Type}

theorem createLink_stored (session : Session σ) : Stored session session.createLink.2 := by
  have made := onStore_stored (Store.create Layout.standard.totalSize) session
  unfold createLink
  split
  · rename_i answer
    rwa [answer] at made
  · rename_i id middle answer
    rw [answer] at made
    have laid := made.trans (onMemory_stored (ProtocolRegion.ofRegion id .standard) middle)
    split <;> rename_i outcome <;> rwa [outcome] at laid

def roster (session : Session σ) : List (Nat × EvalContext) × Nat × Bool :=
  (session.active, session.lastContext, session.servesVariables)

theorem Aside.roster {before after : Session σ} (aside : Aside before after) : after.roster = before.roster := by
  rw [Session.roster, aside.active, aside.lastContext, aside.servesVariables, Session.roster]

theorem own_keeps {α : Type} {f : Session σ → α} (ignores : Action.Ignores f)
    (store : ∀ session store, f { session with store := store } = f session)
    (preloaded : ∀ session preloaded, f { session with preloaded := preloaded } = f session)
    (looked : ∀ session peer, f { session with peer := peer } = f session) (peer : Peer σ) {action : Action}
    (own : action.isOwn = true) (session : Session σ) : f (action.apply peer session) = f session := by
  cases action with
  | enter context => cases own
  | leave context => cases own
  | send command data => cases own
  | preload stack =>
    obtain ⟨memory, pushed, only⟩ := ensurePreloaded_only stack session
    rw [Action.apply, only]
    let later : Session σ := { session with store := { session.store with memory := memory } }
    exact (preloaded later pushed).trans (ignores.memory session memory)
  | drop => exact ignores.shutdown store preloaded session
  | place args => exact Action.Ignores.stored store (writeCallRegion_stored args session)
  | release key => exact Action.Ignores.stored store (onStore_stored _ session)
  | _ => exact ignores.plain rfl fun _ => looked

theorem own_roster (peer : Peer σ) {action : Action} (own : action.isOwn = true) (session : Session σ) :
    (action.apply peer session).roster = session.roster :=
  own_keeps ⟨fun _ _ => rfl, fun _ _ => rfl, fun _ _ => rfl, fun _ _ => rfl⟩ (fun _ _ => rfl) (fun _ _ => rfl)
    (fun _ _ => rfl) peer own session

end Session

namespace Moment
open Session
variable {σ : Type} {peer : Peer σ} {session : Session σ} {history : List Moment} {moment : Moment} {id : Nat}
  {stack : EvalContext}

def apply (peer : Peer σ) (moment : Moment) (session : Session σ) : Session σ :=
  match moment with
  | .enter stack => (session.enter (some stack)).2
  | .begin => (session.enter none).2
  | .finish id => session.dismiss id
  | .depart => session.depart
  | .start command data => { session with stream := (session.stream.start command data).2 }
  | .hear line => { session with passedOn := session.passedOn + 1 }.hear peer (.line line)
  | .take output unread => if session.serving.isSome then session else { session with inbox := unread }.take output
  | .proceed => session.proceed
  | .conclude id command timeout => { session with stream := (session.stream.finish id command timeout).2 }
  | .make => session.createLink.2
  | .adopt link => { session with protocol := some link }
  | .compile => session.beginCompilation
  | .act action _ => action.apply peer session

def run (peer : Peer σ) (history : List Moment) (session : Session σ) : Session σ :=
  history.foldl (fun session moment => moment.apply peer session) session

def context? : Moment → Option EvalContext
  | .enter stack => some stack
  | _ => none

def contexts (history : List Moment) : List EvalContext := history.filterMap context?

def idsGiven (peer : Peer σ) : List Moment → Session σ → List Nat
  | [], _ => []
  | moment :: rest, session =>
    ((moment.context?.bind fun stack => (session.enter (some stack)).1).map Prod.fst).toList ++
      idsGiven peer rest (moment.apply peer session)

-- The call that has begun as the one with this number has this context, and it has not ended since.
def UnderWay (history : List Moment) (id : Nat) (stack : EvalContext) : Prop :=
  ∃ past rest, history = past ++ .enter stack :: rest ∧ id = (contexts past).length + 1 ∧ .finish id ∉ rest

theorem run_append (peer : Peer σ) (first second : List Moment) (session : Session σ) :
    run peer (first ++ second) session = run peer second (run peer first session) :=
  List.foldl_append

@[simp] theorem contexts_nil : contexts [] = [] := rfl

@[simp] theorem contexts_cons (moment : Moment) (rest : List Moment) :
    contexts (moment :: rest) = moment.context?.toList ++ contexts rest := by
  simp only [contexts, List.filterMap_eq_flatMap_toList, List.flatMap_cons]

@[simp] theorem contexts_append (first second : List Moment) :
    contexts (first ++ second) = contexts first ++ contexts second :=
  List.filterMap_append

theorem apply_roster (peer : Peer σ) (session : Session σ) (enters : moment.context? = none)
    (ends : ∀ id, moment ≠ .finish id) : (moment.apply peer session).roster = session.roster := by
  cases moment with
  | enter stack => cases enters
  | finish id => exact absurd rfl (ends id)
  | depart =>
    obtain ⟨_, -, stored⟩ := leave_stored none session
    exact stored.toAside.roster
  | take output unread =>
    rw [apply]
    split
    · rfl
    · exact (take_aside output { session with inbox := unread }).roster
  | proceed => exact (proceed_aside session).roster
  | make => exact (createLink_stored session).toAside.roster
  | act action own => exact own_roster peer own session
  | _ => rfl

def isReader : Moment → Bool
  | .take _ _ | .proceed => true
  | _ => false

theorem apply_serving (peer : Peer σ) (session : Session σ) (beside : moment.isReader = false) :
    (moment.apply peer session).serving = session.serving := by
  cases moment with
  | take output unread => cases beside
  | proceed => cases beside
  | depart =>
    obtain ⟨_, -, stored⟩ := leave_stored none session
    exact stored.serving
  | make => exact (createLink_stored session).serving
  | act action own =>
    exact own_keeps ⟨fun _ _ => rfl, fun _ _ => rfl, fun _ _ => rfl, fun _ _ => rfl⟩ (fun _ _ => rfl) (fun _ _ => rfl)
      (fun _ _ => rfl) peer own session
  | _ => rfl

theorem run_serving (peer : Peer σ) (session : Session σ) (beside : ∀ moment ∈ history, moment.isReader = false) :
    (run peer history session).serving = session.serving := by
  induction history generalizing session with
  | nil => rfl
  | cons moment rest ih =>
    obtain ⟨first, others⟩ := List.forall_mem_cons.mp beside
    exact (ih (moment.apply peer session) others).trans (apply_serving peer session first)

theorem apply_lastContext (peer : Peer σ) (moment : Moment) (session : Session σ) :
    (moment.apply peer session).lastContext = session.lastContext + moment.context?.toList.length := by
  cases enters : moment.context? with
  | some stack =>
    cases moment <;> cases enters
    rfl
  | none =>
    by_cases ends : ∃ id, moment = .finish id
    · obtain ⟨id, rfl⟩ := ends
      rfl
    · exact congrArg (fun roster => roster.2.1) (apply_roster peer session enters fun id same => ends ⟨id, same⟩)

theorem idsGiven_range (peer : Peer σ) (history : List Moment) (session : Session σ) :
    idsGiven peer history session = List.range' (session.lastContext + 1) (contexts history).length := by
  induction history generalizing session with
  | nil => rfl
  | cons moment rest ih =>
    rw [idsGiven, ih, apply_lastContext, contexts_cons]
    cases moment.context? with
    | none => rfl
    | some stack =>
      rw [List.length_append, Option.toList_some, List.length_singleton, Nat.add_comm 1, List.range'_succ]
      rfl

theorem underWay_nil : ¬ UnderWay [] id stack := by
  rintro ⟨past, rest, same, -⟩
  simp at same

theorem underWay_snoc : UnderWay (history ++ [moment]) id stack ↔
    (moment = .enter stack ∧ id = (contexts history).length + 1) ∨
      (UnderWay history id stack ∧ moment ≠ .finish id) := by
  constructor
  · rintro ⟨past, rest, same, number, going⟩
    rcases List.eq_nil_or_concat rest with rfl | ⟨between, last, rfl⟩
    · obtain ⟨rfl, also⟩ := List.append_inj' same rfl
      exact .inl ⟨List.singleton_inj.mp also, number⟩
    · rw [List.concat_eq_append, ← List.cons_append, ← List.append_assoc] at same
      obtain ⟨rfl, also⟩ := List.append_inj' same rfl
      cases List.singleton_inj.mp also
      simp only [List.concat_eq_append, List.mem_append, List.mem_singleton, not_or] at going
      exact .inr ⟨⟨past, between, rfl, number, going.1⟩, Ne.symm going.2⟩
  · rintro (⟨rfl, number⟩ | ⟨⟨past, rest, rfl, number, going⟩, other⟩)
    · exact ⟨history, [], rfl, number, List.not_mem_nil⟩
    · refine ⟨past, rest ++ [moment], by simp, number, ?_⟩
      simpa [going] using Ne.symm other

theorem UnderWay.given (going : UnderWay history id stack) : id ≤ (contexts history).length := by
  obtain ⟨past, rest, rfl, rfl, -⟩ := going
  simp [context?]

-- The session knows the calls under way, each under its own id, and how many have begun.
structure Registered (history : List Moment) (session : Session σ) : Prop where
  begun : session.lastContext = (contexts history).length
  known : ∀ id stack, (id, stack) ∈ session.active ↔ UnderWay history id stack
  apart : (session.active.map Prod.fst).Nodup
  serves : session.servesVariables = true

namespace Registered

theorem start (settings : Settings) (state : σ) : Registered [] (Session.start settings state) :=
  ⟨rfl, fun _ _ => ⟨fun among => absurd among List.not_mem_nil, fun going => absurd going underWay_nil⟩,
    List.nodup_nil, rfl⟩

theorem enter (registered : Registered history session) (stack : EvalContext) :
    Registered (history ++ [.enter stack]) (session.enter (some stack)).2 := by
  refine ⟨?_, fun id other => ?_, ?_, registered.serves⟩
  · simp [Session.enter, context?, registered.begun]
  · rw [underWay_snoc, Session.enter, ← registered.known, List.mem_append, List.mem_singleton, registered.begun]
    simp [or_comm, and_comm, eq_comm]
  · -- A call that were known under the new id would have begun after all that have begun.
    have new : session.lastContext + 1 ∉ session.active.map Prod.fst := by
      intro among
      obtain ⟨⟨id, other⟩, inside, same⟩ := List.mem_map.mp among
      have given := ((registered.known id other).mp inside).given
      rw [registered.begun] at same
      simp only at same
      omega
    rw [Session.enter, List.map_append]
    refine List.nodup_append.mpr ⟨registered.apart, List.nodup_singleton _, fun id inside other last same => new ?_⟩
    rwa [same, List.mem_singleton.mp last] at inside

theorem finish (registered : Registered history session) (id : Nat) :
    Registered (history ++ [.finish id]) (session.dismiss id) := by
  refine ⟨?_, fun other stack => ?_, ?_, registered.serves⟩
  · simp [dismiss, context?, registered.begun]
  · rw [underWay_snoc, dismiss, ← registered.known, List.mem_filter]
    simpa using fun _ => not_congr eq_comm
  · exact registered.apart.sublist (List.filter_sublist.map Prod.fst)

theorem step (peer : Peer σ) (registered : Registered history session) (moment : Moment) :
    Registered (history ++ [moment]) (moment.apply peer session) := by
  cases enters : moment.context? with
  | some stack =>
    cases moment <;> cases enters
    exact registered.enter stack
  | none =>
    by_cases ends : ∃ id, moment = .finish id
    · obtain ⟨id, rfl⟩ := ends
      exact registered.finish id
    · have other : ∀ id, moment ≠ .finish id := fun id same => ends ⟨id, same⟩
      obtain ⟨active, last, serves⟩ : _ ∧ _ ∧ _ := by
        simpa only [roster, Prod.mk.injEq] using apply_roster peer session enters other
      refine ⟨?_, fun id stack => ?_, active ▸ registered.apart, serves.trans registered.serves⟩
      · simpa [enters] using last.trans registered.begun
      · have never : moment ≠ .enter stack := fun same => by cases same ▸ enters
        rw [active, underWay_snoc, registered.known]
        simp [never, other id]

theorem run (peer : Peer σ) (registered : Registered history session) (more : List Moment) :
    Registered (history ++ more) (Moment.run peer more session) := by
  induction more generalizing history session with
  | nil => rwa [List.append_nil]
  | cons moment rest ih =>
    have later := ih (registered.step peer moment)
    rwa [List.append_assoc] at later

end Registered

def Reaches (peer : Peer σ) (begun : List EvalContext) (session later : Session σ) : Prop :=
  ∃ history, contexts history = begun ∧ later = Moment.run peer history session

namespace Reaches
variable {begun more : List EvalContext} {middle later : Session σ}

theorem refl (peer : Peer σ) (session : Session σ) : Reaches peer [] session session := ⟨[], rfl, rfl⟩

theorem trans (one : Reaches peer begun session middle) (two : Reaches peer more middle later) :
    Reaches peer (begun ++ more) session later := by
  obtain ⟨first, rfl, rfl⟩ := one
  obtain ⟨second, rfl, rfl⟩ := two
  exact ⟨first ++ second, contexts_append first second, (run_append peer first second session).symm⟩

theorem next (one : Reaches peer begun session middle) (moment : Moment) (enters : moment.context? = none)
    (same : moment.apply peer middle = later) : Reaches peer begun session later := by
  have last : Reaches peer [] middle later := ⟨[moment], by simp [enters], same.symm⟩
  simpa using one.trans last

theorem act (one : Reaches peer begun session middle) (action : Action) (own : action.isOwn = true) :
    Reaches peer begun session (action.apply peer middle) :=
  one.next (.act action own) rfl rfl

theorem sendCall (one : Reaches peer begun session middle) (command : String) (data : Json) :
    Reaches peer begun session (left (Session.sendCall peer command data middle)) := by
  rw [sendCall_left]
  split
  · rename_i e stream refused
    exact one.next (.start command data) rfl (by rw [apply, refused])
  · rename_i id stream ran
    have begins : Reaches peer begun session { middle with stream := stream } :=
      one.next (.start command data) rfl (by rw [apply, ran])
    refine Reaches.next ?_ (.conclude id command middle.settings.callTimeout) rfl rfl
    exact exchange_keeps (fun _ talked => talked.next .proceed rfl rfl) (fun _ line talked => talked.next (.hear line) rfl rfl)
      (fun _ output unread idle _ talked => talked.next (.take output unread) rfl (by simp [apply, idle])) peer.pace begins

end Reaches

section calls
variable {spec : FunctionSpec} {args : List CallArg} {context : CallContext} {standing last : Standing}
  {action : Action} {actions : List Action} {later : Session σ}

theorem Reaches.step (step : Step peer spec args context standing session action last) :
    Reaches peer [] session (action.apply peer session) := by
  cases step with
  | introduce data => exact (refl peer session).sendCall _ data
  | offer told => exact (refl peer session).sendCall _ _
  | tell data => exact (refl peer session).sendCall _ data
  | _ => exact (refl peer session).act _ rfl

theorem Reaches.course (course : Course peer spec args context standing session actions last later) :
    Reaches peer [] session later := by
  induction course with
  | nil => exact refl peer _
  | cons step _ ih => exact (Reaches.step step).trans ih

theorem Reaches.invoke (peer : Peer σ) (spec : FunctionSpec) (args : List CallArg) (context : Option EvalContext)
    (session : Session σ) : Reaches peer context.toList session (left (Session.invoke peer spec args context session)) := by
  obtain ⟨actions, last, middle, course, ran, -⟩ := invoke_course peer spec args context session
  have enters : Reaches peer context.toList session (session.enter context).2 := by
    cases context with
    | none => exact ⟨[.begin], rfl, rfl⟩
    | some stack => exact ⟨[.enter stack], rfl, rfl⟩
  have prepared : Reaches peer context.toList session (session.prepared spec context) := by
    rcases preloadContext_cases spec (session.enter context).1 (session.enter context).2 with
      same | ⟨id, stack, -, -, pushed⟩
    · rwa [Session.prepared, same]
    · rw [Session.prepared, pushed]
      exact enters.act (.preload stack) rfl
  have ended : Reaches peer context.toList session middle := by
    simpa using prepared.trans (Reaches.course course)
  rw [ran]
  cases context with
  | none => exact ended.next .depart rfl rfl
  | some stack =>
    have gone := ended.next (.finish (session.lastContext + 1)) rfl rfl
    exact gone.next .depart rfl rfl

theorem Reaches.call (peer : Peer σ) (spec : FunctionSpec) (scope : ScopeKey) (args : List CallArg)
    (context : Option EvalContext) (session : Session σ) : ∃ begun, begun.Sublist context.toList ∧
      Reaches peer begun session (left (Session.call peer spec scope args context session)) := by
  rcases call_cases peer spec scope args context session with ⟨hit, cache, ran⟩ | ⟨first, last, -, ran⟩
  · rw [ran]
    exact ⟨[], List.nil_sublist _, (refl peer session).act (.remember cache) rfl⟩
  · rw [ran]
    have invoked := ((refl peer session).act (.remember first) rfl).trans (Reaches.invoke peer spec args context _)
    exact ⟨context.toList, .refl _, invoked.act (.remember last) rfl⟩

theorem Reaches.initProtocol (peer : Peer σ) (session : Session σ) :
    Reaches peer [] session (left (Session.initProtocol peer session)) := by
  unfold Session.initProtocol
  split
  · rename_i e offered answer
    exact (refl peer session).next .make rfl (congrArg Prod.snd answer)
  · rename_i link offered answer
    have begins : Reaches peer [] session offered := (refl peer session).next .make rfl (congrArg Prod.snd answer)
    have sent := begins.sendCall "initProtocol" (offered.linkMessage link)
    split
    · rename_i e later failed
      rw [failed] at sent
      exact sent.act (.release link.key) rfl
    · rename_i response later told
      rw [told] at sent
      split
      · exact sent.next (.adopt link) rfl rfl
      · exact sent.act (.release link.key) rfl

end calls
end Moment

def Operation.context? : Operation → Option EvalContext
  | .call _ _ _ context => context
  | _ => none

namespace Moment
open Session
variable {σ : Type}

theorem Reaches.operate (peer : Peer σ) (session : Session σ) (operation : Operation) :
    ∃ begun, begun.Sublist operation.context?.toList ∧
      Reaches peer begun session (Session.operate peer session operation) := by
  cases operation with
  | initProtocol => exact ⟨[], .refl _, .initProtocol peer session⟩
  | shutdownProtocol => exact ⟨[], .refl _, (refl peer session).act .drop rfl⟩
  | beginCompilation => exact ⟨[], .refl _, (refl peer session).next .compile rfl rfl⟩
  | invalidate function => exact ⟨[], .refl _, (refl peer session).act (.remember _) rfl⟩
  | call spec scope args context => exact Reaches.call peer spec scope args context session

theorem after_history (peer : Peer σ) (operations : List Operation) (session : Session σ) :
    ∃ history, (contexts history).Sublist (operations.filterMap Operation.context?) ∧
      after peer operations session = run peer history session := by
  induction operations generalizing session with
  | nil => exact ⟨[], .refl _, rfl⟩
  | cons operation rest ih =>
    obtain ⟨_, first, one, rfl, reached⟩ := Reaches.operate peer session operation
    obtain ⟨two, others, ran⟩ := ih (operate peer session operation)
    refine ⟨one ++ two, ?_, ?_⟩
    · rw [contexts_append, List.filterMap_eq_flatMap_toList, List.flatMap_cons, ← List.filterMap_eq_flatMap_toList]
      exact first.append others
    · rw [run_append, ← reached]
      exact ran

end Moment
end PluginBridge
