import PluginBridge.Proofs.Dispatch.Effects
namespace PluginBridge

def Standing.Spent : Standing → Prop
  | .struck _ | .raised _ | .looked _ | .answered _ _ | .told _ => True
  | _ => False

namespace Action
open Session
variable {σ : Type} {peer : Peer σ} {session : Session σ} {action : Action} {actions rest : List Action}

def isCommand : Action → Bool
  | .send _ _ => true
  | _ => false

def Once (peer : Peer σ) (actions : List Action) (session : Session σ) : Prop :=
  ∀ past action rest, actions = past ++ action :: rest → action.delivers peer (run peer past session) = true →
    ∀ more ∈ rest, more.reaches = false

theorem once_cons : Once peer (action :: rest) session ↔
    (action.delivers peer session = true → ∀ more ∈ rest, more.reaches = false) ∧
      Once peer rest (action.apply peer session) := by
  constructor
  · intro once
    refine ⟨once [] action rest rfl, fun past other others same delivered => ?_⟩
    exact once (action :: past) other others (congrArg (action :: ·) same) delivered
  · rintro ⟨here, later⟩ past other others same delivered
    cases past with
    | nil =>
      cases same
      exact here delivered
    | cons first past =>
      cases same
      exact later past other others rfl delivered

theorem delivers_reaches (delivered : action.delivers peer session = true) : action.reaches = true := by
  cases action with
  | raise => rfl
  | send command data => rfl
  | _ => cases delivered

theorem once_silent (silent : ∀ more ∈ actions, more.reaches = false) : Once peer actions session := by
  intro past action rest same delivered
  have among : action ∈ actions := same ▸ List.mem_append_right past List.mem_cons_self
  exact absurd (delivers_reaches delivered) (Bool.eq_false_iff.mp (silent action among))

theorem once_skip (silent : action.reaches = false) (once : Once peer rest (action.apply peer session)) :
    Once peer (action :: rest) session := by
  refine once_cons.mpr ⟨fun delivered => ?_, once⟩
  exact absurd (delivers_reaches delivered) (Bool.eq_false_iff.mp silent)

theorem once_after {first : List Action} (silent : ∀ action ∈ first, action.reaches = false)
    (once : Once peer rest (run peer first session)) : Once peer (first ++ rest) session := by
  induction first generalizing session with
  | nil => exact once
  | cons action first ih =>
    obtain ⟨here, later⟩ := List.forall_mem_cons.mp silent
    exact once_skip here (ih later once)

theorem Once.append {more : List Action} (once : Once peer actions session)
    (silent : ∀ action ∈ more, action.reaches = false) : Once peer (actions ++ more) session := by
  induction actions generalizing session with
  | nil => exact once_silent silent
  | cons action rest ih =>
    obtain ⟨here, later⟩ := once_cons.mp once
    refine once_cons.mpr ⟨fun delivered => ?_, ih later⟩
    exact List.forall_mem_append.mpr ⟨here delivered, silent⟩

theorem deliveries_silent (silent : ∀ more ∈ actions, more.reaches = false) :
    deliveries peer actions session = 0 := by
  induction actions generalizing session with
  | nil => rfl
  | cons action rest ih =>
    obtain ⟨here, later⟩ := List.forall_mem_cons.mp silent
    have idle : ¬ action.delivers peer session = true :=
      fun delivered => Bool.eq_false_iff.mp here (delivers_reaches delivered)
    rw [deliveries, if_neg idle, ih later]

theorem Once.deliveries (once : Once peer actions session) : Action.deliveries peer actions session ≤ 1 := by
  induction actions generalizing session with
  | nil => exact Nat.zero_le 1
  | cons action rest ih =>
    obtain ⟨here, later⟩ := once_cons.mp once
    rw [Action.deliveries]
    by_cases delivered : action.delivers peer session = true
    · rw [if_pos delivered, deliveries_silent (here delivered)]
    · rw [if_neg delivered, Nat.zero_add]
      exact ih later

end Action

namespace Session
open PluginBridge.Action
variable {σ : Type} {peer : Peer σ} {spec : FunctionSpec} {args : List CallArg} {context : CallContext}
  {session later : Session σ} {standing next last : Standing} {action : Action} {actions : List Action}

theorem Step.spent (step : Step peer spec args context standing session action next) (spent : standing.Spent) :
    next.Spent ∧ action.reaches = false := by
  cases step <;> first | exact spent.elim | exact ⟨trivial, rfl⟩ | exact ⟨spent, rfl⟩

theorem Step.delivers (step : Step peer spec args context standing session action next)
    (delivered : action.delivers peer session = true) : next.Spent := by
  cases step with
  | raise _ _ => trivial
  | strike _ _ => trivial
  | tell data => trivial
  | @offer _ _ data _ =>
    have taken : declines (answered (sendCall peer "callFunctionShm" data session)) = false := by
      simpa [delivers] using delivered
    rw [taken]
    trivial
  | introduce data => exact absurd delivered Bool.false_ne_true
  | _ => cases delivered

theorem Course.silent (course : Course peer spec args context standing session actions last later)
    (spent : standing.Spent) : ∀ action ∈ actions, action.reaches = false := by
  induction course with
  | nil => exact fun _ among => absurd among List.not_mem_nil
  | cons step _ ih =>
    obtain ⟨still, silent⟩ := step.spent spent
    exact List.forall_mem_cons.mpr ⟨silent, ih still⟩

theorem Course.once (course : Course peer spec args context standing session actions last later) :
    Once peer actions session := by
  induction course with
  | nil => exact once_silent fun _ among => absurd among List.not_mem_nil
  | cons step rest ih => exact once_cons.mpr ⟨fun delivered => rest.silent (step.delivers delivered), ih⟩

end Session

namespace Action
open Session
variable {σ : Type} {peer : Peer σ} {session : Session σ}

theorem apply_stream {action : Action} (silent : action.isCommand = false) :
    (action.apply peer session).stream = session.stream := by
  have ignores : Ignores (Session.stream (σ := σ)) :=
    ⟨fun _ _ => rfl, fun _ _ => rfl, fun _ _ => rfl, fun _ _ => rfl⟩
  cases action with
  | enter context => cases context <;> rfl
  | preload stack =>
    obtain ⟨memory, preloaded, only⟩ := ensurePreloaded_only stack session
    rw [Action.apply, only]
  | drop => exact ignores.shutdown (fun _ _ => rfl) (fun _ _ => rfl) session
  | place args => exact (writeCallRegion_stored args session).stream
  | release key => exact (onStore_stored _ session).stream
  | send command data => cases silent
  | leave context =>
    obtain ⟨keys, -, stored⟩ := leave_stored context session
    exact stored.stream
  | _ => exact ignores.plain rfl fun _ _ _ => rfl

theorem run_commands (peer : Peer σ) (actions : List Action) (session : Session σ) :
    (run peer actions session).stream.lastId = session.stream.lastId + actions.countP isCommand := by
  induction actions generalizing session with
  | nil => rfl
  | cons action rest ih =>
    have step : (action.apply peer session).stream.lastId =
        session.stream.lastId + if action.isCommand then 1 else 0 := by
      cases command : action.isCommand with
      | false => exact congrArg Multiplexer.lastId (apply_stream command)
      | true =>
        cases action with
        | send name data => exact (sendCall_aside peer name data session).commands
        | _ => cases command
    have rest := ih (action.apply peer session)
    rw [step] at rest
    rw [List.countP_cons]
    exact rest.trans (by omega)

theorem run_undisturbed (laid : session.LaidOut) (past : List Action) {action : Action} (other : action ≠ .raise) :
    peer.Undisturbed (run peer past session).store.memory (action.apply peer (run peer past session)).store.memory := by
  refine apply_undisturbed ?_ other
  induction past generalizing session with
  | nil => exact laid
  | cons first rest ih => exact ih ((apply_link peer first session).laidOut laid)

end Action

namespace Session
open PluginBridge.Action

variable {σ : Type}

theorem prepared_runs (peer : Peer σ) (spec : FunctionSpec) (context : Option EvalContext) (session : Session σ) :
    ∃ first, session.prepared spec context = run peer first session ∧
      ∀ action ∈ first, action.reaches = false := by
  rcases preloadContext_cases spec (session.enter context).1 (session.enter context).2 with
    same | ⟨id, stack, -, -, pushed⟩
  · refine ⟨[.enter context], ?_, by simp [reaches]⟩
    rw [prepared, same]
    rfl
  · refine ⟨[.enter context, .preload stack], ?_, by simp [reaches]⟩
    rw [prepared, pushed]
    rfl

theorem call_parts (peer : Peer σ) (spec : FunctionSpec) (scope : ScopeKey) (args : List CallArg)
    (context : Option EvalContext) (session : Session σ) :
    (∃ hit cache, call peer spec scope args context session = .ok hit { session with cache := cache }) ∨
    ∃ first cache before actions last middle,
      let begun : Session σ := { session with cache := first }
      (∀ action ∈ before, action.reaches = false) ∧ run peer before begun = begun.prepared spec context ∧
      Course peer spec args (begun.enter context).1 .unseen (begun.prepared spec context) actions last middle ∧
      Concluded (answered (call peer spec scope args context session)) middle last ∧
      left (call peer spec scope args context session) =
        { middle.leave (begun.enter context).1 with cache := cache } ∧
      left (call peer spec scope args context session) = run peer
        (.remember first :: (before ++ (actions ++ [.leave (begun.enter context).1, .remember cache]))) session := by
  rcases call_cases peer spec scope args context session with hit | ⟨first, cache, answer, ran⟩
  · exact .inl hit
  · let begun : Session σ := { session with cache := first }
    obtain ⟨actions, last, middle, course, same, concluded⟩ := invoke_course peer spec args context begun
    obtain ⟨before, ready, quiet⟩ := prepared_runs peer spec context begun
    refine .inr ⟨first, cache, before, actions, last, middle, quiet, ready.symm, course, answer ▸ concluded,
      by rw [ran, same], ?_⟩
    change _ = run peer (before ++ (actions ++ [.leave (begun.enter context).1, .remember cache])) begun
    rw [ran, same, run_append, run_append, ← ready, ← course.runs]
    rfl

theorem call_runs (peer : Peer σ) (spec : FunctionSpec) (scope : ScopeKey) (args : List CallArg)
    (context : Option EvalContext) (session : Session σ) :
    ∃ actions, left (call peer spec scope args context session) = run peer actions session ∧
      Once peer actions session := by
  rcases call_parts peer spec scope args context session with
    ⟨hit, cache, ran⟩ | ⟨first, cache, before, actions, last, middle, quiet, ready, course, -, -, ran⟩
  · refine ⟨[.remember cache], ?_, once_silent fun _ among => List.mem_singleton.mp among ▸ rfl⟩
    rw [ran]
    rfl
  · have ending : ∀ context, ∀ action ∈ [Action.leave context, .remember cache], action.reaches = false := by
      simp [reaches]
    exact ⟨_, ran, once_skip rfl (once_after quiet (ready ▸ course.once.append (ending _)))⟩

-- A call lets the peer execute the function at most once, and nothing more reaches the peer after it
-- was let. Only raising a request makes the host raise one.
theorem call_delivers_once (peer : Peer σ) (spec : FunctionSpec) (scope : ScopeKey) (args : List CallArg)
    (context : Option EvalContext) (session : Session σ) :
    ∃ actions, left (call peer spec scope args context session) = run peer actions session ∧
      (left (call peer spec scope args context session)).stream.lastId =
        session.stream.lastId + actions.countP isCommand ∧
      deliveries peer actions session ≤ 1 ∧ Once peer actions session ∧
      (session.LaidOut → ∀ past action rest, actions = past ++ action :: rest → action ≠ .raise →
        peer.Undisturbed (run peer past session).store.memory
          (action.apply peer (run peer past session)).store.memory) := by
  obtain ⟨actions, ran, once⟩ := call_runs peer spec scope args context session
  refine ⟨actions, ran, ?_, once.deliveries, once, ?_⟩
  · rw [ran]
    exact run_commands peer actions session
  · intro laid past action rest _ other
    exact run_undisturbed laid past other

end Session
end PluginBridge
