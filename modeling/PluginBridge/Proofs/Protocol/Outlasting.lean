import PluginBridge.Proofs.Protocol.Confinement
import PluginBridge.Proofs.Protocol.Preloading
import PluginBridge.Proofs.Protocol.Replies
namespace PluginBridge
open ProtocolRegion (outcome outcome_along outcome_gives)
variable {layout : Layout} {cell : ControlCell} {memory later : Memory} {id other : RegionId} {data : ByteArray}
  {host next : ProtocolHost} {vars : List PreloadedVariable}

namespace Layout

def Spares (layout : Layout) (k : Nat) : Prop :=
  k < layout.preloadOffset ∨ layout.preloadOffset + layout.preloadSize ≤ k

def Beside (layout : Layout) (offset : Nat) (bytes : ByteArray) : Prop :=
  ∀ k, offset ≤ k → k < offset + bytes.size → layout.Spares k

theorem Beside.permits (layout : Layout) (id : RegionId) :
    Permits (Memory.Through id layout.Spares) id layout.Beside :=
  fun _ _ beside => Memory.write_through id beside

theorem Apart.beside {part : Nat × Nat} (apart : Apart (layout.preloadOffset, layout.preloadSize) part) {offset : Nat}
    {bytes : ByteArray} (low : part.1 ≤ offset) (high : offset + bytes.size ≤ part.1 + part.2) :
    layout.Beside offset bytes := by
  intro k least most
  rcases apart with before | behind
  · exact .inr (by omega)
  · exact .inl (by omega)

section accepted
variable (consistent : layout.isConsistent = true)
  (inside : ∀ cell : ControlCell, cell.Present layout.fields → cell.Inside layout)
include consistent

theorem preload_apart : Apart (layout.controlOffset, layout.controlSize) (layout.preloadOffset, layout.preloadSize) ∧
    ∀ part ∈ layout.sections.drop 2, Apart (layout.preloadOffset, layout.preloadSize) part := by
  obtain ⟨first, rest⟩ := List.pairwise_cons.mp (sections_apart consistent)
  exact ⟨first _ List.mem_cons_self, (List.pairwise_cons.mp rest).1⟩

theorem preload_room {size : Nat} (room : layout.totalSize ≤ size) :
    layout.preloadOffset + layout.preloadSize ≤ size :=
  (holding consistent room (layout.preloadOffset, layout.preloadSize) List.mem_cons_self).within

include inside

theorem word_beside (cell : ControlCell) (present : cell.Present layout.fields) (value : UInt32) :
    layout.Beside (cell.offset layout) (Bytes.u32 value) := by
  have within : cell.field layout.fields + 4 ≤ layout.controlSize := inside cell present
  have start : cell.offset layout = layout.controlOffset + cell.field layout.fields := rfl
  have apart : Apart (layout.preloadOffset, layout.preloadSize) (layout.controlOffset, layout.controlSize) :=
    (preload_apart consistent).1.symm
  refine apart.beside ?_ ?_
  · exact Nat.le_add_right _ _
  · rw [Bytes.size_u32]
    change cell.offset layout + 4 ≤ layout.controlOffset + layout.controlSize
    omega

theorem words_beside : WordPlaces layout layout.Beside where
  lower := word_beside consistent inside .requestReady trivial 0
  word cell value present _ := word_beside consistent inside cell present value

theorem host_beside : HostPlaces layout layout.Beside where
  toWordPlaces := words_beside consistent inside
  args _ _ := ((preload_apart consistent).2 (layout.argsOffset, layout.argsSize) (by simp [sections])).beside

theorem peer_beside : PeerPlaces layout layout.Beside where
  toWordPlaces := words_beside consistent inside
  result _ small := ((preload_apart consistent).2 (layout.resultsOffset, layout.resultsSize)
    (by simp [sections])).beside (Nat.le_refl _) (Nat.add_le_add_left small _)
  error _ small := ((preload_apart consistent).2 (layout.errorOffset, layout.errorSize)
    (by simp [sections])).beside (Nat.le_refl _) (Nat.add_le_add_left small _)

end accepted
end Layout

theorem Memory.Through.shared {touched : Nat → Prop} (through : memory.Through id touched later)
    (shared : Shared memory id other data) : ∃ after, Shared later id other after ∧ Differs touched data after := by
  obtain ⟨number, first, second⟩ := shared
  obtain ⟨after, still, differs⟩ := through.views number data first
  obtain ⟨region, found, mapped, numbered, sized⟩ := second.region
  exact ⟨after, ⟨number, still, ⟨region, (through.region other).trans found, mapped, numbered,
    sized.trans differs.size.symm⟩, still.file⟩, differs⟩

inductive HostMove where
  | register (name : String)
  | unregister (name : String)
  | prepare (id : UInt32) (count : Nat)
  | writeArg (index : Nat) (value : WireValue)
  | stage (id : UInt32) (args : List WireValue)
  | signal
  | wait (timeout : Option Duration)
  | readResult
  | clear
  | take
  | call (id : UInt32) (args : List WireValue)
  | preload (vars : List PreloadedVariable)
  | readPreloaded
  | peerReady
  | shutdown

inductive TakerMove where
  | ready
  | stopping
  | poll
  | wait
  | answer (reply : Reply)
  | preloaded

def HostMove.perform (host : ProtocolHost) : HostMove → ProtocolAccess ProtocolHost
  | register name => return (host.registerFunction name).2
  | unregister name => return (host.unregisterFunction name).2
  | prepare id count => host.prepareCall id count
  | writeArg index value => host.writeArg index value
  | stage id args => do return (← host.stageCall id args).1
  | signal => do host.signalRequest; return host
  | wait timeout => do host.waitForResponse timeout; return host
  | readResult => do let _ ← host.readResult; return host
  | clear => do host.clearResponse; return host
  | take => do let _ ← host.takeResponse; return host
  | call id args => do return (← host.call id args).1
  | preload vars => do host.preload vars; return host
  | readPreloaded => do let _ ← host.readPreloaded; return host
  | peerReady => do let _ ← host.peerReady; return host
  | shutdown => do host.requestShutdown; return host

def TakerMove.perform (taker : ProtocolPeer) : TakerMove → ProtocolAccess Unit
  | ready => taker.markReady
  | stopping => do let _ ← taker.shutdownRequested
  | poll => do let _ ← taker.pollRequest
  | wait => do let _ ← taker.waitRequest
  | answer reply => reply.send taker
  | preloaded => do let _ ← taker.preloaded

def HostMove.pushes? : HostMove → Option (List PreloadedVariable)
  | preload vars => some vars
  | _ => none

structure BothEnds where
  host : ProtocolHost
  taker : ProtocolPeer
  memory : Memory
  pushed : Option (List PreloadedVariable)

namespace BothEnds

def byHost (ends : BothEnds) (act : HostMove) : BothEnds :=
  match act.perform ends.host ends.memory with
  | .ok host later => { ends with host := host, memory := later, pushed := act.pushes?.or ends.pushed }
  | .error _ later => { ends with memory := later }

def byPeer (ends : BothEnds) (act : TakerMove) : BothEnds :=
  { ends with memory := left (act.perform ends.taker ends.memory) }

def apply (ends : BothEnds) : HostMove ⊕ TakerMove → BothEnds
  | .inl act => ends.byHost act
  | .inr act => ends.byPeer act

def run (ends : BothEnds) (acts : List (HostMove ⊕ TakerMove)) : BothEnds := acts.foldl apply ends

end BothEnds

namespace ProtocolHost

structure Fits (before after : ProtocolHost) : Prop where
  block : after.block = before.block
  few : after.argCount ≤ before.block.layout.fields.maxArgs

theorem Fits.trans (first : host.Fits next) {last : ProtocolHost} (second : next.Fits last) : host.Fits last :=
  ⟨second.block.trans first.block, first.block ▸ second.few⟩

section fits
variable (few : host.argCount ≤ host.block.layout.fields.maxArgs)
include few

theorem writeArg_fits (index : Nat) (value : WireValue) : Gives host.Fits (host.writeArg index value) :=
  fun memory next later ran =>
    have continues := writeArg_continues index value memory next later ran
    ⟨continues.block, continues.count ▸ few⟩

theorem writeArgs_few (index : Nat) (values : List WireValue) :
    Gives (fun result => host.Fits result.1) (host.writeArgs index values) := by
  induction values generalizing host index with
  | nil => exact .pure ⟨rfl, few⟩
  | cons value rest ih =>
    refine (outcome_gives (writeArg_fits few index value)).bind fun result on => ?_
    cases result with
    | ok next =>
      have first := on next rfl
      exact fun s a t ran => first.trans (ih (first.block ▸ first.few) (index + 1) s a t ran)
    | error e => exact .pure ⟨rfl, few⟩

theorem stageCall_few (id : UInt32) (args : List WireValue) :
    Gives (fun result => host.Fits result.1) (host.stageCall id args) := by
  refine (outcome_gives (prepareCall_gives id args.length)).bind fun result given => ?_
  cases result with
  | ok next =>
    obtain ⟨⟨block, -⟩, count, -, room⟩ := given next rfl
    have first : host.Fits next := ⟨block, count ▸ room⟩
    exact fun s a t ran => first.trans (writeArgs_few (first.block ▸ first.few) 0 args s a t ran)
  | error e => exact .pure ⟨rfl, few⟩

theorem call_few (id : UInt32) (args : List WireValue) :
    Gives (fun result => host.Fits result.1) (host.call id args) := by
  refine (stageCall_few few id args).bind fun result fits => ?_
  obtain ⟨next, staged⟩ := result
  cases staged with
  | ok _ => exact .after fun _ => .pure fits
  | error e => exact .pure fits

theorem perform_fits (act : HostMove) : Gives host.Fits (act.perform host) := by
  have same : ∀ {α : Type} {action : ProtocolAccess α}, Gives host.Fits (do let _ ← action; return host) :=
    .after fun _ => .pure ⟨rfl, few⟩
  cases act with
  | register name =>
    refine .pure ?_
    unfold registerFunction
    split <;> exact ⟨rfl, few⟩
  | unregister name => exact .pure ⟨rfl, few⟩
  | prepare id count =>
    intro memory next later ran
    obtain ⟨⟨block, -⟩, count, -, room⟩ := prepareCall_gives id count memory next later ran
    exact ⟨block, count ▸ room⟩
  | writeArg index value => exact writeArg_fits few index value
  | stage id args => exact (stageCall_few few id args).bind fun _ fits => .pure fits
  | call id args => exact (call_few few id args).bind fun _ fits => .pure fits
  | _ => exact same

end fits

section beside
variable {R : Memory → Memory → Prop} [IsPreorder Memory R] {places : Nat → ByteArray → Prop}
  (permits : Permits R host.block.region places) (laid : HostPlaces host.block.layout places)
  (raise : places (ControlCell.requestReady.offset host.block.layout) (Bytes.u32 1))
include permits laid raise

theorem call_placed (few : host.argCount ≤ host.block.layout.fields.maxArgs) (id : UInt32) (args : List WireValue) :
    Along R (host.call id args) := by
  refine (stageCall_placed permits laid id args).bindGiven (stageCall_few few id args) fun result fits => ?_
  obtain ⟨next, staged⟩ := result
  have block : next.block = host.block := fits.block
  cases staged with
  | error e => exact .pure _
  | ok _ =>
    rw [← block] at permits laid raise
    exact (outcome_along ((signalRequest_placed (permits _ _ raise)).bind fun _ =>
      takeResponse_placed permits laid)).bind fun _ => .pure _

theorem perform_placed (few : host.argCount ≤ host.block.layout.fields.maxArgs) (act : HostMove)
    (other : act.pushes? = none) : Along R (act.perform host) := by
  have after : ∀ {α : Type} {action : ProtocolAccess α}, Along R action → Along R (do let _ ← action; return host) :=
    fun along => along.bind fun _ => .pure _
  cases act with
  | register name => exact .pure _
  | unregister name => exact .pure _
  | prepare id count => exact prepareCall_along permits laid id count
  | writeArg index value => exact writeArg_along permits laid few index value
  | stage id args => exact (stageCall_placed permits laid id args).bind fun _ => .pure _
  | signal => exact after (signalRequest_placed (permits _ _ raise))
  | wait timeout => exact after (.unchanged (host.waitForResponse_left timeout))
  | readResult => exact after (.unchanged host.readResult_left)
  | clear => exact after (clearResponse_along permits laid)
  | take => exact after (takeResponse_placed permits laid)
  | call id args => exact (call_placed permits laid raise few id args).bind fun _ => .pure _
  | preload vars => cases other
  | readPreloaded => exact after (.unchanged (host.block.view_left _ _ _))
  | peerReady =>
    exact after (.unchanged (host.block.syncControl_left.bind fun _ => (host.block.get_left _).bind fun _ => .pure _))
  | shutdown => exact after (requestShutdown_placed permits laid)

end beside

end ProtocolHost

namespace ProtocolPeer
variable {R : Memory → Memory → Prop} [IsPreorder Memory R] {places : Nat → ByteArray → Prop} {taker : ProtocolPeer}

theorem shutdownRequested_left (taker : ProtocolPeer) : Along Eq taker.shutdownRequested :=
  taker.block.syncControl_left.bind fun _ => (taker.block.get_left _).bind fun _ => .pure _

theorem perform_placed (permits : Permits R taker.block.region places) (laid : PeerPlaces taker.block.layout places)
    (act : TakerMove) : Along R (act.perform taker) := by
  cases act with
  | ready => exact markReady_placed permits laid
  | stopping => exact (Along.unchanged taker.shutdownRequested_left).bind fun _ => .pure _
  | poll => exact (pollRequest_placed permits laid).bind fun _ => .pure _
  | wait =>
    refine Along.bind ((pollRequest_placed permits laid).bind fun request => ?_) fun _ => .pure _
    cases request with
    | some request => exact .pure _
    | none => exact (Along.unchanged taker.shutdownRequested_left).bind fun _ => .pure _
  | answer reply => exact send_placed permits laid reply
  | preloaded => exact (Along.unchanged (taker.block.view_left _ _ _)).bind fun _ => .pure _

end ProtocolPeer

namespace BothEnds
variable {ends : BothEnds}

-- Both ends share a region of the layout, in which the variables of the last preload lie.
structure Sound (layout : Layout) (ends : BothEnds) : Prop where
  few : ends.host.argCount ≤ layout.fields.maxArgs
  host : ends.host.block.layout = layout
  taker : ends.taker.block.layout = layout
  lies : ∃ data, Shared ends.memory ends.host.block.region ends.taker.block.region data ∧
    layout.totalSize ≤ data.size ∧ ∀ vars, ends.pushed = some vars → ∃ bytes,
      Preload.encode vars = .ok bytes ∧ bytes.size ≤ layout.preloadSize ∧ Holds data layout.preloadOffset bytes

theorem lies_differs {after : ByteArray} {pushed : Option (List PreloadedVariable)}
    (differs : Differs layout.Spares data after)
    (lies : ∀ vars, pushed = some vars → ∃ bytes, Preload.encode vars = .ok bytes ∧
      bytes.size ≤ layout.preloadSize ∧ Holds data layout.preloadOffset bytes) :
    ∀ vars, pushed = some vars → ∃ bytes, Preload.encode vars = .ok bytes ∧
      bytes.size ≤ layout.preloadSize ∧ Holds after layout.preloadOffset bytes := by
  intro vars last
  obtain ⟨bytes, encoded, short, held⟩ := lies vars last
  refine ⟨bytes, encoded, short, differs.keeps _ _ held fun k low high outside => ?_⟩
  rw [Layout.Spares] at outside
  omega

section accepted
variable (consistent : layout.isConsistent = true)
  (inside : ∀ cell : ControlCell, cell.Present layout.fields → cell.Inside layout)
include consistent inside

theorem Sound.beside (sound : Sound layout ends) (act : HostMove) (other : act.pushes? = none) :
    Sound layout (ends.byHost act) := by
  obtain ⟨few, rfl, taker, data, shared, room, lies⟩ := sound
  have through := ProtocolHost.perform_placed (Layout.Beside.permits _ ends.host.block.region)
    (Layout.host_beside consistent inside)
    (Layout.word_beside consistent inside .requestReady trivial 1) few act other ends.memory
  have fits := ProtocolHost.perform_fits few act ends.memory
  unfold byHost
  cases ran : act.perform ends.host ends.memory with
  | ok next later =>
    rw [ran] at through
    obtain ⟨after, still, differs⟩ := through.shared shared
    obtain ⟨block, few⟩ := fits next later ran
    refine ⟨few, congrArg ProtocolRegion.layout block, taker, after, ?_, differs.size ▸ room, ?_⟩
    · rw [block]
      exact still
    · rw [other]
      exact lies_differs differs lies
  | error e later =>
    rw [ran] at through
    obtain ⟨after, still, differs⟩ := through.shared shared
    exact ⟨few, rfl, taker, after, still, differs.size ▸ room, lies_differs differs lies⟩

omit inside in
theorem Sound.preload (sound : Sound layout ends) (vars : List PreloadedVariable) :
    Sound layout (ends.byHost (.preload vars)) := by
  obtain ⟨few, rfl, taker, data, shared, room, lies⟩ := sound
  have within := Layout.preload_room consistent room
  have same : ∀ {e}, ends.host.preload vars ends.memory = .error e ends.memory →
      ends.byHost (.preload vars) = ends := by
    intro e ran
    have failed : HostMove.perform ends.host (.preload vars) ends.memory = .error e ends.memory := bind_failed ran
    rw [byHost, failed]
  rcases ProtocolHost.preload_cases shared within vars with
    ⟨bytes, later, after, encoded, short, ran, still, sized, held⟩ | ⟨_, _, _, ran⟩ | ⟨_, _, ran⟩
  · have done : HostMove.perform ends.host (.preload vars) ends.memory = .ok ends.host later := bind_done ran
    rw [byHost, done]
    refine ⟨few, rfl, taker, after, still, sized ▸ room, fun last pushed => ?_⟩
    obtain rfl : vars = last := Option.some.inj pushed
    exact ⟨bytes, encoded, short, held⟩
  · rw [same ran]
    exact ⟨few, rfl, taker, data, shared, room, lies⟩
  · rw [same ran]
    exact ⟨few, rfl, taker, data, shared, room, lies⟩

theorem Sound.byPeer (sound : Sound layout ends) (act : TakerMove) : Sound layout (ends.byPeer act) := by
  obtain ⟨few, host, rfl, data, shared, room, lies⟩ := sound
  have through := ProtocolPeer.perform_placed (Layout.Beside.permits _ ends.taker.block.region)
    (Layout.peer_beside consistent inside) act ends.memory
  obtain ⟨after, still, differs⟩ := through.shared shared.symm
  exact ⟨few, host, rfl, after, still.symm, differs.size ▸ room, lies_differs differs lies⟩

theorem Sound.apply (sound : Sound layout ends) (act : HostMove ⊕ TakerMove) : Sound layout (ends.apply act) := by
  cases act with
  | inr act => exact sound.byPeer consistent inside act
  | inl act =>
    cases pushed : act.pushes? with
    | none => exact sound.beside consistent inside act pushed
    | some vars =>
      obtain rfl : act = .preload vars := by
        cases act <;> cases pushed
        rfl
      exact sound.preload consistent vars

theorem Sound.run (sound : Sound layout ends) (acts : List (HostMove ⊕ TakerMove)) : Sound layout (ends.run acts) := by
  induction acts generalizing ends with
  | nil => exact sound
  | cons act rest ih => exact ih (sound.apply consistent inside act)

end accepted

theorem Sound.readable (sound : Sound layout ends) (consistent : layout.isConsistent = true)
    (last : ends.pushed = some vars) (shallow : ∀ var ∈ vars, var.value.depth ≤ WireValue.maxDepth) :
    ends.host.readPreloaded ends.memory = .ok vars ends.memory ∧
      ends.taker.preloaded ends.memory = .ok vars ends.memory := by
  obtain ⟨-, host, taker, data, shared, room, lies⟩ := sound
  obtain ⟨bytes, encoded, short, held⟩ := lies vars last
  have within := Layout.preload_room consistent room
  constructor
  · rw [← host] at within short held
    exact ProtocolRegion.preloaded_read shared within encoded short shallow held
  · rw [← taker] at within short held
    exact ProtocolRegion.preloaded_read shared.symm within encoded short shallow held

theorem run_cons (ends : BothEnds) (act : HostMove ⊕ TakerMove) (rest : List (HostMove ⊕ TakerMove)) :
    ends.run (act :: rest) = (ends.apply act).run rest := rfl

theorem run_pushed {acts : List (HostMove ⊕ TakerMove)} (others : ∀ act, .inl act ∈ acts → act.pushes? = none) :
    (ends.run acts).pushed = ends.pushed := by
  induction acts generalizing ends with
  | nil => rfl
  | cons act rest ih =>
    have here : (ends.apply act).pushed = ends.pushed := by
      cases act with
      | inr act => rfl
      | inl act =>
        have other := others act List.mem_cons_self
        change (ends.byHost act).pushed = ends.pushed
        unfold byHost
        split
        · rw [other, Option.none_or]
        · rfl
    exact (ih fun act among => others act (List.mem_cons_of_mem _ among)).trans here

def start (layout : Layout) (timeout : Duration) (id other : RegionId) (memory : Memory) : BothEnds :=
  ⟨.new ⟨id, layout⟩ timeout, ⟨⟨other, layout⟩⟩, memory, none⟩

theorem preloaded_outlasts (consistent : layout.isConsistent = true)
    (inside : ∀ cell : ControlCell, cell.Present layout.fields → cell.Inside layout)
    (shared : Shared memory id other data) (room : layout.totalSize ≤ data.size) (timeout : Duration)
    {acts : List (HostMove ⊕ TakerMove)} (reached : (start layout timeout id other memory).run acts = ends) :
    (∀ vars, ends.pushed = some vars → (∀ var ∈ vars, var.value.depth ≤ WireValue.maxDepth) →
      ends.host.readPreloaded ends.memory = .ok vars ends.memory ∧
        ends.taker.preloaded ends.memory = .ok vars ends.memory) ∧
    ∀ vars bytes, Preload.encode vars = .ok bytes →
      if bytes.size ≤ layout.preloadSize then
        ∃ later, ends.host.preload vars ends.memory = .ok () later ∧ ends.apply (.inl (.preload vars)) =
          { ends with memory := later, pushed := some vars }
      else ends.host.preload vars ends.memory =
          .error (.sectionFull .preload bytes.size layout.preloadSize) ends.memory ∧
        ends.apply (.inl (.preload vars)) = ends := by
  have begun : Sound layout (start layout timeout id other memory) :=
    ⟨Nat.zero_le _, rfl, rfl, data, shared, room, fun _ last => by cases last⟩
  have sound : Sound layout ends := reached ▸ begun.run consistent inside acts
  refine ⟨fun vars last shallow => sound.readable consistent last shallow, fun vars bytes encoded => ?_⟩
  obtain ⟨-, host, -, data, shared, room, -⟩ := sound
  have within := Layout.preload_room consistent room
  rw [← host] at within ⊢
  -- A push succeeds, or is refused for its size and leaves the earlier one.
  rcases ProtocolHost.preload_cases shared within vars with
    ⟨_, later, _, again, short, ran, _⟩ | ⟨_, again, large, ran⟩ | ⟨_, other, _⟩
  · cases encoded.symm.trans again
    rw [if_pos short]
    have done : HostMove.perform ends.host (.preload vars) ends.memory = .ok ends.host later := bind_done ran
    refine ⟨later, ran, ?_⟩
    rw [apply, byHost, done]
    rfl
  · cases encoded.symm.trans again
    rw [if_neg (Nat.not_le.mpr large)]
    have failed : HostMove.perform ends.host (.preload vars) ends.memory =
      .error (.sectionFull .preload bytes.size ends.host.block.layout.preloadSize) ends.memory := bind_failed ran
    refine ⟨ran, ?_⟩
    rw [apply, byHost, failed]
  · cases encoded.symm.trans other

def twice (size : Nat) : Memory :=
  ⟨#[⟨"k", zeros size, true⟩], #[⟨"k", 0, size, true, .readWrite⟩, ⟨"k", 0, size, false, .readWrite⟩],
    maxFileSize⟩

theorem twice_shared (size : Nat) : Shared (twice size) ⟨0⟩ ⟨1⟩ (zeros size) := by
  have sized : size = (zeros size).size := (size_zeros size).symm
  have stored : ∃ file, (twice size).file? 0 = some file ∧ file.bytes = zeros size := ⟨_, rfl, rfl⟩
  exact ⟨0, ⟨⟨_, rfl, rfl, rfl, sized⟩, stored⟩, ⟨⟨_, rfl, rfl, rfl, sized⟩, stored⟩⟩

theorem preloaded_outlasts_calls :
    let vars : List PreloadedVariable := [⟨"@a", false, .expression [.keyword "b", .boolean true]⟩]
    let calls : List (HostMove ⊕ TakerMove) := [.inl (.stage 1 [.null]), .inl .signal, .inr .poll,
      .inr (.answer (.failure "no")), .inl .take, .inl (.call 2 [])]
    let begun := start .standard ⟨1⟩ ⟨0⟩ ⟨1⟩ (twice Layout.standard.totalSize)
    ∃ ends, begun.run (.inl (.preload vars) :: calls) = ends ∧ ends.pushed = some vars ∧
      ends.host.readPreloaded ends.memory = .ok vars ends.memory ∧
      ends.taker.preloaded ends.memory = .ok vars ends.memory := by
  intro vars calls begun
  have outlasts := fun ends acts => @preloaded_outlasts _ _ _ _ _ ends Layout.standard_consistent
    Layout.standard_separate.inside (twice_shared Layout.standard.totalSize) (Nat.le_of_eq (size_zeros _).symm) ⟨1⟩ acts
  obtain ⟨bytes, encoded, short⟩ := except_checked (show (Preload.encode vars).toOption.any
    (fun bytes => decide (bytes.size ≤ Layout.standard.preloadSize)) = true by decide +kernel)
  have first := (outlasts begun [] rfl).2 vars bytes encoded
  rw [if_pos (of_decide_eq_true short)] at first
  obtain ⟨later, -, done⟩ := first
  have last : (begun.run (.inl (.preload vars) :: calls)).pushed = some vars := by
    rw [run_cons, run_pushed (by simp [calls, HostMove.pushes?]), done]
  generalize reached : begun.run (.inl (.preload vars) :: calls) = ends at last
  exact ⟨ends, rfl, last, (outlasts ends _ reached).1 vars last (by decide)⟩

end BothEnds
end PluginBridge
