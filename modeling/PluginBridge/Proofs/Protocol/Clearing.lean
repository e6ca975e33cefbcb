import PluginBridge.Proofs.Protocol.Exchange
import PluginBridge.Proofs.Protocol.Outlasting
namespace PluginBridge
open ProtocolRegion (codec outcome fromOutcome)
variable {other : RegionId} {memory : Memory} {data : ByteArray} {work : Memory → Memory}

theorem ProtocolRegion.outcome_ran {α : Type} (action : ProtocolAccess α) (memory : Memory) :
    outcome action memory = .ok (answered (action memory)) (left (action memory)) := by
  unfold outcome
  cases action memory <;> rfl

namespace ProtocolHost
variable {host : ProtocolHost}

def finishWhile (work : Memory → Memory) (host : ProtocolHost) : ProtocolAccess WireValue := do
  host.signalRequest
  modify work
  host.takeResponse

def callWhile (work : Memory → Memory) (host : ProtocolHost) (id : UInt32) (args : List WireValue) :
    ProtocolAccess (ProtocolHost × Except ProtocolError WireValue) := do
  let (host, staged) ← host.stageCall id args
  match staged with
  | .ok _ => return (host, ← outcome (host.finishWhile work))
  | .error e => return (host, .error e)

theorem callWhile_idle (host : ProtocolHost) (id : UInt32) (args : List WireValue) :
    host.callWhile (fun memory => memory) id args = host.call id args := rfl

def SharedOn (host : ProtocolHost) (other : RegionId) (work : Memory → Memory) : Prop :=
  ∀ memory data, Shared memory host.block.region other data →
    ∃ after, Shared (work memory) host.block.region other after ∧ after.size = data.size

theorem writeArgs_area : ∀ {args : List WireValue} {host : ProtocolHost} {memory : Memory}
    {data : ByteArray} {index : Nat}, host.block.layout.Serves data.size →
      Shared memory host.block.region other data → index + args.length ≤ host.argCount →
      host.argCount ≤ host.block.layout.fields.maxArgs → host.argCursor ≤ host.block.layout.argsSize →
      ∃ next result later after, Does host.block other (StagingArea host.block.layout index host.argCursor)
        (host.writeArgs index args) memory data (next, result) later after ∧
          next.block = host.block ∧ next.argCursor ≤ host.block.layout.argsSize
  | [], host, memory, data, index, _, shared, _, _, fits =>
    ⟨host, .ok (), memory, data, .pure _ _ shared, rfl, fits⟩
  | value :: rest, host, memory, data, index, serves, shared, few, most, fits => by
    rw [List.length_cons] at few
    by_cases taken : ∃ bytes, value.encode = .ok bytes ∧ host.argCursor + bytes.size ≤ host.block.layout.argsSize
    · obtain ⟨bytes, encoded, room⟩ := taken
      obtain ⟨m1, d1, placed, -, -⟩ := writeArg_done serves shared
        (show index < host.argCount by omega) (by omega) encoded room
      have wrote := placed.widen fun _ => ArgumentArea.staging room
      obtain ⟨next, result, m2, d2, went, block, cursor⟩ := @writeArgs_area rest
        { host with argCursor := host.argCursor + bytes.size } m1 d1 (index + 1) (wrote.serves serves) wrote.shared
        (show index + 1 + rest.length ≤ host.argCount by omega) most room
      refine ⟨next, result, m2, d2, ⟨?_, went.shared, ?_⟩, block, cursor⟩
      · rw [writeArgs, bind_done (ProtocolRegion.outcome_done wrote.ran)]
        exact went.ran
      · exact wrote.differs.trans (went.differs.widen fun k => StagingArea.mono (Nat.le_succ _)
          (Nat.le_add_right _ _))
    · obtain ⟨e, -, failed⟩ := @writeArg_refused memory value host index (by omega) fun bytes encoded =>
        Nat.lt_of_not_le fun room => taken ⟨bytes, encoded, room⟩
      refine ⟨host, .error e, memory, data, ⟨?_, shared, .refl _ _⟩, rfl, fits⟩
      rw [writeArgs, bind_done (ProtocolRegion.outcome_failed failed)]
      rfl

theorem stageCall_lowers (serves : host.block.layout.Serves data.size)
    (shared : Shared memory host.block.region other data) (id : UInt32) {args : List WireValue}
    (few : args.length ≤ host.block.layout.fields.maxArgs) (small : args.length < 0x100000000) :
    ∃ next result later after, host.stageCall id args memory = .ok (next, result) later ∧
      Shared later host.block.region other after ∧ after.size = data.size ∧ host.Cleared later ∧
        next.block = host.block ∧ next.argCursor ≤ host.block.layout.argsSize := by
  obtain ⟨m1, d1, prepared, request, response, -⟩ := prepareCall_done serves shared id few small
  have s1 : host.block.layout.Serves d1.size := prepared.serves serves
  obtain ⟨next, result, m2, d2, wrote, block, cursor⟩ := @writeArgs_area other args
    { host with argCount := args.length, argCursor := 0 } m1 d1 0 s1 prepared.shared
    (by simp) few (Nat.zero_le _)
  have kept : ∀ cell : ControlCell, (∀ slot, cell ≠ .slot slot) → cell.Present host.block.layout.fields →
      Holds d1 (cell.offset host.block.layout) (Bytes.u32 0) → Holds d2 (cell.offset host.block.layout) (Bytes.u32 0) := by
    intro cell scalar present held
    refine wrote.differs.keeps _ _ held fun k low high => ?_
    rw [Bytes.size_u32] at high
    exact stagingArea_cell s1 cell present (fun slot _ => scalar slot) _ k low high
  refine ⟨next, result, m2, d2, ?_, wrote.shared, wrote.differs.size.trans prepared.differs.size, ⟨?_, ?_⟩, block, cursor⟩
  · rw [stageCall, bind_done (ProtocolRegion.outcome_done prepared.ran)]
    exact wrote.ran
  · exact ProtocolRegion.get_done wrote.shared (kept .requestReady (by simp) trivial request)
  · exact ProtocolRegion.get_done wrote.shared (kept .responseReady (by simp) trivial response)

theorem takeResponse_lowers (serves : host.block.layout.Serves data.size)
    (shared : Shared memory host.block.region other data) :
    ∃ after, Shared (left (host.takeResponse memory)) host.block.region other after ∧ after.size = data.size ∧
      host.Cleared (left (host.takeResponse memory)) := by
  let taking : ProtocolAccess WireValue := do
    host.waitForResponse none
    host.readResult
  have still : Along Eq taking := (host.waitForResponse_left none).bind fun _ => host.readResult_left
  obtain ⟨later, after, cleared, down⟩ := clearResponse_does serves shared
  have taken := ProtocolRegion.outcome_ran taking memory
  rw [← still memory] at taken
  have ends : left (host.takeResponse memory) = later := by
    change left ((outcome taking >>= _) memory) = later
    rw [bind_done taken, bind_done (ProtocolRegion.outcome_done cleared.ran)]
    cases answered (taking memory) <;> rfl
  rw [ends]
  exact ⟨after, cleared.shared, cleared.differs.size, down⟩

theorem finishWhile_lowers (serves : host.block.layout.Serves data.size)
    (shared : Shared memory host.block.region other data) (fits : host.argCursor ≤ host.block.layout.argsSize)
    (sharing : host.SharedOn other work) :
    ∃ after, Shared (left (host.finishWhile work memory)) host.block.region other after ∧
      after.size = data.size ∧ host.Cleared (left (host.finishWhile work memory)) := by
  obtain ⟨m1, d1, rang, -⟩ := signalRequest_does serves shared fits
  obtain ⟨d2, worked, size⟩ := sharing m1 d1 rang.shared
  have still : d2.size = data.size := size.trans rang.differs.size
  have ran : host.finishWhile work memory = host.takeResponse (work m1) := by
    rw [finishWhile, bind_done rang.ran]
    rfl
  rw [ran]
  obtain ⟨after, taken, same, down⟩ := takeResponse_lowers (still ▸ serves) worked
  exact ⟨after, taken, same.trans still, down⟩

theorem callWhile_lowers (serves : host.block.layout.Serves data.size)
    (shared : Shared memory host.block.region other data) (sharing : host.SharedOn other work) (id : UInt32)
    {args : List WireValue} (few : args.length ≤ host.block.layout.fields.maxArgs) (small : args.length < 0x100000000) :
    ∃ next result later after, host.callWhile work id args memory = .ok (next, result) later ∧
      Shared later host.block.region other after ∧ after.size = data.size ∧ host.Cleared later ∧
        next.block = host.block := by
  obtain ⟨next, staged, m1, d1, stages, still, size, down, block, fits⟩ := stageCall_lowers serves shared id few small
  cases staged with
  | error e =>
    refine ⟨next, .error e, m1, d1, ?_, still, size, down, block⟩
    rw [callWhile, bind_done stages]
    rfl
  | ok =>
    have same : host.Cleared = next.Cleared := by
      unfold Cleared
      rw [block]
    rw [same]
    obtain ⟨after, finished, kept, lowered⟩ := @finishWhile_lowers other m1 d1 work next (block ▸ size ▸ serves)
      (block ▸ still) (block ▸ fits) (by unfold SharedOn; rw [block]; exact sharing)
    refine ⟨next, answered (next.finishWhile work m1), _, after, ?_, block ▸ finished, kept.trans size, lowered, block⟩
    rw [callWhile, bind_done stages]
    simp only
    rw [bind_done (ProtocolRegion.outcome_ran _ _)]
    rfl

theorem callWhile_crowded (work : Memory → Memory) (id : UInt32) {args : List WireValue}
    (many : host.block.layout.fields.maxArgs < args.length) (memory : Memory) :
    host.callWhile work id args memory =
      .ok (host, .error (.tooManyArguments args.length host.block.layout.fields.maxArgs)) memory := by
  have failed : host.prepareCall id args.length memory =
      .error (.tooManyArguments args.length host.block.layout.fields.maxArgs) memory := by
    rw [prepareCall]
    simp only [if_pos many]
    rfl
  rw [callWhile, stageCall, bind_assoc, bind_done (ProtocolRegion.outcome_failed failed)]
  rfl

-- A call leaves both flags down exactly if it has no more arguments than there are slots, or they
-- were down before: too many are refused before the flags of an earlier call are lowered.
theorem callWhile_cleared_iff (standard : host.block.layout = .standard)
    (shared : Shared memory host.block.region other data) (room : Layout.standard.totalSize ≤ data.size)
    (sharing : host.SharedOn other work) (id : UInt32) (args : List WireValue) :
    ∃ next result later, host.callWhile work id args memory = .ok (next, result) later ∧
      (host.Cleared later ↔ args.length ≤ Layout.maxArgs ∨ host.Cleared memory) := by
  have slots : host.block.layout.fields.maxArgs = Layout.maxArgs := by
    rw [standard]
    rfl
  by_cases few : args.length ≤ Layout.maxArgs
  · have serves : host.block.layout.Serves data.size := standard ▸
      ⟨Layout.standard_consistent, Layout.standard_separate, Layout.standard_addressable, room⟩
    obtain ⟨next, result, later, -, ran, -, -, down, -⟩ := callWhile_lowers serves shared sharing id
      (slots ▸ few) (Nat.lt_of_le_of_lt few (by decide))
    exact ⟨next, result, later, ran, iff_of_true down (.inl few)⟩
  · have ran := callWhile_crowded work id (slots ▸ Nat.lt_of_not_le few) memory
    exact ⟨host, _, memory, ran, ⟨.inr, fun either => either.resolve_left few⟩⟩

end ProtocolHost

theorem ProtocolPeer.moves_shared {host : ProtocolHost} (taker : ProtocolPeer) (moves : List TakerMove) :
    host.SharedOn taker.block.region fun memory =>
      moves.foldl (fun memory move => left (move.perform taker memory)) memory := by
  intro memory data shared
  induction moves generalizing memory data with
  | nil => exact ⟨data, shared, rfl⟩
  | cons move rest ih =>
    have permits : Permits (Memory.Through taker.block.region fun _ => True) taker.block.region fun _ _ => True :=
      fun _ _ _ => Memory.write_through _ fun _ _ _ => trivial
    have through := taker.perform_placed permits ⟨⟨trivial, fun _ _ _ _ => trivial⟩, fun _ _ => trivial,
      fun _ _ => trivial⟩ move memory
    obtain ⟨between, still, differs⟩ := through.shared shared.symm
    obtain ⟨after, last, size⟩ := ih _ between still.symm
    exact ⟨after, last, size.trans differs.size⟩

namespace ProtocolHost

theorem callWhile_cleared_answered :
    let host : ProtocolHost := .new ⟨⟨0⟩, .standard⟩ ⟨1000⟩
    let peer : ProtocolPeer := ⟨⟨1⟩, .standard⟩
    let moves : List TakerMove := [.poll, .answer (.value (.keyword "px"))]
    ∃ next result later, host.callWhile (fun memory => moves.foldl (fun memory move => left (move.perform peer memory)) memory)
      7 [.null] (BothEnds.twice Layout.standard.totalSize) = .ok (next, result) later ∧
        (host.Cleared later ↔ 1 ≤ Layout.maxArgs ∨ host.Cleared (BothEnds.twice Layout.standard.totalSize)) := by
  intro host peer moves
  exact callWhile_cleared_iff rfl (BothEnds.twice_shared Layout.standard.totalSize) (Nat.le_of_eq (size_zeros _).symm)
    (peer.moves_shared moves) 7 [.null]

-- A call is not answered in time, and the response comes before a call with too many arguments.
theorem call_leaves_late_response : ∃ (host next : ProtocolHost) (peer : ProtocolPeer) (memory m1 m2 : Memory)
    (data : ByteArray) (result : Except ProtocolError WireValue), host.block.layout = .standard ∧
      host.call 7 [] memory = .ok (next, result) m1 ∧ peer.respond .null m1 = .ok () m2 ∧
      Shared m2 next.block.region peer.block.region data ∧ Layout.standard.totalSize ≤ data.size ∧
      next.call 7 (List.replicate 17 .null) m2 = .ok (next, .error (.tooManyArguments 17 16)) m2 ∧
      ¬ next.Cleared m2 := by
  let host : ProtocolHost := .new ⟨⟨0⟩, .standard⟩ ⟨1⟩
  let peer : ProtocolPeer := ⟨⟨1⟩, .standard⟩
  have size : (zeros Layout.standard.totalSize).size = Layout.standard.totalSize := size_zeros _
  have serves : Layout.standard.Serves (zeros Layout.standard.totalSize).size :=
    ⟨Layout.standard_consistent, Layout.standard_separate, Layout.standard_addressable, Nat.le_of_eq size.symm⟩
  obtain ⟨next, result, m1, d1, first, shared, same, -, block⟩ := @callWhile_lowers ⟨1⟩
    (BothEnds.twice Layout.standard.totalSize) _ (fun memory => memory) host serves (BothEnds.twice_shared _)
    (fun _ data shared => ⟨data, shared, rfl⟩) 7 [] (by decide) (by decide)
  rw [callWhile_idle] at first
  obtain ⟨m2, d2, responded, answered, still, answer⟩ := @ProtocolPeer.respond_done ⟨0⟩ m1 d1 peer (same ▸ serves)
    shared.symm .null _ rfl (by decide)
  have ready : next.block.get next.block.layout.fields.responseReady m2 = .ok 1 m2 := by
    rw [block]
    exact @ProtocolRegion.get_done .responseReady host.block _ m2 d2 answered.symm 1 answer.ready
  have crowded := @callWhile_crowded next (fun memory => memory) 7 (List.replicate 17 .null) (by rw [block]; decide) m2
  refine ⟨host, next, peer, _, m1, m2, d2, result, rfl, first, responded, ?_, ?_, ?_, fun down => ?_⟩
  · rw [block]
    exact answered.symm
  · rw [still, same, size]
  · rw [callWhile_idle, block] at crowded
    exact crowded
  · cases ready.symm.trans down.2

end ProtocolHost
end PluginBridge
