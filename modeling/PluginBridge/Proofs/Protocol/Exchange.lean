import PluginBridge.Dispatch.Routes
import PluginBridge.Proofs.Protocol.Handshake
namespace PluginBridge
open ProtocolRegion (access codec outcome)
variable {other : RegionId} {memory : Memory} {data after : ByteArray} {value : WireValue}
  {bytes : ByteArray}

theorem ProtocolRegion.outcome_failed {α : Type} {action : ProtocolAccess α} {later : Memory}
    {e : ProtocolError} (ran : action memory = .error e later) :
    outcome action memory = .ok (.error e) later := by
  simp only [outcome, ran]

namespace ProtocolHost
variable {host : ProtocolHost}

theorem writeArg_refused {index : Nat} (early : index < host.argCount)
    (refused : ∀ bytes, value.encode = .ok bytes →
      host.block.layout.argsSize < host.argCursor + bytes.size) :
    ∃ e, Session.isSizeFault e = true ∧ host.writeArg index value memory = .error e memory := by
  cases encoded : value.encode with
  | error e =>
    have failed : codec value.encode memory = .error (.codec e) memory := by
      rw [encoded]
      rfl
    refine ⟨.codec e, rfl, ?_⟩
    rw [writeArg]
    simp only [if_neg (Nat.not_le.mpr early)]
    exact bind_failed failed
  | ok bytes =>
    have short : host.block.layout.argsSize - host.argCursor < bytes.size := by
      have long := refused bytes encoded
      have least := WireValue.encode_size encoded
      omega
    refine ⟨.sectionFull .arguments bytes.size (host.block.layout.argsSize - host.argCursor), rfl, ?_⟩
    rw [writeArg]
    simp only [if_neg (Nat.not_le.mpr early)]
    rw [bind_done (ProtocolRegion.codec_done memory encoded)]
    simp only [if_pos short]
    rfl

theorem stageCall_refused (serves : host.block.layout.Serves data.size)
    (shared : Shared memory host.block.region other data) (id : UInt32)
    (room : 1 ≤ host.block.layout.fields.maxArgs)
    (refused : ∀ bytes, value.encode = .ok bytes → host.block.layout.argsSize < bytes.size) :
    ∃ e later after, Session.isSizeFault e = true ∧
      Does host.block other (fun _ => True) (host.stageCall id [value]) memory data
        ({ host with argCount := 1, argCursor := 0 }, .error e) later after := by
  obtain ⟨later, after, prepared, -⟩ := prepareCall_done serves shared id room (by decide)
  obtain ⟨e, fault, failed⟩ := @writeArg_refused later value
    { host with argCount := 1, argCursor := 0 } 0 Nat.one_pos
    (fun bytes encoded => by simpa using refused bytes encoded)
  refine ⟨e, later, after, fault, ?_, prepared.shared, prepared.differs.widen fun _ _ => trivial⟩
  rw [stageCall, List.length_singleton, bind_done (ProtocolRegion.outcome_done prepared.ran)]
  simp only
  rw [writeArgs, bind_done (ProtocolRegion.outcome_failed failed)]
  rfl

theorem encodeAll_one (encoded : value.encode = .ok bytes) : WireValue.encodeAll [value] = .ok bytes := by
  rw [WireValue.encodeAll, except_done encoded]
  exact congrArg Except.ok ByteArray.append_empty

theorem exchange_done {peer : ProtocolPeer} {id : UInt32} {answer : ByteArray} {args : List WireValue}
    (agree : peer.block.layout = host.block.layout) (serves : host.block.layout.Serves data.size)
    (shared : Shared memory host.block.region peer.block.region data)
    (few : args.length ≤ host.block.layout.fields.maxArgs) (count : args.length < 0x100000000)
    (shallow : ∀ value ∈ args, value.depth ≤ WireValue.maxDepth)
    (fits : host.argCursor ≤ host.block.layout.argsSize)
    (staged : CallStaged host.block.layout data id args) (flat : value.depth ≤ WireValue.maxDepth)
    (encoded : value.encode = .ok answer) (room : answer.size ≤ host.block.layout.resultsSize) :
    ∃ m1 m2 m3 m4 d4, host.signalRequest memory = .ok () m1 ∧
      peer.pollRequest m1 = .ok (some ⟨id, args⟩) m2 ∧ peer.respond value m2 = .ok () m3 ∧
      host.takeResponse m3 = .ok value m4 ∧ Shared m4 host.block.region peer.block.region d4 ∧
      d4.size = data.size := by
  obtain ⟨m1, d1, rang, rung, still⟩ := signalRequest_done serves shared few fits staged
  have s1 : host.block.layout.Serves d1.size := rang.serves serves
  obtain ⟨m2, d2, polled, -⟩ := @ProtocolPeer.pollRequest_done _ m1 d1 peer (agree ▸ s1) rang.shared.symm id
    args (agree ▸ few) count shallow (agree ▸ rung) (agree ▸ still)
  have s2 : peer.block.layout.Serves d2.size := polled.serves (agree ▸ s1)
  obtain ⟨m3, d3, responded, answered, size, left⟩ := ProtocolPeer.respond_done s2 polled.shared encoded
    (agree ▸ room)
  have s3 : host.block.layout.Serves d3.size := size ▸ agree ▸ s2
  have result : ResultLeft host.block.layout d3 answer := agree ▸ left
  obtain ⟨m4, d4, cleared, _⟩ := clearResponse_does s3 answered.symm
  refine ⟨m1, m2, m3, m4, d4, rang.ran, polled.ran, responded, ?_, cleared.shared, ?_⟩
  · have waited := waitForResponse_done s3 answered.symm result none
    have read := readResult_value s3 answered.symm encoded flat room result
    have taken : (do host.waitForResponse none; host.readResult) m3 = .ok value m3 :=
      (bind_done waited).trans read
    rw [takeResponse, bind_done (ProtocolRegion.outcome_done taken),
      bind_done (ProtocolRegion.outcome_done cleared.ran)]
    rfl
  · rw [cleared.differs.size, size, polled.differs.size, rang.differs.size]

end ProtocolHost
end PluginBridge
