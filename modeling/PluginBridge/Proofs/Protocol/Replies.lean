import PluginBridge.Proofs.Protocol.Handshake
import PluginBridge.Proofs.Protocol.Silence
import PluginBridge.Proofs.Region.Keeping
import PluginBridge.Proofs.Text.Lossy
import PluginBridge.Proofs.Wire.Codec
namespace PluginBridge
open ProtocolRegion (access codec outcome)

inductive Reply where
  | value (value : WireValue)
  | failure (text : String)

namespace Reply

def send (taker : ProtocolPeer) : Reply → ProtocolAccess Unit
  | .value answer => taker.respond answer
  | .failure text => taker.respondError text

-- What a host is to get for a reply. A value that the results section cannot hold is a failure.
def shown : Reply → Except ProtocolError WireValue
  | .value answer =>
    match answer.encode with
    | .ok bytes =>
      if Layout.standard.resultsSize < bytes.size then
        .error (.peer (Text.carried
          s!"result of {bytes.size} bytes exceeds the {Layout.standard.resultsSize} byte result section"
          Layout.standard.errorSize))
      else .ok answer
    | .error e => .error (.codec e)
  | .failure text => .error (.peer (Text.carried text Layout.standard.errorSize))

inductive Left (reply : Reply) (data : ByteArray) : Prop where
  | result {value : WireValue} {bytes : ByteArray} : reply.shown = .ok value → value.encode = .ok bytes →
      bytes.size ≤ Layout.standard.resultsSize → ResultLeft .standard data bytes → Left reply data
  | failure {bytes : ByteArray} : reply.shown = .error (.peer (lossyText bytes)) →
      bytes.size ≤ Layout.standard.errorSize → ErrorLeft .standard data bytes → Left reply data

end Reply

-- What a peer writes: a zero for the flag that calls it, and anything behind that flag.
inductive PeerWrites : Nat → ByteArray → Prop where
  | lower : PeerWrites 0 (Bytes.u32 0)
  | behind {offset : Nat} {bytes : ByteArray} : 4 ≤ offset → PeerWrites offset bytes

structure PeerPlaces (layout : Layout) (places : Nat → ByteArray → Prop) : Prop extends WordPlaces layout places where
  result : ∀ bytes : ByteArray, bytes.size ≤ layout.resultsSize → places layout.resultsOffset bytes
  error : ∀ bytes : ByteArray, bytes.size ≤ layout.errorSize → places layout.errorOffset bytes

theorem PeerWrites.laid : PeerPlaces .standard PeerWrites where
  lower := .lower
  word _ _ _ other := .behind (ControlCell.behind_flag other)
  result _ _ := .behind (by decide)
  error _ _ := .behind (by decide)

theorem PeerWrites.silent (id : RegionId) : Permits Memory.Silent id PeerWrites := by
  intro offset bytes place
  refine Memory.write_silent id ?_
  cases place with
  | lower => exact .inr ⟨rfl, rfl⟩
  | behind low => exact .inl low

theorem PeerWrites.through (id : RegionId) : Permits (Memory.Through id fun _ => True) id PeerWrites :=
  fun _ _ _ => Memory.write_through id fun _ _ _ => trivial

namespace ProtocolPeer
open ProtocolRegion
variable {R : Memory → Memory → Prop} [IsPreorder Memory R] {places : Nat → ByteArray → Prop}
  {taker : ProtocolPeer}

theorem readArg_left (taker : ProtocolPeer) (index : Nat) : Along Eq (taker.readArg index) := by
  refine (Along.adapt _ ((Memory.read_left _ _ _).bind fun _ => .pure _)).bind fun offset => ?_
  exact (checkWithin_left _ _ _ _ _).bind fun _ => taker.block.view_left _ _ _

theorem readArgs_left (taker : ProtocolPeer) (count index : Nat) : Along Eq (taker.readArgs count index) := by
  induction count generalizing index with
  | zero => exact .pure _
  | succ count ih => exact (taker.readArg_left index).bind fun _ => (ih (index + 1)).bind fun _ => .pure _

section acts
variable (permits : Permits R taker.block.region places) (laid : PeerPlaces taker.block.layout places)
include permits laid

theorem markReady_placed : Along R taker.markReady :=
  (set_along permits (laid.word .peerReady 1 trivial (by decide))).bind fun _ =>
    .unchanged taker.block.syncControl_left

theorem lowered_placed (id : UInt32) (args : Except ProtocolError (List WireValue)) : Along R (do
    taker.block.set taker.block.layout.fields.requestReady 0
    match args with
    | .ok args => return some ⟨id, args⟩
    | .error e => throw e : ProtocolAccess (Option ProtocolRequest)) := by
  refine (set_along permits laid.lower).bind fun _ => ?_
  cases args with
  | ok args => exact .pure _
  | error e => exact .throw _

theorem pollRequest_placed : Along R taker.pollRequest := by
  unfold pollRequest
  simp only
  refine (Along.unchanged taker.block.syncControl_left).bind fun _ =>
    (Along.unchanged (taker.block.get_left _)).bind fun ready => ?_
  split
  · exact .pure _
  · refine (Along.unchanged (taker.block.get_left _)).bind fun id =>
      (Along.unchanged (taker.block.get_left _)).bind fun count => ?_
    split
    · exact (Along.pure _).bind (lowered_placed permits laid id)
    · exact (outcome_along (.unchanged (taker.readArgs_left _ _))).bind (lowered_placed permits laid id)

theorem signalResponse_along : Along R taker.signalResponse :=
  (set_along permits (laid.word .responseReady 1 trivial (by decide))).bind fun _ =>
    .unchanged taker.block.syncControl_left

theorem respondError_placed (text : String) : Along R (taker.respondError text) := by
  have word : ∀ (cell : ControlCell) {value}, cell.Present taker.block.layout.fields → cell ≠ .requestReady →
      Along R (taker.block.set (cell.field taker.block.layout.fields) value) :=
    fun cell _ present other => set_along permits (laid.word cell _ present other)
  refine (write_along permits (laid.error _ ?_)).bind fun _ => (codec_along _).bind fun _ => ?_
  · rw [ByteArray.size_extract]
    omega
  · exact (word .errorOffset trivial (by decide)).bind fun _ => (codec_along _).bind fun _ =>
      (word .errorSize trivial (by decide)).bind fun _ => (word .errorFlag trivial (by decide)).bind fun _ =>
      signalResponse_along permits laid

theorem respond_placed (value : WireValue) : Along R (taker.respond value) := by
  have word : ∀ (cell : ControlCell) {value}, cell.Present taker.block.layout.fields → cell ≠ .requestReady →
      Along R (taker.block.set (cell.field taker.block.layout.fields) value) :=
    fun cell _ present other => set_along permits (laid.word cell _ present other)
  refine (codec_along _).bind fun bytes => ?_
  simp only
  split
  · exact respondError_placed permits laid _
  · rename_i room
    exact (write_along permits (laid.result _ (Nat.not_lt.mp room))).bind fun _ =>
      (Along.unchanged (Along.adapt _ (Memory.syncRange_left _ _ _))).bind fun _ => (codec_along _).bind fun _ =>
      (word .resultOffset trivial (by decide)).bind fun _ => (codec_along _).bind fun _ =>
      (word .resultSize trivial (by decide)).bind fun _ => (word .errorFlag trivial (by decide)).bind fun _ =>
      signalResponse_along permits laid

theorem send_placed (reply : Reply) : Along R (reply.send taker) := by
  cases reply with
  | value value => exact respond_placed permits laid value
  | failure text => exact respondError_placed permits laid text

end acts

section standard
variable (permits : Permits R taker.block.region PeerWrites) (standard : taker.block.layout = .standard)
include permits standard

theorem markReady_along : Along R taker.markReady := markReady_placed permits (standard ▸ PeerWrites.laid)

theorem pollRequest_along : Along R taker.pollRequest := pollRequest_placed permits (standard ▸ PeerWrites.laid)

theorem send_along (reply : Reply) : Along R (reply.send taker) :=
  send_placed permits (standard ▸ PeerWrites.laid) reply

end standard

end ProtocolPeer

variable {memory : Memory} {data : ByteArray} {other : RegionId} {taker : ProtocolPeer} {reply : Reply}

def Memory.Gone (memory : Memory) (id : RegionId) : Prop :=
  ∃ region, memory.region? id = some region ∧ region.mapping = .unmapped

section gone

theorem Memory.write_gone {id : RegionId} (gone : memory.Gone id) (offset : Nat) (bytes : ByteArray) :
    ∃ e, Memory.write id offset bytes memory = .error e memory := by
  obtain ⟨region, found, unmapped⟩ := gone
  exact ⟨.destroyed region.key, by simp only [write, found, unmapped]⟩

theorem Memory.syncRange_gone {id : RegionId} (gone : memory.Gone id) (offset length : Nat) :
    ∃ e, Memory.syncRange id offset length memory = .error e memory := by
  obtain ⟨region, found, unmapped⟩ := gone
  simp only [syncRange, found, flush, unmapped]
  split <;> exact ⟨_, rfl⟩

theorem Memory.syncRange_faulty {id : RegionId} {region : Region} {positions : List Nat} {position offset length : Nat}
    (found : memory.region? id = some region) (mapped : region.mapping = .faulty positions) (among : position ∈ positions)
    (low : offset ≤ position) (high : position < offset + length) (fits : offset + length ≤ region.size) :
    Memory.syncRange id offset length memory = .error .io memory := by
  have meets : (positions.any fun position => offset ≤ position && position < offset + length) = true :=
    List.any_eq_true.mpr ⟨position, among, by simp [low, high]⟩
  have failed : flush region offset length = .error .io := by
    simp only [flush, mapped, meets, if_true]
  simp only [syncRange, found, if_neg (Nat.not_lt.mpr fits), failed]

theorem ProtocolRegion.access_failed {α : Type} {action : Access α} (failed : ∃ e, action memory = .error e memory) :
    ∃ e, access action memory = .error e memory := by
  obtain ⟨e, failed⟩ := failed
  exact ⟨.region e, by simp only [access, EStateM.adaptExcept, failed]⟩

variable (gone : memory.Gone taker.block.region)
include gone

theorem ProtocolPeer.markReady_gone : ∃ e, taker.markReady memory = .error e memory := by
  obtain ⟨e, failed⟩ := ProtocolRegion.access_failed (Memory.write_gone gone
    (taker.block.layout.control taker.block.layout.fields.peerReady) (Bytes.u32 1))
  exact ⟨e, bind_failed failed⟩

theorem ProtocolPeer.pollRequest_gone : ∃ e, taker.pollRequest memory = .error e memory := by
  obtain ⟨e, failed⟩ := ProtocolRegion.access_failed (Memory.syncRange_gone gone
    taker.block.layout.controlOffset taker.block.layout.controlSize)
  exact ⟨e, bind_failed failed⟩

theorem ProtocolPeer.respondError_gone (text : String) : ∃ e, taker.respondError text memory = .error e memory := by
  obtain ⟨e, failed⟩ := ProtocolRegion.access_failed (Memory.write_gone gone taker.block.layout.errorOffset
    (text.toUTF8.extract 0 (min text.utf8ByteSize taker.block.layout.errorSize)))
  exact ⟨e, bind_failed failed⟩

theorem ProtocolPeer.respond_gone (answer : WireValue) : ∃ e, taker.respond answer memory = .error e memory := by
  unfold respond
  cases encoded : answer.encode with
  | error e => exact ⟨.codec e, rfl⟩
  | ok bytes =>
    rw [bind_done (ProtocolRegion.codec_done memory rfl)]
    by_cases large : taker.block.layout.resultsSize < bytes.size
    · obtain ⟨e, failed⟩ := respondError_gone gone _
      exact ⟨e, (congrFun (if_pos large) memory).trans failed⟩
    · obtain ⟨e, failed⟩ := ProtocolRegion.access_failed
        (Memory.write_gone gone taker.block.layout.resultsOffset bytes)
      exact ⟨e, (congrFun (if_neg large) memory).trans (bind_failed failed)⟩

theorem Reply.send_gone (reply : Reply) : ∃ e, reply.send taker memory = .error e memory := by
  cases reply with
  | value answer => exact ProtocolPeer.respond_gone gone answer
  | failure text => exact ProtocolPeer.respondError_gone gone text

end gone

section shared
variable (serves : Layout.standard.Serves data.size)
include serves

theorem Reply.send_cases (standard : taker.block.layout = .standard)
    (shared : Shared memory taker.block.region other data) (reply : Reply) :
    (∃ later after, reply.send taker memory = .ok () later ∧ Shared later taker.block.region other after ∧
      after.size = data.size ∧ reply.Left after) ∨
      ∃ e, reply.shown = .error (.codec e) ∧ reply.send taker memory = .error (.codec e) memory := by
  have fits : ∀ text : String,
      (text.toUTF8.extract 0 (min text.utf8ByteSize Layout.standard.errorSize)).size ≤ Layout.standard.errorSize := by
    intro text
    rw [ByteArray.size_extract]
    omega
  cases reply with
  | failure text =>
    obtain ⟨later, after, ran, shared, size, left⟩ := ProtocolPeer.respondError_cut (standard ▸ serves) shared text
    rw [standard] at left
    exact .inl ⟨later, after, ran, shared, size, .failure rfl (fits text) left⟩
  | value answer =>
    cases encoded : answer.encode with
    | error e =>
      refine .inr ⟨e, by rw [shown, encoded], ?_⟩
      rw [send, ProtocolPeer.respond, encoded]
      rfl
    | ok bytes =>
      by_cases large : Layout.standard.resultsSize < bytes.size
      · let text := s!"result of {bytes.size} bytes exceeds the {Layout.standard.resultsSize} byte result section"
        obtain ⟨later, after, ran, shared, size, left⟩ := ProtocolPeer.respondError_cut (standard ▸ serves) shared text
        rw [standard] at left
        refine .inl ⟨later, after, ?_, shared, size, .failure ?_ (fits text) left⟩
        · rw [send, ProtocolPeer.respond, encoded, bind_done (ProtocolRegion.codec_done memory rfl), standard]
          simp only [if_pos large]
          exact ran
        · simp only [shown, encoded, if_pos large]
          rfl
      · have room : bytes.size ≤ Layout.standard.resultsSize := Nat.not_lt.mp large
        obtain ⟨later, after, ran, shared, size, left⟩ :=
          ProtocolPeer.respond_done (standard ▸ serves) shared encoded (standard ▸ room)
        rw [standard] at left
        refine .inl ⟨later, after, ran, shared, size, .result ?_ encoded room left⟩
        simp only [shown, encoded, if_neg large]

namespace ProtocolHost
variable {host : ProtocolHost}

omit serves in
theorem takeResponse_answered (host : ProtocolHost) (memory : Memory) : answered (host.takeResponse memory) =
    answered ((do host.waitForResponse none; host.readResult : ProtocolAccess WireValue) memory) := by
  unfold takeResponse
  cases ran : (do host.waitForResponse none; host.readResult : ProtocolAccess WireValue) memory with
  | ok value later =>
    rw [bind_done (ProtocolRegion.outcome_done ran)]
    unfold outcome
    cases cleared : host.clearResponse later <;> simp only [bind, EStateM.bind, cleared] <;> rfl
  | error e later =>
    have kept : outcome (do host.waitForResponse none; host.readResult : ProtocolAccess WireValue) memory =
        .ok (.error e) later := by
      simp only [outcome, ran]
    rw [bind_done kept]
    unfold outcome
    cases cleared : host.clearResponse later <;> simp only [bind, EStateM.bind, cleared] <;> rfl

theorem takeResponse_left (standard : host.block.layout = .standard)
    (shared : Shared memory host.block.region other data) (left : reply.Left data) :
    answered (host.takeResponse memory) = reply.shown ∨
      ∃ e, answered (host.takeResponse memory) = .error e ∧ ¬ e.FromPeer := by
  rw [takeResponse_answered]
  have serves := standard ▸ serves
  cases left with
  | failure shown fits left =>
    rw [← standard] at left fits
    refine .inl ?_
    rw [bind_done (waitForResponse_done serves shared left none), readResult_failed serves shared fits left, shown]
    rfl
  | @result value bytes shown encoded fits left =>
    rw [← standard] at left fits
    rw [bind_done (waitForResponse_done serves shared left none), readResult_read serves shared fits left]
    cases read : WireValue.ofBytes bytes with
    | ok found =>
      obtain rfl : found = value := WireValue.ofBytes_only encoded (Holds.whole bytes) read
      exact .inl shown.symm
    | error e =>
      refine .inr ⟨e, rfl, ?_⟩
      unfold WireValue.ofBytes Cursor.run at read
      split at read
      · cases read
      · rename_i failed
        cases read
        exact WireValue.decodeWithin_fails bytes _ _ _ _ failed

theorem takeResponse_unanswered (standard : host.block.layout = .standard)
    (shared : Shared memory host.block.region other data)
    (unanswered : Holds data (ControlCell.responseReady.offset .standard) (Bytes.u32 0)) :
    answered (host.takeResponse memory) = .error (.timeout host.timeout) := by
  rw [takeResponse_answered]
  rw [← standard] at unanswered
  have waits : host.waitForResponse none memory = .error (.timeout host.timeout) memory := by
    rw [waitForResponse, bind_done (ProtocolRegion.syncControl_done (standard ▸ serves) shared),
      bind_done (ProtocolRegion.get_done shared unanswered)]
    rfl
  rw [bind_failed waits]
  rfl

end ProtocolHost
end shared
end PluginBridge
