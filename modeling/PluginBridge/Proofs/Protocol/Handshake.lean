import PluginBridge.Proofs.Protocol.Staging
namespace PluginBridge
open ProtocolRegion (access codec)
variable {other : RegionId} {memory : Memory} {data after : ByteArray}

-- The words and the bytes that a peer leaves as its response. `flag` tells a failure from a
-- result, and `place` and `length` are the cells that say where the bytes stand.
structure Answer (layout : Layout) (data : ByteArray) (flag : UInt32) (place length : ControlCell)
    (start : Nat) (bytes : ByteArray) : Prop where
  ready : Holds data (ControlCell.responseReady.offset layout) (Bytes.u32 1)
  flagged : Holds data (ControlCell.errorFlag.offset layout) (Bytes.u32 flag)
  place : Holds data (place.offset layout) (Bytes.u32 (UInt32.ofNat start))
  length : Holds data (length.offset layout) (Bytes.u32 (UInt32.ofNat bytes.size))
  bytes : Holds data start bytes

def ResultLeft (layout : Layout) (data bytes : ByteArray) : Prop :=
  Answer layout data 0 .resultOffset .resultSize layout.resultsOffset bytes

def ErrorLeft (layout : Layout) (data bytes : ByteArray) : Prop :=
  Answer layout data 1 .errorOffset .errorSize layout.errorOffset bytes

namespace ProtocolPeer
variable {peer : ProtocolPeer}

theorem markReady_done (serves : peer.block.layout.Serves data.size)
    (shared : Shared memory peer.block.region other data) :
    ∃ later after, Does peer.block other (Touches peer.block.layout fun cell => cell = .peerReady)
      peer.markReady memory data () later after := by
  obtain ⟨later, after, marked, _⟩ := ProtocolRegion.set_done serves shared .peerReady trivial 1
  have synced := ProtocolRegion.syncControl_done (marked.serves serves) marked.shared
  refine ⟨later, after, ?_, marked.shared, marked.differs⟩
  rw [markReady, bind_done marked.ran, synced]

theorem signalResponse_done (serves : peer.block.layout.Serves data.size)
    (shared : Shared memory peer.block.region other data) :
    ∃ later after, Does peer.block other (Touches peer.block.layout fun cell => cell = .responseReady)
      peer.signalResponse memory data () later after ∧
        Holds after (ControlCell.responseReady.offset peer.block.layout) (Bytes.u32 1) := by
  obtain ⟨later, after, rung, held⟩ := ProtocolRegion.set_done serves shared .responseReady trivial 1
  have still : peer.block.layout.Serves after.size := rung.serves serves
  refine ⟨later, after, ⟨?_, rung.shared, rung.differs⟩, held⟩
  rw [signalResponse, bind_done rung.ran, ProtocolRegion.syncControl_done still rung.shared]

theorem report_done (serves : peer.block.layout.Serves data.size)
    (shared : Shared memory peer.block.region other data) (flag : UInt32) (place length : ControlCell)
    (cells : place = .resultOffset ∧ length = .resultSize ∨ place = .errorOffset ∧ length = .errorSize)
    {start size : Nat} (holding : peer.block.layout.Holding data.size start size) {bytes : ByteArray}
    (fits : bytes.size ≤ size) (low : start < 0x100000000) (short : size < 0x100000000)
    (held : Holds data start bytes) :
    ∃ later after, Shared later peer.block.region other after ∧ after.size = data.size ∧
      (do
        peer.block.set (place.field peer.block.layout.fields) (← codec (Bytes.word32? start))
        peer.block.set (length.field peer.block.layout.fields) (← codec (Bytes.word32? bytes.size))
        peer.block.set peer.block.layout.fields.errorFlag flag
        peer.signalResponse : ProtocolAccess Unit) memory = .ok () later ∧
      Answer peer.block.layout after flag place length start bytes := by
  have present : place.Present peer.block.layout.fields ∧ length.Present peer.block.layout.fields := by
    rcases cells with ⟨rfl, rfl⟩ | ⟨rfl, rfl⟩ <;> exact ⟨trivial, trivial⟩
  have apart : place ≠ length ∧ place ≠ .errorFlag ∧ place ≠ .responseReady ∧ length ≠ .errorFlag ∧
      length ≠ .responseReady := by
    rcases cells with ⟨rfl, rfl⟩ | ⟨rfl, rfl⟩ <;> decide
  obtain ⟨m1, d1, placed, placeHeld⟩ := ProtocolRegion.set_done serves shared place present.1
    (UInt32.ofNat start)
  have s1 : peer.block.layout.Serves d1.size := placed.serves serves
  obtain ⟨m2, d2, sized, sizeHeld⟩ := ProtocolRegion.set_done s1 placed.shared length present.2
    (UInt32.ofNat bytes.size)
  have s2 : peer.block.layout.Serves d2.size := sized.serves s1
  obtain ⟨m3, d3, flagged, flagHeld⟩ := ProtocolRegion.set_done s2 sized.shared .errorFlag trivial flag
  have s3 : peer.block.layout.Serves d3.size := flagged.serves s2
  obtain ⟨m4, d4, rung, readyHeld⟩ := signalResponse_done s3 flagged.shared
  have startWord := ProtocolRegion.codec_done memory (word32_done low)
  have sizeWord := ProtocolRegion.codec_done m1 (word32_done (Nat.lt_of_le_of_lt fits short))
  refine ⟨m4, d4, rung.shared, ?_, ?_, readyHeld, ?_, ?_, ?_, ?_⟩
  · rw [rung.differs.size, flagged.differs.size, sized.differs.size, placed.differs.size]
  · rw [bind_done startWord, bind_done placed.ran, bind_done sizeWord, bind_done sized.ran,
      bind_done flagged.ran, rung.ran]
  · exact rung.differs.keepsCell s3 .errorFlag trivial (by simp) flagHeld
  · have kept := sized.differs.keepsCell s1 place present.1 apart.1 placeHeld
    have again := flagged.differs.keepsCell s2 place present.1 apart.2.1 kept
    exact rung.differs.keepsCell s3 place present.1 apart.2.2.1 again
  · have kept := flagged.differs.keepsCell s2 length present.2 apart.2.2.2.1 sizeHeld
    exact rung.differs.keepsCell s3 length present.2 apart.2.2.2.2 kept
  · have clear : ∀ {cells : ControlCell → Prop} (k : Nat), start ≤ k → k < start + bytes.size →
        ¬ Touches peer.block.layout cells k :=
      fun k low high => touches_outside serves holding low (by omega)
    exact rung.differs.keeps _ _ (flagged.differs.keeps _ _ (sized.differs.keeps _ _
      (placed.differs.keeps _ _ held clear) clear) clear) clear

theorem respond_done (serves : peer.block.layout.Serves data.size)
    (shared : Shared memory peer.block.region other data) {value : WireValue} {bytes : ByteArray}
    (encoded : value.encode = .ok bytes) (fits : bytes.size ≤ peer.block.layout.resultsSize) :
    ∃ later after, peer.respond value memory = .ok () later ∧
      Shared later peer.block.region other after ∧ after.size = data.size ∧
        ResultLeft peer.block.layout after bytes := by
  have least := WireValue.encode_size encoded
  have within := serves.results.within
  have addressable := serves.addressable.results
  obtain ⟨m1, d1, written, held⟩ := ProtocolRegion.write_done shared
    (show peer.block.layout.resultsOffset + bytes.size ≤ data.size by omega)
  have s1 : peer.block.layout.Serves d1.size := written.serves serves
  have room := s1.results.within
  have flushed := ProtocolRegion.access_done (written.shared.syncRange
    (show peer.block.layout.resultsOffset + max bytes.size 1 ≤ d1.size by omega))
  obtain ⟨later, after, still, size, ran, left⟩ := report_done s1 written.shared 0 .resultOffset
    .resultSize (.inl ⟨rfl, rfl⟩) s1.results fits addressable.1 addressable.2 held
  refine ⟨later, after, ?_, still, size.trans written.differs.size, left⟩
  have read := ProtocolRegion.codec_done memory encoded
  rw [respond, bind_done read]
  simp only [if_neg (Nat.not_lt.mpr fits)]
  rw [bind_done written.ran, bind_done flushed]
  exact ran

theorem respondError_cut (serves : peer.block.layout.Serves data.size)
    (shared : Shared memory peer.block.region other data) (text : String) :
    ∃ later after, peer.respondError text memory = .ok () later ∧
      Shared later peer.block.region other after ∧ after.size = data.size ∧
        ErrorLeft peer.block.layout after
          (text.toUTF8.extract 0 (min text.utf8ByteSize peer.block.layout.errorSize)) := by
  have fits : (text.toUTF8.extract 0 (min text.utf8ByteSize peer.block.layout.errorSize)).size ≤
      peer.block.layout.errorSize := by
    rw [ByteArray.size_extract]
    omega
  have within := serves.error.within
  have addressable := serves.addressable.error
  obtain ⟨m1, d1, written, held⟩ := ProtocolRegion.write_done shared (Nat.le_trans (Nat.add_le_add_left fits _) within)
  have s1 : peer.block.layout.Serves d1.size := written.serves serves
  obtain ⟨later, after, still, same, ran, left⟩ := report_done s1 written.shared 1 .errorOffset
    .errorSize (.inr ⟨rfl, rfl⟩) s1.error fits addressable.1 addressable.2 held
  refine ⟨later, after, ?_, still, same.trans written.differs.size, left⟩
  rw [respondError, bind_done written.ran]
  exact ran

theorem respondError_done (serves : peer.block.layout.Serves data.size)
    (shared : Shared memory peer.block.region other data) {text : String}
    (fits : text.utf8ByteSize ≤ peer.block.layout.errorSize) :
    ∃ later after, peer.respondError text memory = .ok () later ∧
      Shared later peer.block.region other after ∧ after.size = data.size ∧
        ErrorLeft peer.block.layout after text.toUTF8 := by
  have size : text.toUTF8.size = text.utf8ByteSize := rfl
  have whole : text.toUTF8.extract 0 (min text.utf8ByteSize peer.block.layout.errorSize) =
      text.toUTF8 := by
    rw [Nat.min_eq_left fits, ← size, ByteArray.extract_zero_size]
  have cut := respondError_cut serves shared text
  rwa [whole] at cut

end ProtocolPeer
namespace ProtocolHost
variable {host : ProtocolHost} {bytes : ByteArray} {flag : UInt32} {place length : ControlCell} {start : Nat}

theorem waitForResponse_done (serves : host.block.layout.Serves data.size)
    (shared : Shared memory host.block.region other data)
    (answer : Answer host.block.layout data flag place length start bytes) (timeout : Option Duration) :
    host.waitForResponse timeout memory = .ok () memory := by
  rw [waitForResponse, bind_done (ProtocolRegion.syncControl_done serves shared),
    bind_done (ProtocolRegion.get_done shared answer.ready)]
  rfl

theorem readResult_read (serves : host.block.layout.Serves data.size)
    (shared : Shared memory host.block.region other data) (fits : bytes.size ≤ host.block.layout.resultsSize)
    (left : ResultLeft host.block.layout data bytes) :
    host.readResult memory = match WireValue.ofBytes bytes with
      | .ok value => .ok value memory
      | .error e => .error e memory := by
  have within := serves.results.within
  have addressable := serves.addressable.results
  have startNumber : (UInt32.ofNat host.block.layout.resultsOffset).toNat =
      host.block.layout.resultsOffset := toNat_word (by omega)
  have sizeNumber : (UInt32.ofNat bytes.size).toNat = bytes.size := toNat_word (by omega)
  have checked := @ProtocolRegion.checkWithin_done memory .result host.block.layout.resultsOffset bytes.size
    host.block.layout.resultsOffset host.block.layout.resultsSize (Nat.le_refl _) (by omega)
  have read := ProtocolRegion.access_done
    (shared.read (show host.block.layout.resultsOffset + bytes.size ≤ data.size by omega))
  rw [readResult, bind_done (ProtocolRegion.get_done shared left.flagged), if_neg (by decide),
    bind_done (ProtocolRegion.get_done shared left.place),
    bind_done (ProtocolRegion.get_done shared left.length), startNumber, sizeNumber, bind_done checked,
    ProtocolRegion.view, bind_done read, left.bytes.exact]
  cases WireValue.ofBytes bytes <;> rfl

theorem readResult_value (serves : host.block.layout.Serves data.size)
    (shared : Shared memory host.block.region other data) {value : WireValue}
    (encoded : value.encode = .ok bytes) (shallow : value.depth ≤ WireValue.maxDepth)
    (fits : bytes.size ≤ host.block.layout.resultsSize)
    (left : ResultLeft host.block.layout data bytes) : host.readResult memory = .ok value memory := by
  rw [readResult_read serves shared fits left, WireValue.ofBytes_held encoded shallow (Holds.whole bytes)]

theorem readResult_failed (serves : host.block.layout.Serves data.size)
    (shared : Shared memory host.block.region other data) (fits : bytes.size ≤ host.block.layout.errorSize)
    (left : ErrorLeft host.block.layout data bytes) :
    host.readResult memory = .error (.peer (lossyText bytes)) memory := by
  have within := serves.error.within
  have addressable := serves.addressable.error
  have startNumber : (UInt32.ofNat host.block.layout.errorOffset).toNat =
      host.block.layout.errorOffset := toNat_word (by omega)
  have sizeNumber : (UInt32.ofNat bytes.size).toNat = bytes.size := toNat_word (by omega)
  have checked := @ProtocolRegion.checkWithin_done memory .error host.block.layout.errorOffset
    bytes.size host.block.layout.errorOffset host.block.layout.errorSize (Nat.le_refl _) (by omega)
  have viewed : host.block.view host.block.layout.errorOffset bytes.size
      (fun bytes => .ok (lossyText bytes)) memory = .ok (lossyText bytes) memory :=
    ProtocolRegion.view_done shared (by omega) (by rw [left.bytes.exact])
  rw [readResult, bind_done (ProtocolRegion.get_done shared left.flagged), if_pos rfl,
    bind_done (ProtocolRegion.get_done shared left.place),
    bind_done (ProtocolRegion.get_done shared left.length), startNumber, sizeNumber, bind_done checked,
    bind_done viewed]
  rfl

theorem readResult_error (serves : host.block.layout.Serves data.size)
    (shared : Shared memory host.block.region other data) {text : String}
    (fits : text.utf8ByteSize ≤ host.block.layout.errorSize)
    (left : ErrorLeft host.block.layout data text.toUTF8) :
    host.readResult memory = .error (.peer text) memory := by
  have back : lossyText text.toUTF8 = text := by
    rw [lossyText, utf8_back]
  have short : text.toUTF8.size ≤ host.block.layout.errorSize := fits
  rw [readResult_failed serves shared short left, back]

def Cleared (host : ProtocolHost) (memory : Memory) : Prop :=
  host.block.get host.block.layout.fields.requestReady memory = .ok 0 memory ∧
    host.block.get host.block.layout.fields.responseReady memory = .ok 0 memory

theorem clearResponse_does (serves : host.block.layout.Serves data.size)
    (shared : Shared memory host.block.region other data) :
    ∃ later after, Does host.block other (fun _ => True) host.clearResponse memory data () later after ∧
      Cleared host later := by
  obtain ⟨later, after, cleared, each⟩ := ProtocolRegion.setAll_done serves shared 0
    [.requestReady, .responseReady] (by simp [ControlCell.Present])
  have reset : host.block.setAll 0 [host.block.layout.fields.requestReady,
      host.block.layout.fields.responseReady] memory = .ok () later := cleared.ran
  have still : host.block.layout.Serves after.size := cleared.serves serves
  refine ⟨later, after, ⟨?_, cleared.shared, cleared.differs.widen fun _ _ => trivial⟩,
    ProtocolRegion.get_done cleared.shared (each .requestReady (by simp)),
    ProtocolRegion.get_done cleared.shared (each .responseReady (by simp))⟩
  rw [clearResponse, bind_done reset, ProtocolRegion.syncControl_done still cleared.shared]

theorem clearResponse_done (serves : host.block.layout.Serves data.size)
    (shared : Shared memory host.block.region other data) :
    ∃ later, host.clearResponse memory = .ok () later ∧ Cleared host later := by
  obtain ⟨later, _, cleared, down⟩ := clearResponse_does serves shared
  exact ⟨later, cleared.ran, down⟩

structure Takes (host : ProtocolHost) (memory : Memory) (result : Except ProtocolError WireValue) : Prop where
  waits : ∀ timeout, host.waitForResponse timeout memory = .ok () memory
  reads : host.readResult memory = match result with
    | .ok value => .ok value memory
    | .error e => .error e memory
  clears : ∃ later, host.clearResponse memory = .ok () later ∧ Cleared host later

end ProtocolHost

-- A call goes from the host to the peer and its response back, whatever the region held and
-- whatever the host had staged before.
theorem call_handshake {host : ProtocolHost} {peer : ProtocolPeer}
    (agree : peer.block.layout = host.block.layout)
    (shared : Shared memory host.block.region peer.block.region data)
    (consistent : host.block.layout.isConsistent = true) (separate : host.block.layout.Separate)
    (addressable : host.block.layout.Addressable) (room : host.block.layout.totalSize ≤ data.size)
    (id : UInt32) {args : List WireValue} {bytes : ByteArray}
    (few : args.length ≤ host.block.layout.fields.maxArgs)
    (shallow : ∀ value ∈ args, value.depth ≤ WireValue.maxDepth)
    (encoded : WireValue.encodeAll args = .ok bytes) (fits : bytes.size ≤ host.block.layout.argsSize) :
    ∃ staged m1 m2 m3, host.stageCall id args memory = .ok (staged, .ok ()) m1 ∧
      staged.signalRequest m1 = .ok () m2 ∧ peer.pollRequest m2 = .ok (some ⟨id, args⟩) m3 ∧
      (∀ value answer, value.depth ≤ WireValue.maxDepth → value.encode = .ok answer →
        answer.size ≤ host.block.layout.resultsSize →
          ∃ m4, peer.respond value m3 = .ok () m4 ∧ staged.Takes m4 (.ok value)) ∧
      (∀ text : String, text.utf8ByteSize ≤ host.block.layout.errorSize →
        ∃ m4, peer.respondError text m3 = .ok () m4 ∧ staged.Takes m4 (.error (.peer text))) := by
  have serves : host.block.layout.Serves data.size := ⟨consistent, separate, addressable, room⟩
  have count := ProtocolHost.encodeAll_count encoded
  have bound := addressable.args
  obtain ⟨m1, d1, stagedRun, staged⟩ := ProtocolHost.stageCall_done serves shared id few encoded fits
  have s1 : host.block.layout.Serves d1.size := stagedRun.serves serves
  obtain ⟨m2, d2, rang, rung, still⟩ := @ProtocolHost.signalRequest_done _ m1 d1
    { host with argCount := args.length, argCursor := bytes.size } id args s1 stagedRun.shared few fits
    staged
  have s2 : host.block.layout.Serves d2.size := rang.serves s1
  obtain ⟨m3, d3, polled, -⟩ := @ProtocolPeer.pollRequest_done _ m2 d2 peer (agree ▸ s2) rang.shared.symm id
    args (agree ▸ few) (by omega) shallow (agree ▸ rung) (agree ▸ still)
  have s3 : host.block.layout.Serves d3.size := polled.serves s2
  have peerServes : peer.block.layout.Serves d3.size := agree ▸ s3
  refine ⟨_, m1, m2, m3, stagedRun.ran, rang.ran, polled.ran, ?_, ?_⟩
  · intro value answer valueShallow valueEncoded valueFits
    obtain ⟨m4, d4, responded, answered, size, left⟩ := ProtocolPeer.respond_done peerServes
      polled.shared valueEncoded (agree ▸ valueFits)
    have s4 : host.block.layout.Serves d4.size := size ▸ s3
    have result : ResultLeft host.block.layout d4 answer := agree ▸ left
    refine ⟨m4, responded, ?_, ?_, ?_⟩
    · exact ProtocolHost.waitForResponse_done s4 answered.symm result
    · exact ProtocolHost.readResult_value s4 answered.symm valueEncoded valueShallow valueFits result
    · exact ProtocolHost.clearResponse_done s4 answered.symm
  · intro text textFits
    obtain ⟨m4, d4, responded, answered, size, left⟩ := ProtocolPeer.respondError_done peerServes
      polled.shared (agree ▸ textFits)
    have s4 : host.block.layout.Serves d4.size := size ▸ s3
    have result : ErrorLeft host.block.layout d4 text.toUTF8 := agree ▸ left
    refine ⟨m4, responded, ?_, ?_, ?_⟩
    · exact ProtocolHost.waitForResponse_done s4 answered.symm result
    · exact ProtocolHost.readResult_error s4 answered.symm textFits result
    · exact ProtocolHost.clearResponse_done s4 answered.symm

theorem call_handshake_standard : ∃ (memory m1 m2 m3 : Memory) (host staged : ProtocolHost)
    (peer : ProtocolPeer), host.block.layout = .standard ∧ host.block.region ≠ peer.block.region ∧
      host.stageCall 7 [.keyword "px", .expression [.keyword "em"]] memory = .ok (staged, .ok ()) m1 ∧
      staged.signalRequest m1 = .ok () m2 ∧
      peer.pollRequest m2 = .ok (some ⟨7, [.keyword "px", .expression [.keyword "em"]]⟩) m3 ∧
      ∃ m4, peer.respond (.keyword "px") m3 = .ok () m4 ∧ staged.Takes m4 (.ok (.keyword "px")) := by
  let stale : ByteArray := ⟨Array.replicate 3215360 0xFF⟩
  let memory : Memory := ⟨#[⟨"k", stale, true⟩],
    #[⟨"k", 0, 3215360, true, .readWrite⟩, ⟨"k", 0, 3215360, false, .readWrite⟩], maxFileSize⟩
  have size : stale.size = 3215360 := Array.size_replicate
  have file : ∃ file, memory.file? 0 = some file ∧ file.bytes = stale := ⟨_, rfl, rfl⟩
  have shared : Shared memory ⟨0⟩ ⟨1⟩ stale :=
    ⟨0, ⟨⟨_, rfl, rfl, rfl, size.symm⟩, file⟩, ⟨⟨_, rfl, rfl, rfl, size.symm⟩, file⟩⟩
  obtain ⟨staged, m1, m2, m3, stages, signals, polls, responds, _⟩ := @call_handshake memory stale
    (.new ⟨⟨0⟩, .standard⟩ ⟨1000⟩) ⟨⟨⟨1⟩, .standard⟩⟩ rfl shared Layout.standard_consistent
    Layout.standard_separate Layout.standard_addressable (Nat.le_of_eq size.symm) 7
    [.keyword "px", .expression [.keyword "em"]] _ (by decide) (by decide) rfl (by decide)
  obtain ⟨m4, responded, takes⟩ := responds (.keyword "px") _ (by decide) rfl (by decide)
  exact ⟨memory, m1, m2, m3, _, staged, _, rfl, by decide, stages, signals, polls, m4, responded, takes⟩

end PluginBridge
