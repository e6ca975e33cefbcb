import PluginBridge.Proofs.Protocol.Steps
import PluginBridge.Proofs.Wire.Values
import PluginBridge.Protocol.Host
import PluginBridge.Protocol.Peer
namespace PluginBridge
open ProtocolRegion (access codec outcome)
variable {other : RegionId} {memory : Memory} {data after : ByteArray}

theorem ProtocolRegion.outcome_done {α : Type} {action : ProtocolAccess α} {later : Memory} {a : α}
    (ran : action memory = .ok a later) : outcome action memory = .ok (.ok a) later := by
  simp only [outcome, ran]

-- The arguments from `index` on stand one behind the other from `cursor` on, each where its
-- slot says.
def Staged (layout : Layout) (data : ByteArray) : Nat → Nat → List WireValue → Prop
  | _, _, [] => True
  | index, cursor, value :: rest =>
    ∃ bytes, value.encode = .ok bytes ∧ cursor + bytes.size ≤ layout.argsSize ∧
      Holds data ((ControlCell.slot index).offset layout)
        (Bytes.u32 (UInt32.ofNat (layout.argsOffset + cursor))) ∧
      Holds data (layout.argsOffset + cursor) bytes ∧
      Staged layout data (index + 1) (cursor + bytes.size) rest

def StagingArea (layout : Layout) (index cursor : Nat) (k : Nat) : Prop :=
  Touches layout (fun cell => ∃ slot, index ≤ slot ∧ cell = .slot slot) k ∨
    (layout.argsOffset + cursor ≤ k ∧ k < layout.argsOffset + layout.argsSize)

theorem StagingArea.mono {layout : Layout} {index cursor later further : Nat} (slots : index ≤ later)
    (bytes : cursor ≤ further) {k : Nat} (inside : StagingArea layout later further k) :
    StagingArea layout index cursor k := by
  rcases inside with cell | range
  · refine .inl (Touches.mono (fun cell chosen => ?_) cell)
    obtain ⟨slot, least, rfl⟩ := chosen
    exact ⟨slot, Nat.le_trans slots least, rfl⟩
  · exact .inr ⟨by omega, range.2⟩

-- The slot of one argument, and `length` bytes of the arguments section from `cursor` on.
def ArgumentArea (layout : Layout) (index cursor length : Nat) (k : Nat) : Prop :=
  Touches layout (fun cell => cell = .slot index) k ∨
    (layout.argsOffset + cursor ≤ k ∧ k < layout.argsOffset + cursor + length)

theorem ArgumentArea.staging {layout : Layout} {index cursor length : Nat}
    (room : cursor + length ≤ layout.argsSize) {k : Nat} (inside : ArgumentArea layout index cursor length k) :
    StagingArea layout index cursor k := by
  rcases inside with touched | range
  · exact .inl (touched.mono fun cell same => ⟨index, Nat.le_refl _, same⟩)
  · exact .inr ⟨range.1, by omega⟩

theorem stagingArea_cell {layout : Layout} {size : Nat} (serves : layout.Serves size) (cell : ControlCell)
    (present : cell.Present layout.fields) {index : Nat} (free : ∀ slot, index ≤ slot → cell ≠ .slot slot)
    (cursor k : Nat) (low : cell.offset layout ≤ k) (high : k < cell.offset layout + 4) :
    ¬ StagingArea layout index cursor k := by
  rintro (touched | range)
  · refine touches_other serves present ?_ low high touched
    rintro ⟨slot, least, same⟩
    exact free slot least same
  · exact cell_outside serves present serves.args low high ⟨by omega, range.2⟩

namespace ProtocolHost
variable {host : ProtocolHost}

theorem clearSlots_done {block : ProtocolRegion} (serves : block.layout.Serves data.size)
    (shared : Shared memory block.region other data) (count index : Nat)
    (few : index + count ≤ block.layout.fields.maxArgs) :
    ∃ later after, Does block other (Touches block.layout fun cell => ∃ slot, cell = .slot slot)
      (clearSlots block count index) memory data () later after := by
  induction count generalizing memory data index with
  | zero => exact ⟨memory, data, .pure _ () shared⟩
  | succ count ih =>
    have present : (ControlCell.slot index).Present block.layout.fields := by
      rw [ControlCell.Present]
      omega
    obtain ⟨middle, between, one, _⟩ := ProtocolRegion.writeCell_done serves shared _ present 0
    rw [← Layout.argSlot_offset] at one
    obtain ⟨later, after, others⟩ := ih (one.serves serves) one.shared
      (index + 1) (by omega)
    have front := one.widen fun _ => Touches.mono fun cell (same : cell = .slot index) =>
      (⟨index, same⟩ : ∃ slot, cell = .slot slot)
    exact ⟨later, after, front.bind others⟩

theorem prepareCall_done (serves : host.block.layout.Serves data.size)
    (shared : Shared memory host.block.region other data) (id : UInt32) {count : Nat}
    (few : count ≤ host.block.layout.fields.maxArgs) (small : count < 0x100000000) :
    ∃ later after, Does host.block other (Touches host.block.layout fun _ => True)
      (host.prepareCall id count) memory data { host with argCount := count, argCursor := 0 } later after ∧
        Holds after (ControlCell.requestReady.offset host.block.layout) (Bytes.u32 0) ∧
        Holds after (ControlCell.responseReady.offset host.block.layout) (Bytes.u32 0) ∧
        Holds after (ControlCell.functionId.offset host.block.layout) (Bytes.u32 id) ∧
        Holds after (ControlCell.argCount.offset host.block.layout)
          (Bytes.u32 (UInt32.ofNat count)) := by
  have any : ∀ {cells : ControlCell → Prop} (k : Nat), Touches host.block.layout cells k →
      Touches host.block.layout (fun _ => True) k := fun _ => Touches.mono fun _ _ => trivial
  obtain ⟨m1, d1, cleared, each⟩ := ProtocolRegion.setAll_done serves shared 0
    [.requestReady, .responseReady, .errorFlag, .resultOffset, .resultSize] (by
      simp only [List.forall_mem_cons, ControlCell.Present]
      simp)
  have s1 : host.block.layout.Serves d1.size := cleared.serves serves
  obtain ⟨m2, d2, named, idHeld⟩ := ProtocolRegion.set_done s1 cleared.shared .functionId trivial id
  have s2 : host.block.layout.Serves d2.size := named.serves s1
  obtain ⟨m3, d3, counted, countHeld⟩ := ProtocolRegion.set_done s2 named.shared .argCount trivial
    (UInt32.ofNat count)
  have s3 : host.block.layout.Serves d3.size := counted.serves s2
  obtain ⟨m4, d4, emptied⟩ := clearSlots_done s3 counted.shared host.block.layout.fields.maxArgs 0
    (by omega)
  -- The flags are lowered first, and no word that follows lies where one of them does.
  have lowered : ∀ cell : ControlCell, cell.Present host.block.layout.fields → cell ≠ .functionId →
      cell ≠ .argCount → (∀ slot, cell ≠ .slot slot) → Holds d1 (cell.offset host.block.layout) (Bytes.u32 0) →
        Holds d4 (cell.offset host.block.layout) (Bytes.u32 0) := by
    intro cell present id count scalar low
    have kept := counted.differs.keepsCell s2 cell present count (named.differs.keepsCell s1 cell present id low)
    have apart : ¬ ∃ slot, cell = .slot slot := not_exists.mpr scalar
    exact emptied.differs.keepsCell s3 cell present apart kept
  refine ⟨m4, d4, ⟨?_, emptied.shared, ?_⟩, ?_, ?_, ?_, ?_⟩
  · have reset : host.block.setAll 0 (clearedFields host.block.layout.fields) memory = .ok () m1 :=
      cleared.ran
    have word := ProtocolRegion.codec_done m2 (word32_done small)
    rw [prepareCall]
    simp only [if_neg (Nat.not_lt.mpr few)]
    rw [bind_done reset, bind_done named.ran, bind_done word, bind_done counted.ran,
      bind_done emptied.ran]
    rfl
  · exact (((cleared.differs.widen any).trans (named.differs.widen any)).trans
      (counted.differs.widen any)).trans (emptied.differs.widen any)
  · exact lowered .requestReady trivial (by simp) (by simp) (by simp) (each _ (by simp))
  · exact lowered .responseReady trivial (by simp) (by simp) (by simp) (each _ (by simp))
  · have kept := counted.differs.keepsCell s2 .functionId trivial (by simp) idHeld
    exact emptied.differs.keepsCell s3 .functionId trivial (by simp) kept
  · exact emptied.differs.keepsCell s3 .argCount trivial (by simp) countHeld

theorem writeArg_done (serves : host.block.layout.Serves data.size)
    (shared : Shared memory host.block.region other data) {index : Nat} {value : WireValue}
    {bytes : ByteArray} (early : index < host.argCount) (few : index < host.block.layout.fields.maxArgs)
    (encoded : value.encode = .ok bytes)
    (fits : host.argCursor + bytes.size ≤ host.block.layout.argsSize) :
    ∃ later after, Does host.block other (ArgumentArea host.block.layout index host.argCursor bytes.size)
      (host.writeArg index value) memory data { host with argCursor := host.argCursor + bytes.size }
        later after ∧
      Holds after ((ControlCell.slot index).offset host.block.layout)
        (Bytes.u32 (UInt32.ofNat (host.block.layout.argsOffset + host.argCursor))) ∧
      Holds after (host.block.layout.argsOffset + host.argCursor) bytes := by
  have args := serves.args
  have least := WireValue.encode_size encoded
  have addressable := serves.addressable.args
  have within := args.within
  obtain ⟨m1, d1, written, bytesHeld⟩ := ProtocolRegion.write_done shared
    (show host.block.layout.argsOffset + host.argCursor + bytes.size ≤ data.size by omega)
  have s1 : host.block.layout.Serves d1.size := written.serves serves
  obtain ⟨m2, d2, placed, slotHeld⟩ := ProtocolRegion.writeCell_done s1 written.shared
    (.slot index) few (UInt32.ofNat (host.block.layout.argsOffset + host.argCursor))
  have word := ProtocolRegion.codec_done m1
    (word32_done (show host.block.layout.argsOffset + host.argCursor < 0x100000000 by omega))
  refine ⟨m2, d2, ⟨?_, placed.shared, ?_⟩, slotHeld, ?_⟩
  · have read := ProtocolRegion.codec_done memory encoded
    have room : ¬ host.block.layout.argsSize - host.argCursor < bytes.size := by omega
    rw [writeArg]
    simp only [if_neg (Nat.not_le.mpr early)]
    rw [bind_done read]
    simp only [if_neg room]
    rw [bind_done written.ran, bind_done word, Layout.argSlot_offset, bind_done placed.ran]
    rfl
  · exact (written.differs.widen fun k inside => .inr inside).trans (placed.differs.widen fun k touched => .inl touched)
  · refine placed.differs.keeps _ _ bytesHeld fun k low high => ?_
    exact touches_outside s1 (written.differs.size ▸ args) (by omega) (by omega)

theorem writeArgs_done : ∀ {args : List WireValue} {host : ProtocolHost} {memory : Memory}
    {data bytes : ByteArray} {index : Nat}, host.block.layout.Serves data.size →
      Shared memory host.block.region other data → index + args.length ≤ host.argCount →
      host.argCount ≤ host.block.layout.fields.maxArgs → WireValue.encodeAll args = .ok bytes →
      host.argCursor + bytes.size ≤ host.block.layout.argsSize →
      ∃ later after, Does host.block other (StagingArea host.block.layout index host.argCursor)
        (host.writeArgs index args) memory data
          ({ host with argCursor := host.argCursor + bytes.size }, .ok ()) later after ∧
        Staged host.block.layout after index host.argCursor args
  | [], host, memory, data, bytes, index, serves, shared, _, _, encoded, _ => by
    cases encoded
    exact ⟨memory, data, .pure _ _ shared, trivial⟩
  | value :: rest, host, memory, data, _, index, serves, shared, few, most, encoded, fits => by
    rw [WireValue.encodeAll] at encoded
    obtain ⟨first, one, encoded⟩ := except_parts encoded
    obtain ⟨others, more, encoded⟩ := except_parts encoded
    cases encoded
    rw [ByteArray.size_append] at fits
    rw [List.length_cons] at few
    obtain ⟨m1, d1, placed, slotHeld, bytesHeld⟩ := writeArg_done serves shared
      (show index < host.argCount by omega) (by omega) one (by omega)
    have wrote := placed.widen fun _ => ArgumentArea.staging (show host.argCursor + first.size ≤ _ by omega)
    have s1 : host.block.layout.Serves d1.size := wrote.serves serves
    obtain ⟨m2, d2, went, staged⟩ := @writeArgs_done rest
      { host with argCursor := host.argCursor + first.size } m1 d1 others (index + 1) s1 wrote.shared
      (show index + 1 + rest.length ≤ host.argCount by omega) most more
      (show host.argCursor + first.size + others.size ≤ host.block.layout.argsSize by omega)
    refine ⟨m2, d2, ⟨?_, went.shared, ?_⟩, first, one, ?_, ?_, ?_, staged⟩
    · rw [writeArgs, bind_done (ProtocolRegion.outcome_done wrote.ran)]
      simp only
      rw [went.ran, ByteArray.size_append, Nat.add_assoc]
    · exact wrote.differs.trans (went.differs.widen fun k => StagingArea.mono (by omega)
        (Nat.le_add_right _ _))
    · omega
    · refine went.differs.keeps _ _ slotHeld fun k low high => ?_
      rw [Bytes.size_u32] at high
      refine stagingArea_cell s1 (.slot index) (show index < host.block.layout.fields.maxArgs by omega)
        ?_ _ k low high
      rintro slot least same
      cases same
      omega
    · refine went.differs.keeps _ _ bytesHeld fun k low high => ?_
      rintro (touched | range)
      · exact touches_outside s1 s1.args (by omega) (by omega) touched
      · simp only at range
        omega

-- A call as it lies in the region, not answered: its function, the number of its arguments, and these.
structure CallStaged (layout : Layout) (data : ByteArray) (id : UInt32) (args : List WireValue) : Prop where
  unanswered : Holds data (ControlCell.responseReady.offset layout) (Bytes.u32 0)
  function : Holds data (ControlCell.functionId.offset layout) (Bytes.u32 id)
  count : Holds data (ControlCell.argCount.offset layout) (Bytes.u32 (UInt32.ofNat args.length))
  args : Staged layout data 0 0 args

theorem encodeAll_count {args : List WireValue} {bytes : ByteArray}
    (encoded : WireValue.encodeAll args = .ok bytes) : args.length ≤ bytes.size := by
  obtain ⟨parts, rfl, each⟩ := WireValue.encodeAll_parts encoded
  exact WireValue.parts_size each

theorem stageCall_done (serves : host.block.layout.Serves data.size)
    (shared : Shared memory host.block.region other data) (id : UInt32) {args : List WireValue}
    {bytes : ByteArray} (few : args.length ≤ host.block.layout.fields.maxArgs)
    (encoded : WireValue.encodeAll args = .ok bytes) (fits : bytes.size ≤ host.block.layout.argsSize) :
    ∃ later after, Does host.block other (fun _ => True) (host.stageCall id args) memory data
      ({ host with argCount := args.length, argCursor := bytes.size }, .ok ()) later after ∧
        CallStaged host.block.layout after id args := by
  have count := encodeAll_count encoded
  have addressable := serves.addressable.args
  obtain ⟨m1, d1, prepared, -, lowered, idHeld, countHeld⟩ := prepareCall_done serves shared id few (by omega)
  have s1 : host.block.layout.Serves d1.size := prepared.serves serves
  obtain ⟨m2, d2, wrote, staged⟩ := @writeArgs_done other args
    { host with argCount := args.length, argCursor := 0 } m1 d1 bytes 0 s1 prepared.shared
    (by simp) few encoded (by simpa using fits)
  have kept : ∀ (cell : ControlCell) (value : UInt32), (∀ slot, cell ≠ .slot slot) →
      cell.Present host.block.layout.fields → Holds d1 (cell.offset host.block.layout) (Bytes.u32 value) →
        Holds d2 (cell.offset host.block.layout) (Bytes.u32 value) := by
    intro cell value scalar present held
    refine wrote.differs.keeps _ _ held fun k low high => ?_
    rw [Bytes.size_u32] at high
    exact stagingArea_cell s1 cell present (fun slot _ => scalar slot) _ k low high
  refine ⟨m2, d2, ⟨?_, wrote.shared, ?_⟩, ?_⟩
  · rw [stageCall, bind_done (ProtocolRegion.outcome_done prepared.ran)]
    simp only
    rw [wrote.ran, Nat.zero_add]
  · exact (prepared.differs.widen fun _ _ => trivial).trans (wrote.differs.widen fun _ _ => trivial)
  · exact ⟨kept .responseReady 0 (by simp) trivial lowered, kept .functionId id (by simp) trivial idHeld,
      kept .argCount _ (by simp) trivial countHeld, staged⟩

end ProtocolHost

theorem Staged.kept {layout : Layout} {touched : Nat → Prop} (differs : Differs touched data after)
    (slots : ∀ slot k, slot < layout.fields.maxArgs → (ControlCell.slot slot).offset layout ≤ k →
      k < (ControlCell.slot slot).offset layout + 4 → ¬ touched k)
    (section_ : ∀ k, layout.argsOffset ≤ k → k < layout.argsOffset + layout.argsSize → ¬ touched k) :
    ∀ {args : List WireValue} {index cursor : Nat}, index + args.length ≤ layout.fields.maxArgs →
      Staged layout data index cursor args → Staged layout after index cursor args
  | [], _, _, _, _ => trivial
  | value :: rest, index, cursor, few, ⟨bytes, encoded, room, slotHeld, bytesHeld, later⟩ => by
    rw [List.length_cons] at few
    refine ⟨bytes, encoded, room, ?_, ?_, Staged.kept differs slots section_ (by omega) later⟩
    · refine differs.keeps _ _ slotHeld fun k low high => ?_
      rw [Bytes.size_u32] at high
      exact slots index k (by omega) low high
    · exact differs.keeps _ _ bytesHeld fun k low high => section_ k (by omega) (by omega)

theorem ProtocolHost.CallStaged.kept {layout : Layout} {size : Nat} {id : UInt32}
    {args : List WireValue} {cell : ControlCell} (serves : layout.Serves size)
    (few : args.length ≤ layout.fields.maxArgs) (scalar : ∀ slot, cell ≠ .slot slot)
    (apart : cell ≠ .responseReady ∧ cell ≠ .functionId ∧ cell ≠ .argCount)
    (differs : Differs (Touches layout fun found => found = cell) data after)
    (staged : CallStaged layout data id args) : CallStaged layout after id args := by
  refine ⟨differs.keepsCell serves .responseReady trivial (fun same => apart.1 same.symm) staged.unanswered,
    differs.keepsCell serves .functionId trivial (fun same => apart.2.1 same.symm) staged.function,
    differs.keepsCell serves .argCount trivial (fun same => apart.2.2 same.symm) staged.count, ?_⟩
  refine Staged.kept differs (fun slot k within low high => ?_) (fun k low high => ?_) (by omega) staged.args
  · have present : (ControlCell.slot slot).Present layout.fields := within
    exact touches_other serves present (fun same => scalar slot same.symm) low high
  · exact touches_outside serves serves.args low high

theorem ProtocolHost.signalRequest_does {host : ProtocolHost} (serves : host.block.layout.Serves data.size)
    (shared : Shared memory host.block.region other data)
    (fits : host.argCursor ≤ host.block.layout.argsSize) :
    ∃ later after, Does host.block other (Touches host.block.layout fun cell => cell = .requestReady)
        host.signalRequest memory data () later after ∧
      Holds after (ControlCell.requestReady.offset host.block.layout) (Bytes.u32 1) := by
  obtain ⟨m1, d1, rang, held⟩ := ProtocolRegion.set_done serves shared .requestReady trivial 1
  have s1 : host.block.layout.Serves d1.size := rang.serves serves
  have within := serves.args.within
  have flushed := ProtocolRegion.access_done
    (shared.syncRange (show host.block.layout.argsOffset + host.argCursor ≤ data.size by omega))
  have synced := ProtocolRegion.syncControl_done s1 rang.shared
  refine ⟨m1, d1, ⟨?_, rang.shared, rang.differs⟩, held⟩
  rw [signalRequest]
  simp only
  split
  · rw [bind_done flushed, bind_done rang.ran, synced]
  · rw [bind_done rang.ran, synced]

theorem ProtocolHost.signalRequest_done {host : ProtocolHost} {id : UInt32} {args : List WireValue}
    (serves : host.block.layout.Serves data.size)
    (shared : Shared memory host.block.region other data)
    (few : args.length ≤ host.block.layout.fields.maxArgs)
    (fits : host.argCursor ≤ host.block.layout.argsSize)
    (staged : CallStaged host.block.layout data id args) :
    ∃ later after, Does host.block other (Touches host.block.layout fun cell => cell = .requestReady)
        host.signalRequest memory data () later after ∧
      Holds after (ControlCell.requestReady.offset host.block.layout) (Bytes.u32 1) ∧
        CallStaged host.block.layout after id args := by
  obtain ⟨later, after, rang, held⟩ := signalRequest_does serves shared fits
  exact ⟨later, after, rang, held, staged.kept serves few (by simp) (by simp) rang.differs⟩

namespace ProtocolPeer
open ProtocolHost (CallStaged)
variable {peer : ProtocolPeer}

def Numbered (layout : Layout) : Nat → List WireValue → Prop
  | _, [] => True
  | cursor, value :: rest => layout.argsOffset + cursor < 0x100000000 ∧
    ∀ bytes, value.encode = .ok bytes → Numbered layout (cursor + bytes.size) rest

theorem staged_numbered {layout : Layout} (addressable : layout.argsOffset + layout.argsSize < 0x100000000) :
    ∀ {args : List WireValue} {index cursor : Nat}, Staged layout data index cursor args → Numbered layout cursor args
  | [], _, _, _ => trivial
  | value :: rest, index, cursor, ⟨bytes, encoded, room, _, _, later⟩ => by
    refine ⟨by omega, fun other again => ?_⟩
    cases encoded.symm.trans again
    exact staged_numbered addressable later

theorem readArgs_found (within : peer.block.layout.argsOffset + peer.block.layout.argsSize ≤ data.size)
    (shared : Shared memory peer.block.region other data) :
    ∀ {args : List WireValue} {index cursor : Nat}, (∀ value ∈ args, value.depth ≤ WireValue.maxDepth) →
      Staged peer.block.layout data index cursor args → Numbered peer.block.layout cursor args →
        peer.readArgs args.length index memory = .ok args memory
  | [], _, _, _, _, _ => rfl
  | value :: rest, index, cursor, shallow, ⟨bytes, encoded, room, slotHeld, bytesHeld, later⟩, ⟨small, numbered⟩ => by
    have least := WireValue.encode_size encoded
    have number : (UInt32.ofNat (peer.block.layout.argsOffset + cursor)).toNat =
        peer.block.layout.argsOffset + cursor := toNat_word small
    have checked := @ProtocolRegion.checkWithin_done memory .argument
      (peer.block.layout.argsOffset + cursor) 1 peer.block.layout.argsOffset peer.block.layout.argsSize
      (Nat.le_add_right _ _) (by omega)
    have rest_ : peer.block.layout.argsOffset + cursor + (peer.block.layout.argsOffset +
        peer.block.layout.argsSize - (peer.block.layout.argsOffset + cursor)) =
          peer.block.layout.argsOffset + peer.block.layout.argsSize := by omega
    have decoded : WireValue.ofBytes (data.extract (peer.block.layout.argsOffset + cursor)
        (peer.block.layout.argsOffset + peer.block.layout.argsSize)) = .ok value := by
      have cut := bytesHeld.cut (Nat.le_refl _) (show _ ≤ peer.block.layout.argsOffset +
        peer.block.layout.argsSize by omega) within
      rw [Nat.sub_self] at cut
      exact WireValue.ofBytes_held encoded (shallow value List.mem_cons_self) cut
    have first : peer.readArg index memory = .ok value memory := by
      rw [readArg]
      simp only [Layout.argSlot_offset]
      rw [bind_done (ProtocolRegion.readCell_done shared slotHeld), number, bind_done checked]
      exact ProtocolRegion.view_done shared (by omega) (by rw [rest_, decoded])
    have others := readArgs_found within shared
      (fun other among => shallow other (List.mem_cons_of_mem _ among)) later (numbered bytes encoded)
    rw [List.length_cons, readArgs, bind_done first, bind_done others]
    rfl

theorem pollRequest_found {later : Memory}
    (within : peer.block.layout.argsOffset + peer.block.layout.argsSize ≤ data.size)
    (synced : peer.block.syncControl memory = .ok () memory)
    (shared : Shared memory peer.block.region other data) {id : UInt32} {args : List WireValue}
    (few : args.length ≤ peer.block.layout.fields.maxArgs) (small : args.length < 0x100000000)
    (shallow : ∀ value ∈ args, value.depth ≤ WireValue.maxDepth)
    (rung : Holds data (ControlCell.requestReady.offset peer.block.layout) (Bytes.u32 1))
    (function : Holds data (ControlCell.functionId.offset peer.block.layout) (Bytes.u32 id))
    (count : Holds data (ControlCell.argCount.offset peer.block.layout) (Bytes.u32 (UInt32.ofNat args.length)))
    (staged : Staged peer.block.layout data 0 0 args) (numbered : Numbered peer.block.layout 0 args)
    (lowered : peer.block.set peer.block.layout.fields.requestReady 0 memory = .ok () later) :
    peer.pollRequest memory = .ok (some ⟨id, args⟩) later := by
  have number : (UInt32.ofNat args.length).toNat = args.length := toNat_word small
  have read := readArgs_found within shared shallow staged numbered
  rw [pollRequest]
  simp only
  rw [bind_done synced, bind_done (ProtocolRegion.get_done shared rung)]
  simp only [ne_eq, not_true_eq_false, if_false]
  rw [bind_done (ProtocolRegion.get_done shared function),
    bind_done (ProtocolRegion.get_done shared count), number, if_neg (Nat.not_lt.mpr few),
    bind_done (ProtocolRegion.outcome_done read), bind_done lowered]
  rfl

theorem pollRequest_done (serves : peer.block.layout.Serves data.size)
    (shared : Shared memory peer.block.region other data) {id : UInt32} {args : List WireValue}
    (few : args.length ≤ peer.block.layout.fields.maxArgs) (small : args.length < 0x100000000)
    (shallow : ∀ value ∈ args, value.depth ≤ WireValue.maxDepth)
    (rung : Holds data (ControlCell.requestReady.offset peer.block.layout) (Bytes.u32 1))
    (staged : CallStaged peer.block.layout data id args) :
    ∃ later after, Does peer.block other (Touches peer.block.layout fun cell => cell = .requestReady)
        peer.pollRequest memory data (some ⟨id, args⟩) later after ∧
      Holds after (ControlCell.requestReady.offset peer.block.layout) (Bytes.u32 0) := by
  obtain ⟨later, after, cleared, down⟩ := ProtocolRegion.set_done serves shared .requestReady trivial 0
  have found := pollRequest_found serves.args.within (ProtocolRegion.syncControl_done serves shared) shared few small shallow
    rung staged.function staged.count staged.args (staged_numbered serves.addressable.args staged.args) cleared.ran
  exact ⟨later, after, ⟨found, cleared.shared, cleared.differs⟩, down⟩

end ProtocolPeer
end PluginBridge
