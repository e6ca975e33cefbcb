import PluginBridge.Proofs.Protocol.Exchange
namespace PluginBridge
open ProtocolRegion (codec)
variable {other : RegionId} {memory : Memory} {data after : ByteArray} {layout : Layout}

theorem WireValue.encodeAll_append {front back : List WireValue} {whole : ByteArray} :
    encodeAll (front ++ back) = .ok whole ↔
      ∃ first second, encodeAll front = .ok first ∧ encodeAll back = .ok second ∧ whole = first ++ second := by
  induction front generalizing whole with
  | nil =>
    constructor
    · intro encoded
      exact ⟨.empty, whole, rfl, encoded, ByteArray.empty_append.symm⟩
    · rintro ⟨first, second, one, two, rfl⟩
      cases one
      rw [ByteArray.empty_append]
      exact two
  | cons item rest ih =>
    constructor
    · intro encoded
      rw [List.cons_append, encodeAll] at encoded
      obtain ⟨own, one, encoded⟩ := except_parts encoded
      obtain ⟨others, more, encoded⟩ := except_parts encoded
      cases encoded
      obtain ⟨first, second, left, right, rfl⟩ := ih.mp more
      refine ⟨own ++ first, second, ?_, right, ByteArray.append_assoc.symm⟩
      rw [encodeAll, except_done one, except_done left]
      rfl
    · rintro ⟨first, second, one, two, rfl⟩
      rw [encodeAll] at one
      obtain ⟨own, here, one⟩ := except_parts one
      obtain ⟨others, more, one⟩ := except_parts one
      cases one
      rw [List.cons_append, encodeAll, except_done here, except_done (ih.mpr ⟨others, second, more, two, rfl⟩),
        ByteArray.append_assoc]
      rfl

-- Arguments that stand one behind the other from the start of their section up to `cursor`, each
-- with the index of its slot, and the slots: each says where the last argument stands that was
-- written for it.
structure Packed (layout : Layout) (data : ByteArray) (cursor : Nat) (written : List (Nat × WireValue)) : Prop where
  early : ∀ entry ∈ written, entry.1 < layout.fields.maxArgs
  bytes : ∃ encoded, WireValue.encodeAll (written.map Prod.snd) = .ok encoded ∧ cursor = encoded.size ∧
    encoded.size ≤ layout.argsSize ∧ Holds data layout.argsOffset encoded
  slots : ∀ before index value later front, written = before ++ (index, value) :: later →
    index ∉ later.map Prod.fst → WireValue.encodeAll (before.map Prod.snd) = .ok front →
      Holds data ((ControlCell.slot index).offset layout) (Bytes.u32 (UInt32.ofNat (layout.argsOffset + front.size)))

namespace Packed
variable {cursor index : Nat} {written before later : List (Nat × WireValue)} {value : WireValue}

theorem none (within : layout.argsOffset ≤ data.size) : Packed layout data 0 [] := by
  refine ⟨nofun, ⟨.empty, rfl, rfl, Nat.zero_le _, Holds.empty.mpr within⟩, ?_⟩
  intro before index value later front split
  simp at split

theorem argument (packed : Packed layout data cursor written) (split : written = before ++ (index, value) :: later) :
    ∃ front encoded, WireValue.encodeAll (before.map Prod.snd) = .ok front ∧ value.encode = .ok encoded ∧
      front.size + encoded.size ≤ cursor ∧ Holds data (layout.argsOffset + front.size) encoded := by
  obtain ⟨whole, all, cursor, -, held⟩ := packed.bytes
  rw [split, List.map_append, List.map_cons] at all
  obtain ⟨front, back, first, second, rfl⟩ := WireValue.encodeAll_append.mp all
  rw [WireValue.encodeAll] at second
  obtain ⟨encoded, own, second⟩ := except_parts second
  obtain ⟨others, more, second⟩ := except_parts second
  cases second
  refine ⟨front, encoded, first, own, ?_, (Holds.append.mp (Holds.append.mp held).2).1⟩
  rw [cursor, ByteArray.size_append, ByteArray.size_append]
  omega

theorem reads (addressable : layout.argsOffset + layout.argsSize < 0x100000000)
    (packed : Packed layout data cursor written) (split : written = before ++ (index, value) :: later)
    (shallow : value.depth ≤ WireValue.maxDepth) :
    ∃ place : UInt32,
      (∃ stop, WireValue.decode data place.toNat = .ok value stop ∧ stop ≤ layout.argsOffset + cursor) ∧
      (index ∉ later.map Prod.fst → Holds data ((ControlCell.slot index).offset layout) (Bytes.u32 place)) := by
  obtain ⟨front, encoded, first, own, room, held⟩ := packed.argument split
  obtain ⟨whole, -, rfl, fits, -⟩ := packed.bytes
  have number : (UInt32.ofNat (layout.argsOffset + front.size)).toNat = layout.argsOffset + front.size :=
    toNat_word (by omega)
  refine ⟨UInt32.ofNat (layout.argsOffset + front.size),
    ⟨layout.argsOffset + front.size + encoded.size, ?_, by omega⟩, ?_⟩
  · rw [number]
    exact WireValue.decode_held own (Nat.lt_succ_of_le shallow) held
  · intro last
    exact packed.slots before index value later front split last first

theorem last {bytes encoded : ByteArray} (packed : Packed layout data cursor (written ++ [(index, value)]))
    (all : WireValue.encodeAll (written.map Prod.snd) = .ok bytes) (own : value.encode = .ok encoded) :
    Holds data layout.argsOffset (bytes ++ encoded) ∧ Holds data ((ControlCell.slot index).offset layout)
      (Bytes.u32 (UInt32.ofNat (layout.argsOffset + bytes.size))) := by
  obtain ⟨whole, every, -, -, held⟩ := packed.bytes
  rw [List.map_append] at every
  obtain ⟨first, second, one, two, rfl⟩ := WireValue.encodeAll_append.mp every
  cases all.symm.trans one
  cases (ProtocolHost.encodeAll_one own).symm.trans two
  exact ⟨held, packed.slots written index value [] bytes rfl List.not_mem_nil all⟩

theorem kept {size : Nat} {cells : ControlCell → Prop} (serves : layout.Serves size)
    (scalar : ∀ slot, ¬ cells (.slot slot)) (differs : Differs (Touches layout cells) data after)
    (packed : Packed layout data cursor written) : Packed layout after cursor written := by
  obtain ⟨encoded, all, cursor, fits, held⟩ := packed.bytes
  refine ⟨packed.early, ⟨encoded, all, cursor, fits, ?_⟩, ?_⟩
  · exact differs.keeps _ _ held fun k low high => touches_outside serves serves.args low (by omega)
  · intro before index value later front split last first
    have early := packed.early (index, value) (by simp [split])
    exact differs.keepsCell serves (.slot index) early (scalar index)
      (packed.slots before index value later front split last first)

theorem add {size : Nat} {encoded : ByteArray} (serves : layout.Serves size) (packed : Packed layout data cursor written)
    (early : index < layout.fields.maxArgs) (own : value.encode = .ok encoded)
    (fits : cursor + encoded.size ≤ layout.argsSize)
    (differs : Differs (ArgumentArea layout index cursor encoded.size) data after)
    (slotHeld : Holds after ((ControlCell.slot index).offset layout)
      (Bytes.u32 (UInt32.ofNat (layout.argsOffset + cursor))))
    (bytesHeld : Holds after (layout.argsOffset + cursor) encoded) :
    Packed layout after (cursor + encoded.size) (written ++ [(index, value)]) := by
  obtain ⟨whole, all, rfl, room, held⟩ := packed.bytes
  -- The slot lies in the control section, and the new bytes behind the old ones.
  have still : Holds after layout.argsOffset whole := by
    refine differs.keeps _ _ held fun k low high => ?_
    rintro (touched | range)
    · exact touches_outside serves serves.args low (by omega) touched
    · omega
  refine ⟨?_, ⟨whole ++ encoded, ?_, ByteArray.size_append.symm, ?_, Holds.append.mpr ⟨still, bytesHeld⟩⟩, ?_⟩
  · intro entry among
    rcases List.mem_append.mp among with old | new
    · exact packed.early entry old
    · rw [List.mem_singleton.mp new]
      exact early
  · rw [List.map_append]
    exact WireValue.encodeAll_append.mpr ⟨whole, encoded, all, ProtocolHost.encodeAll_one own, rfl⟩
  · rwa [ByteArray.size_append]
  · intro before found inner later front split last first
    -- The entry is the new one, or an old one of another slot.
    rcases List.eq_nil_or_concat later with rfl | ⟨middle, end_, rfl⟩
    · obtain ⟨rfl, same⟩ := List.append_inj' split rfl
      cases same
      cases all.symm.trans first
      exact slotHeld
    · rw [List.concat_eq_append, ← List.cons_append, ← List.append_assoc] at split
      obtain ⟨old, same⟩ := List.append_inj' split rfl
      cases same
      rw [List.concat_eq_append, List.map_append, List.mem_append, not_or] at last
      have apart : found ≠ index := fun same => last.2 (by simp [same])
      have present : (ControlCell.slot found).Present layout.fields := packed.early (found, inner) (by simp [old])
      refine differs.keeps _ _ (packed.slots before found inner middle front old last.1 first) fun k low high => ?_
      rw [Bytes.size_u32] at high
      rintro (touched | range)
      · exact touches_other serves present (by simpa using apart) low high touched
      · exact cell_outside serves present serves.args low high ⟨by omega, by omega⟩

end Packed

namespace ProtocolHost
variable {host : ProtocolHost}

theorem prepareCall_refused (serves : host.block.layout.Serves data.size)
    (shared : Shared memory host.block.region other data) (id : UInt32) {count : Nat}
    (refused : ¬ (count ≤ host.block.layout.fields.maxArgs ∧ count < 0x100000000)) :
    ∃ e later after, host.prepareCall id count memory = .error e later ∧ Shared later host.block.region other after ∧
      Differs (Touches host.block.layout fun cell => ∀ slot, cell ≠ .slot slot) data after := by
  by_cases many : host.block.layout.fields.maxArgs < count
  · refine ⟨.tooManyArguments count host.block.layout.fields.maxArgs, memory, data, ?_, shared, .refl _ _⟩
    rw [prepareCall]
    simp only [if_pos many]
    rfl
  · have wide : ¬ count < 0x100000000 := fun small => refused ⟨Nat.not_lt.mp many, small⟩
    obtain ⟨m1, d1, cleared, -⟩ := ProtocolRegion.setAll_done serves shared 0
      [.requestReady, .responseReady, .errorFlag, .resultOffset, .resultSize] (by
        simp only [List.forall_mem_cons, ControlCell.Present]
        simp)
    obtain ⟨m2, d2, named, -⟩ := ProtocolRegion.set_done (cleared.serves serves) cleared.shared .functionId trivial id
    have reset : host.block.setAll 0 (clearedFields host.block.layout.fields) memory = .ok () m1 := cleared.ran
    have failed : codec (Bytes.word32? count) m2 = .error (.codec .tooLarge) m2 := by
      rw [Bytes.word32?, if_neg wide]
      rfl
    refine ⟨.codec .tooLarge, m2, d2, ?_, named.shared, ?_⟩
    · rw [prepareCall]
      simp only [if_neg many]
      rw [bind_done reset, bind_done named.ran, bind_failed failed]
    · refine (cleared.differs.widen fun _ => Touches.mono ?_).trans (named.differs.widen fun _ => Touches.mono ?_)
      · intro cell among slot same
        simp [same] at among
      · rintro cell rfl slot ⟨⟩

-- The argument has a slot, its lengths fit their prefixes, and there is room for its bytes.
def Admits (host : ProtocolHost) (index : Nat) (value : WireValue) : Prop :=
  index < host.argCount ∧ ∃ encoded, value.encode = .ok encoded ∧
    host.argCursor + encoded.size ≤ host.block.layout.argsSize

theorem writeArg_barred {index : Nat} {value : WireValue} (barred : ¬ host.Admits index value) :
    ∃ e, host.writeArg index value memory = .error e memory := by
  by_cases early : index < host.argCount
  · obtain ⟨e, -, failed⟩ := @writeArg_refused memory value host index early fun encoded own =>
      Nat.lt_of_not_le fun room => barred ⟨early, encoded, own, room⟩
    exact ⟨e, failed⟩
  · refine ⟨.argumentIndex index host.argCount, ?_⟩
    rw [writeArg]
    simp only [if_pos (Nat.not_lt.mp early)]
    rfl

end ProtocolHost

inductive StagingStep where
  | prepare (id : UInt32) (count : Nat)
  | write (index : Nat) (value : WireValue)

structure StagingState where
  host : ProtocolHost
  memory : Memory
  written : List (Nat × WireValue)

namespace StagingState

def advance (state : StagingState) : StagingStep → StagingState
  | .prepare id count =>
    match state.host.prepareCall id count state.memory with
    | .ok host later => ⟨host, later, []⟩
    | .error _ later => { state with memory := later }
  | .write index value =>
    match state.host.writeArg index value state.memory with
    | .ok host later => ⟨host, later, state.written ++ [(index, value)]⟩
    | .error _ later => { state with memory := later }

def run (state : StagingState) (steps : List StagingStep) : StagingState := steps.foldl advance state

structure Sound (block : ProtocolRegion) (other : RegionId) (state : StagingState) (data : ByteArray) : Prop where
  place : state.host.block = block
  serves : block.layout.Serves data.size
  shared : Shared state.memory block.region other data
  few : state.host.argCount ≤ block.layout.fields.maxArgs
  packed : Packed block.layout data state.host.argCursor state.written

namespace Sound
variable {block : ProtocolRegion} {state : StagingState}

theorem prepare (sound : state.Sound block other data) (id : UInt32) (count : Nat) :
    ∃ after, (state.advance (.prepare id count)).Sound block other after ∧ after.size = data.size := by
  obtain ⟨rfl, serves, shared, few, packed⟩ := sound
  by_cases taken : count ≤ state.host.block.layout.fields.maxArgs ∧ count < 0x100000000
  · obtain ⟨later, after, prepared, -⟩ := ProtocolHost.prepareCall_done serves shared id taken.1 taken.2
    have still := prepared.serves serves
    refine ⟨after, ?_, prepared.differs.size⟩
    simp only [advance, prepared.ran]
    exact ⟨rfl, still, prepared.shared, taken.1, .none (by have := still.args.within; omega)⟩
  · obtain ⟨e, later, after, failed, reached, differs⟩ := ProtocolHost.prepareCall_refused serves shared id taken
    refine ⟨after, ?_, differs.size⟩
    simp only [advance, failed]
    exact ⟨rfl, differs.size ▸ serves, reached, few, packed.kept serves (fun slot free => free slot rfl) differs⟩

theorem writes (sound : state.Sound block other data) {index : Nat} {value : WireValue}
    (admitted : state.host.Admits index value) : ∃ encoded later after, value.encode = .ok encoded ∧
      state.host.writeArg index value state.memory =
        .ok { state.host with argCursor := state.host.argCursor + encoded.size } later ∧
      StagingState.Sound block other ⟨{ state.host with argCursor := state.host.argCursor + encoded.size }, later,
        state.written ++ [(index, value)]⟩ after ∧ after.size = data.size := by
  obtain ⟨rfl, serves, shared, few, packed⟩ := sound
  obtain ⟨early, encoded, own, room⟩ := admitted
  have slot := Nat.lt_of_lt_of_le early few
  obtain ⟨later, after, wrote, slotHeld, bytesHeld⟩ := ProtocolHost.writeArg_done serves shared early slot own room
  exact ⟨encoded, later, after, own, wrote.ran, ⟨rfl, wrote.serves serves, wrote.shared, few,
    packed.add serves slot own room wrote.differs slotHeld bytesHeld⟩, wrote.differs.size⟩

theorem barred {index : Nat} {value : WireValue} (barred : ¬ state.host.Admits index value) :
    state.advance (.write index value) = state := by
  obtain ⟨e, failed⟩ := @ProtocolHost.writeArg_barred state.memory state.host index value barred
  simp only [advance, failed]

theorem writes_iff (sound : state.Sound block other data) (index : Nat) (value : WireValue) :
    (∃ next later, state.host.writeArg index value state.memory = .ok next later) ↔ state.host.Admits index value := by
  refine ⟨fun ⟨next, later, written⟩ => ?_, fun admitted => ?_⟩
  · by_contra barred
    obtain ⟨e, failed⟩ := ProtocolHost.writeArg_barred barred
    cases failed.symm.trans written
  · obtain ⟨encoded, later, after, -, ran, -⟩ := sound.writes admitted
    exact ⟨_, later, ran⟩

theorem placed (sound : state.Sound block other data) {bytes : ByteArray}
    (all : WireValue.encodeAll (state.written.map Prod.snd) = .ok bytes) {index : Nat} {value : WireValue}
    {next : ProtocolHost} {later : Memory} (written : state.host.writeArg index value state.memory = .ok next later) :
    ∃ encoded after, ∃ place : UInt32, value.encode = .ok encoded ∧
      next = { state.host with argCursor := bytes.size + encoded.size } ∧
      Shared later block.region other after ∧ Holds after block.layout.argsOffset (bytes ++ encoded) ∧
      Holds after ((ControlCell.slot index).offset block.layout) (Bytes.u32 place) ∧
      place.toNat = block.layout.argsOffset + bytes.size ∧
      (value.depth ≤ WireValue.maxDepth →
        WireValue.decode after place.toNat = .ok value (place.toNat + encoded.size)) := by
  have admitted := (sound.writes_iff index value).mp ⟨next, later, written⟩
  obtain ⟨encoded, middle, after, own, ran, wrote, -⟩ := sound.writes admitted
  cases ran.symm.trans written
  obtain ⟨whole, again, cursor, fits, -⟩ := sound.packed.bytes
  cases all.symm.trans again
  obtain ⟨packed, slot⟩ := wrote.packed.last all own
  have bound := sound.serves.addressable.args
  have number : (UInt32.ofNat (block.layout.argsOffset + bytes.size)).toNat = block.layout.argsOffset + bytes.size :=
    toNat_word (by omega)
  refine ⟨encoded, after, _, own, by rw [cursor], wrote.shared, packed, slot, number, fun shallow => ?_⟩
  rw [number]
  exact WireValue.decode_held own (Nat.lt_succ_of_le shallow) (Holds.append.mp packed).2

theorem advance (sound : state.Sound block other data) (step : StagingStep) :
    ∃ after, (state.advance step).Sound block other after ∧ after.size = data.size := by
  cases step with
  | prepare id count => exact sound.prepare id count
  | write index value =>
    by_cases admitted : state.host.Admits index value
    · obtain ⟨encoded, later, after, -, ran, next, size⟩ := sound.writes admitted
      refine ⟨after, ?_, size⟩
      simp only [StagingState.advance, ran]
      exact next
    · rw [barred admitted]
      exact ⟨data, sound, rfl⟩

theorem run (sound : state.Sound block other data) (steps : List StagingStep) :
    ∃ after, (state.run steps).Sound block other after ∧ after.size = data.size := by
  induction steps generalizing state data with
  | nil => exact ⟨data, sound, rfl⟩
  | cons step rest ih =>
    obtain ⟨middle, next, size⟩ := sound.advance step
    obtain ⟨after, last, same⟩ := ih next
    exact ⟨after, last, same.trans size⟩

end Sound

-- Whatever calls a host prepared and whatever arguments it wrote, those since the last call that it
-- prepared stand one behind the other up to the cursor and are read back from where they stand. One
-- more either goes behind them or changes nothing.
theorem arguments_packed {block : ProtocolRegion} (shared : Shared memory block.region other data)
    (consistent : block.layout.isConsistent = true) (separate : block.layout.Separate)
    (addressable : block.layout.Addressable) (room : block.layout.totalSize ≤ data.size) (timeout : Duration)
    (steps : List StagingStep) {state : StagingState} (reached : run ⟨.new block timeout, memory, []⟩ steps = state) :
    ∃ now bytes, Shared state.memory block.region other now ∧
      WireValue.encodeAll (state.written.map Prod.snd) = .ok bytes ∧ state.host.argCursor = bytes.size ∧
      bytes.size ≤ block.layout.argsSize ∧ Holds now block.layout.argsOffset bytes ∧
      (∀ before index value later, state.written = before ++ (index, value) :: later →
        value.depth ≤ WireValue.maxDepth → ∃ place : UInt32,
          (∃ stop, WireValue.decode now place.toNat = .ok value stop ∧ stop ≤ block.layout.argsOffset + bytes.size) ∧
          (index ∉ later.map Prod.fst →
            Holds now ((ControlCell.slot index).offset block.layout) (Bytes.u32 place))) ∧
      ∀ index value,
        ((∃ next later, state.host.writeArg index value state.memory = .ok next later) ↔
          state.host.Admits index value) ∧
        (∀ e later, state.host.writeArg index value state.memory = .error e later →
          later = state.memory ∧ state.advance (.write index value) = state) ∧
        ∀ next later, state.host.writeArg index value state.memory = .ok next later →
          ∃ encoded after, ∃ place : UInt32, value.encode = .ok encoded ∧
            next = { state.host with argCursor := bytes.size + encoded.size } ∧
            Shared later block.region other after ∧ Holds after block.layout.argsOffset (bytes ++ encoded) ∧
            Holds after ((ControlCell.slot index).offset block.layout) (Bytes.u32 place) ∧
            place.toNat = block.layout.argsOffset + bytes.size ∧
            (value.depth ≤ WireValue.maxDepth →
              WireValue.decode after place.toNat = .ok value (place.toNat + encoded.size)) := by
  have serves : block.layout.Serves data.size := ⟨consistent, separate, addressable, room⟩
  have first : Sound block other ⟨.new block timeout, memory, []⟩ data :=
    ⟨rfl, serves, shared, Nat.zero_le _, .none (by have := serves.args.within; omega)⟩
  obtain ⟨now, sound, -⟩ := first.run steps
  rw [reached] at sound
  obtain ⟨bytes, all, cursor, fits, held⟩ := sound.packed.bytes
  refine ⟨now, bytes, sound.shared, all, cursor, fits, held, ?_, fun index value => ?_⟩
  · intro before index value later split shallow
    rw [← cursor]
    exact sound.packed.reads addressable.args split shallow
  · refine ⟨sound.writes_iff index value, fun e later failed => ?_, fun next later => sound.placed all⟩
    have barred : ¬ state.host.Admits index value := fun admitted => by
      obtain ⟨next, other, written⟩ := (sound.writes_iff index value).mpr admitted
      cases failed.symm.trans written
    obtain ⟨fault, unchanged⟩ := @ProtocolHost.writeArg_barred state.memory state.host index value barred
    cases failed.symm.trans unchanged
    exact ⟨rfl, Sound.barred barred⟩

-- An argument before any call is refused, one of a call with two goes into its slot, a third has none.
theorem arguments_packed_standard : ∃ (memory : Memory) (state : StagingState),
    run ⟨.new ⟨⟨0⟩, .standard⟩ ⟨1000⟩, memory, []⟩ [.write 0 (.keyword "em"), .prepare 7 2] = state ∧
      state.advance (.write 2 (.keyword "px")) = state ∧
      ∃ next later after, ∃ place : UInt32, state.host.writeArg 1 (.keyword "px") state.memory = .ok next later ∧
        next.argCursor = 7 ∧ Shared later ⟨0⟩ ⟨1⟩ after ∧
        Holds after ((ControlCell.slot 1).offset .standard) (Bytes.u32 place) ∧
        WireValue.decode after place.toNat = .ok (.keyword "px") (place.toNat + 7) := by
  let stale : ByteArray := ⟨Array.replicate 3215360 0xFF⟩
  let memory : Memory := ⟨#[⟨"k", stale, true⟩],
    #[⟨"k", 0, 3215360, true, .readWrite⟩, ⟨"k", 0, 3215360, false, .readWrite⟩], maxFileSize⟩
  have size : stale.size = 3215360 := Array.size_replicate
  have file : ∃ file, memory.file? 0 = some file ∧ file.bytes = stale := ⟨_, rfl, rfl⟩
  have shared : Shared memory ⟨0⟩ ⟨1⟩ stale :=
    ⟨0, ⟨⟨_, rfl, rfl, rfl, size.symm⟩, file⟩, ⟨⟨_, rfl, rfl, rfl, size.symm⟩, file⟩⟩
  let host : ProtocolHost := .new ⟨⟨0⟩, .standard⟩ ⟨1000⟩
  have serves : host.block.layout.Serves stale.size :=
    ⟨Layout.standard_consistent, Layout.standard_separate, Layout.standard_addressable, Nat.le_of_eq size.symm⟩
  obtain ⟨prepared, data, does, -⟩ := ProtocolHost.prepareCall_done serves shared 7
    (show 2 ≤ Layout.standard.fields.maxArgs by decide) (by decide)
  have reached : run ⟨host, memory, []⟩ [.write 0 (.keyword "em"), .prepare 7 2] =
      ⟨{ host with argCount := 2, argCursor := 0 }, prepared, []⟩ := by
    have early : StagingState.advance ⟨host, memory, []⟩ (.write 0 (.keyword "em")) = ⟨host, memory, []⟩ :=
      Sound.barred fun admitted => absurd admitted.1 (by decide)
    rw [run, List.foldl_cons, early, List.foldl_cons, List.foldl_nil, advance]
    simp only [does.ran]
  obtain ⟨now, bytes, -, all, cursor, -, -, -, one⟩ := arguments_packed shared Layout.standard_consistent
    Layout.standard_separate Layout.standard_addressable (Nat.le_of_eq size.symm) ⟨1000⟩ _ reached
  cases all
  have ready : ProtocolHost.Admits ⟨⟨⟨0⟩, .standard⟩, 2, 0, [], ⟨1000⟩⟩ 1 (.keyword "px") :=
    ⟨by decide, _, rfl, by decide⟩
  obtain ⟨next, later, written⟩ := (one 1 (.keyword "px")).1.mpr ready
  obtain ⟨encoded, after, place, own, rfl, still, -, slot, -, decoded⟩ := (one 1 (.keyword "px")).2.2 next later written
  cases own
  refine ⟨memory, _, reached, ?_, _, later, after, place, written, rfl, still, slot, decoded (by decide)⟩
  exact Sound.barred fun admitted => absurd admitted.1 (Nat.lt_irrefl 2)

end StagingState
end PluginBridge
