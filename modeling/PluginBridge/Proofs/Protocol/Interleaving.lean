import PluginBridge.Proofs.Protocol.StageWrites
namespace PluginBridge
open RegionWrite (performAll patchAll)
open ProtocolHost (CallStaged)
open ProtocolPeer (Numbered)
variable {layout : Layout} {size index cursor count : Nat} {id : UInt32} {args : List WireValue} {data : ByteArray}
  {memory later : Memory} {block : ProtocolRegion} {write : RegionWrite} {one other : RegionId}

structure Layout.Fits (layout : Layout) (size : Nat) : Prop where
  consistent : layout.isConsistent = true
  separate : layout.Separate
  room : layout.totalSize ≤ size

namespace Layout.Fits

theorem arguments (fits : layout.Fits size) : layout.Holding size layout.argsOffset layout.argsSize :=
  holding fits.consistent fits.room (layout.argsOffset, layout.argsSize) (by simp [sections])

theorem cell_room (fits : layout.Fits size) {cell : ControlCell} (present : cell.Present layout.fields) :
    cell.offset layout + 4 ≤ size :=
  Nat.le_trans (fits.separate.within present).2 (control_room fits.consistent fits.room)

theorem cells_apart (fits : layout.Fits size) {a b : ControlCell} (aPresent : a.Present layout.fields)
    (bPresent : b.Present layout.fields) (different : a ≠ b) : Apart (a.offset layout, 4) (b.offset layout, 4) := by
  have apart := fits.separate.apart a b aPresent bPresent different
  simp only [Apart, ControlCell.offset, control] at apart ⊢
  omega

theorem cell_argument (fits : layout.Fits size) {cell : ControlCell} (present : cell.Present layout.fields)
    {offset length : Nat} (low : layout.argsOffset ≤ offset) (high : offset + length ≤ layout.argsOffset + layout.argsSize) :
    Apart (cell.offset layout, 4) (offset, length) := by
  have inside := fits.separate.within present
  have apart := fits.arguments.apart
  simp only [Apart] at apart ⊢
  omega

end Layout.Fits

namespace ProtocolRegion

theorem cellWrite_range (value : UInt32) (cell : ControlCell) :
    (block.cellWrite value cell).range = (cell.offset block.layout, 4) := by
  rw [RegionWrite.range, cellWrite, Bytes.size_u32]

-- What is written for the arguments: words into slots from `slot` on, and bytes behind `cursor`.
inductive ArgumentWrite (block : ProtocolRegion) (slot cursor : Nat) : RegionWrite → Prop where
  | slot (value : UInt32) {index : Nat} : slot ≤ index → index < block.layout.fields.maxArgs →
      ArgumentWrite block slot cursor (block.cellWrite value (.slot index))
  | bytes {offset : Nat} {bytes : ByteArray} : block.layout.argsOffset + cursor ≤ offset →
      offset + bytes.size ≤ block.layout.argsOffset + block.layout.argsSize →
      ArgumentWrite block slot cursor ⟨block.region, offset, bytes⟩

namespace ArgumentWrite
variable {slot : Nat}

theorem mono {earlier before : Nat} (lower : earlier ≤ slot) (front : before ≤ cursor)
    (places : block.ArgumentWrite slot cursor write) : block.ArgumentWrite earlier before write := by
  cases places with
  | slot value least most => exact .slot value (Nat.le_trans lower least) most
  | bytes low high => exact .bytes (Nat.le_trans (Nat.add_le_add_left front _) low) high

theorem within (fits : block.layout.Fits size) (places : block.ArgumentWrite slot cursor write) :
    write.Within block.region other size := by
  cases places with
  | @slot value index least most =>
    have present : (ControlCell.slot index).Present block.layout.fields := most
    exact ⟨.inl rfl, Bytes.size_u32 value ▸ fits.cell_room present⟩
  | bytes low high => exact ⟨.inl rfl, Nat.le_trans high fits.arguments.within⟩

theorem apart_cell (fits : block.layout.Fits size) {cell : ControlCell} (present : cell.Present block.layout.fields)
    (free : ∀ index, slot ≤ index → cell ≠ .slot index) (places : block.ArgumentWrite slot cursor write) :
    Layout.Apart (cell.offset block.layout, 4) write.range := by
  cases places with
  | @slot value index least most =>
    rw [cellWrite_range]
    exact fits.cells_apart present most (free index least)
  | bytes low high => exact fits.cell_argument present (Nat.le_trans (Nat.le_add_right _ _) low) high

theorem apart_bytes (fits : block.layout.Fits size) {offset length : Nat} (low : block.layout.argsOffset ≤ offset)
    (high : offset + length ≤ block.layout.argsOffset + cursor) (room : cursor ≤ block.layout.argsSize)
    (places : block.ArgumentWrite slot cursor write) : Layout.Apart (offset, length) write.range := by
  cases places with
  | @slot value index least most =>
    have present : (ControlCell.slot index).Present block.layout.fields := most
    rw [cellWrite_range]
    exact (fits.cell_argument present low (Nat.le_trans high (Nat.add_le_add_left room _))).symm
  | bytes front back => exact .inl (Nat.le_trans high front)

end ArgumentWrite

theorem argWrites_places : ∀ (args : List WireValue) (index cursor : Nat),
    ∀ write ∈ block.argWrites index cursor args, block.ArgumentWrite index cursor write
  | [], _, _, _, among => absurd among List.not_mem_nil
  | value :: rest, index, cursor, write, among => by
    rw [argWrites] at among
    split at among
    · cases among
    · rename_i bytes encoded
      split at among
      · rename_i room
        rcases List.mem_cons.mp among with rfl | among
        · exact .bytes (Nat.le_refl _) (by omega)
        · rcases List.mem_cons.mp among with rfl | among
          · exact .slot _ (Nat.le_refl _) room.1
          · exact (argWrites_places rest _ _ write among).mono (Nat.le_succ _) (Nat.le_add_right _ _)
      · cases among

theorem argWrites_staged (fits : block.layout.Fits size) : ∀ {args : List WireValue} {data bytes : ByteArray} {index cursor : Nat},
    data.size = size → WireValue.encodeAll args = .ok bytes → cursor + bytes.size ≤ block.layout.argsSize →
      index + args.length ≤ block.layout.fields.maxArgs →
        Staged block.layout (patchAll (block.argWrites index cursor args) data) index cursor args
  | [], _, _, _, _, _, _, _, _ => trivial
  | value :: rest, data, _, index, cursor, same, encoded, room, few => by
    rw [WireValue.encodeAll] at encoded
    obtain ⟨first, here, encoded⟩ := except_parts encoded
    obtain ⟨others, more, encoded⟩ := except_parts encoded
    cases encoded
    rw [ByteArray.size_append] at room
    rw [List.length_cons] at few
    let bytes : RegionWrite := ⟨block.region, block.layout.argsOffset + cursor, first⟩
    let pointer := block.cellWrite (UInt32.ofNat (block.layout.argsOffset + cursor)) (.slot index)
    let later := block.argWrites (index + 1) (cursor + first.size) rest
    have fitting : index < block.layout.fields.maxArgs ∧ cursor + first.size ≤ block.layout.argsSize := by omega
    have shape : block.argWrites index cursor (value :: rest) = bytes :: pointer :: later := by
      rw [argWrites, here]
      exact if_pos fitting
    have within : ∀ write ∈ bytes :: pointer :: later, write.offset + write.bytes.size ≤ data.size := by
      rw [← shape]
      intro write among
      exact same ▸ (@ArgumentWrite.within size cursor block write block.region index fits
        (argWrites_places _ _ _ write among)).room
    have places := @argWrites_places block rest (index + 1) (cursor + first.size)
    have slot : (ControlCell.slot index).Present block.layout.fields := fitting.1
    -- What is written later goes into other slots and behind these bytes.
    have behind : ∀ write ∈ later, Layout.Apart pointer.range write.range := by
      intro write among
      rw [cellWrite_range]
      exact (places write among).apart_cell fits slot fun found late same => by
        cases same
        omega
    have ahead : ∀ write ∈ pointer :: later, Layout.Apart bytes.range write.range := by
      intro write among
      rcases List.mem_cons.mp among with rfl | among
      · rw [cellWrite_range]
        refine (fits.cell_argument slot (Nat.le_add_right _ _) ?_).symm
        rw [Nat.add_assoc]
        exact Nat.add_le_add_left fitting.2 _
      · exact (places write among).apart_bytes fits (Nat.le_add_right _ _) (Nat.le_of_eq (Nat.add_assoc _ _ _)) fitting.2
    have pointed := @RegionWrite.patchAll_holds data pointer [bytes] later within behind
    have placed := @RegionWrite.patchAll_holds data bytes [] (pointer :: later) within ahead
    rw [List.singleton_append] at pointed
    rw [List.nil_append] at placed
    rw [shape]
    refine ⟨first, here, fitting.2, pointed, placed, ?_⟩
    rw [RegionWrite.patchAll_cons, RegionWrite.patchAll_cons]
    refine argWrites_staged fits ?_ more (by omega) (by omega)
    have one := within bytes List.mem_cons_self
    have two := within pointer (List.mem_cons_of_mem _ List.mem_cons_self)
    exact (size_patched (size_patched one ▸ two)).trans ((size_patched one).trans same)

theorem prepareWrites_cells (id : UInt32) : ∀ write ∈ block.prepareWrites id count, ∃ value cell,
    cell.Present block.layout.fields ∧ (cell = .requestReady → value = 0) ∧ write = block.cellWrite value cell := by
  intro write among
  simp only [prepareWrites, List.mem_append, List.mem_map, List.mem_cons, List.not_mem_nil, or_false,
    List.mem_range'_1, Nat.zero_add] at among
  rcases among with ⟨cell, cleared, rfl⟩ | rfl | rfl | ⟨slot, ⟨-, few⟩, rfl⟩
  · refine ⟨0, cell, ?_, fun _ => rfl, rfl⟩
    rcases cleared with rfl | rfl | rfl | rfl | rfl <;> trivial
  · exact ⟨id, .functionId, trivial, (fun same => by cases same), rfl⟩
  · exact ⟨_, .argCount, trivial, (fun same => by cases same), rfl⟩
  · exact ⟨0, .slot slot, few, fun _ => rfl, rfl⟩

theorem stageWrites_within (fits : block.layout.Fits size) (id : UInt32) (args : List WireValue) (other : RegionId) :
    ∀ write ∈ block.stageWrites id args, write.Within block.region other size := by
  intro write among
  rcases List.mem_append.mp among with prepared | placed
  · obtain ⟨value, cell, present, -, rfl⟩ := prepareWrites_cells id write prepared
    exact ⟨.inl rfl, Bytes.size_u32 value ▸ fits.cell_room present⟩
  · exact (argWrites_places args 0 0 write placed).within fits

theorem stageWrites_staged (fits : block.layout.Fits data.size) {bytes : ByteArray}
    (few : args.length ≤ block.layout.fields.maxArgs) (encoded : WireValue.encodeAll args = .ok bytes)
    (room : bytes.size ≤ block.layout.argsSize) (id : UInt32) :
    Holds (patchAll (block.stageWrites id args) data) (ControlCell.functionId.offset block.layout) (Bytes.u32 id) ∧
      Holds (patchAll (block.stageWrites id args) data) (ControlCell.argCount.offset block.layout)
        (Bytes.u32 (UInt32.ofNat args.length)) ∧
      Staged block.layout (patchAll (block.stageWrites id args) data) 0 0 args := by
  have within : ∀ write ∈ block.stageWrites id args, write.offset + write.bytes.size ≤ data.size := fun write among =>
    (stageWrites_within fits id args block.region write among).room
  let cleared := [ControlCell.requestReady, .responseReady, .errorFlag, .resultOffset, .resultSize].map (block.cellWrite 0)
  let named := block.cellWrite id .functionId
  let counted := block.cellWrite (UInt32.ofNat args.length) .argCount
  let slots := (List.range' 0 block.layout.fields.maxArgs).map fun slot => block.cellWrite 0 (.slot slot)
  let later := slots ++ block.argWrites 0 0 args
  -- No slot and no argument lies where one of the other words does.
  have clear : ∀ cell : ControlCell, cell.Present block.layout.fields → (∀ slot, cell ≠ .slot slot) →
      ∀ write ∈ later, Layout.Apart (cell.offset block.layout, 4) write.range := by
    intro cell present scalar write among
    rcases List.mem_append.mp among with emptied | placed
    · obtain ⟨slot, inside, rfl⟩ := List.mem_map.mp emptied
      have slotPresent : (ControlCell.slot slot).Present block.layout.fields := by
        simpa [ControlCell.Present] using inside
      rw [cellWrite_range]
      exact fits.cells_apart present slotPresent (scalar slot)
    · exact (argWrites_places args 0 0 write placed).apart_cell fits present fun slot _ => scalar slot
  have shape : block.stageWrites id args = cleared ++ named :: counted :: later := by
    simp [stageWrites, prepareWrites, cleared, named, counted, later, slots]
  refine ⟨?_, ?_, ?_⟩
  · rw [shape] at within ⊢
    refine @RegionWrite.patchAll_holds data named _ _ within fun write among => ?_
    rw [cellWrite_range]
    rcases List.mem_cons.mp among with rfl | among
    · rw [cellWrite_range]
      exact fits.cells_apart trivial trivial (fun same => by cases same)
    · exact clear .functionId trivial (fun _ same => by cases same) write among
  · rw [shape, List.append_cons] at within ⊢
    refine @RegionWrite.patchAll_holds data counted _ _ within fun write among => ?_
    rw [cellWrite_range]
    exact clear .argCount trivial (fun _ same => by cases same) write among
  · rw [stageWrites, patchAll, List.foldl_append]
    refine argWrites_staged fits ?_ encoded (by omega) (by omega)
    exact RegionWrite.size_patchAll fun write among => within write (List.mem_append_left _ among)

end ProtocolRegion

def RegionWrite.Quiet (layout : Layout) (write : RegionWrite) : Prop :=
  write.offset = ControlCell.requestReady.offset layout ∧ write.bytes = Bytes.u32 0 ∨
    Layout.Apart (ControlCell.requestReady.offset layout, 4) write.range

theorem RegionWrite.Quiet.kept (quiet : write.Quiet layout) (room : write.offset + write.bytes.size ≤ data.size)
    (down : Holds data (ControlCell.requestReady.offset layout) (Bytes.u32 0)) :
    Holds (patched data write.offset write.bytes) (ControlCell.requestReady.offset layout) (Bytes.u32 0) := by
  rcases quiet with ⟨place, zero⟩ | apart
  · have held := patched_holds room
    rwa [zero, place] at held ⊢
  · exact patched_keeps room down (Bytes.size_u32 0 ▸ apart)

namespace ProtocolRegion

theorem cellWrite_quiet (fits : block.layout.Fits size) {value : UInt32} {cell : ControlCell}
    (present : cell.Present block.layout.fields) (flag : cell = .requestReady → value = 0) :
    (block.cellWrite value cell).Quiet block.layout := by
  by_cases same : cell = .requestReady
  · obtain rfl := flag same
    exact .inl ⟨same ▸ rfl, rfl⟩
  · refine .inr ?_
    rw [cellWrite_range]
    exact fits.cells_apart trivial present (Ne.symm same)

theorem stageWrites_quiet (fits : block.layout.Fits size) (id : UInt32) (args : List WireValue) :
    ∀ write ∈ block.stageWrites id args, write.Quiet block.layout := by
  intro write among
  rcases List.mem_append.mp among with prepared | placed
  · obtain ⟨value, cell, present, flag, rfl⟩ := prepareWrites_cells id write prepared
    exact cellWrite_quiet fits present flag
  · exact .inr ((argWrites_places args 0 0 write placed).apart_cell fits trivial nofun)

def clearWrites (block : ProtocolRegion) : List RegionWrite := [.requestReady, .responseReady].map (block.cellWrite 0)

theorem clearWrites_quiet (fits : block.layout.Fits size) (other : RegionId) :
    ∀ write ∈ block.clearWrites, write.Within block.region other size ∧ write.Quiet block.layout := by
  intro write among
  obtain ⟨cell, inside, rfl⟩ := List.mem_map.mp among
  have present : cell.Present block.layout.fields := by
    rcases List.mem_cons.mp inside with rfl | inside
    · trivial
    · cases List.mem_singleton.mp inside
      trivial
  exact ⟨⟨.inl rfl, Bytes.size_u32 0 ▸ fits.cell_room present⟩, cellWrite_quiet fits present fun _ => rfl⟩

end ProtocolRegion

-- One thing that happens at a region: one of the ends writes, or the peer looks for a request.
inductive MailboxEvent where
  | write (write : RegionWrite)
  | poll

namespace MailboxEvent

def write? : MailboxEvent → Option RegionWrite
  | .write write => some write
  | .poll => none

def writes (events : List MailboxEvent) : List RegionWrite := events.filterMap write?

def polls (events : List MailboxEvent) : Nat := events.countP fun event => event.write?.isNone

end MailboxEvent

open MailboxEvent (writes polls)

namespace ProtocolPeer
variable {peer : ProtocolPeer} {events more : List MailboxEvent} {answers others : List (Option ProtocolRequest)}
  {middle : Memory}

def play (peer : ProtocolPeer) : List MailboxEvent → ProtocolAccess (List (Option ProtocolRequest))
  | [] => pure []
  | .write write :: rest => do
    write.perform
    peer.play rest
  | .poll :: rest => do
    let answer ← peer.pollRequest
    return answer :: (← peer.play rest)

theorem play_append (first : peer.play events memory = .ok answers middle)
    (second : peer.play more middle = .ok others later) : peer.play (events ++ more) memory = .ok (answers ++ others) later := by
  induction events generalizing memory answers with
  | nil =>
    cases first
    exact second
  | cons event rest ih =>
    cases event with
    | write write =>
      rw [play] at first
      obtain ⟨_, between, wrote, first⟩ := bind_parts first
      rw [List.cons_append, play, bind_done wrote, ih first]
    | poll =>
      rw [play] at first
      obtain ⟨answer, between, polled, first⟩ := bind_parts first
      obtain ⟨tail, ended, rested, first⟩ := bind_parts first
      cases first
      rw [List.cons_append, play, bind_done polled, bind_done (ih rested)]
      rfl

def Unsignalled (peer : ProtocolPeer) (host : RegionId) (size : Nat) (memory : Memory) : Prop :=
  ∃ data, Shared memory host peer.block.region data ∧ data.size = size ∧
    Holds data (ControlCell.requestReady.offset peer.block.layout) (Bytes.u32 0)

variable {host : RegionId}

theorem pollRequest_idle (fits : peer.block.layout.Fits size) (unsignalled : peer.Unsignalled host size memory) :
    peer.pollRequest memory = .ok none memory := by
  obtain ⟨data, shared, rfl, down⟩ := unsignalled
  have synced : peer.block.syncControl memory = .ok () memory :=
    ProtocolRegion.access_done (shared.symm.syncRange (Layout.control_room fits.consistent fits.room))
  rw [pollRequest]
  simp only
  rw [bind_done synced, bind_done (ProtocolRegion.get_done shared.symm down)]
  rfl

theorem play_quiet (fits : peer.block.layout.Fits size) (unsignalled : peer.Unsignalled host size memory)
    (quiet : ∀ write ∈ writes events, write.Within host peer.block.region size ∧ write.Quiet peer.block.layout) :
    ∃ later, performAll (writes events) memory = .ok () later ∧
      peer.play events memory = .ok (List.replicate (polls events) none) later ∧ peer.Unsignalled host size later := by
  induction events generalizing memory with
  | nil => exact ⟨memory, rfl, rfl, unsignalled⟩
  | cons event rest ih =>
    cases event with
    | write write =>
      obtain ⟨within, silent⟩ := quiet write List.mem_cons_self
      obtain ⟨data, shared, rfl, down⟩ := unsignalled
      obtain ⟨middle, wrote, still⟩ := RegionWrite.perform_done within shared
      obtain ⟨later, performed, played, after⟩ := ih
        ⟨_, still, size_patched within.room, silent.kept within.room down⟩
        fun write among => quiet write (List.mem_cons_of_mem _ among)
      exact ⟨later, (bind_done wrote).trans performed, (bind_done wrote).trans played, after⟩
    | poll =>
      have idle := pollRequest_idle fits unsignalled
      obtain ⟨later, performed, played, after⟩ := ih unsignalled quiet
      have more : polls (.poll :: rest) = polls rest + 1 := List.countP_cons_of_pos rfl
      refine ⟨later, performed, ?_, after⟩
      rw [play, bind_done idle, bind_done played, more, List.replicate_succ]
      rfl

end ProtocolPeer

theorem ProtocolHost.signalRequest_raises {host : ProtocolHost} {other : RegionId} (fits : host.block.layout.Fits data.size)
    (shared : Shared memory host.block.region other data) (room : host.argCursor ≤ host.block.layout.argsSize) :
    host.signalRequest memory = (host.block.cellWrite 1 .requestReady).perform memory := by
  have within : (host.block.cellWrite 1 .requestReady).Within host.block.region other data.size :=
    ⟨.inl rfl, Bytes.size_u32 1 ▸ fits.cell_room trivial⟩
  obtain ⟨later, raised, still⟩ := RegionWrite.perform_done within shared
  have arguments := fits.arguments.within
  have flushed := ProtocolRegion.access_done
    (shared.syncRange (show host.block.layout.argsOffset + host.argCursor ≤ data.size by omega))
  have control := Layout.control_room fits.consistent fits.room
  rw [← size_patched within.room] at control
  have synced : host.block.syncControl later = .ok () later := ProtocolRegion.access_done (still.syncRange control)
  have rung : host.block.set host.block.layout.fields.requestReady 1 memory = .ok () later := raised
  rw [signalRequest, raised]
  simp only
  split
  · rw [bind_done flushed, bind_done rung, synced]
  · rw [bind_done rung, synced]

theorem ProtocolHost.Cleared.down {host : ProtocolHost} {other : RegionId} (fits : host.block.layout.Fits data.size)
    (shared : Shared memory host.block.region other data) (cleared : host.Cleared memory) :
    Holds data (ControlCell.requestReady.offset host.block.layout) (Bytes.u32 0) := by
  have present : ControlCell.requestReady.Present host.block.layout.fields := trivial
  obtain ⟨value, held⟩ := word_held (fits.cell_room present)
  have read := cleared.1.symm.trans (ProtocolRegion.get_done shared held)
  cases read
  exact held

theorem staged_raised (fits : block.layout.Fits data.size) (few : args.length ≤ block.layout.fields.maxArgs)
    (staged : Staged block.layout data 0 0 args) :
    Staged block.layout (patched data (block.cellWrite 1 .requestReady).offset (block.cellWrite 1 .requestReady).bytes) 0 0
      args := by
  have present : ControlCell.requestReady.Present block.layout.fields := trivial
  have room : (block.cellWrite 1 .requestReady).offset + (block.cellWrite 1 .requestReady).bytes.size ≤ data.size :=
    Bytes.size_u32 1 ▸ fits.cell_room present
  have size : (block.cellWrite 1 .requestReady).bytes.size = 4 := Bytes.size_u32 1
  have place : (block.cellWrite 1 .requestReady).offset = ControlCell.requestReady.offset block.layout := rfl
  refine Staged.kept (.patch room) (fun slot k inside low high touched => ?_) (fun k low high touched => ?_) (by omega) staged
  · have apart := fits.cells_apart (show (ControlCell.slot slot).Present block.layout.fields from inside) present nofun
    simp only [Layout.Apart] at apart
    omega
  · have apart := fits.cell_argument present (Nat.le_refl block.layout.argsOffset) (Nat.le_refl _)
    simp only [Layout.Apart] at apart
    omega

theorem ProtocolPeer.pollRequest_raised {peer : ProtocolPeer} (agree : peer.block.layout = block.layout)
    (fits : block.layout.Fits data.size) (shared : Shared memory block.region peer.block.region data)
    (few : args.length ≤ block.layout.fields.maxArgs) (small : args.length < 0x100000000)
    (shallow : ∀ value ∈ args, value.depth ≤ WireValue.maxDepth)
    (function : Holds data (ControlCell.functionId.offset block.layout) (Bytes.u32 id))
    (counted : Holds data (ControlCell.argCount.offset block.layout) (Bytes.u32 (UInt32.ofNat args.length)))
    (staged : Staged block.layout data 0 0 args) (numbered : Numbered block.layout 0 args) :
    ∃ raised taken, (block.cellWrite 1 .requestReady).perform memory = .ok () raised ∧
      peer.pollRequest raised = .ok (some ⟨id, args⟩) taken ∧ peer.Unsignalled block.region data.size taken := by
  obtain ⟨⟨view, viewed⟩⟩ := peer
  obtain rfl : viewed = block.layout := agree
  let peer : ProtocolPeer := ⟨view, block.layout⟩
  let raise := block.cellWrite 1 .requestReady
  let lower := peer.block.cellWrite 0 .requestReady
  have raises : raise.Within block.region view data.size := ⟨.inl rfl, Bytes.size_u32 1 ▸ fits.cell_room trivial⟩
  obtain ⟨raised, ran, shares⟩ := RegionWrite.perform_done raises shared
  have held := patched_holds raises.room
  have size := size_patched raises.room
  -- From here on only what the raised region holds matters, not how it came to.
  have flag : ∀ (cell : ControlCell) (value : UInt32), cell.Present block.layout.fields → cell ≠ .requestReady →
      Holds data (cell.offset block.layout) (Bytes.u32 value) →
        Holds (patched data raise.offset raise.bytes) (cell.offset block.layout) (Bytes.u32 value) := by
    intro cell value present other before
    have apart := fits.cells_apart present (show ControlCell.requestReady.Present block.layout.fields from trivial) other
    rw [← ProtocolRegion.cellWrite_range 1] at apart
    exact patched_keeps raises.room before (Bytes.size_u32 value ▸ apart)
  have functionHeld := flag .functionId id trivial nofun function
  have countHeld := flag .argCount _ trivial nofun counted
  have stagedHeld := staged_raised fits few staged
  generalize patched data raise.offset raise.bytes = rung at *
  have rungFits : block.layout.Fits rung.size := size ▸ fits
  have lowers : lower.Within block.region view rung.size := ⟨.inr rfl, Bytes.size_u32 0 ▸ rungFits.cell_room trivial⟩
  obtain ⟨taken, lowered, still⟩ := RegionWrite.perform_done lowers shares
  have control := Layout.control_room rungFits.consistent rungFits.room
  have synced : peer.block.syncControl raised = .ok () raised := ProtocolRegion.access_done (shares.symm.syncRange control)
  have within : peer.block.layout.argsOffset + peer.block.layout.argsSize ≤ rung.size := rungFits.arguments.within
  have down : Holds (patched rung lower.offset lower.bytes) (ControlCell.requestReady.offset block.layout) (Bytes.u32 0) :=
    patched_holds lowers.room
  refine ⟨raised, taken, ran, ?_, patched rung lower.offset lower.bytes, still, (size_patched lowers.room).trans size, down⟩
  exact pollRequest_found within synced shares.symm few small shallow held functionHeld countHeld stagedHeld
    numbered lowered

-- However often a peer looks while a host stages a call and signals it, write by write: until the flag is raised it finds
-- nothing and changes nothing, then it finds the whole request once, and nothing more as long as nobody raises the flag
-- again. The host itself does not while it clears the flags or stages further calls.
theorem request_delivered_once {host staged : ProtocolHost} {peer : ProtocolPeer}
    (agree : peer.block.layout = host.block.layout) (shared : Shared memory host.block.region peer.block.region data)
    (consistent : host.block.layout.isConsistent = true) (separate : host.block.layout.Separate)
    (room : host.block.layout.totalSize ≤ data.size) (cleared : host.Cleared memory)
    (shallow : ∀ value ∈ args, value.depth ≤ WireValue.maxDepth)
    (stages : host.stageCall id args memory = .ok (staged, .ok ()) later) :
    performAll (host.block.stageWrites id args) memory = .ok () later ∧
    staged.signalRequest later = (host.block.cellWrite 1 .requestReady).perform later ∧
    (∀ events, writes events <+: host.block.stageWrites id args → ∃ middle,
      performAll (writes events) memory = .ok () middle ∧
      peer.play events memory = .ok (List.replicate (polls events) none) middle) ∧
    (∀ before after, writes before = host.block.stageWrites id args →
      (∀ write ∈ writes after, write.Within host.block.region peer.block.region data.size ∧
        write.Quiet host.block.layout) →
      ∃ last, peer.play (before ++ .write (host.block.cellWrite 1 .requestReady) :: .poll :: after) memory =
        .ok (List.replicate (polls before) none ++ some ⟨id, args⟩ :: List.replicate (polls after) none) last) ∧
    ∀ others nextId, ∀ write ∈ host.block.clearWrites ++ host.block.stageWrites nextId others,
      write.Within host.block.region peer.block.region data.size ∧ write.Quiet host.block.layout := by
  have fits : host.block.layout.Fits data.size := ⟨consistent, separate, room⟩
  have peerFits : peer.block.layout.Fits data.size := agree ▸ fits
  have unsignalled : peer.Unsignalled host.block.region data.size memory :=
    ⟨data, shared, rfl, agree ▸ cleared.down fits shared⟩
  obtain ⟨performed, numbered, small, block, cursor⟩ := ProtocolHost.stageCall_writes stages
  obtain ⟨few, bytes, encoded, placed⟩ := ProtocolHost.stageCall_fits id args memory _ later stages rfl
  have silent : ∀ {nextId others}, ∀ write ∈ host.block.stageWrites nextId others,
      write.Within host.block.region peer.block.region data.size ∧ write.Quiet host.block.layout := fun write among =>
    ⟨ProtocolRegion.stageWrites_within fits _ _ peer.block.region write among,
      ProtocolRegion.stageWrites_quiet fits _ _ write among⟩
  obtain ⟨reached, again, shares⟩ := RegionWrite.performAll_done (fun write among => (silent write among).1) shared
  cases performed.symm.trans again
  have size : (patchAll (host.block.stageWrites id args) data).size = data.size :=
    RegionWrite.size_patchAll fun write among => (silent write among).1.room
  -- Nothing written before the request raises it, so the peer finds nothing however often it looks.
  have early : ∀ events, writes events <+: host.block.stageWrites id args → ∃ middle,
      performAll (writes events) memory = .ok () middle ∧
      peer.play events memory = .ok (List.replicate (polls events) none) middle := by
    intro events front
    obtain ⟨middle, wrote, played, -⟩ := ProtocolPeer.play_quiet peerFits unsignalled fun write among =>
      agree ▸ silent write (front.subset among)
    exact ⟨middle, wrote, played⟩
  refine ⟨performed, ?_, early, fun before after whole quiet => ?_, fun others nextId write among => ?_⟩
  · have raises := @ProtocolHost.signalRequest_raises _ later staged peer.block.region (block ▸ size ▸ fits)
      (block ▸ shares) (block ▸ cursor)
    rwa [block] at raises
  · obtain ⟨middle, wrote, first⟩ := early before (whole ▸ List.prefix_refl _)
    rw [whole] at wrote
    cases performed.symm.trans wrote
    obtain ⟨function, counted, inPlace⟩ := ProtocolRegion.stageWrites_staged fits few encoded placed id
    obtain ⟨raised, taken, raises, polled, quieted⟩ := ProtocolPeer.pollRequest_raised agree (size ▸ fits) shares few small
      shallow function counted inPlace numbered
    obtain ⟨last, -, rest, -⟩ := ProtocolPeer.play_quiet (size ▸ peerFits) quieted fun write among =>
      agree ▸ size ▸ quiet write among
    refine ⟨last, ProtocolPeer.play_append first ?_⟩
    rw [ProtocolPeer.play, bind_done raises, ProtocolPeer.play, bind_done polled, bind_done rest]
    rfl
  · rcases List.mem_append.mp among with lowers | stages
    · exact ProtocolRegion.clearWrites_quiet fits peer.block.region write lowers
    · exact silent write stages

-- A peer that looks before every single write, once more after it took the request, and again after the flags are cleared.
theorem request_delivered_once_watched : ∃ (memory later last : Memory) (host staged : ProtocolHost) (peer : ProtocolPeer),
    host.block.layout = .standard ∧ host.block.region ≠ peer.block.region ∧ host.Cleared memory ∧
      host.stageCall 7 [.keyword "px", .expression [.keyword "em"]] memory = .ok (staged, .ok ()) later ∧
      peer.play ((host.block.stageWrites 7 [.keyword "px", .expression [.keyword "em"]]).flatMap
          (fun write => [.poll, .write write]) ++ .write (host.block.cellWrite 1 .requestReady) :: .poll :: .poll ::
          (host.block.clearWrites.map .write ++ [.poll])) memory =
        .ok (List.replicate (host.block.stageWrites 7 [.keyword "px", .expression [.keyword "em"]]).length none ++
          [some ⟨7, [.keyword "px", .expression [.keyword "em"]]⟩, none, none]) last := by
  let args : List WireValue := [.keyword "px", .expression [.keyword "em"]]
  let stale : ByteArray := ⟨Array.replicate 3215360 0xFF⟩
  let memory : Memory := ⟨#[⟨"k", stale, true⟩],
    #[⟨"k", 0, 3215360, true, .readWrite⟩, ⟨"k", 0, 3215360, false, .readWrite⟩], maxFileSize⟩
  let host : ProtocolHost := .new ⟨⟨0⟩, .standard⟩ ⟨1000⟩
  let peer : ProtocolPeer := ⟨⟨⟨1⟩, .standard⟩⟩
  have size : stale.size = 3215360 := Array.size_replicate
  have file : ∃ file, memory.file? 0 = some file ∧ file.bytes = stale := ⟨_, rfl, rfl⟩
  have shared : Shared memory ⟨0⟩ ⟨1⟩ stale :=
    ⟨0, ⟨⟨_, rfl, rfl, rfl, size.symm⟩, file⟩, ⟨⟨_, rfl, rfl, rfl, size.symm⟩, file⟩⟩
  have serves : host.block.layout.Serves stale.size :=
    ⟨Layout.standard_consistent, Layout.standard_separate, Layout.standard_addressable, Nat.le_of_eq size.symm⟩
  obtain ⟨empty, data, emptied, cleared⟩ := ProtocolHost.clearResponse_does serves shared
  have still : host.block.layout.Serves data.size := emptied.serves serves
  obtain ⟨later, _, stages, -⟩ := @ProtocolHost.stageCall_done _ empty data host still emptied.shared 7 args _ (by decide) rfl
    (by decide)
  obtain ⟨-, -, -, delivered, quiet⟩ := @request_delivered_once 7 args data empty later host _ peer rfl emptied.shared
    still.consistent still.separate still.room cleared (by decide) stages.ran
  have watched : ∀ list : List RegionWrite,
      writes (list.flatMap fun write => [.poll, .write write]) = list ∧
        polls (list.flatMap fun write => [.poll, .write write]) = list.length := by
    intro list
    induction list with
    | nil => exact ⟨rfl, rfl⟩
    | cons write rest ih =>
      exact ⟨congrArg (write :: ·) ih.1, (List.countP_cons_of_pos rfl).trans (congrArg Nat.succ ih.2)⟩
  have lowers : writes (.poll :: (host.block.clearWrites.map .write ++ [.poll])) = host.block.clearWrites := rfl
  obtain ⟨last, played⟩ := delivered _ (.poll :: (host.block.clearWrites.map .write ++ [.poll]))
    (watched (host.block.stageWrites 7 args)).1 fun write among =>
      quiet [] 0 write (List.mem_append_left _ (lowers ▸ among))
  rw [(watched _).2] at played
  exact ⟨empty, later, last, host, _, peer, rfl, by decide, cleared, stages.ran, played⟩

end PluginBridge
