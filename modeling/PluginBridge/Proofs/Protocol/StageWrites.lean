import PluginBridge.Proofs.Protocol.Handshake
import PluginBridge.Proofs.Protocol.Writes
namespace PluginBridge
open ProtocolRegion (access codec)
variable {one other : RegionId} {memory later : Memory} {data : ByteArray} {layout : Layout} {offset : Nat} {bytes : ByteArray}

structure RegionWrite where
  region : RegionId
  offset : Nat
  bytes : ByteArray

namespace RegionWrite
variable {write : RegionWrite} {writes more : List RegionWrite}

def perform (write : RegionWrite) : ProtocolAccess Unit := access (Memory.write write.region write.offset write.bytes)

def performAll : List RegionWrite → ProtocolAccess Unit
  | [] => pure ()
  | write :: rest => do
    write.perform
    performAll rest

theorem performAll_append (ran : performAll writes memory = .ok () later) :
    performAll (writes ++ more) memory = performAll more later := by
  induction writes generalizing memory with
  | nil =>
    cases ran
    rfl
  | cons write rest ih =>
    rw [performAll] at ran
    obtain ⟨_, middle, first, others⟩ := bind_parts ran
    rw [List.cons_append, performAll, bind_done first, ih others]

def range (write : RegionWrite) : Nat × Nat := (write.offset, write.bytes.size)

-- Two ends share a file of that many bytes, and the write goes to it through one of them.
structure Within (one other : RegionId) (size : Nat) (write : RegionWrite) : Prop where
  mine : write.region = one ∨ write.region = other
  room : write.offset + write.bytes.size ≤ size

def patchAll (writes : List RegionWrite) (data : ByteArray) : ByteArray :=
  writes.foldl (fun data write => patched data write.offset write.bytes) data

theorem patchAll_cons (write : RegionWrite) (writes : List RegionWrite) (data : ByteArray) :
    patchAll (write :: writes) data = patchAll writes (patched data write.offset write.bytes) := rfl

theorem perform_done (within : write.Within one other data.size) (shared : Shared memory one other data) :
    ∃ later, write.perform memory = .ok () later ∧ Shared later one other (patched data write.offset write.bytes) := by
  obtain ⟨region, offset, bytes⟩ := write
  rcases within.mine with rfl | rfl
  · obtain ⟨later, ran, still⟩ := shared.write within.room
    exact ⟨later, ProtocolRegion.access_done ran, still⟩
  · obtain ⟨later, ran, still⟩ := shared.symm.write within.room
    exact ⟨later, ProtocolRegion.access_done ran, still.symm⟩

theorem size_patchAll (within : ∀ write ∈ writes, write.offset + write.bytes.size ≤ data.size) :
    (patchAll writes data).size = data.size := by
  induction writes generalizing data with
  | nil => rfl
  | cons write rest ih =>
    have same := size_patched (within write List.mem_cons_self)
    exact (ih fun write among => same ▸ within write (List.mem_cons_of_mem _ among)).trans same

theorem performAll_done (within : ∀ write ∈ writes, write.Within one other data.size) (shared : Shared memory one other data) :
    ∃ later, performAll writes memory = .ok () later ∧ Shared later one other (patchAll writes data) := by
  induction writes generalizing memory data with
  | nil => exact ⟨memory, rfl, shared⟩
  | cons write rest ih =>
    have first := within write List.mem_cons_self
    have same := size_patched first.room
    obtain ⟨middle, ran, still⟩ := perform_done first shared
    obtain ⟨later, others, shares⟩ := ih (fun write among => same ▸ within write (List.mem_cons_of_mem _ among)) still
    refine ⟨later, ?_, shares⟩
    rw [performAll, bind_done ran, others]

theorem patchAll_keeps (within : ∀ write ∈ writes, write.offset + write.bytes.size ≤ data.size)
    (apart : ∀ write ∈ writes, Layout.Apart (offset, bytes.size) write.range) (held : Holds data offset bytes) :
    Holds (patchAll writes data) offset bytes := by
  induction writes generalizing data with
  | nil => exact held
  | cons write rest ih =>
    have room := within write List.mem_cons_self
    refine ih (fun write among => ?_) (fun write among => apart write (List.mem_cons_of_mem _ among))
      (patched_keeps room held (apart write List.mem_cons_self))
    rw [size_patched room]
    exact within write (List.mem_cons_of_mem _ among)

theorem patchAll_holds (within : ∀ written ∈ writes ++ write :: more, written.offset + written.bytes.size ≤ data.size)
    (apart : ∀ later ∈ more, Layout.Apart write.range later.range) :
    Holds (patchAll (writes ++ write :: more) data) write.offset write.bytes := by
  induction writes generalizing data with
  | nil =>
    have room := within write List.mem_cons_self
    change Holds (patchAll more (patched data write.offset write.bytes)) write.offset write.bytes
    refine patchAll_keeps (fun written among => ?_) apart (patched_holds room)
    rw [size_patched room]
    exact within written (List.mem_cons_of_mem _ among)
  | cons first rest ih =>
    refine ih fun written among => ?_
    rw [size_patched (within first List.mem_cons_self)]
    exact within written (List.mem_cons_of_mem _ among)

end RegionWrite

namespace ProtocolRegion
open RegionWrite (performAll)
variable {block : ProtocolRegion}

def cellWrite (block : ProtocolRegion) (value : UInt32) (cell : ControlCell) : RegionWrite :=
  ⟨block.region, cell.offset block.layout, Bytes.u32 value⟩

theorem setAll_writes (value : UInt32) (cells : List ControlCell) :
    block.setAll value (cells.map (ControlCell.field block.layout.fields)) = performAll (cells.map (block.cellWrite value)) := by
  induction cells with
  | nil => rfl
  | cons cell rest ih =>
    rw [List.map_cons, setAll, ih]
    rfl

theorem clearSlots_writes (count index : Nat) :
    ProtocolHost.clearSlots block count index =
      performAll ((List.range' index count).map fun slot => block.cellWrite 0 (.slot slot)) := by
  induction count generalizing index with
  | zero => rfl
  | succ count ih =>
    rw [ProtocolHost.clearSlots, ih, Layout.argSlot_offset]
    rfl

def prepareWrites (block : ProtocolRegion) (id : UInt32) (count : Nat) : List RegionWrite :=
  [.requestReady, .responseReady, .errorFlag, .resultOffset, .resultSize].map (block.cellWrite 0) ++
    block.cellWrite id .functionId :: block.cellWrite (UInt32.ofNat count) .argCount ::
      (List.range' 0 block.layout.fields.maxArgs).map fun slot => block.cellWrite 0 (.slot slot)

def argWrites (block : ProtocolRegion) : Nat → Nat → List WireValue → List RegionWrite
  | _, _, [] => []
  | index, cursor, value :: rest =>
    match value.encode with
    | .error _ => []
    | .ok bytes =>
      if index < block.layout.fields.maxArgs ∧ cursor + bytes.size ≤ block.layout.argsSize then
        ⟨block.region, block.layout.argsOffset + cursor, bytes⟩ ::
          block.cellWrite (UInt32.ofNat (block.layout.argsOffset + cursor)) (.slot index) ::
            argWrites block (index + 1) (cursor + bytes.size) rest
      else []

def stageWrites (block : ProtocolRegion) (id : UInt32) (args : List WireValue) : List RegionWrite :=
  block.prepareWrites id args.length ++ block.argWrites 0 0 args

end ProtocolRegion

namespace ProtocolHost
open RegionWrite (performAll performAll_append)
open ProtocolPeer (Numbered)
variable {host next : ProtocolHost} {id : UInt32} {count index : Nat} {value : WireValue} {args : List WireValue}

theorem prepareCall_writes (ran : host.prepareCall id count memory = .ok next later) :
    performAll (host.block.prepareWrites id count) memory = .ok () later ∧
      next = { host with argCount := count, argCursor := 0 } ∧ count ≤ host.block.layout.fields.maxArgs ∧
        count < 0x100000000 := by
  unfold prepareCall at ran
  simp only at ran
  split at ran
  · cases ran
  · rename_i few
    obtain ⟨_, m1, cleared, ran⟩ := bind_parts ran
    obtain ⟨_, m2, named, ran⟩ := bind_parts ran
    obtain ⟨word, m3, told, ran⟩ := bind_parts ran
    obtain ⟨_, m4, counted, ran⟩ := bind_parts ran
    obtain ⟨_, m5, emptied, ran⟩ := bind_parts ran
    cases ran
    cases stored : Bytes.word32? count with
    | error e =>
      rw [stored] at told
      cases told
    | ok number =>
      rw [stored] at told
      cases told
      obtain ⟨small, rfl⟩ := word32_fits stored
      refine ⟨?_, rfl, Nat.not_lt.mp few, small⟩
      rw [ProtocolRegion.clearSlots_writes] at emptied
      have flags := cleared
      rw [show clearedFields host.block.layout.fields =
        [ControlCell.requestReady, .responseReady, .errorFlag, .resultOffset, .resultSize].map
          (ControlCell.field host.block.layout.fields) from rfl, ProtocolRegion.setAll_writes] at flags
      rw [ProtocolRegion.prepareWrites, performAll_append flags, performAll]
      exact (bind_done named).trans ((bind_done counted).trans emptied)

theorem writeArg_writes (ran : host.writeArg index value memory = .ok next later) :
    ∃ bytes, value.encode = .ok bytes ∧ index < host.argCount ∧
      host.argCursor + bytes.size ≤ host.block.layout.argsSize ∧ host.block.layout.argsOffset + host.argCursor < 0x100000000 ∧
      next = { host with argCursor := host.argCursor + bytes.size } ∧
      performAll [⟨host.block.region, host.block.layout.argsOffset + host.argCursor, bytes⟩,
        host.block.cellWrite (UInt32.ofNat (host.block.layout.argsOffset + host.argCursor)) (.slot index)] memory =
          .ok () later := by
  unfold writeArg at ran
  split at ran
  · cases ran
  · rename_i early
    obtain ⟨bytes, m1, told, ran⟩ := bind_parts ran
    cases encoded : value.encode with
    | error e =>
      rw [encoded] at told
      cases told
    | ok own =>
      rw [encoded] at told
      cases told
      simp only at ran
      split at ran
      · cases ran
      · rename_i room
        have least := WireValue.encode_size encoded
        obtain ⟨_, m2, written, ran⟩ := bind_parts ran
        obtain ⟨word, m3, placed, ran⟩ := bind_parts ran
        obtain ⟨_, m4, pointed, ran⟩ := bind_parts ran
        cases ran
        cases stored : Bytes.word32? (host.block.layout.argsOffset + host.argCursor) with
        | error e =>
          rw [stored] at placed
          cases placed
        | ok number =>
          rw [stored] at placed
          cases placed
          obtain ⟨small, rfl⟩ := word32_fits stored
          rw [Layout.argSlot_offset] at pointed
          refine ⟨bytes, rfl, Nat.not_le.mp early, by omega, small, rfl, ?_⟩
          exact (bind_done written).trans ((bind_done pointed).trans rfl)

theorem writeArgs_writes : ∀ {args : List WireValue} {host : ProtocolHost} {memory : Memory} {index : Nat},
    host.argCount ≤ host.block.layout.fields.maxArgs → host.writeArgs index args memory = .ok (next, .ok ()) later →
      performAll (host.block.argWrites index host.argCursor args) memory = .ok () later ∧
        Numbered host.block.layout host.argCursor args ∧ next.block = host.block ∧
        (host.argCursor ≤ host.block.layout.argsSize → next.argCursor ≤ host.block.layout.argsSize)
  | [], host, memory, index, _, ran => by
    cases ran
    exact ⟨rfl, trivial, rfl, fun within => within⟩
  | value :: rest, host, memory, index, most, ran => by
    rw [writeArgs] at ran
    obtain ⟨result, middle, kept, ran⟩ := bind_parts ran
    cases wrote : host.writeArg index value memory with
    | error e failed =>
      simp only [ProtocolRegion.outcome, wrote] at kept
      cases kept
      cases ran
    | ok own reached =>
      simp only [ProtocolRegion.outcome, wrote] at kept
      cases kept
      obtain ⟨bytes, encoded, early, room, small, rfl, both⟩ := writeArg_writes wrote
      obtain ⟨others, numbered, block, within⟩ := @writeArgs_writes rest
        { host with argCursor := host.argCursor + bytes.size } middle (index + 1) most ran
      refine ⟨?_, ⟨small, fun other again => ?_⟩, block, fun _ => within room⟩
      · rw [ProtocolRegion.argWrites, encoded]
        simp only [if_pos (And.intro (Nat.lt_of_lt_of_le early most) room)]
        exact (performAll_append both).trans others
      · cases encoded.symm.trans again
        exact numbered

theorem stageCall_writes (ran : host.stageCall id args memory = .ok (next, .ok ()) later) :
    performAll (host.block.stageWrites id args) memory = .ok () later ∧ Numbered host.block.layout 0 args ∧
      args.length < 0x100000000 ∧ next.block = host.block ∧ next.argCursor ≤ host.block.layout.argsSize := by
  rw [stageCall] at ran
  obtain ⟨result, middle, kept, ran⟩ := bind_parts ran
  cases prepared : host.prepareCall id args.length memory with
  | error e failed =>
    simp only [ProtocolRegion.outcome, prepared] at kept
    cases kept
    cases ran
  | ok own reached =>
    simp only [ProtocolRegion.outcome, prepared] at kept
    cases kept
    obtain ⟨emptied, rfl, few, small⟩ := prepareCall_writes prepared
    obtain ⟨wrote, numbered, block, within⟩ := @writeArgs_writes later next args
      { host with argCount := args.length, argCursor := 0 } middle 0 few ran
    refine ⟨?_, numbered, small, block, within (Nat.zero_le _)⟩
    rw [ProtocolRegion.stageWrites, performAll_append emptied]
    exact wrote

end ProtocolHost
end PluginBridge
